import Mathlib.Data.List.Basic
import MathMarkup.Command.Overrides

/-!
This module contains what a command stands for after the arguments have changed the options. The
spelling under which a name was defined first decides which definition a look-up meets, and the last
definition under that very spelling gives its text. So an argument wins over the file if it spells
the name as it was first spelled, with or without the backslash.
-/

namespace MathMarkup
namespace Macros

/--
Whether a definition is one of this name. A backslash in front of a name does not count.
-/
def defines (name : String) (definition : String × String) : Bool :=
  bareName definition.1 == bareName name

def last? (pairs : List (String × String)) (name : String) : Option (String × String) :=
  pairs.reverse.find? (defines name)

/--
The text of the last of these definitions whose name is spelled like this.
-/
def lastText? (pairs : List (String × String)) (key : String) : Option String :=
  (pairs.reverse.find? (·.1 == key)).map Prod.snd

theorem find?_eq (definitions : Macros) (name : String)
    : definitions.find? name = (definitions.entries.find? (defines name)).map Prod.snd := rfl

theorem key_ne_of_defines {name key text : String} {definition : String × String}
    (h : defines name definition) (hkey : ¬defines name (key, text)) : definition.1 ≠ key := by
  rintro rfl
  exact hkey h

@[simp]
theorem lastText?_nil (key : String) : lastText? [] key = none := rfl

theorem lastText?_cons (pair : String × String) (pairs : List (String × String)) (key : String)
    : lastText? (pair :: pairs) key
        = (lastText? pairs key).or (if pair.1 = key then some pair.2 else none) := by
  simp only [lastText?, List.reverse_cons, List.find?_append, Option.map_or]
  by_cases h : pair.1 = key <;> simp [h]

/--
Setting a name keeps the first definition of every name, up to its text, and gives a text to the
definition that is spelled alike.
-/
theorem find?_set (name key text : String) (entries : List (String × String))
    : (set key text entries).find? (defines name)
        = ((entries ++ [(key, text)]).find? (defines name)).map fun first =>
            (first.1, if first.1 = key then text else first.2) := by
  induction entries with
  | nil => by_cases h : defines name (key, text) <;> simp [set, h]
  | cons entry entries ih =>
    obtain ⟨other, old⟩ := entry
    simp only [set, List.cons_append]
    split
    next heq =>
      subst heq
      have hsame : defines name (other, text) = defines name (other, old) := rfl
      by_cases h : defines name (other, old)
      . simp [hsame, h]
      . -- No definition of the name is spelled like the one that is set.
        simp only [hsame, h, List.find?_cons, List.find?_append, List.find?_nil, Option.or_none]
        cases hfirst : entries.find? (defines name) with
        | none => rfl
        | some first =>
          have hne : first.1 ≠ other := key_ne_of_defines (List.find?_some hfirst) h
          simp [hne]
    next hne =>
      by_cases h : defines name (other, old)
      . simp [h, hne]
      . simp [h, ih]

/--
The first definition of a name decides on the spelling, and the last one with that spelling decides
on the text.
-/
theorem find?_entries_insertAll (pairs : List (String × String)) (definitions : Macros)
    (name : String)
    : (definitions.insertAll pairs).entries.find? (defines name)
        = ((definitions.entries ++ pairs).find? (defines name)).map fun first =>
            (first.1, (lastText? pairs first.1).getD first.2) := by
  induction pairs generalizing definitions with
  | nil => simp [insertAll]
  | cons pair pairs ih =>
    obtain ⟨key, text⟩ := pair
    have hstep : definitions.insertAll ((key, text) :: pairs)
        = (definitions.insert key text).insertAll pairs := rfl
    have happ : definitions.entries ++ (key, text) :: pairs
        = (definitions.entries ++ [(key, text)]) ++ pairs := List.append_cons ..
    rw [hstep, ih, happ, List.find?_append, List.find?_append, insert, find?_set]
    cases hfirst : (definitions.entries ++ [(key, text)]).find? (defines name) with
    | some first =>
      by_cases h : first.1 = key
      . cases hlast : lastText? pairs first.1 <;> simp [lastText?_cons, h, h ▸ hlast]
      . cases hlast : lastText? pairs first.1 <;> simp [lastText?_cons, hlast, h, Ne.symm h]
    | none =>
      -- What is set is no definition of the name, so it has another spelling than those that are.
      have hkey : ¬defines name (key, text) :=
        List.find?_eq_none.mp hfirst (key, text) (by simp)
      refine Option.map_congr ?_
      intro first hmem
      have hne : first.1 ≠ key := key_ne_of_defines (List.find?_some hmem) hkey
      simp [lastText?_cons, hne.symm]

theorem find?_insertAll (definitions : Macros) (pairs : List (String × String)) (name : String)
    : (definitions.insertAll pairs).find? name
        = ((definitions.entries ++ pairs).find? (defines name)).map fun first =>
            (lastText? pairs first.1).getD first.2 := by
  rw [find?_eq, find?_entries_insertAll, Option.map_map]
  rfl

theorem lastText?_of_last?_none {pairs : List (String × String)} {name : String}
    (h : last? pairs name = none) {first : String × String} (hfirst : defines name first)
    : lastText? pairs first.1 = none := by
  simp only [lastText?, Option.map_eq_none_iff, List.find?_eq_none, List.mem_reverse, beq_iff_eq]
  intro pair hmem
  have hpair : ¬defines name pair := List.find?_eq_none.mp h pair (List.mem_reverse.mpr hmem)
  exact (key_ne_of_defines hfirst hpair).symm

theorem lastText?_of_last? {pairs : List (String × String)} {name : String}
    {last : String × String} (h : last? pairs name = some last)
    : lastText? pairs last.1 = some last.2 := by
  obtain ⟨hlast, before, after, hsplit, hbefore⟩ := List.find?_eq_some_iff_append.mp h
  have hfind : pairs.reverse.find? (·.1 == last.1) = some last := by
    refine List.find?_eq_some_iff_append.mpr ⟨beq_self_eq_true _, before, after, hsplit, ?_⟩
    intro pair hmem
    have hpair : ¬defines name pair := by simpa using hbefore pair hmem
    simpa using (key_ne_of_defines hlast hpair).symm
  rw [lastText?, hfind, Option.map_some]

theorem find?_insertAll_of_spelling {definitions : Macros} {pairs : List (String × String)}
    {name : String}
    (h : ∀ first ∈ (definitions.entries ++ pairs).find? (defines name),
      ∀ last ∈ last? pairs name, first.1 = last.1)
    : (definitions.insertAll pairs).find? name
        = ((last? pairs name).map Prod.snd).or (definitions.find? name) := by
  rw [find?_insertAll]
  cases hlast : last? pairs name with
  | none =>
    have hpairs : pairs.find? (defines name) = none := by simpa [last?] using hlast
    rw [List.find?_append, hpairs, Option.or_none, find?_eq, Option.map_none, Option.none_or]
    refine Option.map_congr ?_
    intro first hfirst
    rw [lastText?_of_last?_none hlast (List.find?_some hfirst), Option.getD_none]
  | some last =>
    have hmem : last ∈ definitions.entries ++ pairs :=
      List.mem_append_right _ (List.mem_reverse.mp (List.mem_of_find?_eq_some hlast))
    obtain ⟨first, hfirst⟩ := Option.isSome_iff_exists.mp
      (List.find?_isSome.mpr ⟨last, hmem, List.find?_some hlast⟩)
    rw [hfirst, Option.map_some, h first hfirst last hlast, lastText?_of_last? hlast]
    rfl

end Macros

namespace Overrides

/--
What an argument says wins over the file. For the commands this is so if the last definition among
the arguments spells the name as it was first spelled.
-/
theorem apply_wins (overrides : Overrides) (options : Options) (name : String)
    (hspelling : ∀ first ∈ (options.customMacros.entries ++ overrides.macros).find?
        (Macros.defines name),
      ∀ last ∈ Macros.last? overrides.macros name, first.1 = last.1)
    : (overrides.apply options).customMacros.find? name
          = ((Macros.last? overrides.macros name).map Prod.snd).or (options.customMacros.find? name)
        ∧ (overrides.apply options).preferShorthands
          = (if overrides.noPreferShorthands then false else options.preferShorthands)
        ∧ (overrides.apply options).fracToSlash
          = (if overrides.noFracToSlash then false else options.fracToSlash)
        ∧ (overrides.apply options).inftyToOo
          = (if overrides.inftyToOo then true else options.inftyToOo)
        ∧ (overrides.apply options).nonStrict
          = (if overrides.nonStrict then true else options.nonStrict)
        ∧ (overrides.apply options).optimize
          = (if overrides.noOptimize then false else options.optimize)
        ∧ (overrides.apply options).keepSpaces
          = (if overrides.keepSpaces then true else options.keepSpaces)
        ∧ (overrides.apply options).nonAsciiWrapper
          = overrides.nonAsciiWrapper.getD options.nonAsciiWrapper := by
  have hmacros := Macros.find?_insertAll_of_spelling hspelling
  refine ⟨hmacros, ?_, ?_, ?_, ?_, ?_, ?_, rfl⟩
  . cases h : overrides.noPreferShorthands <;> simp [apply, h]
  . cases h : overrides.noFracToSlash <;> simp [apply, h]
  . cases h : overrides.inftyToOo <;> simp [apply, h]
  . cases h : overrides.nonStrict <;> simp [apply, h]
  . cases h : overrides.noOptimize <;> simp [apply, h]
  . cases h : overrides.keepSpaces <;> simp [apply, h]

/--
Two definitions of the same spelling among the arguments, and one of another command in the file.
-/
theorem apply_wins_twice
    : ((Overrides.mk true false false false false false none [("R", "b"), ("R", "c")]).apply
        { customMacros := (Macros.empty.insert "R" "a").insert "N" "n" }).customMacros.find? "\\R"
        = some "c" := by
  have h := apply_wins
    (Overrides.mk true false false false false false none [("R", "b"), ("R", "c")])
    { customMacros := (Macros.empty.insert "R" "a").insert "N" "n" } "\\R" (by decide +kernel)
  exact h.1.trans (by decide +kernel)

/--
An argument that spells the name in another way than the file does not win.
-/
theorem apply_keeps_other_spelling
    : definition "R=b" = .ok ("R", "b")
        ∧ ((Overrides.mk false false false false false false none [("R", "b")]).apply
            { customMacros := Macros.empty.insert "\\R" "a" }).customMacros.find? "R"
          = some "a" := by
  decide +kernel

end Overrides
end MathMarkup
