import Mathlib.Data.List.Basic
import Mathlib.Data.List.Infix
import MathMarkup.Symbol

/-!
This module contains what the names in the symbol tables look like. The tables are long, so names
are compared as lists of characters, which the kernel does quickly.
-/

namespace MathMarkup
namespace Symbol

def reserved : List String :=
  ["left", "right", "begin", "end", "text", "operatorname", "operatorname*", "hspace"]

/--
Whether these are the letters of a command that is not reserved.
-/
def isCommandName (name : List Char) : Bool :=
  !name.isEmpty && name.all Char.isAlpha &&
    !([['l', 'e', 'f', 't'], ['r', 'i', 'g', 'h', 't'], ['b', 'e', 'g', 'i', 'n'], ['e', 'n', 'd'],
      ['t', 'e', 'x', 't'], ['o', 'p', 'e', 'r', 'a', 't', 'o', 'r', 'n', 'a', 'm', 'e'],
      ['h', 's', 'p', 'a', 'c', 'e']].contains name)

/--
The name of a command that is not reserved.
-/
def CommandName (name : String) : Prop :=
  ∃ cs, name = String.ofList cs ∧ isCommandName cs = true

theorem CommandName.isAlpha {name : String} (h : CommandName name)
    : ∀ c ∈ name.toList, c.isAlpha := by
  obtain ⟨cs, rfl, hcs⟩ := h
  simp only [isCommandName, Bool.and_eq_true, List.all_eq_true] at hcs
  rw [String.toList_ofList]
  exact hcs.1.2

theorem CommandName.ne_nil {name : String} (h : CommandName name) : name.toList ≠ [] := by
  obtain ⟨cs, rfl, hcs⟩ := h
  rw [String.toList_ofList]
  rintro rfl
  contradiction

theorem CommandName.not_reserved {name : String} (h : CommandName name) : name ∉ reserved := by
  obtain ⟨cs, rfl, hcs⟩ := h
  intro hmem
  simp only [reserved, List.mem_cons, List.not_mem_nil, or_false] at hmem
  rcases hmem with h | h | h | h | h | h | h | h
  all_goals
    rw [← String.toList_inj, String.toList_ofList] at h
    subst h
    contradiction

theorem commandName_of_mem_pairs : ∀ pair ∈ pairs, CommandName pair.1 := by
  simp only [pairs, lowerGreek, upperGreek, hebrew, binary, relations, arrows, largeOperators,
    functions, miscellaneous, dots, delimiters, spacing, commands, List.forall_mem_append,
    List.forall_mem_cons]
  repeat' constructor
  all_goals exact List.forall_mem_nil _

theorem commandName_of_mem_arities : ∀ pair ∈ arities,
    pair.1 ∈ ["text", "operatorname", "hspace"] ∨ CommandName pair.1 := by
  simp only [arities, List.forall_mem_cons]
  refine ⟨.inr ⟨_, rfl, rfl⟩, .inl (by decide), .inl (by decide), .inl (by decide), ?_⟩
  repeat' first | apply And.intro | exact .inr ⟨_, rfl, rfl⟩ | exact List.forall_mem_nil _

theorem mem_of_lookup {β : Type} {entries : List (String × β)} {key : String} {value : β}
    (h : entries.lookup key = some value) : (key, value) ∈ entries := by
  obtain ⟨before, after, rfl, _⟩ := List.lookup_eq_some_iff.mp h
  exact List.mem_append_right _ List.mem_cons_self

theorem exists_toTypst? {name : String} (h : name ∈ pairs.map Prod.fst)
    : ∃ mapped, toTypst? name = some mapped := by
  cases hlookup : toTypst? name with
  | some mapped => exact ⟨mapped, rfl⟩
  | none =>
    obtain ⟨pair, hpair, rfl⟩ := List.mem_map.mp h
    have hne := List.lookup_eq_none_iff.mp hlookup pair hpair
    simp at hne

theorem commandName_of_toTypst? {name : String} (h : (toTypst? name).isSome)
    : CommandName name := by
  obtain ⟨typst, h⟩ := Option.isSome_iff_exists.mp h
  exact commandName_of_mem_pairs _ (mem_of_lookup h)

theorem commandName_of_arity? {name : String} {arity : Arity} (h : arity? name = some arity)
    (hraw : name ∉ ["text", "operatorname", "hspace"]) : CommandName name :=
  (commandName_of_mem_arities _ (mem_of_lookup h)).resolve_left hraw

/--
Whether letters are followed by further parts of a name. `inPart` says whether the last character
before them is a letter.
-/
def isDotted (inPart : Bool) : List Char → Bool
  | [] => inPart
  | c :: cs => if c = '.' then inPart && isDotted false cs else c.isAlpha && isDotted true cs

/--
Whether these are the characters of a Typst name that is no function for rounding, and no bracket
of one.
-/
def isTypstName (name : List Char) : Bool :=
  2 ≤ name.length && isDotted false name &&
    [['f', 'l', 'o', 'o', 'r'], ['c', 'e', 'i', 'l'], ['r', 'o', 'u', 'n', 'd']].all fun word =>
      !decide (word <:+: name)

/--
A Typst name that has nothing to do with rounding.
-/
def TypstName (name : String) : Prop :=
  ∃ cs, name = String.ofList cs ∧ isTypstName cs = true

section TypstName

variable {name : String} (h : TypstName name)

include h

theorem TypstName.two_le : 2 ≤ name.toList.length := by
  obtain ⟨cs, rfl, hcs⟩ := h
  simp only [isTypstName, Bool.and_eq_true, decide_eq_true_eq] at hcs
  rw [String.toList_ofList]
  exact hcs.1.1

theorem TypstName.isDotted : isDotted false name.toList := by
  obtain ⟨cs, rfl, hcs⟩ := h
  simp only [isTypstName, Bool.and_eq_true] at hcs
  rw [String.toList_ofList]
  exact hcs.1.2

theorem TypstName.not_infix
    : ∀ word ∈ ["floor".toList, "ceil".toList, "round".toList], ¬ word <:+: name.toList := by
  obtain ⟨cs, rfl, hcs⟩ := h
  simp only [isTypstName, Bool.and_eq_true, List.all_eq_true, Bool.not_eq_true',
    decide_eq_false_iff_not] at hcs
  have hname : (String.ofList cs).toList = cs := String.toList_ofList
  rw [hname]
  exact hcs.2

end TypstName

theorem typstName_of_mem_pairs : ∀ pair ∈ pairs ++ aliases,
    pair ∈ [("lfloor", "floor.l"), ("rfloor", "floor.r"), ("lceil", "ceil.l"), ("rceil", "ceil.r")] ∨
      TypstName pair.2 := by
  simp only [pairs, aliases, lowerGreek, upperGreek, hebrew, binary, relations, arrows,
    largeOperators, functions, miscellaneous, dots, delimiters, spacing, commands,
    List.forall_mem_append, List.forall_mem_cons]
  repeat'
    first
      | apply And.intro
      | exact List.forall_mem_nil _
      | exact .inr ⟨_, rfl, rfl⟩
      | exact .inl (by decide)

end Symbol
end MathMarkup
