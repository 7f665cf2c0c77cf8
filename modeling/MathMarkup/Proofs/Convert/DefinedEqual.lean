import MathMarkup.Convert
import MathMarkup.Proofs.Result
import MathMarkup.Proofs.Tex.Parsed
import MathMarkup.Proofs.Tex.Reading
import MathMarkup.Proofs.Tex.Subformulas

/-!
This module contains the shortcut of the conversion for an equals sign with `def` above it. The
formula above is compared with `def` by its elements alone, so what else stands there is dropped.
-/

namespace MathMarkup
namespace Tex

/--
A formula whose elements all have the text of an element.
-/
def Elementary (node : Formula) : Prop :=
  ∀ s, .element s ∈ node.subformulas → IsElement s

theorem elementary_group {nodes : List Formula} (h : ∀ node ∈ nodes, Elementary node)
    : Elementary (.group nodes) := by
  intro s hs
  simp only [Formula.subformulas, List.mem_cons, reduceCtorEq, false_or,
    Formula.mem_eachSubformulas] at hs
  obtain ⟨node, hnode, hs⟩ := hs
  exact h node hnode s hs

theorem elementary_func {name : String} {args : List Formula} {degree : Option Formula}
    (hargs : ∀ arg ∈ args, Elementary arg) (hdegree : ∀ node ∈ degree, Elementary node)
    : Elementary (.func name args degree) := by
  intro s hs
  simp only [Formula.subformulas, List.mem_cons, reduceCtorEq, false_or, List.mem_append,
    Formula.mem_eachSubformulas, Formula.mem_optionSubformulas] at hs
  rcases hs with ⟨arg, harg, hs⟩ | ⟨node, hnode, hs⟩
  . exact hargs arg harg s hs
  . exact hdegree node hnode s hs

theorem elementary_attach {base : Formula} {sub sup : Option Formula} (hbase : Elementary base)
    (hsub : ∀ node ∈ sub, Elementary node) (hsup : ∀ node ∈ sup, Elementary node)
    : Elementary (.attach base sub sup) := by
  intro s hs
  simp only [Formula.subformulas, List.mem_cons, reduceCtorEq, false_or, List.mem_append,
    Formula.mem_optionSubformulas] at hs
  rcases hs with (hs | ⟨node, hnode, hs⟩) | ⟨node, hnode, hs⟩
  . exact hbase s hs
  . exact hsub node hnode s hs
  . exact hsup node hnode s hs

theorem elementary_element {s : String} (h : IsElement s) : Elementary (.element s) := by
  intro other hother
  cases List.mem_singleton.mp hother
  exact h

theorem elementary_of_parsed {p : Token → Prop}
    (hp : ∀ token, p token → token.kind = .element → IsElement token.text)
    {inEnv : Bool} {node : Formula} (h : Parsed p inEnv node) : Elementary node := by
  induction h with
  | element htoken hkind => exact elementary_element (hp _ htoken hkind)
  | text | comment | space | character | control | separator | command | symbol | empty =>
    simp [Elementary, Formula.subformulas]
  | raw =>
    apply elementary_func
    . simp [Elementary, Formula.subformulas]
    . simp
  | func _ _ _ _ ih => exact elementary_func ih (by simp)
  | root _ _ iharg ihdegree =>
    exact elementary_func (by simpa using iharg) (by simpa using ihdegree)
  | group _ _ ih => exact elementary_group ih
  | attach _ _ _ heq _ ihbase ihsub ihsup =>
    refine elementary_attach ihbase ihsub ?_
    rw [← heq]
    apply Scripts.forall_mem_superscript _ (fun _ => elementary_group) ihsup
    exact elementary_element (.char (c := '\'') (.inr (.inl (by decide))))
  | leftRight _ _ _ ih =>
    intro s hs
    simp only [Formula.subformulas, List.mem_cons, reduceCtorEq, false_or] at hs
    exact ih s hs
  | env _ _ _ _ ih =>
    intro s hs
    simp only [Formula.subformulas, List.mem_cons, reduceCtorEq, false_or,
      Formula.mem_rowsSubformulas] at hs
    obtain ⟨row, hrow, cell, hcell, hs⟩ := hs
    exact ih row hrow cell hcell s hs

theorem IsElement.eq_char {s : String} (h : IsElement s) {c : Char} {cs : List Char}
    (hs : s.toList = c :: cs) (hdigit : c.isDigit = false) (hslash : c ≠ '\\')
    : s = c.toString ∧ cs = [] := by
  cases h with
  | char =>
    rw [Char.toString_eq_singleton, String.toList_singleton] at hs
    cases hs
    exact ⟨rfl, rfl⟩
  | number h =>
    rw [String.toList_ofList] at hs
    cases hs
    rw [h] at hdigit
    contradiction
  | escaped =>
    rw [String.toList_ofList] at hs
    cases hs
    contradiction

/--
A word without digits and backslashes is put together from elements in one way only, letter by
letter.
-/
theorem eq_letters_of_join {elements : List String} (h : ∀ s ∈ elements, IsElement s)
    {word : List Char} (hword : ∀ c ∈ word, c.isDigit = false ∧ c ≠ '\\')
    (hjoin : elements.flatMap String.toList = word) : elements = word.map Char.toString := by
  induction elements generalizing word with
  | nil =>
    subst hjoin
    rfl
  | cons s elements ih =>
    obtain ⟨hs, helements⟩ := List.forall_mem_cons.mp h
    rw [List.flatMap_cons] at hjoin
    cases hchars : s.toList with
    | nil =>
      cases hs with
      | char => simp at hchars
      | number => simp at hchars
      | escaped => simp at hchars
    | cons c cs =>
      rw [hchars, List.cons_append] at hjoin
      subst hjoin
      obtain ⟨hc, hrest⟩ := List.forall_mem_cons.mp hword
      obtain ⟨rfl, rfl⟩ := hs.eq_char hchars hc.1 hc.2
      exact congrArg (c.toString :: ·) (ih helements hrest rfl)

end Tex

namespace Typst

open Text OfTex Formula

def element? : Tex.Formula → Option String
  | .element s => some s
  | _ => none

/--
A formula that spells `def`: as raw text, or by its elements. Commands that set it upright may stand
around it, and nodes of a class beside the elements.
-/
inductive SpellsDef (beside : Tex.Formula → Prop) : Tex.Formula → Prop where
  | text {s : String} (h : trim s = "def") : SpellsDef beside (.text s)
  | group {nodes : List Tex.Formula} (helements : nodes.filterMap element? = ["d", "e", "f"])
    (hbeside : ∀ node ∈ nodes, element? node = none → beside node) : SpellsDef beside (.group nodes)
  | upright {name : String} {arg : Tex.Formula} {args : List Tex.Formula}
    {degree : Option Tex.Formula} (hname : name ∈ ["text", "mathrm"]) (h : SpellsDef beside arg) :
    SpellsDef beside (.func name (arg :: args) degree)

theorem toList_spelledWord (nodes : List Tex.Formula)
    : (spelledWord nodes).toList = (nodes.filterMap element?).flatMap String.toList := by
  rw [spelledWord, String.toList_join]
  induction nodes with
  | nil => rfl
  | cons node nodes ih =>
    rw [List.map_cons, List.flatMap_cons, ih]
    cases node with
    | element s => rfl
    | _ => rfl

theorem spelledWord_eq_iff {nodes : List Tex.Formula}
    (h : ∀ s ∈ nodes.filterMap element?, Tex.IsElement s)
    : spelledWord nodes = "def" ↔ nodes.filterMap element? = ["d", "e", "f"] := by
  rw [← String.toList_inj, toList_spelledWord]
  constructor
  . exact Tex.eq_letters_of_join h (by decide)
  . intro heq
    rw [heq]
    rfl

theorem mem_element? {nodes : List Tex.Formula} {s : String} (h : s ∈ nodes.filterMap element?)
    : .element s ∈ nodes := by
  obtain ⟨node, hnode, hs⟩ := List.mem_filterMap.mp h
  cases node with
  | element text =>
    cases hs
    exact hnode
  | _ => contradiction

/--
The test of the conversion looks at the elements only: whatever stands beside them is overlooked.
-/
theorem isDef_iff {top : Tex.Formula} (h : Tex.Elementary top)
    : isDef top ↔ SpellsDef (fun _ => True) top := by
  fun_induction isDef top with
  | case1 nodes =>
    have helements : ∀ s ∈ nodes.filterMap element?, Tex.IsElement s := by
      intro s hs
      apply h
      apply List.mem_cons_of_mem
      exact Tex.Formula.mem_eachSubformulas.mpr
        ⟨.element s, mem_element? hs, Tex.Formula.mem_subformulas_self _⟩
    rw [beq_iff_eq, spelledWord_eq_iff helements]
    constructor
    . exact fun heq => .group heq fun _ _ _ => trivial
    . rintro ⟨⟩
      assumption
  | case2 s =>
    rw [beq_iff_eq]
    constructor
    . exact .text
    . rintro ⟨⟩
      assumption
  | case3 name arg args degree ih =>
    have harg : Tex.Elementary arg := by
      intro s hs
      apply h
      apply List.mem_cons_of_mem
      apply List.mem_append_left
      exact Tex.Formula.mem_eachSubformulas.mpr ⟨arg, List.mem_cons_self, hs⟩
    rw [Bool.and_eq_true, ih harg]
    constructor
    . rintro ⟨hname, hspells⟩
      exact .upright (by simpa using hname) hspells
    . rintro (_ | _ | ⟨hname, hspells⟩)
      exact ⟨by simpa using hname, hspells⟩
  | case4 top hgroup htext hfunc =>
    constructor
    . nofun
    . intro hspells
      cases hspells with
      | text => exact absurd rfl (htext _)
      | group => exact absurd rfl (hgroup _)
      | upright => exact absurd rfl (hfunc _ _ _ _)

variable {options : Options}

theorem ofTex_above {name : String} (hname : name ∈ ["overset", "stackrel"])
    (hoptimize : options.optimize = true) (top : Tex.Formula)
    : ofTex options (.func name [top, .element "="] none) =
      if isDef top then
        .ok (.symbol "eq.def")
      else do
        let image ← ofTex options top
        return .attach (.plainCall "limits" [.atom "="]) none (some image) := by
  have hhead : Head.ofName name = .above := by
    simp only [List.mem_cons, List.not_mem_nil, or_false] at hname
    rcases hname with rfl | rfl
    all_goals rfl
  rw [ofTex.eq_def options (.func _ _ _)]
  simp only [hhead, hoptimize, isEqualSign, beq_self_eq_true, Bool.and_true, Bool.true_and]
  rfl

/--
An equals sign with a formula above it becomes the sign for a definition exactly if the elements of
the formula spell `def`. All other formulas are converted and set above the sign.
-/
theorem ofTex_overset_def {text : String} {formula top : Tex.Formula}
    (hparse : Tex.parseText text = .ok formula) (htop : top ∈ formula.subformulas)
    {name : String} (hname : name ∈ ["overset", "stackrel"]) {options : Options}
    (hoptimize : options.optimize = true)
    : (ofTex options (.func name [top, .element "="] none) = .ok (.symbol "eq.def") ↔
        SpellsDef (fun _ => True) top) ∧
      (¬SpellsDef (fun _ => True) top →
        ofTex options (.func name [top, .element "="] none) = do
          let image ← ofTex options top
          return .attach (.plainCall "limits" [.atom "="]) none (some image)) := by
  have helementary : Tex.Elementary top := by
    intro s hs
    have hformula := Tex.yields_parse (fun _ => Tex.isElement_of_mem_tokenize) formula hparse
    exact Tex.elementary_of_parsed (fun _ h => h) hformula s
      (Tex.Formula.subformulas_subset formula htop hs)
  rw [ofTex_above hname hoptimize, ← isDef_iff helementary]
  cases isDef top with
  | true => simp
  | false =>
    refine ⟨?_, fun _ => rfl⟩
    cases ofTex options top with
    | error e => exact iff_of_false nofun nofun
    | ok image => exact iff_of_false nofun nofun

theorem ofTex_overset_def_upright
    : ∃ top, Tex.parseText "\\mathrm\x7bd e f\x7d" = .ok top ∧
        ofTex {} (.func "stackrel" [top, .element "="] none) = .ok (.symbol "eq.def") ∧
        SpellsDef (fun _ => True) top := by
  have hrun : (Tex.parseText "\\mathrm\x7bd e f\x7d").toOption.map isDef = some true := by
    decide +kernel
  obtain ⟨top, htop, hdef⟩ := Option.map_eq_some_iff.mp hrun
  have hparse := eq_ok_of_toOption htop
  have hmapped : ofTex {} (.func "stackrel" [top, .element "="] none) = .ok (.symbol "eq.def") := by
    rw [ofTex_above (by decide) rfl, if_pos hdef]
  exact ⟨top, hparse, hmapped,
    (ofTex_overset_def hparse top.mem_subformulas_self (by decide) rfl).1.mp hmapped⟩

/--
A symbol among the letters is dropped without an error.
-/
theorem symbol_dropped_above
    : (∃ top, Tex.parseText "d\\alpha ef" = .ok top ∧ ¬SpellsDef (·.isSpace) top ∧
        ofTex {} (.func "overset" [top, .element "="] none) = .ok (.symbol "eq.def")) ∧
      texToTypst {} "\\overset\x7bd\\alpha ef\x7d\x7b=\x7d" = .ok "eq.def" := by
  have htokens : Tex.stripScriptSpaces (Tex.tokenize "d\\alpha ef") =
      [⟨.element, "d", .ofOffsets 0 1⟩, ⟨.command, "\\alpha", .ofOffsets 1 7⟩,
        ⟨.space, " ", .ofOffsets 7 8⟩, ⟨.element, "e", .ofOffsets 8 9⟩,
        ⟨.element, "f", .ofOffsets 9 10⟩] := by
    decide +kernel
  have hletter (s : String) (hs : s ≠ "'") (span : Span)
      : Tex.ReadsAs [⟨.element, s, span⟩] [.element s] :=
    (Tex.atomic_element rfl hs).readsAs
  have hsymbol : Tex.ReadsAs [⟨.command, "\\alpha", .ofOffsets 1 7⟩] [.symbol "alpha"] :=
    (@Tex.atomic_symbol ⟨.command, "\\alpha", .ofOffsets 1 7⟩ rfl (by decide) (by decide)
      (by decide)).readsAs
  have hspace (span : Span) : Tex.ReadsAs [⟨.space, " ", span⟩] [.space " "] :=
    Tex.readsAs_space rfl
  have hreads := (hletter "d" (by decide) (.ofOffsets 0 1)).append
    (hsymbol.append ((hspace (.ofOffsets 7 8)).append
      ((hletter "e" (by decide) (.ofOffsets 8 9)).append
        (hletter "f" (by decide) (.ofOffsets 9 10)))))
  refine ⟨⟨.group [.element "d", .symbol "alpha", .space " ", .element "e", .element "f"], ?_, ?_,
    ?_⟩, ?_⟩
  . rw [Tex.parseText, Tex.parse, htokens]
    exact congrArg (Tex.Formula.ofList <$> ·) hreads.sequence_eq
  . rintro (_ | ⟨_, hbeside⟩)
    have := hbeside (.symbol "alpha") (by simp) rfl
    contradiction
  . rw [ofTex_above (by decide) rfl, if_pos (by decide +kernel)]
  . exact eq_ok_of_toOption (by decide +kernel)

end Typst
end MathMarkup
