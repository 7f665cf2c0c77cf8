import Mathlib.Data.List.Chain
import MathMarkup.Proofs.Convert.RoundTrip

/-!
This module contains the proof that parentheses around a whole operand of a fraction get lost on the
way to Typst and back: an operand that is in parentheses already is not put in another pair, and in
Typst the outermost parentheses of an operand only group.
-/

namespace MathMarkup

open Text Scan

namespace Tex
namespace Formula

/--
Formulas in shared idioms side by side, of which there is at least one.
-/
structure SharedRow (nodes : List Formula) : Prop where
  ne_nil : nodes ≠ []
  flat : ∀ node ∈ nodes, ∀ more, node ≠ .group more
  numbers : nodes.IsChain fun node next => ¬ (node.isNumberOrFraction ∧ next.isNumberOrFraction)
  shared : ∀ node ∈ nodes, Shared node

def operand (inParens : Bool) (nodes : List Formula) : Formula :=
  ofList (if inParens then .element "(" :: (nodes ++ [.element ")"]) else nodes)

def quotient (numInParens denInParens : Bool) (num den : List Formula) : Formula :=
  .call "frac" [operand numInParens num, operand denInParens den]

section Operands

variable {nodes : List Formula}

theorem Shared.ne_bracket {s : String} (hbracket : s ∈ ["(", ")"]) : ¬ Shared (.element s) := by
  simp only [List.mem_cons, List.not_mem_nil, or_false] at hbracket
  generalize hnode : Formula.element s = node
  intro h
  cases h with
  | letter h =>
    cases hnode
    rcases hbracket with hs | hs
    all_goals
      rw [← String.toList_inj, String.toList_ofList] at hs
      cases hs
      contradiction
  | number h =>
    cases hnode
    rcases hbracket with rfl | rfl
    all_goals exact absurd (h _ List.mem_cons_self) (by decide)
  | sign h =>
    cases hnode
    rcases hbracket with rfl | rfl
    all_goals contradiction
  | _ => cases hnode

theorem SharedRow.shared_ofList (h : SharedRow nodes) : Shared (ofList nodes) := by
  match nodes, h with
  | [], h => exact absurd rfl h.ne_nil
  | [node], h => exact h.shared node List.mem_cons_self
  | _ :: _ :: _, h => exact .group (by simp) h.flat h.numbers h.shared

theorem SharedRow.operand_true (h : SharedRow nodes)
    : operand true nodes = .group (.element "(" :: (nodes ++ [.element ")"])) := by
  match nodes, h with
  | [], h => exact absurd rfl h.ne_nil
  | _ :: _, _ => rfl

theorem SharedRow.regular_operand (h : SharedRow nodes) (inParens : Bool)
    : Regular false (operand inParens nodes) := by
  cases inParens with
  | false => exact h.shared_ofList.regular false
  | true =>
    have hopen : Regular false (.element "(") := @Regular.char _ '(' (.inr (by decide))
    have hclose : Regular false (.element ")") := @Regular.char _ ')' (.inr (by decide))
    have hfull : ∀ node ∈ nodes, node ≠ .empty := by
      rintro node hnode rfl
      exact absurd (h.shared _ hnode).isEmpty (by decide)
    have hnumbers : nodes.IsChain fun node next => ¬ (node.isNumber ∧ next.isNumber) := by
      refine h.numbers.imp fun node next hnot hboth => hnot ?_
      exact ⟨isNumberOrFraction_of_isNumber hboth.1, isNumberOrFraction_of_isNumber hboth.2⟩
    have hall : ∀ {P : Formula → Prop}, P (.element "(") → (∀ node ∈ nodes, P node) →
        P (.element ")") → ∀ node ∈ .element "(" :: (nodes ++ [.element ")"]), P node := by
      intro P hopen hnodes hclose
      simp only [List.forall_mem_cons, List.forall_mem_append]
      exact ⟨hopen, hnodes, hclose, List.forall_mem_nil _⟩
    rw [h.operand_true]
    refine .group (by simp) (hall (by simp) h.flat (by simp)) (hall (by simp) hfull (by simp)) ?_
      (hall hopen (fun node hnode => (h.shared node hnode).regular false) hclose)
    -- A bracket is no number, so it stands apart from whatever is beside it.
    rw [List.isChain_cons, List.isChain_append]
    refine ⟨fun _ _ hboth => absurd hboth.1 (by decide), hnumbers, .singleton _, ?_⟩
    rintro _ _ _ ⟨⟩ hboth
    exact absurd hboth.2 (by decide)

end Operands

end Formula
end Tex

namespace Typst
namespace Formula

/--
Formulas side by side between the atoms of a pair of parentheses.
-/
def enclosed (nodes : List Formula) : Formula :=
  .group (.atom "(" :: (nodes ++ [.atom ")"]))

/--
A formula that is spelled as an operand like `tree`, in parentheses if `wrap` says so.
-/
structure SpelledAs (style : Style) (tree : Formula) (wrap : Bool) (node : Formula) : Prop where
  spelling : wrapped node.needsParens (node.spelling style) = wrapped wrap (tree.spelling style)
  wraps : node.needsParens = true → wrap = true
  plain : wrap = false → tree.needsParens = false

section Operands

variable {style : Style} {words : Vocabulary} {nodes : List Formula}

theorem spelledAs_self (node : Formula) : SpelledAs style node node.needsParens node :=
  ⟨rfl, id, id⟩

theorem closesAtEnd_append (h : ∀ node ∈ nodes, node.bracketDepth = 0)
    : closesAtEnd 1 (nodes ++ [.atom ")"]) = true := by
  induction nodes with
  | nil => rfl
  | cons node nodes ih =>
    rw [List.forall_mem_cons] at h
    rw [List.cons_append, closesAtEnd, h.1]
    exact ih h.2

theorem needsParens_enclosed (h : ∀ node ∈ nodes, node.bracketDepth = 0)
    : (enclosed nodes).needsParens = false := by
  have hcloses := closesAtEnd_append h
  cases nodes with
  | nil => rfl
  | cons node nodes =>
    rw [enclosed, needsParens, List.cons_append, isEnclosed, closesAtEnd]
    simpa [bracketDepth] using hcloses

theorem spelling_ofList (nodes : List Formula)
    : (ofList nodes).spelling style = (nodes.map (spelling style)).flatten := by
  match nodes with
  | [] => rfl
  | [node] => simp [ofList]
  | first :: second :: nodes => exact spelling_group _

theorem spelling_enclosed (nodes : List Formula)
    : (enclosed nodes).spelling style = parenthesized ((ofList nodes).spelling style) := by
  rw [enclosed, spelling_group, spelling_ofList, parenthesized]
  simp [spelling, pieces, atomText]

/--
Formulas in a pair of parentheses of their own are spelled like the formulas in parentheses that
only group.
-/
theorem spelledAs_enclosed (h : ∀ node ∈ nodes, node.bracketDepth = 0)
    : SpelledAs style (ofList nodes) true (enclosed nodes) := by
  have hplain := needsParens_enclosed h
  refine ⟨?_, fun _ => rfl, nofun⟩
  rw [hplain]
  exact spelling_enclosed nodes

theorem exists_image_frac {num den numNode denNode : Formula} {wrapNum wrapDen : Bool}
    (hnum : Regular style words num) (hden : Regular style words den)
    (hnumParens : ∀ nodes, num ≠ .parens nodes) (hdenParens : ∀ nodes, den ≠ .parens nodes)
    (hnumNode : SpelledAs style num wrapNum numNode)
    (hdenNode : SpelledAs style den wrapDen denNode)
    : ∃ image, parseText (write style (.frac numNode denNode)) = .ok image ∧
      Image (.frac num den) image := by
  have hspelling := @spelling_frac style numNode denNode
  rw [hnumNode.spelling, hdenNode.spelling] at hspelling
  have hfits := fits_quotient hnum hden hnum.fitting hden.fitting hnumNode.plain hdenNode.plain
    hnumNode.wraps .nil fun _ => notStartsWith_nil
  rw [List.append_nil, ← hspelling] at hfits
  have hspells := spells_of_fits hfits
  rw [hspelling] at hspells
  have hreading := reading_quotient hnum.readable hden.readable
    (fun hplain => ⟨hnumNode.plain hplain, hnumParens⟩)
    (fun hplain => ⟨hdenNode.plain hplain, hdenParens⟩) hspells
  exact hreading.exists_image (by simp)

end Operands

end Formula
end Typst

/--
A formula in shared idioms with a translation, or a parenthesis with the atom that it becomes.
-/
inductive Rendered : Tex.Formula → Typst.Formula → Prop where
  | bracket {s : String} (h : s ∈ ["(", ")"]) : Rendered (.element s) (.atom s)
  | shared {tree : Tex.Formula} {image : Typst.Formula} (hshared : tree.Shared)
    (h : Translation tree image) : Rendered tree image

section Rendered

variable {tree : Tex.Formula} {image : Typst.Formula} {s : String} {nodes : List Tex.Formula}
  {images : List Typst.Formula}

theorem Rendered.isEmpty (h : Rendered tree image) : image.isEmpty = false := by
  cases h with
  | bracket => rfl
  | shared _ h => exact h.regular.isEmpty

theorem Rendered.translation (h : Rendered tree image) (hshared : tree.Shared)
    : Translation tree image := by
  cases h with
  | bracket h => exact absurd hshared (Tex.Formula.Shared.ne_bracket h)
  | shared _ h => exact h

theorem Rendered.eq_atom (hbracket : s ∈ ["(", ")"]) (h : Rendered (.element s) image)
    : image = .atom s := by
  cases h with
  | bracket => rfl
  | shared hshared => exact absurd hshared (Tex.Formula.Shared.ne_bracket hbracket)

theorem exists_rendered_bracket (hbracket : s ∈ ["(", ")"]) (node : Tex.Formula)
    (hnode : node.withoutSpaces = .element s)
    : ∃ image, Typst.Formula.ofTex {} node = .ok image ∧ Rendered (.element s) image := by
  refine @exists_image_of_flat (.element s) _ (fun _ => Rendered.isEmpty) rfl nofun ?_ node hnode
  intro node hflat hnode
  rw [Tex.Formula.eq_element_of_withoutSpaces hflat hnode]
  refine ⟨.atom s, ?_, .bracket hbracket⟩
  simp only [List.mem_cons, List.not_mem_nil, or_false] at hbracket
  rcases hbracket with rfl | rfl
  all_goals rfl

theorem exists_rendered_shared (hshared : tree.Shared) (node : Tex.Formula)
    (hnode : node.withoutSpaces = tree)
    : ∃ image, Typst.Formula.ofTex {} node = .ok image ∧ Rendered tree image := by
  obtain ⟨image, himage, htranslation⟩ := hshared.translates node hnode
  exact ⟨image, himage, .shared hshared htranslation⟩

theorem exists_translations_append (hshared : ∀ node ∈ nodes, node.Shared)
    (h : List.Forall₂ Rendered (nodes ++ [.element ")"]) images)
    : ∃ inner, images = inner ++ [.atom ")"] ∧ List.Forall₂ Translation nodes inner := by
  induction nodes generalizing images with
  | nil =>
    cases h with
    | cons hclose hnil =>
      cases hnil
      cases hclose.eq_atom (by decide)
      exact ⟨[], rfl, .nil⟩
  | cons node nodes ih =>
    rw [List.forall_mem_cons] at hshared
    cases h with
    | cons hnode hnodes =>
      obtain ⟨inner, rfl, htranslations⟩ := ih hshared.2 hnodes
      exact ⟨_ :: inner, rfl, .cons (hnode.translation hshared.1) htranslations⟩

theorem translation_ofList (hnodes : Tex.Formula.SharedRow nodes)
    (h : List.Forall₂ Translation nodes images)
    : Translation (Tex.Formula.ofList nodes) (Typst.Formula.ofList images) := by
  cases h with
  | nil => exact absurd rfl hnodes.ne_nil
  | cons hfirst hrest =>
    cases hrest with
    | nil => exact hfirst
    | cons hsecond hrest =>
      refine translation_group (.cons hfirst (.cons hsecond hrest)) (by simp) hnodes.flat
        hnodes.numbers fun node hnode => (hnodes.shared node hnode).isEmpty

end Rendered

/--
An operand is converted to one that is spelled as the translation of what stands in it, and that
is the same with parentheses and without.
-/
theorem Tex.Formula.SharedRow.exists_spelledAs {nodes : List Tex.Formula}
    (h : Tex.Formula.SharedRow nodes) {inParens : Bool} {node : Tex.Formula}
    (hnode : node.withoutSpaces = Tex.Formula.operand inParens nodes)
    : ∃ image tree wrap, Typst.Formula.ofTex {} node = .ok image ∧
      Translation (Tex.Formula.ofList nodes) tree ∧
      Typst.Formula.SpelledAs ({} : Options).style tree wrap image := by
  cases inParens with
  | false =>
    obtain ⟨image, himage, htranslation⟩ := h.shared_ofList.translates node hnode
    exact ⟨image, image, _, himage, htranslation, Typst.Formula.spelledAs_self image⟩
  | true =>
    rw [h.operand_true] at hnode
    have hrenders : ∀ tree ∈ .element "(" :: (nodes ++ [.element ")"]),
        ∀ node : Tex.Formula, node.withoutSpaces = tree →
          ∃ image, Typst.Formula.ofTex {} node = .ok image ∧ Rendered tree image := by
      simp only [List.forall_mem_cons, List.forall_mem_append]
      exact ⟨exists_rendered_bracket (by decide),
        fun node hnode => exists_rendered_shared (h.shared node hnode),
        exists_rendered_bracket (by decide), nofun⟩
    obtain ⟨images, himages, hrendered⟩ :=
      exists_images_of_group (fun _ _ => Rendered.isEmpty) hrenders (by simp) node hnode
    cases hrendered with
    | cons hopen hrest =>
      obtain ⟨inner, rfl, htranslations⟩ := exists_translations_append h.shared hrest
      cases hopen.eq_atom (by decide)
      refine ⟨_, Typst.Formula.ofList inner, true, himages, translation_ofList h htranslations,
        Typst.Formula.spelledAs_enclosed fun image himage => ?_⟩
      obtain ⟨_, _, htranslation⟩ := exists_of_mem htranslations himage
      exact htranslation.regular.bracketDepth

section Quotients

variable {num den : List Tex.Formula} {numInParens denInParens : Bool}
  (hnum : Tex.Formula.SharedRow num) (hden : Tex.Formula.SharedRow den)

include hnum hden

theorem exists_read_quotient (numInParens denInParens : Bool)
    : ∃ read, Tex.parseText (Tex.write (.quotient numInParens denInParens num den)) = .ok read ∧
      read.withoutSpaces = .quotient numInParens denInParens num den := by
  have hregular : Tex.Formula.Regular false (.quotient numInParens denInParens num den) :=
    .func rfl (by decide) rfl (by simpa using ⟨hnum.regular_operand _, hden.regular_operand _⟩)
  obtain ⟨read, hparse, hread⟩ := Tex.Formula.parse_of_reading hregular.reading
  rw [hregular.readable.flat] at hread
  exact ⟨read, hparse, hread⟩

theorem exists_image_quotient {node : Tex.Formula}
    (hnode : node.withoutSpaces = .quotient numInParens denInParens num den)
    : ∃ image, Typst.Formula.ofTex {} node = .ok image ∧ image.isEmpty = false ∧
      ∃ read, Typst.parseText (Typst.write ({} : Options).style image) = .ok read ∧
        Tex.Formula.ofTypst {} read = .ok (.quotient false false num den) := by
  refine @exists_image_of_flat (.quotient numInParens denInParens num den) _ (fun _ h => h.1) rfl
    nofun (fun node hflat hnode => ?_) node hnode
  obtain ⟨args, rfl, hargs⟩ := Tex.Formula.eq_call_of_withoutSpaces hflat hnode
  obtain ⟨numArg, denArg, rfl, hnumArg, hdenArg⟩ := Tex.Formula.eq_pair_of_withoutSpaces hargs
  obtain ⟨numNode, numTree, _, hnumForth, hnumTranslation, hnumNode⟩ :=
    hnum.exists_spelledAs hnumArg
  obtain ⟨denNode, denTree, _, hdenForth, hdenTranslation, hdenNode⟩ :=
    hden.exists_spelledAs hdenArg
  obtain ⟨read, hparse, himage⟩ := Typst.Formula.exists_image_frac hnumTranslation.regular
    hdenTranslation.regular hnumTranslation.not_parens hdenTranslation.not_parens hnumNode hdenNode
  have hback : Tex.Formula.ofTypst {} (.frac numTree denTree) =
      .ok (.quotient false false num den) :=
    Tex.Formula.bind_bind_of_ok hnumTranslation.back hdenTranslation.back
  have hsame := (@Tex.Formula.sameResult_withoutSpaces {} _ himage.tidy).1
  rw [himage.withoutSpaces] at hsame
  exact ⟨.frac numNode denNode, Tex.Formula.bind_bind_of_ok hnumForth hdenForth, rfl, read, hparse,
    hsame.trans hback⟩

end Quotients

/--
Parentheses around a whole operand of a fraction are lost: a fraction with parentheses around its
numerator, its denominator or both can be written and read in TeX, but the conversion to Typst and
back makes of it the fraction without them.
-/
theorem typstToTex_texToTypst_quotient {num den : List Tex.Formula}
    (hnum : Tex.Formula.SharedRow num) (hden : Tex.Formula.SharedRow den)
    (numInParens denInParens : Bool)
    : (∃ read,
        Tex.parseText (Tex.write (.quotient numInParens denInParens num den)) = .ok read ∧
        read.withoutSpaces = .quotient numInParens denInParens num den) ∧
      ∀ text read, Tex.parseText text = .ok read →
        read.withoutSpaces = .quotient numInParens denInParens num den →
        ∃ typst tex back, texToTypst {} text = .ok typst ∧ typstToTex {} typst = .ok tex ∧
          Tex.parseText tex = .ok back ∧ back.withoutSpaces = .quotient false false num den := by
  refine ⟨exists_read_quotient hnum hden numInParens denInParens, fun text read hparse hread => ?_⟩
  obtain ⟨image, himage, _, other, hother, hback⟩ := exists_image_quotient hnum hden hread
  obtain ⟨back, hplain, hwithout⟩ := exists_read_quotient hnum hden false false
  exact ⟨_, _, back, texToTypst_eq_ok ((parse_tokenize_default _).trans hparse) himage,
    typstToTex_eq_ok hother hback, hplain, hwithout⟩

theorem typstToTex_texToTypst_quotient_product
    : ∃ typst tex back,
      texToTypst {} (Tex.write (.quotient true true [.element "a", .symbol "alpha"]
        [.element "b"])) = .ok typst ∧
      typstToTex {} typst = .ok tex ∧ Tex.parseText tex = .ok back ∧
      back.withoutSpaces =
        .quotient false false [.element "a", .symbol "alpha"] [.element "b"] := by
  have hletter : ∀ {c : Char}, c.isAlpha → Tex.Formula.Shared (.element (String.ofList [c])) :=
    .letter
  have halpha : Tex.Formula.Shared (.symbol "alpha") := .symbol rfl rfl rfl (by decide)
  have hnum : Tex.Formula.SharedRow [.element "a", .symbol "alpha"] := by
    refine ⟨List.cons_ne_nil _ _, by simp, ?_, ?_⟩
    . simp [Tex.Formula.isNumberOrFraction, Tex.Formula.isNumber]
    . simpa using ⟨hletter (by decide : 'a'.isAlpha), halpha⟩
  have hden : Tex.Formula.SharedRow [.element "b"] :=
    ⟨List.cons_ne_nil _ _, by simp, .singleton _,
      by simpa using hletter (by decide : 'b'.isAlpha)⟩
  obtain ⟨⟨read, hparse, hread⟩, hlost⟩ := typstToTex_texToTypst_quotient hnum hden true true
  exact hlost _ read hparse hread

/--
The numerator in parentheses is written as it stands, and its parentheses are read as those of an
operand.
-/
theorem parens_lost_in_numerator
    : texToTypst {} "\\frac\x7b(a)\x7d\x7bb\x7d" = .ok "(a)/b" ∧
      typstToTex {} "(a)/b" = .ok "\\frac\x7ba\x7d\x7bb\x7d" := by
  constructor
  all_goals exact eq_ok_of_toOption (by decide +kernel)

end MathMarkup
