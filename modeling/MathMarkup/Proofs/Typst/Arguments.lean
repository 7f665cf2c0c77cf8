import MathMarkup.Proofs.Typst.Filled
import MathMarkup.Proofs.Typst.Words

/-!
This module contains calls whose arguments are single letters or empty: how they are written, what
the writer's last step makes of them, and when they are read back with as many arguments.
-/

namespace MathMarkup
namespace Typst

open Text Formula

/--
A function whose calls have arguments and nothing else.
-/
structure Callee where
  name : String
  isDotted : Symbol.isDotted false name.toList
  two_le : 2 ≤ name.toList.length
  not_reserved : name ∉ reservedCalls

/--
An argument that is empty or a single letter.
-/
inductive Slot where
  | empty
  | filled (letter : AlphabeticChar)

namespace Slot

def formula : Slot → Formula
  | .empty => .empty
  | .filled letter => .atom letter.text

def isEmpty : Slot → Bool
  | .empty => true
  | .filled _ => false

def chars (gap : List Char) : Slot → List Char
  | .empty => []
  | .filled letter => gap ++ [letter.char]

def lexemes (gap : List Lexeme) : Slot → List Lexeme
  | .empty => []
  | .filled letter => gap ++ [(.element, letter.text)]

def spelling : Slot → List Piece
  | .empty => []
  | .filled letter => [.token letter.text]

end Slot

def laterChars (slots : List Slot) : List Char :=
  slots.flatMap fun slot => ',' :: slot.chars [' ']

def laterLexemes (slots : List Slot) : List Lexeme :=
  slots.flatMap fun slot => (.element, ",") :: slot.lexemes [(.space, " ")]

theorem laterChars_cons (slot : Slot) (slots : List Slot)
    : laterChars (slot :: slots) = ',' :: (slot.chars [' '] ++ laterChars slots) :=
  List.flatMap_cons

theorem laterLexemes_cons (slot : Slot) (slots : List Slot)
    : laterLexemes (slot :: slots) =
      (.element, ",") :: (slot.lexemes [(.space, " ")] ++ laterLexemes slots) :=
  List.flatMap_cons

def slotChars : List Slot → List Char
  | [] => []
  | slot :: slots => slot.chars [] ++ laterChars slots

def slotLexemes : List Slot → List Lexeme
  | [] => []
  | slot :: slots => slot.lexemes [] ++ laterLexemes slots

def callChars (name body : List Char) : List Char :=
  name ++ '(' :: (body ++ [')'])

section Emission

variable {line : Line} {before : List Char} (slots : List Slot)

theorem separated_cons_eq (separator part : List Piece) (parts : List (List Piece))
    : separated separator (part :: parts) = part ++ parts.flatMap (separator ++ ·) := by
  induction parts generalizing part with
  | nil => simp [separated]
  | cons next parts ih => rw [separated_cons, ih, List.flatMap_cons, List.append_assoc]

theorem mem_separated {piece : Piece} {separator : List Piece} {parts : List (List Piece)}
    (h : piece ∈ separated separator parts) : piece ∈ separator ∨ ∃ part ∈ parts, piece ∈ part := by
  cases parts with
  | nil => contradiction
  | cons part parts =>
    rw [separated_cons_eq, List.mem_append, List.mem_flatMap] at h
    rcases h with h | ⟨other, hother, h⟩
    . exact .inr ⟨part, List.mem_cons_self, h⟩
    . rcases List.mem_append.mp h with h | h
      . exact .inl h
      . exact .inr ⟨other, List.mem_cons_of_mem _ hother, h⟩

theorem emit_later (line : Line)
    : line.emit ((slots.map Slot.spelling).flatMap ([.token ","] ++ ·) ++ [.token ")"]) =
      laterChars slots ++ [')'] := by
  induction slots generalizing line with
  | nil => exact emit_tight (by decide) line []
  | cons slot slots ih =>
    obtain ⟨before, hline⟩ := @push_last line "," ',' ⟨',', [], rfl, rfl⟩ rfl
    rw [List.map_cons, List.flatMap_cons, List.append_assoc, List.append_assoc,
      List.singleton_append, emit_tight (by decide), laterChars_cons]
    cases slot with
    | empty =>
      rw [Slot.spelling, List.nil_append, ih]
      rfl
    | filled letter =>
      rw [Slot.spelling, List.singleton_append, Line.emit, gap_of_comma hline, ih,
        letter.toList_text]
      rfl

theorem eachPieces_slots (style : Style) (cx : Context)
    : eachPieces style cx (slots.map Slot.formula) = slots.map Slot.spelling := by
  induction slots with
  | nil => rfl
  | cons slot slots ih =>
    rw [List.map_cons, eachPieces, ih, List.map_cons]
    cases slot with
    | empty => rw [Slot.formula, pieces, Slot.spelling]
    | filled letter => rw [Slot.formula, pieces, atomText_letter, Slot.spelling]

end Emission

section Written

variable (style : Style) (callee : Callee) (slots : List Slot)

theorem Callee.exists_first (callee : Callee)
    : ∃ c cs, callee.name.toList = c :: cs ∧ c.isAlpha := by
  obtain ⟨c, cs, hname⟩ := List.exists_cons_of_length_pos (Nat.zero_lt_of_lt callee.two_le)
  refine ⟨c, cs, hname, ?_⟩
  have hdotted := callee.isDotted
  rw [hname] at hdotted
  unfold Symbol.isDotted at hdotted
  split at hdotted
  . simp at hdotted
  . exact (Bool.and_eq_true_iff.mp hdotted).1

theorem Callee.solid : Solid (callee.name ++ "(") := by
  obtain ⟨c, cs, hname, halpha⟩ := callee.exists_first
  exact ⟨c, cs ++ ['('], by rw [String.toList_append, hname]; rfl, isBlank_of_isAlpha halpha⟩

def callSpelling : List Piece :=
  .token (callee.name ++ "(") :: separated [.token ","] (slots.map Slot.spelling) ++ [.token ")"]

theorem pieces_call : (Formula.call callee.name (slots.map Slot.formula) []).pieces style {} =
    callSpelling callee slots := by
  rw [pieces, eachPieces_slots, namedPieces, List.append_nil, callSpelling]

theorem solid_of_mem {text : String} (h : .token text ∈ callSpelling callee slots)
    : Solid text := by
  rw [callSpelling, List.mem_append, List.mem_cons, List.mem_singleton, Piece.token.injEq,
    Piece.token.injEq] at h
  rcases h with (rfl | h) | rfl
  . exact callee.solid
  . rcases mem_separated h with h | ⟨_, hpart, h⟩
    . cases List.mem_singleton.mp h
      exact ⟨',', [], rfl, rfl⟩
    . obtain ⟨slot, _, rfl⟩ := List.mem_map.mp hpart
      cases slot with
      | empty => contradiction
      | filled letter =>
        cases List.mem_singleton.mp h
        exact solid_letter letter
  . exact ⟨')', [], rfl, rfl⟩

theorem emit_callSpelling
    : Line.emit {} (callSpelling callee slots) =
      callChars callee.name.toList (slotChars slots) := by
  obtain ⟨before, hline⟩ := @push_last {} (callee.name ++ "(") '(' callee.solid
    (by rw [String.toList_append]; exact List.getLast?_concat)
  have hopen : Line.emit {} (callSpelling callee slots) = callee.name.toList ++ '(' ::
      (Line.push {} (callee.name ++ "(")).emit
        (separated [.token ","] (slots.map Slot.spelling) ++ [.token ")"]) := by
    rw [callSpelling, List.cons_append, Line.emit, String.toList_append, List.append_assoc,
      List.append_assoc]
    rfl
  rw [hopen, callChars]
  congr 2
  cases slots with
  | nil => exact emit_tight (by decide) _ []
  | cons slot slots =>
    rw [List.map_cons, separated_cons_eq, List.append_assoc, slotChars]
    cases slot with
    | empty => exact emit_later slots _
    | filled letter =>
      rw [Slot.spelling, List.singleton_append, Line.emit, gap_of_paren hline, emit_later,
        letter.toList_text]
      rfl

theorem write_call
    : write style (.call callee.name (slots.map Slot.formula) []) =
      String.ofList (cleanUp style (callChars callee.name.toList (slotChars slots))) := by
  have hline := @Line.setPieces_reversed {} (callSpelling callee slots)
    fun _ => solid_of_mem callee slots
  rw [List.append_nil, emit_callSpelling] at hline
  rw [write, pieces_call, hline, List.reverse_reverse]

end Written

section Lexing

variable {rest : List Char}

theorem endsName_laterChars (slots : List Slot) : EndsName (laterChars slots ++ [')']) := by
  cases slots with
  | nil => exact endsName_argumentMark (by decide) []
  | cons slot slots => exact endsName_argumentMark (by decide) _

theorem lex_slot (slot : Slot) (hrest : EndsName rest)
    : lex (slot.chars [' '] ++ rest) = slot.lexemes [(.space, " ")] ++ lex rest ∧
      lex (slot.chars [] ++ rest) = slot.lexemes [] ++ lex rest := by
  cases slot with
  | empty => exact ⟨rfl, rfl⟩
  | filled letter =>
    have hletter := lex_alphabetic letter.alphabetic hrest
    refine ⟨?_, hletter⟩
    have hblank : NotStartsWith isBlank (letter.char :: rest) :=
      notStartsWith_cons.mpr (isBlank_of_isAlphabetic letter.alphabetic)
    exact (lex_space hblank).trans (congrArg _ hletter)

theorem lex_laterChars (slots : List Slot)
    : lex (laterChars slots ++ [')']) = laterLexemes slots ++ [(.element, ")")] := by
  induction slots with
  | nil => exact lex_single_mark (c := ')') (by decide)
  | cons slot slots ih =>
    have hslot := (lex_slot slot (endsName_laterChars slots)).1
    rw [ih] at hslot
    rw [laterChars_cons, List.cons_append, List.append_assoc, lex_argumentMark (by decide), hslot,
      laterLexemes_cons, List.cons_append, List.append_assoc]

theorem lex_slotChars (slots : List Slot)
    : lex (slotChars slots ++ [')']) = slotLexemes slots ++ [(.element, ")")] := by
  cases slots with
  | nil => exact lex_single_mark (c := ')') (by decide)
  | cons slot slots =>
    rw [slotChars, List.append_assoc, (lex_slot slot (endsName_laterChars slots)).2, lex_laterChars,
      slotLexemes, List.append_assoc]

theorem lex_callChars (callee : Callee) (body : List Char)
    : lex (callChars callee.name.toList body) =
      (.symbol, callee.name) :: (.element, "(") :: lex (body ++ [')']) := by
  rw [callChars, lex_dotted callee.isDotted callee.two_le (endsName_argumentMark (by decide) _),
    lex_argumentMark (by decide)]

end Lexing

/--
A part between commas that is read as what stands in a slot.
-/
structure SlotPart (slot : Slot) (part : List Token) : Prop where
  cell : LooseCell part slot.formula
  nested : Nested (Token.isComma · = false) part
  blank : isBlankPart part = slot.isEmpty

/--
The slots that are read: one at the end that is empty is no argument.
-/
def readSlots (slots : List Slot) : List Slot :=
  if slots.getLast?.any Slot.isEmpty then slots.dropLast else slots

section Reading

variable {slot : Slot} {slots : List Slot} {part body tokens : List Token}
  {parts : List (List Token)}

theorem slotPart_of_lexemes {gap : List Lexeme} (hgap : gap = [] ∨ gap = [(.space, " ")])
    (h : part.map Token.lexeme = slot.lexemes gap) : SlotPart slot part := by
  cases slot with
  | empty =>
    cases List.map_eq_nil_iff.mp h
    refine ⟨⟨?_, rfl⟩, .nil, rfl⟩
    rw [Parser.cell, (@readsAs_nil false).sequence_eq]
    rfl
  | filled letter =>
    obtain ⟨front, last, rfl, hfront, hlast⟩ := List.map_eq_append_iff.mp h
    obtain ⟨token, none, rfl, htoken, hnone⟩ := List.map_eq_cons_iff.mp hlast
    cases List.map_eq_nil_iff.mp hnone
    have hblanks : IsGap front := by
      intro blank hblank
      have hmem := List.mem_map_of_mem hblank (f := Token.lexeme)
      rw [hfront] at hmem
      rcases hgap with rfl | rfl
      . contradiction
      . exact isGap_space (List.mem_singleton.mp hmem) blank List.mem_cons_self
    obtain ⟨hcell, hblank⟩ :=
      looseCell_atomic hblanks (nested_letter htoken) (atomic_letter htoken) rfl rfl
    have hnested := (nested_gap hblanks).append (nested_letter htoken)
    exact ⟨hcell, hnested.mono fun _ => isComma_of_whole, hblank⟩

theorem exists_parts {gap : List Lexeme} (hgap : gap = [] ∨ gap = [(.space, " ")])
    (h : body.map Token.lexeme = slot.lexemes gap ++ laterLexemes slots)
    : ∃ parts, Joined Token.isComma body parts ∧ List.Forall₂ SlotPart (slot :: slots) parts := by
  induction slots generalizing slot body gap with
  | nil =>
    rw [laterLexemes, List.flatMap_nil, List.append_nil] at h
    have hpart := slotPart_of_lexemes hgap h
    exact ⟨[body], .last hpart.nested, .cons hpart .nil⟩
  | cons next slots ih =>
    rw [laterLexemes_cons] at h
    obtain ⟨part, rest, rfl, hpart, hrest⟩ := List.map_eq_append_iff.mp h
    obtain ⟨comma, rest, rfl, hcomma, hrest⟩ := List.map_eq_cons_iff.mp hrest
    obtain ⟨parts, hjoined, hparts⟩ := ih (.inr rfl) hrest
    have hpart := slotPart_of_lexemes hgap hpart
    refine ⟨part :: parts, .cons hpart.nested (is_iff.mpr hcomma) ?_ ?_ hjoined, .cons hpart hparts⟩
    all_goals exact is_eq_false_iff.mpr (by rw [hcomma]; decide)

theorem isBlankPart_getLast? (h : List.Forall₂ SlotPart slots parts)
    : parts.getLast?.any isBlankPart = slots.getLast?.any Slot.isEmpty := by
  induction h with
  | nil => rfl
  | cons hpart hparts ih =>
    cases hparts with
    | nil => exact hpart.blank
    | cons => rwa [List.getLast?_cons_cons, List.getLast?_cons_cons]

theorem dropBlankLast_parts (h : List.Forall₂ SlotPart slots parts)
    : List.Forall₂ SlotPart (readSlots slots) (dropBlankLast parts) := by
  rw [readSlots, dropBlankLast, isBlankPart_getLast? h]
  split
  . rw [List.dropLast_eq_take, List.dropLast_eq_take, h.length_eq]
    exact List.forall₂_take _ h
  . exact h

theorem call_slots {name : String} (hname : name ∉ reservedCalls)
    (hbody : Joined Token.isComma body parts) (h : List.Forall₂ SlotPart slots parts)
    : Parser.call name body = .ok (.call name ((readSlots slots).map Slot.formula) []) := by
  have hargs : Parser.arguments (dropBlankLast parts) =
      .ok ((readSlots slots).map Slot.formula, []) := by
    apply arguments_eq
    rw [List.forall₂_map_right_iff]
    exact (dropBlankLast_parts h).flip.imp fun _ _ hpart => hpart.cell
  simp only [reservedCalls, List.mem_cons, List.not_mem_nil, or_false, not_or] at hname
  unfold Parser.call
  split
  case h_4 =>
    rw [hbody.split_eq, hargs]
    rfl
  all_goals simp_all

theorem parse_call {name : String} {lexemes : List Lexeme} {node : Formula}
    (htokens : tokens.map Token.lexeme =
      (.symbol, name) :: (.element, "(") :: (lexemes ++ [(.element, ")")]))
    (h : ∀ body, body.map Token.lexeme = lexemes →
      Nested (fun _ => True) body ∧ Parser.call name body = .ok node)
    : parse tokens = .ok node := by
  obtain ⟨head, rest, rfl, hhead, hrest⟩ := List.map_eq_cons_iff.mp htokens
  obtain ⟨opener, rest, rfl, hopener, hrest⟩ := List.map_eq_cons_iff.mp hrest
  obtain ⟨body, last, rfl, hbody, hlast⟩ := List.map_eq_append_iff.mp hrest
  obtain ⟨closer, none, rfl, hcloser, hnone⟩ := List.map_eq_cons_iff.mp hlast
  cases List.map_eq_nil_iff.mp hnone
  obtain ⟨hinner, hcall⟩ := h body hbody
  obtain ⟨hnested, hatomic⟩ := atomic_of_call hhead hopener hcloser hinner hcall
  exact parse_of_readsAs hnested hatomic.readsAs

theorem parseText_slots (callee : Callee) (hne : slots ≠ [])
    : parseText (String.ofList (callChars callee.name.toList (slotChars slots))) =
      .ok (.call callee.name ((readSlots slots).map Slot.formula) []) := by
  have hlexemes := tokenize_lexemes (String.ofList (callChars callee.name.toList (slotChars slots)))
  rw [String.toList_ofList, lex_callChars, lex_slotChars] at hlexemes
  apply parse_call hlexemes
  intro body hbody
  cases slots with
  | nil => contradiction
  | cons slot slots =>
    obtain ⟨parts, hjoined, hparts⟩ := exists_parts (.inl rfl) hbody
    exact ⟨hjoined.nested, call_slots callee.not_reserved hjoined hparts⟩

theorem parseText_emptyString (callee : Callee)
    : parseText (String.ofList (callChars callee.name.toList ['"', '"'])) =
      .ok (.call callee.name [.text ""] []) := by
  have hlexemes := tokenize_lexemes (String.ofList (callChars callee.name.toList ['"', '"']))
  have hquote : lex (['"', '"'] ++ [')']) = [(.text, "")] ++ [(.element, ")")] :=
    (lex_quote "").trans (congrArg _ (lex_single_mark (c := ')') (by decide)))
  rw [String.toList_ofList, lex_callChars, hquote] at hlexemes
  apply parse_call hlexemes
  intro body hbody
  obtain ⟨token, none, rfl, htoken, hnone⟩ := List.map_eq_cons_iff.mp hbody
  cases List.map_eq_nil_iff.mp hnone
  have hnested : Nested Whole [token] := nested_mark htoken (by decide)
  have hjoined : Joined Token.isComma [token] [[token]] :=
    .last (hnested.mono fun _ => isComma_of_whole)
  obtain ⟨hcell, hblank⟩ := looseCell_atomic isGap_nil hnested (atomic_text htoken) rfl rfl
  exact ⟨hjoined.nested, call_eq callee.not_reserved hjoined (.cons ⟨hcell, hblank, rfl⟩ .nil)⟩

end Reading

section CleanUp

variable {style : Style} {cs word rest name : List Char} {slots : List Slot} {inWord : Bool}

theorem mem_slotChars {c : Char} (h : c ∈ slotChars slots) : c ∈ [',', ' '] ∨ isAlphabetic c := by
  have hslot {gap : List Char} (hgap : gap = [] ∨ gap = [' ']) {slot : Slot}
      (h : c ∈ slot.chars gap)
      : c ∈ [',', ' '] ∨ isAlphabetic c := by
    cases slot with
    | empty => contradiction
    | filled letter =>
      rcases List.mem_append.mp h with h | h
      . rcases hgap with rfl | rfl
        . contradiction
        . exact .inl (List.mem_cons_of_mem _ h)
      . rw [List.mem_singleton.mp h]
        exact .inr letter.alphabetic
  cases slots with
  | nil => contradiction
  | cons slot slots =>
    rcases List.mem_append.mp h with h | h
    . exact hslot (.inl rfl) h
    . obtain ⟨slot, _, h⟩ := List.mem_flatMap.mp h
      rcases List.mem_cons.mp h with rfl | h
      . exact .inl (by decide)
      . exact hslot (.inr rfl) h

theorem not_mem_slotChars {c : Char} (h : c ∈ ['(', ')', '.', '\n']) : c ∉ slotChars slots := by
  intro hmem
  have hspec : ∀ c ∈ ['(', ')', '.', '\n'], c ∉ [',', ' '] ∧ ¬ isAlphabetic c := by decide +kernel
  rcases mem_slotChars hmem with hmark | halphabetic
  . exact (hspec c h).1 hmark
  . exact (hspec c h).2 halphabetic

theorem Callee.not_mem (callee : Callee) {c : Char} (h : c ∈ ['(', ')', '\n'])
    : c ∉ callee.name.toList := by
  intro hmem
  have hspec : ∀ c ∈ ['(', ')', '\n'], ¬ (c.isAlpha ∨ c = '.') := by decide
  exact hspec c h (mem_dotted callee.isDotted c hmem)

theorem fillEmptyCalls_callChars (hword : '(' ∉ word) (h : HasEmptyCall inWord (callChars word []))
    : fillEmptyCalls inWord (callChars word []) = callChars word ['"', '"'] := by
  induction word generalizing inWord with
  | nil =>
    obtain ⟨before, name, _, hname, _, hnil, _⟩ := h.of_append hword (by decide)
    rw [List.append_eq_nil_iff.mp hnil.symm |>.2] at hname
    contradiction
  | cons c word ih =>
    change HasEmptyCall inWord (c :: callChars word []) at h
    by_cases hnone : inWord = false → emptyCall? (c :: callChars word []) = none
    . have hlater : HasEmptyCall (isWordChar c) (callChars word []) := by
        refine (hasEmptyCall_cons.mp h).resolve_left fun ⟨hout, hsome⟩ => ?_
        rw [hnone hout] at hsome
        contradiction
      have hfill := ih (fun hmem => hword (List.mem_cons_of_mem _ hmem)) hlater
      exact (fillEmptyCalls_of_none hnone).trans (congrArg _ hfill)
    . obtain ⟨rfl, hsome⟩ := Classical.not_imp.mp hnone
      obtain ⟨name, hname⟩ := Option.ne_none_iff_exists'.mp hsome
      obtain ⟨_, after, heq⟩ := append_of_emptyCall? hname
      have hsplit : (c :: word) ++ '(' :: [')'] = name ++ '(' :: (')' :: after) := by
        rw [List.append_assoc] at heq
        exact heq
      rw [List.append_cons_inj_of_notMem hword (by decide)] at hsplit
      have hfill := fillEmptyCalls_of_some hname
      rw [← hsplit.1] at hfill
      have hdrop : (callChars word []).drop ((c :: word).length + 1) = [] := by
        simp [callChars]
      rw [hdrop, fillEmptyCalls, List.append_nil] at hfill
      exact hfill

theorem folded_callChars (hpairs : style.optimize → ∀ rounding ∈ ["floor".toList, "ceil".toList],
      ¬ HasPair rounding word)
    : folded style (callChars word (slotChars slots)) = callChars word (slotChars slots) := by
  apply folded_eq_self
  intro hstyle rounding hrounding hpair
  refine hpairs hstyle rounding hrounding (hpair.of_append ?_)
  rw [List.mem_append, not_or]
  exact ⟨not_mem_slotChars (by decide), by decide⟩

theorem callChars_line (word : List Char) {body : List Char} (hword : '\n' ∉ word)
    (hbody : '\n' ∉ body)
    : (((lines (callChars word body)).map trimEnd).intersperse ['\n']).flatten =
      callChars word body := by
  apply flatten_lines
  . simp [callChars, hword, hbody]
  . intro c hc
    simp only [callChars, ← List.cons_append, ← List.append_assoc, List.getLast?_concat] at hc
    cases hc
    rfl

theorem slotChars_eq_nil (hne : slots ≠ []) (h : slotChars slots = []) : slots = [.empty] := by
  match slots with
  | [] => contradiction
  | [.empty] => rfl
  | [.filled _] => contradiction
  | _ :: _ :: _ => simp [slotChars, laterChars_cons] at h

end CleanUp

section Cleaned

variable {style : Style} {callee : Callee} {slots : List Slot}
  (hpairs : style.optimize → ∀ rounding ∈ ["floor".toList, "ceil".toList],
    ¬ HasPair rounding callee.name.toList)

include hpairs

theorem cleanUp_patched (hstyle : style.optimize)
    (h : HasEmptyCall false (callChars callee.name.toList []))
    : cleanUp style (callChars callee.name.toList (slotChars [.empty])) =
      callChars callee.name.toList ['"', '"'] := by
  have hfilled : filled style (callChars callee.name.toList (slotChars [.empty])) =
      callChars callee.name.toList ['"', '"'] := by
    rw [filled, if_pos hstyle, folded_callChars hpairs]
    exact fillEmptyCalls_callChars (callee.not_mem (by decide)) h
  rw [cleanUp_eq_lines, hfilled, callChars_line _ (callee.not_mem (by decide)) (by decide)]

theorem cleanUp_unpatched (hne : slots ≠ [])
    (h : style.optimize → slots = [.empty] → ¬ HasEmptyCall false (callChars callee.name.toList []))
    : cleanUp style (callChars callee.name.toList (slotChars slots)) =
      callChars callee.name.toList (slotChars slots) := by
  have hfilled : filled style (callChars callee.name.toList (slotChars slots)) =
      callChars callee.name.toList (slotChars slots) := by
    rw [filled, folded_callChars hpairs]
    split
    next hstyle =>
      apply fillEmptyCalls_eq_self
      intro hcall
      have hbody : '(' ∉ slotChars slots ++ [')'] := by
        rw [List.mem_append, not_or]
        exact ⟨not_mem_slotChars (by decide), by decide⟩
      obtain ⟨_, _, after, _, _, _, hafter⟩ := hcall.of_append (callee.not_mem (by decide)) hbody
      have hnil : slotChars slots = [] := by
        cases hchars : slotChars slots with
        | nil => rfl
        | cons c cs =>
          rw [hchars] at hafter
          have hmem : ')' ∈ slotChars slots := by
            rw [hchars, ← List.head_eq_of_cons_eq hafter]
            exact List.mem_cons_self
          exact absurd hmem (not_mem_slotChars (by decide))
      rw [hnil] at hcall
      exact h hstyle (slotChars_eq_nil hne hnil) hcall
    . rfl
  rw [cleanUp_eq_lines, hfilled,
    callChars_line _ (callee.not_mem (by decide)) (not_mem_slotChars (by decide))]

end Cleaned

section Inversion

variable {token : Token} {tokens : List Token} {node base : Formula} {found : Scripts Formula}
  {used : Nat} {name : String} {args : List Formula} {named : List (String × Formula)}

theorem eq_of_attachScripts (h : attachScripts found base = .call name args named)
    : base = .call name args named := by
  unfold attachScripts at h
  split at h
  . exact h
  . contradiction

theorem name_of_call {body : List Token} {callee : String} (hname : name ∉ reservedCalls)
    (h : Parser.call callee body = .ok (.call name args named)) : callee = name := by
  unfold Parser.call at h
  split at h
  . obtain ⟨_, _, h⟩ := exists_of_bind_eq_ok h
    cases h
  . obtain ⟨_, _, h⟩ := exists_of_bind_eq_ok h
    cases h
  . obtain ⟨_, _, h⟩ := exists_of_bind_eq_ok h
    split at h
    . cases h
      simp [reservedCalls] at hname
    . cases h
  . obtain ⟨_, _, h⟩ := exists_of_bind_eq_ok h
    cases h
    rfl

theorem lexeme_of_atom (hname : name ∉ reservedCalls)
    (h : Parser.atom token tokens = .ok (.call name args named, used))
    : token.lexeme = (.symbol, name) := by
  unfold Parser.atom at h
  split at h
  case h_8 =>
    split at h
    . split at h
      . contradiction
      . obtain ⟨_, _, h⟩ := exists_of_bind_eq_ok h
        cases h
    . contradiction
    . cases h
  case h_9 hkind =>
    split at h
    . cases h
    . split at h
      . split at h
        . contradiction
        . obtain ⟨_, hcall, h⟩ := exists_of_bind_eq_ok h
          cases h
          exact Prod.ext hkind (name_of_call hname hcall)
      . cases h
  all_goals cases h

theorem lexeme_of_expr (hname : name ∉ reservedCalls)
    (h : Parser.expr token tokens = .ok (.call name args named, used))
    : token.lexeme = (.symbol, name) := by
  unfold Parser.expr at h
  split at h
  . obtain ⟨_, _, h⟩ := exists_of_bind_eq_ok h
    obtain ⟨_, _, h⟩ := exists_of_bind_eq_ok h
    cases eq_of_attachScripts (congrArg Prod.fst (Except.ok.inj h))
  . obtain ⟨⟨base, _⟩, hatom, h⟩ := exists_of_bind_eq_ok h
    obtain ⟨_, _, h⟩ := exists_of_bind_eq_ok h
    rw [eq_of_attachScripts (congrArg Prod.fst (Except.ok.inj h))] at hatom
    exact lexeme_of_atom hname hatom

theorem exists_of_parse_call (hname : name ∉ reservedCalls)
    (h : parse tokens = .ok (.call name args named))
    : ∃ token rest, tokens = token :: rest ∧ token.lexeme = (.symbol, name) := by
  simp only [parse] at h
  split at h
  . obtain ⟨nodes, hsequence, h⟩ := exists_of_bind_eq_ok h
    have hnodes : nodes = [.call name args named] := by
      have hlist := Except.ok.inj h
      unfold ofList at hlist
      split at hlist
      . contradiction
      . rw [hlist]
      . contradiction
    rw [hnodes, Parser.sequence] at hsequence
    obtain ⟨items, hitems, hresolve⟩ := exists_of_bind_eq_ok hsequence
    have hsingle : items = [.node (.call name args named)] := by
      rcases go_eq_or_frac hresolve with ⟨_, _, hmem⟩ | ⟨_, heq⟩
      . simp at hmem
      . exact heq.symm
    rw [hsingle] at hitems
    cases tokens with
    | nil =>
      rw [Parser.items] at hitems
      cases hitems
    | cons token tokens =>
      refine ⟨token, tokens, rfl, ?_⟩
      rw [Parser.items] at hitems
      split at hitems
      . obtain ⟨rest, _, hitems⟩ := exists_of_bind_eq_ok hitems
        cases hitems
      . obtain ⟨⟨node, used⟩, hexpr, hitems⟩ := exists_of_bind_eq_ok hitems
        obtain ⟨rest, _, hitems⟩ := exists_of_bind_eq_ok hitems
        cases hitems
        exact lexeme_of_expr hname hexpr
  . obtain ⟨rows, _, h⟩ := exists_of_bind_eq_ok h
    cases h

end Inversion

section Folded

variable {style : Style} {cs name word body : List Char} {c : Char} {inWord : Bool}

/--
A pair within the name of a function is folded, so that less of it stands before the arguments.
-/
theorem length_beforeParen_filled (hstyle : style.optimize) {rounding : List Char}
    (hrounding : rounding ∈ ["floor".toList, "ceil".toList]) (h : HasPair rounding word)
    (hword : '(' ∉ word) (hbody : '.' ∉ body)
    : (beforeParen (filled style (callChars word body))).length < word.length := by
  have hspec : ∀ name ∈ ["floor".toList, "ceil".toList], '(' ∉ name ∧ NotStartsWith isBlank name ∧
      name ≠ [] := by
    decide
  have hlt (name : List Char) (hname : name ∈ ["floor".toList, "ceil".toList])
      (h : HasPair name word) : (beforeParen (foldPairs name (callChars word body))).length <
        word.length := by
    obtain ⟨hparen, hblank, hne⟩ := hspec name hname
    exact length_beforeParen_foldPairs_lt hparen hblank hne hword h _
  rw [filled, if_pos hstyle, beforeParen_fillEmptyCalls, folded, if_pos hstyle]
  by_cases hfloor : HasPair "floor".toList word
  . exact Nat.lt_of_le_of_lt (length_beforeParen_foldPairs_le (hspec _ (by decide)).1 _)
      (hlt _ (by decide) hfloor)
  . have hceil : HasPair "ceil".toList word := by
      simp only [List.mem_cons, List.not_mem_nil, or_false] at hrounding
      rcases hrounding with rfl | rfl
      . contradiction
      . exact h
    have hsame : foldPairs "floor".toList (callChars word body) = callChars word body := by
      apply foldPairs_eq_self
      intro hpair
      exact hfloor (hpair.of_append (by simp [hbody]))
    rw [hsame]
    exact hlt _ (by decide) hceil

theorem exists_lexeme_of_alpha (h : c.isAlpha) (cs : List Char)
    : ∃ kind word rest, lex (c :: cs) = (kind, String.ofList word) :: rest ∧ word <+: c :: cs := by
  generalize hword : (c :: cs).takeWhile Char.isAlpha ++
    dottedParts ((c :: cs).drop ((c :: cs).takeWhile Char.isAlpha).length) = word
  have hprefix : word <+: c :: cs := by
    rw [← hword]
    exact append_prefix (List.takeWhile_prefix _) (prefix_dottedParts _)
  obtain ⟨more, rfl⟩ : ∃ more, word = c :: more := by
    rw [← hword, List.takeWhile_cons_of_pos h]
    exact ⟨_, rfl⟩
  have hname : Typst.name (c :: cs) =
      some (.verbatim (if (c :: more).length = 1 then .element else .symbol) (c :: more)) := by
    rw [← hword]
    unfold Typst.name
    split
    next hnil =>
      rw [List.takeWhile_cons_of_pos h] at hnil
      contradiction
    . rfl
  obtain ⟨rest, hrest⟩ := hprefix
  have hbest := best_of_alpha h cs hname
  rw [← hrest] at hbest ⊢
  exact ⟨_, c :: more, lex rest, Scan.cut_of_verbatim more hbest, List.prefix_append _ _⟩

/--
A text that is read as a call begins with the name of the function, if it begins with a letter.
-/
theorem prefix_of_parseText {callee : String} {args : List Formula}
    {named : List (String × Formula)} (hname : callee ∉ reservedCalls)
    (hfirst : ∀ c ∈ cs.head?, c.isAlpha)
    (h : parseText (String.ofList cs) = .ok (.call callee args named)) : callee.toList <+: cs := by
  obtain ⟨token, rest, htokens, htoken⟩ := exists_of_parse_call hname h
  have hlexemes := tokenize_lexemes (String.ofList cs)
  rw [htokens, List.map_cons, htoken, String.toList_ofList] at hlexemes
  cases cs with
  | nil =>
    rw [lex_nil] at hlexemes
    contradiction
  | cons c cs =>
    obtain ⟨kind, word, later, hlex, hword⟩ := exists_lexeme_of_alpha (hfirst c rfl) cs
    rw [hlex] at hlexemes
    have hsame : callee = String.ofList word :=
      congrArg Prod.snd (List.head_eq_of_cons_eq hlexemes)
    rwa [hsame, String.toList_ofList]

end Folded

section Arity

variable {style : Style} {callee : Callee} {slots : List Slot}

theorem head?_filled_callChars (style : Style) (callee : Callee) (body : List Char)
    : ∃ c, (filled style (callChars callee.name.toList body)).head? = some c ∧ c.isAlpha := by
  obtain ⟨c, cs, hname, halpha⟩ := callee.exists_first
  refine ⟨c, ?_, halpha⟩
  rw [head?_filled, callChars, hname]
  rfl

theorem write_call_trimEnd (style : Style) (callee : Callee) (slots : List Slot)
    : write style (.call callee.name (slots.map Slot.formula) []) =
      String.ofList (trimEnd (filled style (callChars callee.name.toList (slotChars slots)))) := by
  have hnewline : '\n' ∉ filled style (callChars callee.name.toList (slotChars slots)) := by
    intro hmem
    rcases mem_filled hmem with hmem | hmem
    . have hword := callee.not_mem (c := '\n') (by decide)
      have hbody := @not_mem_slotChars slots '\n' (by decide)
      simp [callChars, hword, hbody] at hmem
    . contradiction
  have hne : filled style (callChars callee.name.toList (slotChars slots)) ≠ [] := by
    intro hnil
    obtain ⟨c, hhead, _⟩ := head?_filled_callChars style callee (slotChars slots)
    rw [hnil] at hhead
    contradiction
  rw [write_call, cleanUp_eq_lines, lines_of_no_newline hnewline hne, List.map_singleton,
    List.intersperse_singleton, List.flatten_singleton]

theorem parseText_write_of_pair (hstyle : style.optimize) {rounding : List Char}
    (hrounding : rounding ∈ ["floor".toList, "ceil".toList])
    (h : HasPair rounding callee.name.toList) (args : List Formula)
    (named : List (String × Formula))
    : parseText (write style (.call callee.name (slots.map Slot.formula) [])) ≠
      .ok (.call callee.name args named) := by
  intro hparse
  rw [write_call_trimEnd] at hparse
  obtain ⟨first, hhead, halpha⟩ := head?_filled_callChars style callee (slotChars slots)
  have htrim := trimEnd_prefix (filled style (callChars callee.name.toList (slotChars slots)))
  have hstart := prefix_of_parseText callee.not_reserved (fun c hc => ?_) hparse
  . -- The name would stand before the parenthesis, where less than the name is left.
    have hle := length_le_of_prefix (callee.not_mem (by decide)) (hstart.trans htrim)
    have hlt := length_beforeParen_filled hstyle hrounding h (callee.not_mem (by decide))
      (@not_mem_slotChars slots _ (by decide))
    exact Nat.not_lt_of_le hle hlt
  . obtain ⟨more, hmore⟩ := htrim
    have hmem := List.mem_head?_append_of_mem_head? hc (t := more)
    rw [hmore, hhead] at hmem
    cases hmem
    exact halpha

theorem length_readSlots (hne : slots ≠ [])
    : (readSlots slots).length = slots.length ↔ slots.getLast? ≠ some .empty := by
  have hpos := List.length_pos_iff.mpr hne
  have hlast := List.getLast?_eq_some_getLast hne
  unfold readSlots
  cases hslot : slots.getLast hne with
  | empty =>
    rw [hlast, hslot, Option.any_some, Slot.isEmpty, if_pos rfl, List.length_dropLast]
    simp
    omega
  | filled letter =>
    rw [hlast, hslot, Option.any_some, Slot.isEmpty, if_neg Bool.false_ne_true]
    simp

/--
A call is read back with as many arguments as it has slots exactly if there is no pair of brackets
in its name that is folded, and the last slot is not empty or is filled as the only argument of a
function for rounding.
-/
theorem arity_write_call_iff (style : Style) (callee : Callee) (slots : List Slot)
    (hne : slots ≠ [])
    : (∃ args named,
        parseText (write style (.call callee.name (slots.map Slot.formula) [])) =
          .ok (.call callee.name args named) ∧ args.length = slots.length) ↔
      (style.optimize → ∀ rounding ∈ ["floor".toList, "ceil".toList],
        ¬ HasPair rounding callee.name.toList) ∧
      (slots.getLast? ≠ some .empty ∨
        style.optimize ∧ slots = [.empty] ∧
          HasEmptyCall false (callChars callee.name.toList [])) := by
  by_cases hpairs : style.optimize → ∀ rounding ∈ ["floor".toList, "ceil".toList],
      ¬ HasPair rounding callee.name.toList
  . rw [and_iff_right hpairs]
    by_cases hpatched : style.optimize ∧ slots = [.empty] ∧
        HasEmptyCall false (callChars callee.name.toList [])
    . obtain ⟨hstyle, rfl, hcall⟩ := hpatched
      refine iff_of_true ⟨[.text ""], [], ?_, rfl⟩ (.inr ⟨hstyle, rfl, hcall⟩)
      rw [write_call, cleanUp_patched hpairs hstyle hcall, parseText_emptyString]
    . have hparse : parseText (write style (.call callee.name (slots.map Slot.formula) [])) =
          .ok (.call callee.name ((readSlots slots).map Slot.formula) []) := by
        rw [write_call, cleanUp_unpatched hpairs hne, parseText_slots callee hne]
        exact fun hstyle hslots hcall => hpatched ⟨hstyle, hslots, hcall⟩
      rw [or_iff_left hpatched, ← length_readSlots hne, hparse]
      constructor
      . rintro ⟨args, named, heq, hlength⟩
        cases heq
        rwa [List.length_map] at hlength
      . intro hlength
        exact ⟨_, _, rfl, by rwa [List.length_map]⟩
  . refine iff_of_false ?_ fun h => hpairs h.1
    rintro ⟨args, named, hparse, _⟩
    apply hpairs
    intro hstyle rounding hrounding hpair
    exact parseText_write_of_pair hstyle hrounding hpair args named hparse

theorem arity_write_call_iff_inner
    : [Slot.empty, .filled ⟨'a', rfl⟩] ≠ [] ∧
      ∃ args named,
        parseText (write {} (.call "foo" [.empty, .atom "a"] [])) = .ok (.call "foo" args named) ∧
        args.length = 2 := by
  refine ⟨List.cons_ne_nil _ _, ?_⟩
  refine (arity_write_call_iff {} ⟨"foo", by decide, by decide, by decide⟩
    [.empty, .filled ⟨'a', rfl⟩] (List.cons_ne_nil _ _)).mpr ⟨fun hstyle => ?_, .inl nofun⟩
  exact not_hasPair_of_length hstyle (by decide +kernel)

/--
A comma opens no argument after it, so that an empty argument at the end is not read back.
-/
theorem empty_last_argument_lost
    : write {} (.call "foo" [.atom "a", .empty] []) = "foo(a,)" ∧
      parseText "foo(a,)" = .ok (.call "foo" [.atom "a"] []) := by
  refine ⟨by decide +kernel, ?_⟩
  have htext : "foo(a,)" =
      String.ofList (callChars "foo".toList (slotChars [.filled ⟨'a', rfl⟩, .empty])) := by
    decide +kernel
  rw [htext]
  exact parseText_slots ⟨"foo", by decide, by decide, by decide⟩ (List.cons_ne_nil _ _)

end Arity

end Typst
end MathMarkup
