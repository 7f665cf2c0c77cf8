import MathMarkup.Proofs.Typst.Lexing
import MathMarkup.Typst.Formula.Printer

/-!
This module contains the proof that the spaces which the writer puts between pieces, and those that
it leaves out, never change the tokens: what is written is read as the tokens of the pieces, with
blanks in between, and a name is never joined to a parenthesis that does not call it.
-/

namespace MathMarkup
namespace Typst

open Text Scan

namespace Piece

def chars : Piece → List Char
  | .token text => text.toList
  | .softSpace => [' ']

def token? : Piece → Option String
  | .token text => some text
  | .softSpace => none

end Piece

def joined (pieces : List Piece) : List Char :=
  pieces.flatMap Piece.chars

def tokenTexts (pieces : List Piece) : List String :=
  pieces.filterMap Piece.token?

/--
A token that is not empty and does not begin with a blank.
-/
def Solid (text : String) : Prop :=
  ∃ first rest, text.toList = first :: rest ∧ isBlank first = false

namespace Line

def gap (line : Line) (text : String) : List Char :=
  if line.needsSpace text then [' '] else []

def softGap (line : Line) : List Char :=
  match line.reversed with
  | [] => []
  | last :: _ => if isBlank last then [] else [' ']

def emit (line : Line) : List Piece → List Char
  | [] => []
  | .softSpace :: pieces =>
    if dropsSoftSpace pieces then line.emit pieces else line.softGap ++ line.space.emit pieces
  | .token text :: pieces => line.gap text ++ text.toList ++ (line.push text).emit pieces

section Reversed

variable {line : Line} {text : String} {pieces : List Piece}

theorem push_reversed (h : Solid text)
    : (line.push text).reversed = (line.gap text ++ text.toList).reverse ++ line.reversed := by
  obtain ⟨first, rest, htext, hblank⟩ := h
  have hnewline : first ≠ '\n' := by
    rintro rfl
    contradiction
  unfold push gap
  rw [htext]
  simp only [if_neg hnewline, hblank, Bool.false_eq_true, if_false]
  split
  all_goals simp

theorem space_reversed : line.space.reversed = line.softGap.reverse ++ line.reversed := by
  unfold space softGap
  cases h : line.reversed with
  | nil => simp [h]
  | cons last before =>
    dsimp only
    split
    all_goals simp [h]

theorem setPieces_reversed (h : ∀ text, .token text ∈ pieces → Solid text)
    : (line.setPieces pieces).reversed = (line.emit pieces).reverse ++ line.reversed := by
  induction pieces generalizing line with
  | nil => rfl
  | cons piece pieces ih =>
    have hpieces : ∀ text, .token text ∈ pieces → Solid text :=
      fun text hmem => h text (List.mem_cons_of_mem _ hmem)
    cases piece with
    | token text =>
      rw [setPieces, emit, ih hpieces, push_reversed (h text List.mem_cons_self)]
      simp
    | softSpace =>
      rw [setPieces, emit]
      split
      . exact ih hpieces
      . rw [ih hpieces, space_reversed]
        simp

end Reversed

section NeedsSpace

variable {line : Line} {last : Char} {before : List Char} {text : String}

def tight : List String :=
  [")", "]", "\x7d", "_", "^", ",", ";", "!", "'", "/"]

theorem needsSpace_of_tight (h : text ∈ tight) : line.needsSpace text = false := by
  unfold needsSpace
  split
  . rfl
  . simp only [tight, List.mem_cons, List.not_mem_nil, or_false] at h
    rcases h with rfl | rfl | rfl | rfl | rfl | rfl | rfl | rfl | rfl | rfl
    all_goals simp

theorem needsSpace_of_blank (hline : line.reversed = last :: before) (h : isBlank last)
    (text : String) : line.needsSpace text = false := by
  unfold needsSpace
  rw [hline]
  simp [h]

def joinable : List String :=
  "(" :: "|" :: tight

theorem first_of_joined (hline : line.reversed = last :: before)
    (hblank : isBlank last = false) (hopen : last ∉ ['(', '_', '^', '\'', '{', '[', '&', '/'])
    (hsign : endsWithLeadingSign (last :: before) = false) (h : line.needsSpace text = false)
    : text ∈ joinable ∨ (last = '|' ∧ isIdentifierContinue (text.toList.headD ' ')) ∨
      (last.isDigit ∧ (text.toList.headD ' ').isDigit) := by
  simp only [List.mem_cons, List.not_mem_nil, or_false, not_or] at hopen
  obtain ⟨hparen, hsub, hsup, hprime, hbrace, hbracket, hcell, hslash⟩ := hopen
  unfold needsSpace at h
  rw [hline] at h
  simp only [hblank, hsign, beq_eq_false_iff_ne.mpr hbrace, beq_eq_false_iff_ne.mpr hbracket,
    beq_eq_false_iff_ne.mpr hcell, beq_eq_false_iff_ne.mpr hslash, Bool.false_eq_true, if_false,
    Bool.false_and, Bool.false_or] at h
  split_ifs at h with hbar hcloses hopening hscript hdigits hover
  . simp only [Bool.and_eq_true, beq_iff_eq] at hbar
    exact .inr (.inl ⟨hbar.1.1, hbar.2⟩)
  . left
    simp only [Bool.or_eq_true, List.contains_iff_mem, Bool.and_eq_true, beq_iff_eq] at hcloses
    rcases hcloses with hcloses | hcloses
    . simp only [List.mem_cons, List.not_mem_nil, or_false] at hcloses
      rcases hcloses with rfl | rfl | rfl
      all_goals decide
    . rw [hcloses.1]
      decide
  . left
    rw [beq_iff_eq.mp hopening]
    decide
  . left
    simp only [List.contains_iff_mem, List.mem_cons, List.not_mem_nil, or_false] at hscript
    rcases hscript with rfl | rfl | rfl | rfl | rfl | rfl
    all_goals decide
  . simp only [Bool.and_eq_true] at hdigits
    exact .inr (.inr hdigits)
  . left
    rw [beq_iff_eq.mp hover]
    decide

end NeedsSpace

section First

variable {line : Line} {last : Char} {before : List Char} {pieces : List Piece} {p : Char → Bool}

theorem notStartsWith_gap (hspace : p ' ' = false) {text : String} {rest : List Char}
    (hne : text.toList ≠ []) (h : line.needsSpace text = false → NotStartsWith p text.toList)
    : NotStartsWith p (line.gap text ++ text.toList ++ rest) := by
  unfold gap
  split
  . exact notStartsWith_cons.mpr hspace
  next hjoined =>
    rw [List.nil_append, notStartsWith_append hne]
    exact h (Bool.eq_false_iff.mpr hjoined)

/--
Where a soft space is left out, what is written begins with a closing bracket or a separator.
-/
theorem notStartsWith_of_drops (hspace : p ' ' = false)
    (hcloses : ∀ c ∈ [')', ']', '}', ',', ';'], p c = false)
    (hsolid : ∀ text, .token text ∈ pieces → Solid text) (h : dropsSoftSpace pieces)
    : NotStartsWith p (line.emit pieces) := by
  induction pieces with
  | nil => exact notStartsWith_nil
  | cons piece pieces ih =>
    have hpieces : ∀ text, .token text ∈ pieces → Solid text :=
      fun text hmem => hsolid text (List.mem_cons_of_mem _ hmem)
    cases piece with
    | softSpace =>
      unfold dropsSoftSpace at h
      rw [emit, if_pos h]
      exact ih hpieces h
    | token text =>
      obtain ⟨first, rest, htext, hblank⟩ := hsolid text List.mem_cons_self
      apply notStartsWith_gap hspace (by simp [htext])
      intro _
      unfold dropsSoftSpace at h
      rw [htext] at h ⊢
      rw [List.head?_cons, Option.any_some, hblank, Bool.false_or] at h
      apply notStartsWith_cons.mpr
      split at h
      all_goals first | exact hcloses _ (by decide) | contradiction

/--
What is written after a word that ends in a character other than a blank begins with a space, with
a closing bracket or a separator, or with the next token.
-/
theorem notStartsWith_emit (hline : line.reversed = last :: before) (hlast : isBlank last = false)
    (hspace : p ' ' = false) (hcloses : ∀ c ∈ [')', ']', '}', ',', ';'], p c = false)
    (hsolid : ∀ text, .token text ∈ pieces → Solid text)
    (h : ∀ text rest, pieces = .token text :: rest → line.needsSpace text = false →
      NotStartsWith p text.toList)
    : NotStartsWith p (line.emit pieces) := by
  cases pieces with
  | nil => exact notStartsWith_nil
  | cons piece pieces =>
    cases piece with
    | token text =>
      obtain ⟨first, rest, htext, _⟩ := hsolid text List.mem_cons_self
      exact notStartsWith_gap hspace (by simp [htext]) (h text pieces rfl)
    | softSpace =>
      have hpieces : ∀ text, .token text ∈ pieces → Solid text :=
        fun text hmem => hsolid text (List.mem_cons_of_mem _ hmem)
      unfold emit
      split
      next hdrops => exact notStartsWith_of_drops hspace hcloses hpieces hdrops
      . rw [softGap, hline]
        simp only [hlast]
        exact notStartsWith_cons.mpr hspace

end First

end Line

def pieceMarks : List Char :=
  ['+', '=', '\'', '(', ')', '[', ']', '{', '}', '|', ',', ';']

def matrixDelimiters : List String :=
  ["(", "[", "\x7b", "|", "||"]

/--
The pieces that are cut off from what follows by a space at most.
-/
inductive IsWord : List Char → Prop where
  | letter {c : Char} (h : c.isAlpha) : IsWord [c]
  | name {name : String} (h : Symbol.TypstName name) : IsWord name.toList
  | shorthand {name spelling : String} (h : (name, spelling) ∈ Symbol.shorthands) :
    IsWord spelling.toList
  | mark {c : Char} (h : c ∈ pieceMarks) : IsWord [c]
  | control {c : Char} (h : c ∈ ['_', '^', '&']) : IsWord [c]
  | escaped {c : Char} (h : c ∈ "()[]\x7b\x7d|".toList) : IsWord ['\\', c]
  | call {name : String} (h : Symbol.TypstName name) : IsWord (name.toList ++ ['('])
  | key {name : String} (h : Symbol.TypstName name) : IsWord (name.toList ++ [':'])
  | quote {content : String} (h : content ∈ matrixDelimiters) : IsWord (quote content).toList

/--
What may follow a word: a name is not gone on with, and neither is a shorthand.
-/
def Follows (word rest : List Char) : Prop :=
  ∀ c, word.getLast? = some c →
    (c.isAlpha → EndsName rest) ∧ (isShorthandTail c ∨ c = '|' → NotStartsWith isShorthandTail rest)

section IsWord

variable {word rest : List Char}

theorem lex_append_of (lexemes : List Lexeme) (halone : lex (word ++ []) = lexemes ++ lex [])
    (h : lex (word ++ rest) = lexemes ++ lex rest) : lex (word ++ rest) = lex word ++ lex rest := by
  rw [List.append_nil, lex_nil, List.append_nil] at halone
  rw [h, halone]

theorem follows_nil : Follows word [] :=
  fun _ _ => ⟨fun _ => endsName_nil, fun _ => notStartsWith_nil⟩

theorem getLast?_dotted {cs : List Char} {inPart : Bool} (h : Symbol.isDotted inPart cs)
    (hne : cs ≠ []) : ∃ c, cs.getLast? = some c ∧ c.isAlpha := by
  induction cs generalizing inPart with
  | nil => contradiction
  | cons c cs ih =>
    unfold Symbol.isDotted at h
    cases cs with
    | nil =>
      split at h
      . simp [Symbol.isDotted] at h
      . simp only [Bool.and_eq_true] at h
        exact ⟨c, rfl, h.1⟩
    | cons d cs =>
      rw [List.getLast?_cons_cons]
      split at h
      all_goals
        simp only [Bool.and_eq_true] at h
        exact ih h.2 (List.cons_ne_nil _ _)

theorem mem_dotted {cs : List Char} {inPart : Bool} (h : Symbol.isDotted inPart cs)
    : ∀ c ∈ cs, c.isAlpha ∨ c = '.' := by
  induction cs generalizing inPart with
  | nil => exact nofun
  | cons c cs ih =>
    rw [List.forall_mem_cons]
    unfold Symbol.isDotted at h
    split at h
    next hpoint =>
      simp only [Bool.and_eq_true] at h
      exact ⟨.inr hpoint, ih h.2⟩
    . simp only [Bool.and_eq_true] at h
      exact ⟨.inl h.1, ih h.2⟩

theorem reverse_name {name : String} (h : Symbol.TypstName name)
    : ∃ last other more, name.toList.reverse = last :: other :: more ∧ last.isAlpha ∧
      (other.isAlpha ∨ other = '.') := by
  have htwo := h.two_le
  have hne : name.toList ≠ [] := by
    intro hnil
    rw [hnil] at htwo
    contradiction
  obtain ⟨c, hlast, halpha⟩ := getLast?_dotted h.isDotted hne
  rw [List.getLast?_eq_head?_reverse] at hlast
  rw [← List.length_reverse] at htwo
  match hreverse : name.toList.reverse with
  | [] =>
    rw [hreverse] at htwo
    contradiction
  | [_] =>
    rw [hreverse] at htwo
    contradiction
  | last :: other :: more =>
    rw [hreverse] at hlast
    cases hlast
    refine ⟨_, other, more, rfl, halpha, mem_dotted h.isDotted other ?_⟩
    rw [← List.mem_reverse, hreverse]
    exact List.mem_cons_of_mem _ List.mem_cons_self

theorem getLast?_name {name : String} (h : Symbol.TypstName name)
    : ∃ c, name.toList.getLast? = some c ∧ c.isAlpha := by
  obtain ⟨last, other, more, hreverse, halpha, _⟩ := reverse_name h
  refine ⟨last, ?_, halpha⟩
  rw [List.getLast?_eq_head?_reverse, hreverse]
  rfl

/--
Whether reversed characters end like a shorthand. Before a dash stands what makes no sign of it.
-/
def endsAsShorthand : (reversed : List Char) → Bool
  | last :: other :: _ => isShorthandTail last && (last != '-' || other == '<' || other == '-')
  | _ => false

theorem shorthands_end : ∀ pair ∈ Symbol.shorthands, endsAsShorthand pair.2.toList.reverse := by
  decide +kernel

theorem reverse_shorthand {name spelling : String} (h : (name, spelling) ∈ Symbol.shorthands)
    : ∃ last other more, spelling.toList.reverse = last :: other :: more ∧ isShorthandTail last ∧
      (last = '-' → other = '<' ∨ other = '-') := by
  have hends : endsAsShorthand spelling.toList.reverse := shorthands_end _ h
  unfold endsAsShorthand at hends
  split at hends
  next last other more hreverse =>
    refine ⟨last, other, more, hreverse, ?_⟩
    simp only [Bool.and_eq_true, Bool.or_eq_true, bne_iff_ne, beq_iff_eq] at hends
    tauto
  . contradiction

theorem shorthand_of_mark {c : Char} (h : c ∈ pieceMarks) (hrest : Follows [c] rest)
    : shorthand (c :: rest) = none := by
  by_cases hstart : c ∈ shorthandStarts
  . have htail : ∀ c ∈ pieceMarks, c ∈ shorthandStarts → isShorthandTail c ∨ c = '|' := by
      decide
    exact shorthand_of_single ((hrest c rfl).2 (htail c h hstart))
  . exact shorthand_of_first hstart rest

theorem lex_pieceMark {c : Char} (h : c ∈ pieceMarks) (hrest : Follows [c] rest)
    : lex (c :: rest) = (.element, String.ofList [c]) :: lex rest :=
  lex_mark ((by decide : ∀ c ∈ pieceMarks, c ∈ marks) c h) (shorthand_of_mark h hrest)

theorem lex_call {name : String} (h : Symbol.TypstName name)
    : lex (name.toList ++ '(' :: rest) = (.symbol, name) :: (.element, "(") :: lex rest := by
  have hparen : EndsName ('(' :: rest) := ⟨notStartsWith_cons.mpr rfl, nofun⟩
  rw [lex_name h hparen]
  exact congrArg _ (lex_mark (by decide) (shorthand_of_first (by decide) rest))

theorem lex_key {name : String} (h : Symbol.TypstName name)
    (hrest : NotStartsWith isShorthandTail rest)
    : lex (name.toList ++ ':' :: rest) = (.symbol, name) :: (.element, ":") :: lex rest := by
  have hcolon : EndsName (':' :: rest) := ⟨notStartsWith_cons.mpr rfl, nofun⟩
  rw [lex_name h hcolon]
  exact congrArg _ (lex_mark (by decide) (shorthand_of_single hrest))

theorem IsWord.lex_append (h : IsWord word) (hrest : Follows word rest)
    : lex (word ++ rest) = lex word ++ lex rest := by
  cases h with
  | letter h =>
    exact lex_append_of [_] (lex_letter h endsName_nil) (lex_letter h ((hrest _ rfl).1 h))
  | name h =>
    obtain ⟨c, hlast, halpha⟩ := getLast?_name h
    exact lex_append_of [_] (lex_name h endsName_nil) (lex_name h ((hrest c hlast).1 halpha))
  | shorthand h =>
    obtain ⟨last, other, more, hreverse, htail, _⟩ := reverse_shorthand h
    have hlast : (List.reverse (last :: other :: more)).getLast? = some last := by simp
    rw [← hreverse, List.reverse_reverse] at hlast
    have hnext := (hrest last hlast).2 (.inl htail)
    exact lex_append_of [_] (lex_shorthand h notStartsWith_nil) (lex_shorthand h hnext)
  | mark h => exact lex_append_of [_] (lex_pieceMark h follows_nil) (lex_pieceMark h hrest)
  | control h => exact lex_append_of [_] (lex_control h) (lex_control h)
  | escaped h => exact lex_append_of [_] (lex_escaped h) (lex_escaped h)
  | call h =>
    apply lex_append_of [_, _]
    . rw [List.append_assoc]
      exact lex_call h
    . rw [List.append_assoc]
      exact lex_call h
  | key h =>
    have hcolon := (hrest ':' (by simp)).2 (.inl (by decide))
    apply lex_append_of [_, _]
    . rw [List.append_assoc]
      exact lex_key h notStartsWith_nil
    . rw [List.append_assoc]
      exact lex_key h hcolon
  | quote h => exact lex_append_of [_] (lex_quote _) (lex_quote _)

theorem IsWord.ne_nil (h : IsWord word) : word ≠ [] := by
  cases h with
  | name h =>
    obtain ⟨c, hlast, _⟩ := getLast?_name h
    rintro hnil
    rw [hnil] at hlast
    contradiction
  | shorthand h =>
    obtain ⟨last, other, more, hreverse, _⟩ := reverse_shorthand h
    rintro hnil
    rw [hnil] at hreverse
    contradiction
  | quote => simp [Typst.quote]
  | _ => simp

theorem getLast?_quote (content : String) : (quote content).toList.getLast? = some '"' := by
  rw [quote, String.toList_ofList]
  exact List.getLast?_concat

theorem reverse_of_getLast? {c : Char} (h : word.getLast? = some c)
    : ∃ more, word.reverse = c :: more := by
  rw [List.getLast?_eq_head?_reverse] at h
  cases hreverse : word.reverse with
  | nil =>
    rw [hreverse] at h
    contradiction
  | cons d more =>
    rw [hreverse] at h
    cases h
    exact ⟨more, rfl⟩

theorem endsWithLeadingSign_of_ne {c : Char} (hminus : c ≠ '-') (hplus : c ≠ '+')
    (before : List Char) : Line.endsWithLeadingSign (c :: before) = false := by
  unfold Line.endsWithLeadingSign
  rw [Bool.and_eq_false_iff]
  left
  split
  all_goals simp_all

theorem IsWord.of_dash (h : IsWord word) (hlast : word.getLast? = some '-')
    : ∃ other more, word.reverse = '-' :: other :: more ∧ (other = '<' ∨ other = '-') := by
  cases h with
  | shorthand h =>
    obtain ⟨last, other, more, hreverse, _, hdash⟩ := reverse_shorthand h
    rw [List.getLast?_eq_head?_reverse, hreverse] at hlast
    cases hlast
    exact ⟨other, more, hreverse, hdash rfl⟩
  | name h =>
    obtain ⟨c, hc, halpha⟩ := getLast?_name h
    rw [hlast] at hc
    cases hc
    contradiction
  | quote h =>
    rw [getLast?_quote] at hlast
    contradiction
  | letter h | mark h | control h | escaped h =>
    cases hlast
    exact absurd h (by decide)
  | call h | key h => simp at hlast

theorem IsWord.endsWithLeadingSign (h : IsWord word) {c : Char} (hlast : word.getLast? = some c)
    (hplus : c ≠ '+') (front : List Char)
    : Line.endsWithLeadingSign (word.reverse ++ front) = false := by
  by_cases hminus : c = '-'
  . subst hminus
    obtain ⟨other, more, hreverse, hother⟩ := h.of_dash hlast
    rw [hreverse]
    rcases hother with rfl | rfl
    all_goals rfl
  . obtain ⟨more, hreverse⟩ := reverse_of_getLast? hlast
    rw [hreverse]
    exact endsWithLeadingSign_of_ne hminus hplus _

end IsWord

theorem first_name {name : String} (h : Symbol.TypstName name)
    : ∃ c rest, name.toList = c :: rest ∧ c.isAlpha := by
  have hdotted := h.isDotted
  cases hname : name.toList with
  | nil =>
    rw [hname] at hdotted
    contradiction
  | cons c rest =>
    rw [hname] at hdotted
    unfold Symbol.isDotted at hdotted
    split at hdotted
    . simp at hdotted
    . simp only [Bool.and_eq_true] at hdotted
      exact ⟨c, rest, rfl, hdotted.1⟩

theorem IsWord.solid {text : String} (h : IsWord text.toList) : Solid text := by
  generalize hword : text.toList = word at h
  cases h with
  | letter h => exact ⟨_, _, hword, isBlank_of_isAlpha h⟩
  | name h =>
    obtain ⟨c, rest, hname, halpha⟩ := first_name h
    exact ⟨c, rest, hword.trans hname, isBlank_of_isAlpha halpha⟩
  | call h | key h =>
    obtain ⟨c, rest, hname, halpha⟩ := first_name h
    rw [hname] at hword
    exact ⟨c, _, hword, isBlank_of_isAlpha halpha⟩
  | shorthand h =>
    obtain ⟨htwo, _, hfirst⟩ := shorthands_spelling _ h
    dsimp only at htwo hfirst
    rw [← hword] at htwo hfirst
    cases htext : text.toList with
    | nil =>
      rw [htext] at htwo
      contradiction
    | cons c rest =>
      rw [htext] at hfirst
      exact ⟨c, rest, htext, (shorthandStart_spec c (hfirst c rfl)).2.1⟩
  | mark h => exact ⟨_, _, hword, (by decide : ∀ c ∈ pieceMarks, isBlank c = false) _ h⟩
  | control h => exact ⟨_, _, hword, (by decide : ∀ c ∈ ['_', '^', '&'], isBlank c = false) _ h⟩
  | escaped h => exact ⟨_, _, hword, rfl⟩
  | quote h =>
    rw [Typst.quote, String.toList_ofList] at hword
    exact ⟨_, _, hword, rfl⟩

section Follows

variable {line : Line} {text : String} {pieces : List Piece} {last : Char} {before : List Char}

theorem joinable_first : ∀ text ∈ Line.joinable,
    NotStartsWith Char.isAlphanum text.toList ∧ NotStartsWith isShorthandTail text.toList := by
  decide

theorem isShorthandTail_of_continue {c : Char} (h : isIdentifierContinue c)
    : isShorthandTail c = false := by
  rw [Bool.eq_false_iff]
  intro htail
  simp only [isShorthandTail, List.contains_iff_mem] at htail
  exact absurd h ((by decide : ∀ c ∈ ['-', '>', '=', '~', '<', ':', '.'],
    ¬ isIdentifierContinue c) c htail)

theorem notStartsWith_of_headD {p : Char → Bool} {cs : List Char} (hne : cs ≠ [])
    (h : p (cs.headD ' ') = false) : NotStartsWith p cs := by
  cases cs with
  | nil => contradiction
  | cons c cs => exact notStartsWith_cons.mpr h

/--
What is written after a word that is no number goes on with neither a name nor a shorthand.
-/
theorem emit_after (hline : line.reversed = last :: before) (hblank : isBlank last = false)
    (hopen : last ∉ ['(', '_', '^', '\'', '{', '[', '&', '/']) (hdigit : last.isDigit = false)
    (hsign : Line.endsWithLeadingSign (last :: before) = false)
    (hsolid : ∀ text, .token text ∈ pieces → Solid text)
    : NotStartsWith isShorthandTail (line.emit pieces) ∧
      (last ≠ '|' → NotStartsWith Char.isAlphanum (line.emit pieces)) := by
  have hjoined {text : String} {rest : List Piece} (hpieces : pieces = .token text :: rest)
      (h : line.needsSpace text = false)
      : text ∈ Line.joinable ∨
        (last = '|' ∧ text.toList ≠ [] ∧ isIdentifierContinue (text.toList.headD ' ')) := by
    obtain ⟨first, more, htext, _⟩ := hsolid text (hpieces ▸ List.mem_cons_self)
    rcases Line.first_of_joined hline hblank hopen hsign h with hmem | hbar | hdigits
    . exact .inl hmem
    . exact .inr ⟨hbar.1, by simp [htext], hbar.2⟩
    . rw [hdigit] at hdigits
      exact absurd hdigits.1 Bool.false_ne_true
  constructor
  . apply Line.notStartsWith_emit hline hblank rfl (by decide) hsolid
    intro text rest hpieces h
    rcases hjoined hpieces h with hmem | ⟨_, hne, hcontinue⟩
    . exact (joinable_first text hmem).2
    . exact notStartsWith_of_headD hne (isShorthandTail_of_continue hcontinue)
  . intro hbar
    apply Line.notStartsWith_emit hline hblank rfl (by decide) hsolid
    intro text rest hpieces h
    rcases hjoined hpieces h with hmem | ⟨heq, _⟩
    . exact (joinable_first text hmem).1
    . contradiction

theorem IsWord.follows (h : IsWord text.toList)
    (hsolid : ∀ text, .token text ∈ pieces → Solid text)
    : Follows text.toList ((line.push text).emit pieces) := by
  intro c hlast
  obtain ⟨more, hreverse⟩ := reverse_of_getLast? hlast
  have hreversed := line.push_reversed h.solid
  rw [List.reverse_append, List.append_assoc] at hreversed
  have hsign (hplus : c ≠ '+') := h.endsWithLeadingSign hlast hplus
    ((line.gap text).reverse ++ line.reversed)
  rw [hreverse, List.cons_append] at hreversed hsign
  constructor
  . intro halpha
    have hne : ∀ d ∈ ['+', '|', '(', '_', '^', '\'', '{', '[', '&', '/'], c ≠ d := by
      rintro d hd rfl
      exact (by decide : ∀ d ∈ ['+', '|', '(', '_', '^', '\'', '{', '[', '&', '/'],
        ¬ d.isAlpha) c hd halpha
    have hafter := emit_after hreversed (isBlank_of_isAlpha halpha)
      (fun hmem => hne c (List.mem_cons_of_mem _ (List.mem_cons_of_mem _ hmem)) rfl)
      (isDigit_of_isAlpha halpha) (hsign (hne _ (by decide))) hsolid
    refine ⟨?_, ?_⟩
    . intro d hd
      have halphanum := hafter.2 (hne _ (by decide)) d hd
      simp only [Char.isAlphanum, Bool.or_eq_false_iff] at halphanum
      exact halphanum.1
    . intro cs hcs
      have := hafter.1 '.' (by rw [hcs]; rfl)
      contradiction
  . intro htail
    have hmem : c ∈ ['-', '>', '=', '~', '<', ':', '.', '|'] := by
      simp only [isShorthandTail, List.contains_iff_mem, List.mem_cons, List.not_mem_nil,
        or_false] at htail ⊢
      tauto
    have hclass : ∀ c ∈ ['-', '>', '=', '~', '<', ':', '.', '|'], isBlank c = false ∧
        c ∉ ['(', '_', '^', '\'', '{', '[', '&', '/'] ∧ c.isDigit = false ∧ c ≠ '+' := by
      decide
    obtain ⟨hblank, hopen, hdigit, hplus⟩ := hclass c hmem
    exact (emit_after hreversed hblank hopen hdigit (hsign hplus) hsolid).1

end Follows

/--
The tokens before which no space is written though a soft space is kept.
-/
def markers : List String :=
  ["_", "^", "'", "!", "/"]

/--
Pieces before which a soft space may stand.
-/
def NotMarked (pieces : List Piece) : Prop :=
  ∀ text, (tokenTexts pieces).head? = some text → text ∉ markers

/--
Pieces that can be told apart once they are written: numbers are not side by side, there is no
comment, and a soft space does not stand before a script.
-/
inductive Fits : List Piece → Prop where
  | nil : Fits []
  | soft {pieces : List Piece} (hnext : NotMarked pieces) (hpieces : Fits pieces) :
    Fits (.softSpace :: pieces)
  | word {text : String} {pieces : List Piece} (h : IsWord text.toList) (hpieces : Fits pieces) :
    Fits (.token text :: pieces)
  | number {text : String} {pieces : List Piece} (h : ∀ c ∈ text.toList, c.isDigit)
    (hne : text.toList ≠ []) (hnext : NotStartsWith Char.isDigit (joined pieces))
    (hpieces : Fits pieces) : Fits (.token text :: pieces)
  | slash {pieces : List Piece} (hnext : NotStartsWith (· == '/') (joined pieces))
    (hpieces : Fits pieces) : Fits (.token "/" :: pieces)
  | nothing {pieces : List Piece} (hpieces : Fits (.token "," :: pieces)) :
    Fits (.token "#none" :: .token "," :: pieces)

/--
Whether the last token is a name, which a parenthesis after it would call.
-/
def endsWithName (lexemes : List Lexeme) : Bool :=
  lexemes.getLast?.any (·.1 == .symbol)

/--
The tokens of pieces with spaces in between. `afterName` says whether the token before is a name.
-/
inductive Spaced : (afterName : Bool) → List Piece → List Lexeme → Prop where
  | nil {afterName : Bool} : Spaced afterName [] []
  | soft {afterName : Bool} {pieces : List Piece} {lexemes : List Lexeme}
    (h : Spaced afterName pieces lexemes) : Spaced afterName (.softSpace :: pieces) lexemes
  | joined {afterName : Bool} {text : String} {pieces : List Piece} {lexemes : List Lexeme}
    (hcall : afterName = true → text ≠ "(")
    (h : Spaced (endsWithName (lex text.toList)) pieces lexemes) :
    Spaced afterName (.token text :: pieces) (lex text.toList ++ lexemes)
  | spaced {afterName : Bool} {text : String} {pieces : List Piece} {lexemes : List Lexeme}
    (htight : text ∉ Line.tight) (h : Spaced (endsWithName (lex text.toList)) pieces lexemes) :
    Spaced afterName (.token text :: pieces) ((.space, " ") :: (lex text.toList ++ lexemes))

section Spaced

variable {line : Line} {text : String} {pieces : List Piece}

theorem solid_number (h : ∀ c ∈ text.toList, c.isDigit) (hne : text.toList ≠ []) : Solid text := by
  cases htext : text.toList with
  | nil => contradiction
  | cons c rest =>
    rw [htext] at h
    exact ⟨c, rest, htext, isBlank_of_isDigit (h c List.mem_cons_self)⟩

theorem Fits.solid (h : Fits pieces) : ∀ text, .token text ∈ pieces → Solid text := by
  induction h with
  | nil => exact nofun
  | soft _ _ ih =>
    intro text hmem
    cases hmem with
    | tail _ hmem => exact ih text hmem
  | word hword _ ih =>
    intro text hmem
    cases hmem with
    | head => exact hword.solid
    | tail _ hmem => exact ih text hmem
  | number hdigits hne _ _ ih =>
    intro text hmem
    cases hmem with
    | head => exact solid_number hdigits hne
    | tail _ hmem => exact ih text hmem
  | slash _ _ ih =>
    intro text hmem
    cases hmem with
    | head => exact ⟨'/', [], rfl, rfl⟩
    | tail _ hmem => exact ih text hmem
  | nothing _ ih =>
    intro text hmem
    cases hmem with
    | head => exact ⟨'#', ['n', 'o', 'n', 'e'], rfl, rfl⟩
    | tail _ hmem => exact ih text hmem

theorem push_last {last : Char} (h : Solid text) (hlast : text.toList.getLast? = some last)
    : ∃ before, (line.push text).reversed = last :: before := by
  obtain ⟨more, hreverse⟩ := reverse_of_getLast? hlast
  refine ⟨more ++ ((line.gap text).reverse ++ line.reversed), ?_⟩
  rw [line.push_reversed h, List.reverse_append, hreverse, List.append_assoc]
  rfl

/--
A piece whose tokens do not depend on what is written after it.
-/
structure CutsOff (text : String) (pieces : List Piece) : Prop where
  solid : Solid text
  lex_append : ∀ line : Line, lex (text.toList ++ (line.push text).emit pieces) =
    lex text.toList ++ lex ((line.push text).emit pieces)
  opens : endsWithName (lex text.toList) = true →
    ∀ line : Line, (line.push text).needsSpace "(" = true
  ends : ∀ c, text.toList.getLast? = some c → c.isAlpha →
    ∀ line : Line, NotStartsWith Char.isAlpha ((line.push text).emit pieces)

theorem not_endsWithName {kind : Kind} (h : kind ≠ .symbol) (text : String)
    : endsWithName [(kind, text)] = false := by
  simp [endsWithName, h]

theorem notStartsWith_joined {p : Char → Bool} {rest : List Piece} (h : Solid text)
    (hjoined : NotStartsWith p (joined (.token text :: rest))) : NotStartsWith p text.toList := by
  obtain ⟨first, more, htext, _⟩ := h
  rw [joined, List.flatMap_cons, Piece.chars, notStartsWith_append (by simp [htext])] at hjoined
  exact hjoined

theorem endsNumber_of_notStartsWith {rest : List Char}
    (h : NotStartsWith (fun c => c.isDigit || c == '.') rest) : EndsNumber rest := by
  constructor
  . intro c hc
    have := h c hc
    simp only [Bool.or_eq_false_iff] at this
    exact this.1
  . intro cs hcs
    have := h '.' (by rw [hcs]; rfl)
    contradiction

theorem cutsOff_number (h : ∀ c ∈ text.toList, c.isDigit) (hne : text.toList ≠ [])
    (hnext : NotStartsWith Char.isDigit (joined pieces)) (hpieces : Fits pieces)
    : CutsOff text pieces := by
  have hsolid := solid_number h hne
  have halone := lex_number h hne (endsNumber_of_notStartsWith notStartsWith_nil)
  refine ⟨hsolid, fun line => ?_, fun hname => ?_, fun c hc halpha => ?_⟩
  . apply lex_append_of [_] halone
    apply lex_number h hne
    apply endsNumber_of_notStartsWith
    have hlast := List.getLast?_eq_some_getLast hne
    have hdigit := h _ (List.getLast_mem hne)
    obtain ⟨before, hline⟩ := @push_last line text _ hsolid hlast
    have hnot : ∀ d ∈ ['+', '-', '|', '(', '_', '^', '\'', '{', '[', '&', '/'],
        text.toList.getLast hne ≠ d := by
      intro d hd heq
      rw [heq] at hdigit
      exact (by decide : ∀ d ∈ ['+', '-', '|', '(', '_', '^', '\'', '{', '[', '&', '/'],
        ¬ d.isDigit) d hd hdigit
    have hopen : text.toList.getLast hne ∉ ['(', '_', '^', '\'', '{', '[', '&', '/'] :=
      fun hmem => hnot _ (List.mem_append_right ['+', '-', '|'] hmem) rfl
    apply Line.notStartsWith_emit hline (isBlank_of_isDigit hdigit) rfl (by decide) hpieces.solid
    intro token rest heq hspace
    subst heq
    have htoken := hpieces.solid token List.mem_cons_self
    rcases Line.first_of_joined hline (isBlank_of_isDigit hdigit) hopen
      (endsWithLeadingSign_of_ne (hnot _ (by decide)) (hnot _ (by decide)) before) hspace with
      hmem | hbar | hdigits
    . exact (by decide : ∀ text ∈ Line.joinable,
        NotStartsWith (fun c => c.isDigit || c == '.') text.toList) token hmem
    . exact absurd hbar.1 (hnot _ (by decide))
    . have hfirst := notStartsWith_joined htoken hnext
      obtain ⟨first, more, htext, _⟩ := htoken
      rw [htext] at hfirst hdigits
      rw [notStartsWith_cons] at hfirst
      rw [List.headD_cons, hfirst] at hdigits
      exact absurd hdigits.2 Bool.false_ne_true
  . rw [List.append_nil, lex_nil] at halone
    rw [halone, not_endsWithName (by decide)] at hname
    contradiction
  . have hdigit := h c (List.mem_of_getLast? hc)
    rw [isDigit_of_isAlpha halpha] at hdigit
    contradiction

theorem cutsOff_slash (hnext : NotStartsWith (· == '/') (joined pieces)) (hpieces : Fits pieces)
    : CutsOff "/" pieces := by
  have hsolid : Solid "/" := ⟨'/', [], rfl, rfl⟩
  have halone : lex "/".toList = [(.element, "/")] := by
    rw [← lex_nil]
    exact lex_slash notStartsWith_nil
  refine ⟨hsolid, fun line => ?_, fun hname => ?_, ?_⟩
  . rw [halone]
    apply lex_slash
    obtain ⟨before, hline⟩ := @push_last line "/" '/' hsolid rfl
    apply Line.notStartsWith_emit hline rfl rfl (by decide) hpieces.solid
    intro token rest heq _
    subst heq
    exact notStartsWith_joined (hpieces.solid token List.mem_cons_self) hnext
  . rw [halone] at hname
    contradiction
  . rintro _ ⟨⟩
    exact nofun

theorem cutsOff_nothing : CutsOff "#none" (.token "," :: pieces) := by
  have halone : lex "#none".toList = [(.nothing, "#none")] := by
    rw [← lex_nil]
    exact lex_nothing notStartsWith_nil
  refine ⟨⟨'#', ['n', 'o', 'n', 'e'], rfl, rfl⟩, fun line => ?_, fun hname => ?_, fun _ _ _ _ => ?_⟩
  . rw [halone]
    apply lex_nothing
    rw [Line.emit, Line.gap, Line.needsSpace_of_tight (by decide)]
    exact notStartsWith_cons.mpr rfl
  . rw [halone] at hname
    contradiction
  . rw [Line.emit, Line.gap, Line.needsSpace_of_tight (by decide)]
    exact notStartsWith_cons.mpr rfl

theorem needsSpace_paren {last : Char} {before : List Char} (hline : line.reversed = last :: before)
    (hblank : isBlank last = false) (hopen : last ∉ ['(', '_', '^', '\'', '{'])
    : line.needsSpace "(" = !Line.opensWithoutSpace (last :: before) := by
  simp only [List.mem_cons, List.not_mem_nil, or_false, not_or] at hopen
  obtain ⟨hparen, hsub, hsup, hprime, hbrace⟩ := hopen
  have hcontinue : isIdentifierContinue '(' = false := rfl
  unfold Line.needsSpace
  rw [hline]
  simp [hblank, hbrace, hcontinue]

theorem lex_quote_alone (content : String) : lex (quote content).toList = [(.text, content)] := by
  have hlex := @lex_quote [] content
  rwa [List.append_nil, lex_nil] at hlex

theorem push_reverse_last (hsolid : Solid text) {last other : Char} {more : List Char}
    (hreverse : text.toList.reverse = last :: other :: more)
    : ∃ before, (line.push text).reversed = last :: other :: before := by
  refine ⟨more ++ ((line.gap text).reverse ++ line.reversed), ?_⟩
  rw [line.push_reversed hsolid, List.reverse_append, hreverse, List.append_assoc]
  rfl

theorem isIdentifierStart_of_isAlpha {c : Char} (h : c.isAlpha) : isIdentifierStart c := by
  have hascii : c.toNat < 128 := by
    rw [isAlpha_iff] at h
    omega
  simp only [isIdentifierStart, if_pos hascii, h]

theorem opens_name {name : String} (h : Symbol.TypstName name) (hsolid : Solid name) (line : Line)
    : (line.push name).needsSpace "(" = true := by
  obtain ⟨last, other, more, hreverse, halpha, hother⟩ := reverse_name h
  obtain ⟨before, hline⟩ := @push_reverse_last line name hsolid _ _ _ hreverse
  have hopen : last ∉ [')', ']', '\'', '(', '[', '{', '_', '^'] := by
    intro hmem
    exact (by decide : ∀ d ∈ [')', ']', '\'', '(', '[', '{', '_', '^'], ¬ d.isAlpha) last hmem halpha
  have hcontinues : (isIdentifierStart other || other == '.') = true := by
    rcases hother with hother | rfl
    . rw [isIdentifierStart_of_isAlpha hother, Bool.true_or]
    . rfl
  simp only [List.mem_cons, List.not_mem_nil, or_false, not_or] at hopen
  rw [needsSpace_paren hline (isBlank_of_isAlpha halpha) (by simp [hopen])]
  simp [Line.opensWithoutSpace, isDigit_of_isAlpha halpha, isIdentifierStart_of_isAlpha halpha,
    hcontinues, hopen]

theorem opens_shorthand {name spelling : String} (h : (name, spelling) ∈ Symbol.shorthands)
    (hsolid : Solid spelling) (line : Line) : (line.push spelling).needsSpace "(" = true := by
  obtain ⟨last, other, more, hreverse, htail, _⟩ := reverse_shorthand h
  obtain ⟨before, hline⟩ := @push_reverse_last line spelling hsolid _ _ _ hreverse
  simp only [isShorthandTail, List.contains_iff_mem, List.mem_cons, List.not_mem_nil,
    or_false] at htail
  rcases htail with rfl | rfl | rfl | rfl | rfl | rfl | rfl
  all_goals
    rw [needsSpace_paren hline rfl (by decide)]
    rfl

theorem cutsOff_word (h : IsWord text.toList) (hpieces : Fits pieces) : CutsOff text pieces := by
  refine ⟨h.solid, fun line => h.lex_append (h.follows hpieces.solid), fun hname line => ?_,
    fun c hc halpha line => ((h.follows hpieces.solid c hc).1 halpha).1⟩
  have hsolid := h.solid
  generalize hword : text.toList = word at h hname
  -- Only a name and a shorthand end in a symbol.
  cases h with
  | name h =>
    rw [String.toList_inj] at hword
    subst hword
    exact opens_name h hsolid line
  | shorthand h =>
    rw [String.toList_inj] at hword
    subst hword
    exact opens_shorthand h hsolid line
  | letter h =>
    rw [lex_letter h endsName_nil, lex_nil, not_endsWithName (by decide)] at hname
    contradiction
  | mark h =>
    rw [lex_pieceMark h follows_nil, lex_nil, not_endsWithName (by decide)] at hname
    contradiction
  | control h =>
    rw [lex_control h, lex_nil, not_endsWithName (by decide)] at hname
    contradiction
  | escaped h =>
    rw [lex_escaped h, lex_nil, not_endsWithName (by decide)] at hname
    contradiction
  | call h =>
    rw [lex_call h, lex_nil] at hname
    contradiction
  | key h =>
    rw [lex_key h notStartsWith_nil, lex_nil] at hname
    contradiction
  | quote h =>
    rw [lex_quote_alone, not_endsWithName (by decide)] at hname
    contradiction

theorem Fits.token_inv (h : Fits (.token text :: pieces)) : CutsOff text pieces ∧ Fits pieces := by
  cases h with
  | word h hpieces => exact ⟨cutsOff_word h hpieces, hpieces⟩
  | number h hne hnext hpieces => exact ⟨cutsOff_number h hne hnext hpieces, hpieces⟩
  | slash hnext hpieces => exact ⟨cutsOff_slash hnext hpieces, hpieces⟩
  | nothing hpieces => exact ⟨cutsOff_nothing, hpieces⟩

theorem Fits.soft_inv (h : Fits (.softSpace :: pieces)) : NotMarked pieces ∧ Fits pieces := by
  cases h with
  | soft hnext hpieces => exact ⟨hnext, hpieces⟩

section AfterBlank

variable {last : Char} {before : List Char} (hline : line.reversed = last :: before)
  (hlast : isBlank last)

include hline hlast

theorem emit_soft_after_blank : line.emit (.softSpace :: pieces) = line.emit pieces := by
  rw [Line.emit]
  split
  . rfl
  . rw [Line.softGap, Line.space, hline]
    simp only [hlast, if_true, List.nil_append]

theorem emit_token_after_blank
    : line.emit (.token text :: pieces) = text.toList ++ (line.push text).emit pieces := by
  rw [Line.emit, Line.gap, Line.needsSpace_of_blank hline hlast]
  rfl

theorem notStartsWith_blank (hpieces : Fits pieces) : NotStartsWith isBlank (line.emit pieces) := by
  induction pieces with
  | nil => exact notStartsWith_nil
  | cons piece pieces ih =>
    cases piece with
    | softSpace =>
      rw [emit_soft_after_blank hline hlast]
      exact ih hpieces.soft_inv.2
    | token text =>
      obtain ⟨first, rest, htext, hblank⟩ := hpieces.solid text List.mem_cons_self
      rw [emit_token_after_blank hline hlast, htext]
      exact notStartsWith_cons.mpr hblank

end AfterBlank

theorem not_tight (hdrops : Line.dropsSoftSpace (.token text :: pieces) = false)
    (hmarker : NotMarked (.token text :: pieces)) : text ∉ Line.tight := by
  have hfirst := hmarker text rfl
  intro hmem
  simp only [Line.tight, List.mem_cons, List.not_mem_nil, or_false] at hmem
  rcases hmem with rfl | rfl | rfl | rfl | rfl | rfl | rfl | rfl | rfl | rfl
  all_goals contradiction

/--
What is written for pieces is cut into their tokens, with spaces in between. This also holds of the
space that has been written for a soft space before them.
-/
structure Settled (pieces : List Piece) : Prop where
  spaced : ∀ (line : Line) (afterName : Bool), (afterName = true → line.needsSpace "(" = true) →
    Spaced afterName pieces (lex (line.emit pieces))
  spaced_blank : ∀ (line : Line) (last : Char) (before : List Char) (afterName : Bool),
    line.reversed = last :: before → isBlank last = true → Line.dropsSoftSpace pieces = false →
    NotMarked pieces → Spaced afterName pieces ((.space, " ") :: lex (line.emit pieces))

theorem settled_soft (hpieces : Fits pieces) (hmarker : NotMarked pieces) (h : Settled pieces)
    : Settled (.softSpace :: pieces) := by
  constructor
  . intro line afterName hline
    rw [Line.emit]
    split
    . exact .soft (h.spaced line afterName hline)
    next hdrops =>
      rw [Line.softGap]
      cases hreversed : line.reversed with
      | nil =>
        have hspace : line.space = line := by rw [Line.space, hreversed]
        rw [hspace]
        exact .soft (h.spaced line afterName hline)
      | cons last before =>
        by_cases hlast : isBlank last = true
        . have hspace : line.space = line := by
            rw [Line.space, hreversed]
            exact if_pos hlast
          rw [hspace]
          simp only [hlast, if_true, List.nil_append]
          exact .soft (h.spaced line afterName hline)
        . have hspace : line.space.reversed = ' ' :: last :: before := by
            rw [Line.space, hreversed]
            simp only [if_neg hlast]
          simp only [if_neg hlast, List.singleton_append]
          rw [lex_space (notStartsWith_blank hspace rfl hpieces)]
          apply Spaced.soft
          exact h.spaced_blank _ _ _ _ hspace rfl (Bool.eq_false_iff.mpr hdrops) hmarker
  . intro line last before afterName hline hlast hdrops _
    rw [emit_soft_after_blank hline hlast]
    exact .soft (h.spaced_blank _ _ _ _ hline hlast hdrops hmarker)

theorem settled_token (hcuts : CutsOff text pieces) (h : Settled pieces)
    : Settled (.token text :: pieces) := by
  have hafter (line : Line) : Spaced (endsWithName (lex text.toList)) pieces
      (lex ((line.push text).emit pieces)) :=
    h.spaced _ _ fun hname => hcuts.opens hname line
  constructor
  . intro line afterName hline
    rw [Line.emit, Line.gap]
    split
    next hspace =>
      obtain ⟨first, rest, htext, hblank⟩ := hcuts.solid
      have hnext : NotStartsWith isBlank (text.toList ++ (line.push text).emit pieces) := by
        rw [htext]
        exact notStartsWith_cons.mpr hblank
      rw [List.append_assoc, List.singleton_append, lex_space hnext, hcuts.lex_append]
      apply Spaced.spaced _ (hafter line)
      intro hmem
      rw [Line.needsSpace_of_tight hmem] at hspace
      contradiction
    next hjoined =>
      rw [List.nil_append, hcuts.lex_append]
      apply Spaced.joined _ (hafter line)
      rintro hname rfl
      exact hjoined (hline hname)
  . intro line last before afterName hline hlast hdrops hmarker
    rw [emit_token_after_blank hline hlast, hcuts.lex_append]
    exact .spaced (not_tight hdrops hmarker) (hafter line)

theorem Fits.settled (h : Fits pieces) : Settled pieces := by
  induction pieces with
  | nil => exact ⟨fun _ _ _ => by rw [Line.emit, lex_nil]; exact .nil, nofun⟩
  | cons piece pieces ih =>
    cases piece with
    | softSpace => exact settled_soft h.soft_inv.2 h.soft_inv.1 (ih h.soft_inv.2)
    | token text => exact settled_token h.token_inv.1 (ih h.token_inv.2)

end Spaced

end Typst
end MathMarkup
