import MathMarkup.Proofs.Typst.RoundTrip

/-!
This module contains single letters and names as they are written and cut into tokens. A letter may
be any alphabetic character, and a name may be that of a function for rounding.
-/

namespace MathMarkup

namespace Text

section Letters

variable {c : Char}

theorem blanks_not_alphabetic : ∀ range ∈ wideBlanks,
    ∀ code ∈ List.range' range.1 (range.2 + 1 - range.1),
    isAlphabetic (Char.ofNat code) = false := by
  decide +kernel

theorem isAlpha_of_isAlphabetic (h : isAlphabetic c) (hascii : c.toNat < 128) : c.isAlpha := by
  rwa [isAlphabetic, if_pos hascii] at h

theorem isAlphabetic_of_isAlpha (h : c.isAlpha) : isAlphabetic c := by
  have hascii : c.toNat < 128 := by
    have hrange := isAlpha_iff.mp h
    omega
  rw [isAlphabetic, if_pos hascii]
  exact h

theorem isBlank_of_isAlphabetic (h : isAlphabetic c) : isBlank c = false := by
  by_cases hascii : c.toNat < 128
  . exact isBlank_of_isAlpha (isAlpha_of_isAlphabetic h hascii)
  . rw [Bool.eq_false_iff]
    intro hblank
    have hwide : inRanges wideBlanks c := by
      simp only [isBlank, Bool.or_eq_true, Bool.and_eq_true, decide_eq_true_eq,
        beq_iff_eq] at hblank
      rcases hblank with (rfl | hblank) | hblank
      . contradiction
      . omega
      . exact hblank.2
    obtain ⟨range, hrange, hle⟩ := List.any_eq_true.mp hwide
    simp only [Bool.and_eq_true, decide_eq_true_eq] at hle
    have hcode : c.toNat ∈ List.range' range.1 (range.2 + 1 - range.1) := by
      rw [List.mem_range'_1]
      omega
    have hnot := blanks_not_alphabetic range hrange c.toNat hcode
    rw [Char.ofNat_toNat, h] at hnot
    contradiction

end Letters

/--
A single letter.
-/
structure AlphabeticChar where
  char : Char
  alphabetic : isAlphabetic char

namespace AlphabeticChar

def text (letter : AlphabeticChar) : String :=
  String.ofList [letter.char]

@[simp]
theorem toList_text (letter : AlphabeticChar) : letter.text.toList = [letter.char] :=
  String.toList_ofList

theorem text_not_mem (letter : AlphabeticChar)
    : letter.text ∉ [",", ";", ":", "'", "/", "(", ")"] := by
  intro hmem
  have hmarks : ∀ text ∈ [",", ";", ":", "'", "/", "(", ")"],
      text.toList.all isAlphabetic = false := by
    decide +kernel
  have halphabetic := hmarks _ hmem
  rw [toList_text, List.all_cons, letter.alphabetic] at halphabetic
  contradiction

end AlphabeticChar

end Text

namespace Typst

open Text Scan Formula

section Letters

variable {c : Char} {rest : List Char}

theorem alphabetic_spec (h : isAlphabetic c)
    : c ∉ specials ++ marks ++ shorthandStarts ++ ['$'] := by
  intro hmem
  exact (by decide +kernel : ∀ d ∈ specials ++ marks ++ shorthandStarts ++ ['$'],
    ¬ isAlphabetic d) c hmem h

theorem isDigit_of_isAlphabetic (h : isAlphabetic c) : c.isDigit = false := by
  rw [Bool.eq_false_iff]
  intro hdigit
  have hascii : c.toNat < 128 := by
    rw [isDigit_iff] at hdigit
    omega
  rw [isDigit_of_isAlpha (isAlpha_of_isAlphabetic h hascii)] at hdigit
  contradiction

theorem lex_alphabetic (h : isAlphabetic c) (hrest : EndsName rest)
    : lex (c :: rest) = (.element, String.ofList [c]) :: lex rest := by
  -- The rule for names begins with an ASCII letter. All other letters are left to the last rule.
  cases halpha : c.isAlpha with
  | true => exact lex_letter halpha hrest
  | false =>
    have hclass := alphabetic_spec h
    simp only [List.mem_append, not_or, List.mem_singleton] at hclass
    obtain ⟨⟨⟨hspecial, _⟩, hshorthand⟩, hdollar⟩ := hclass
    have hne : ∀ d ∈ ['#', '"', '\\'], c ≠ d := by
      rintro d hd rfl
      exact hspecial ((by decide : ∀ d ∈ ['#', '"', '\\'], d ∈ specials) c hd)
    obtain ⟨rule, hmem, hrule⟩ : ∃ rule ∈ wordRules.drop 2,
        rule (c :: rest) = some (.verbatim .element [c]) := by
      refine ⟨_, List.mem_of_getElem? (i := 5) rfl, ?_⟩
      simp only [List.forall_mem_cons] at hne
      simp only [Rule.char]
      split
      all_goals simp_all
    have hbest : best rules (c :: rest) = some (.verbatim .element [c]) := by
      rw [best_of_not_special hspecial (isBlank_of_isAlphabetic h)]
      apply (best_of_none (shorthand_of_first hshorthand rest)).trans
      apply (best_of_none (number_of_not_digit rest (isDigit_of_isAlphabetic h))).trans
      exact best_eq_of_unique _ hmem hrule Nat.one_pos
        (wordRules_of_not_alpha halpha (hne _ (by decide)) rest)
    exact cut_of_verbatim [] hbest

theorem solid_letter (letter : AlphabeticChar) : Solid letter.text :=
  ⟨letter.char, [], letter.toList_text, isBlank_of_isAlphabetic letter.alphabetic⟩

end Letters

section Gaps

variable {line : Line} {last : Char} {before : List Char} {text : String}

/--
The characters after which no space is written, or not before every word.
-/
def openers : List Char :=
  ['(', '_', '^', '\'', '{', '[', '&', '/', '-', '+', '|']

theorem openers_not_alphabetic : ∀ c ∈ openers, isAlphabetic c = false := by
  decide +kernel

theorem joinable_not_alphabetic : ∀ text ∈ Line.joinable,
    isAlphabetic (text.toList.headD ' ') = false := by
  decide +kernel

theorem needsSpace_of_alphabetic (hline : line.reversed = last :: before)
    (hlast : isAlphabetic last ∨ last ∈ [',', ')'])
    (hfirst : isAlphabetic (text.toList.headD ' ')) : line.needsSpace text = true := by
  have hspec : isBlank last = false ∧ last ∉ openers := by
    rcases hlast with hlast | hlast
    . refine ⟨isBlank_of_isAlphabetic hlast, fun hmem => ?_⟩
      rw [openers_not_alphabetic last hmem] at hlast
      contradiction
    . exact (by decide : ∀ c ∈ [',', ')'], isBlank c = false ∧ c ∉ openers) last hlast
  obtain ⟨hblank, hopener⟩ := hspec
  have hne : ∀ c ∈ openers, last ≠ c := by
    rintro c hc rfl
    exact hopener hc
  have hopen : last ∉ ['(', '_', '^', '\'', '{', '[', '&', '/'] :=
    fun hmem => hopener (List.mem_append_left ['-', '+', '|'] hmem)
  have hsign := endsWithLeadingSign_of_ne (hne _ (by decide)) (hne _ (by decide)) before
  by_contra hjoined
  rw [Bool.not_eq_true] at hjoined
  rcases Line.first_of_joined hline hblank hopen hsign hjoined with hmem | hbar | hdigits
  . rw [joinable_not_alphabetic text hmem] at hfirst
    contradiction
  . exact hne _ (by decide) hbar.1
  . rw [isDigit_of_isAlphabetic hfirst] at hdigits
    exact absurd hdigits.2 Bool.false_ne_true

theorem emit_tight {text : String} (h : text ∈ Line.tight) (line : Line) (pieces : List Piece)
    : line.emit (.token text :: pieces) = text.toList ++ (line.push text).emit pieces := by
  rw [Line.emit, Line.gap, Line.needsSpace_of_tight h]
  rfl

theorem gap_of_comma (hline : line.reversed = ',' :: before) (letter : AlphabeticChar)
    : line.gap letter.text = [' '] := by
  have hfirst : isAlphabetic (letter.text.toList.headD ' ') := by
    rw [letter.toList_text]
    exact letter.alphabetic
  rw [Line.gap, needsSpace_of_alphabetic hline (.inr (by decide)) hfirst]
  rfl

theorem gap_of_paren (hline : line.reversed = '(' :: before) (text : String)
    : line.gap text = [] := by
  rw [Line.gap, Line.needsSpace, hline]
  rfl

/--
A text that begins and ends with a letter.
-/
structure Lettered (text : String) : Prop where
  first : isAlphabetic (text.toList.headD ' ')
  last : isAlphabetic (text.toList.getLastD ' ')

theorem lettered_letter (letter : AlphabeticChar) : Lettered letter.text := by
  constructor
  all_goals
    rw [letter.toList_text]
    exact letter.alphabetic

theorem Lettered.solid (h : Lettered text) : Solid text := by
  have hfirst := h.first
  cases htext : text.toList with
  | nil =>
    rw [htext] at hfirst
    exact absurd hfirst (by decide)
  | cons c cs =>
    rw [htext] at hfirst
    exact ⟨c, cs, htext, isBlank_of_isAlphabetic hfirst⟩

theorem Lettered.exists_last (h : Lettered text) (line : Line)
    : ∃ last before, (line.push text).reversed = last :: before ∧ isAlphabetic last := by
  obtain ⟨first, rest, htext, _⟩ := h.solid
  have hlast := h.last
  cases hgetLast : text.toList.getLast? with
  | none => simp [htext] at hgetLast
  | some last =>
    rw [List.getLastD_eq_getLast?, hgetLast] at hlast
    obtain ⟨before, hline⟩ := @push_last line text last h.solid hgetLast
    exact ⟨last, before, hline, hlast⟩

theorem emit_words (hline : line.reversed = last :: before) (hlast : isAlphabetic last)
    {words : List String} (h : ∀ word ∈ words, Lettered word)
    : line.emit (words.map .token) = words.flatMap fun word => ' ' :: word.toList := by
  induction words generalizing line last before with
  | nil => rfl
  | cons word words ih =>
    obtain ⟨hword, hwords⟩ := List.forall_mem_cons.mp h
    obtain ⟨next, others, hnext, halpha⟩ := hword.exists_last line
    rw [List.map_cons, Line.emit, Line.gap,
      needsSpace_of_alphabetic hline (.inl hlast) hword.first, ih hnext halpha hwords]
    rfl

theorem emit_words_front {word : String} {words : List String}
    (h : ∀ text ∈ word :: words, Lettered text)
    : Line.emit {} ((word :: words).map .token) =
      word.toList ++ words.flatMap fun word => ' ' :: word.toList := by
  obtain ⟨hword, hwords⟩ := List.forall_mem_cons.mp h
  obtain ⟨next, others, hnext, halpha⟩ := hword.exists_last {}
  rw [List.map_cons, Line.emit, emit_words hnext halpha hwords]
  rfl

theorem write_words {style : Style} {nodes : List Formula} {word : String} {words : List String}
    (hnodes : (eachPieces style {} nodes).flatten = (word :: words).map .token)
    (h : ∀ text ∈ word :: words, Lettered text)
    : write style (.group nodes) =
      String.ofList (cleanUp style
        (word.toList ++ words.flatMap fun word => ' ' :: word.toList)) := by
  have hsolid : ∀ text, Piece.token text ∈ (word :: words).map Piece.token → Solid text := by
    intro text hmem
    obtain ⟨_, hword, heq⟩ := List.mem_map.mp hmem
    cases heq
    exact (h text hword).solid
  have hline := @Line.setPieces_reversed {} _ hsolid
  rw [List.append_nil, emit_words_front h] at hline
  rw [write, Formula.pieces, hnodes, hline, List.reverse_reverse]

end Gaps

section Marks

def argumentMarks : List Char :=
  ['(', ',', ')']

theorem lex_argumentMark {c : Char} (h : c ∈ argumentMarks) (rest : List Char)
    : lex (c :: rest) = (.element, String.ofList [c]) :: lex rest := by
  have hspec : ∀ c ∈ argumentMarks, c ∈ marks ∧ c ∉ shorthandStarts := by decide
  exact lex_mark (hspec c h).1 (shorthand_of_first (hspec c h).2 rest)

theorem endsName_argumentMark {c : Char} (h : c ∈ argumentMarks) (rest : List Char)
    : EndsName (c :: rest) := by
  have hspec : ∀ c ∈ argumentMarks, c.isAlpha = false ∧ c ≠ '.' := by decide
  refine ⟨notStartsWith_cons.mpr (hspec c h).1, fun cs hcs => ?_⟩
  exact absurd (List.head_eq_of_cons_eq hcs) (hspec c h).2

end Marks

section Reading

variable {token : Token} {letter : AlphabeticChar}

theorem atomText_letter (cx : Context) (letter : AlphabeticChar)
    : atomText cx letter.text = letter.text := by
  have hmark := letter.text_not_mem
  simp only [List.mem_cons, not_or] at hmark
  simp [atomText, hmark.1, hmark.2.1]

theorem nested_letter (htoken : token.lexeme = (.element, letter.text)) : Nested Whole [token] := by
  apply nested_mark htoken
  have hmark := letter.text_not_mem
  simp only [List.mem_cons, List.not_mem_nil, or_false, not_or] at hmark
  simp [splitting, hmark]

theorem atomic_letter (htoken : token.lexeme = (.element, letter.text))
    : Atomic false [token] (.atom letter.text) := by
  have htext : token.text = letter.text := congrArg Prod.snd htoken
  have hmark := letter.text_not_mem
  simp only [List.mem_cons, List.not_mem_nil, or_false, not_or] at hmark
  rw [← htext]
  apply atomic_element (congrArg Prod.fst htoken)
  rw [htext]
  simp [hmark]

theorem looseCell_atomic {gap : List Token} {node : Formula} (hgap : IsGap gap)
    (hnested : Nested Whole [token]) (hatomic : Atomic false [token] node)
    (hspace : node.isSpace = false) (hflat : ofList [node] = node)
    : LooseCell (gap ++ [token]) node ∧ isBlankPart (gap ++ [token]) = false := by
  have hreads := (readsAs_gap hgap).append hatomic.readsAs fun _ _ => hatomic.stops
  cases hatomic with
  | intro hbegins =>
    refine ⟨⟨?_, namedArgument?_eq_none hgap hbegins ((nested_gap hgap).append hnested)⟩,
      isBlankPart_eq_false hbegins⟩
    rw [Parser.cell, hreads.sequence_eq]
    change Except.ok (ofList (trimSpaces _)) = _
    rw [trimSpaces_concat isSpace_of_mem_spacesOf hspace, hflat]

theorem atomic_of_call {head opener closer : Token} {inner : List Token} {name : String}
    {node : Formula} (hhead : head.lexeme = (.symbol, name))
    (hopener : opener.lexeme = (.element, "(")) (hcloser : closer.lexeme = (.element, ")"))
    (hinner : Nested (fun _ => True) inner) (h : Parser.call name inner = .ok node)
    : Nested Whole (head :: opener :: (inner ++ [closer])) ∧
      Atomic false (head :: opener :: (inner ++ [closer])) node := by
  have hkind : head.kind = .symbol := congrArg Prod.fst hhead
  have hname : head.text = name := congrArg Prod.snd hhead
  have hopen : Token.isOpen opener := is_iff.mpr hopener
  have hclose : Token.isClose closer := is_iff.mpr hcloser
  refine ⟨?_, atomic_call hkind hopen hclose hinner (hname ▸ h)⟩
  refine (nested_mark hhead ?_).append (.wrap hopen hclose hinner .nil)
  exact fun hmem => (by decide : ∀ lexeme ∈ (Kind.element, "(") :: (Kind.element, ")") :: splitting,
    lexeme.1 ≠ Kind.symbol) _ hmem rfl

end Reading

end Typst

end MathMarkup
