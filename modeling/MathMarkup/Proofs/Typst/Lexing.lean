import MathMarkup.Proofs.Scan
import MathMarkup.Proofs.Symbol
import MathMarkup.Typst.Token

/-!
This module contains the tokens at the front of a Typst formula: for each kind of token that the
writer sets, how it is cut off from what follows it.
-/

namespace MathMarkup
namespace Typst

open Text Scan

abbrev Lexeme := Kind × String

abbrev lex (cs : List Char) : List Lexeme :=
  cut rules .unknown cs

@[simp]
theorem lex_nil : lex [] = [] :=
  cut_nil

theorem tokenize_lexemes (text : String)
    : (tokenize text).map Token.lexeme = lex text.toList :=
  scan_lexemes text

section Declines

variable {c : Char} (cs : List Char)

theorem comment_of_ne (h : c ≠ '/') : comment (c :: cs) = none := by
  unfold comment
  split
  . simp_all
  . rfl

theorem lineBreak_of_ne (h : c ≠ '\\') : lineBreak (c :: cs) = none := by
  unfold lineBreak
  split
  all_goals simp_all

theorem escaped_of_ne (h : c ≠ '\\') : escaped (c :: cs) = none := by
  unfold escaped
  split
  . simp_all
  . rfl

theorem literal_of_ne (h : c ≠ '"') : literal (c :: cs) = none := by
  unfold literal
  split
  . simp_all
  . rfl

theorem noneLiteral_of_ne (h : c ≠ '#') : noneLiteral (c :: cs) = none := by
  simp [noneLiteral, dropFront?, Ne.symm h]

theorem codeName_of_ne (h : c ≠ '#') : codeName (c :: cs) = none := by
  unfold codeName
  split
  . simp_all
  . rfl

theorem code_of_ne (h : c ≠ '#') : code (c :: cs) = none := by
  unfold code
  split
  . simp_all
  . rfl

theorem name_of_not_alpha (h : c.isAlpha = false) : name (c :: cs) = none := by
  simp [name, h]

end Declines

section Shorthands

variable {words : List String} {cs rest : List Char}

theorem longestFront?_eq_none (h : ∀ word ∈ words, dropFront? word.toList cs = none)
    : longestFront? words cs = none := by
  induction words with
  | nil => rfl
  | cons word words ih =>
    rw [List.forall_mem_cons] at h
    unfold longestFront?
    rw [h.1, ih h.2]
    rfl

theorem mem_of_longestFront? {word : String} (h : longestFront? words cs = some word)
    : word ∈ words ∧ (dropFront? word.toList cs).isSome := by
  induction words with
  | nil => contradiction
  | cons first words ih =>
    unfold longestFront? at h
    dsimp only at h
    split at h
    next hfirst =>
      split at h
      next other hother =>
        split at h
        . cases h
          exact ⟨List.mem_cons_of_mem _ (ih hother).1, (ih hother).2⟩
        . cases h
          exact ⟨List.mem_cons_self, hfirst⟩
      . cases h
        exact ⟨List.mem_cons_self, hfirst⟩
    . exact ⟨List.mem_cons_of_mem _ (ih h).1, (ih h).2⟩

theorem exists_of_longestFront? {other : String} (hmem : other ∈ words)
    (hother : (dropFront? other.toList cs).isSome)
    : ∃ word, longestFront? words cs = some word ∧ other.length ≤ word.length := by
  induction words with
  | nil => contradiction
  | cons first words ih =>
    unfold longestFront?
    dsimp only
    rcases List.mem_cons.mp hmem with rfl | hlater
    . rw [if_pos hother]
      split
      . split
        next hlt => exact ⟨_, rfl, Nat.le_of_lt hlt⟩
        . exact ⟨_, rfl, Nat.le_refl _⟩
      . exact ⟨_, rfl, Nat.le_refl _⟩
    . obtain ⟨word, hword, hle⟩ := ih hlater
      rw [hword]
      split
      . dsimp only
        split
        . exact ⟨word, rfl, hle⟩
        . exact ⟨first, rfl, by omega⟩
      . exact ⟨word, rfl, hle⟩

theorem longestFront?_eq {word : String} (hmem : word ∈ words)
    (hword : (dropFront? word.toList cs).isSome)
    (hlongest : ∀ other ∈ words, (dropFront? other.toList cs).isSome →
      other = word ∨ other.length < word.length)
    : longestFront? words cs = some word := by
  obtain ⟨found, hfound, hle⟩ := exists_of_longestFront? hmem hword
  obtain ⟨hother, hfront⟩ := mem_of_longestFront? hfound
  rcases hlongest found hother hfront with rfl | hlt
  . exact hfound
  . omega

/--
Whether a character can stand in a shorthand after its first one.
-/
def isShorthandTail (c : Char) : Bool :=
  ['-', '>', '=', '~', '<', ':', '.'].contains c

def shorthandStarts : List Char :=
  ['-', '>', '=', '~', '<', ':', '.', '|', '!']

theorem shorthands_spelling : ∀ pair ∈ Symbol.shorthands, 2 ≤ pair.2.toList.length ∧
    (∀ c ∈ pair.2.toList.tail, isShorthandTail c) ∧
    (∀ c ∈ pair.2.toList.head?, c ∈ shorthandStarts) := by
  decide +kernel

theorem ofShorthand?_of_mem : ∀ pair ∈ Symbol.shorthands,
    Symbol.ofShorthand? pair.2 = some pair.1 := by
  decide +kernel

theorem spelling_of_mem {spelling : String} (h : spelling ∈ Symbol.shorthands.map Prod.snd)
    : 2 ≤ spelling.toList.length ∧ (∀ c ∈ spelling.toList.tail, isShorthandTail c) ∧
      (∀ c ∈ spelling.toList.head?, c ∈ shorthandStarts) := by
  obtain ⟨pair, hpair, rfl⟩ := List.mem_map.mp h
  exact shorthands_spelling pair hpair

theorem length_le_of_dropFront? {spelling : String} {front : List Char}
    (h : spelling ∈ Symbol.shorthands.map Prod.snd) (hne : front ≠ [])
    (hrest : NotStartsWith isShorthandTail rest)
    (hfront : (dropFront? spelling.toList (front ++ rest)).isSome)
    : spelling.toList <+: front := by
  have hspelling := isSome_dropFront?_iff.mp hfront
  rcases List.prefix_or_prefix_of_prefix hspelling (List.prefix_append front rest) with h | hlonger
  . exact h
  obtain ⟨more, hmore⟩ := hlonger
  cases more with
  | nil =>
    rw [List.append_nil] at hmore
    rw [hmore]
  | cons c more =>
    have htail : c ∈ spelling.toList.tail := by
      rw [← hmore, List.tail_append_of_ne_nil hne]
      exact List.mem_append_right _ List.mem_cons_self
    have hnext : rest.head? = some c := by
      rw [← hmore] at hspelling
      obtain ⟨others, hothers⟩ := hspelling
      rw [List.append_assoc, List.append_cancel_left_eq] at hothers
      rw [← hothers]
      rfl
    have hc := (spelling_of_mem h).2.1 c htail
    rw [hrest c hnext] at hc
    contradiction

theorem shorthand_of_single {c : Char} (hrest : NotStartsWith isShorthandTail rest)
    : shorthand (c :: rest) = none := by
  have hnone : longestFront? (Symbol.shorthands.map Prod.snd) (c :: rest) = none := by
    apply longestFront?_eq_none
    intro spelling hspelling
    by_contra hsome
    have hinitial : spelling.toList <+: [c] := by
      apply length_le_of_dropFront? hspelling (List.cons_ne_nil c []) hrest
      exact Option.isSome_iff_ne_none.mpr hsome
    have hlength := hinitial.length_le
    have htwo := (spelling_of_mem hspelling).1
    simp only [List.length_singleton] at hlength
    omega
  simp [shorthand, hnone]

theorem shorthand_of_first {c : Char} (h : c ∉ shorthandStarts) (cs : List Char)
    : shorthand (c :: cs) = none := by
  have hnone : longestFront? (Symbol.shorthands.map Prod.snd) (c :: cs) = none := by
    apply longestFront?_eq_none
    intro spelling hspelling
    by_contra hsome
    obtain ⟨more, hmore⟩ := isSome_dropFront?_iff.mp (Option.isSome_iff_ne_none.mpr hsome)
    obtain ⟨htwo, _, hfirst⟩ := spelling_of_mem hspelling
    cases htext : spelling.toList with
    | nil =>
      rw [htext] at htwo
      contradiction
    | cons d ds =>
      rw [htext, List.cons_append, List.cons.injEq] at hmore
      rw [htext, hmore.1] at hfirst
      exact h (hfirst c rfl)
  simp [shorthand, hnone]

theorem shorthand_append {symbol spelling : String} (h : (symbol, spelling) ∈ Symbol.shorthands)
    (hrest : NotStartsWith isShorthandTail rest)
    : shorthand (spelling.toList ++ rest) =
      some (.whole spelling.toList.length [(.symbol, symbol)]) := by
  have hmem : spelling ∈ Symbol.shorthands.map Prod.snd := List.mem_map.mpr ⟨_, h, rfl⟩
  have hne : spelling.toList ≠ [] := by
    intro hnil
    have := (spelling_of_mem hmem).1
    rw [hnil] at this
    contradiction
  have hlongest : longestFront? (Symbol.shorthands.map Prod.snd) (spelling.toList ++ rest) =
      some spelling := by
    apply longestFront?_eq hmem
    . rw [dropFront?_append]
      rfl
    . intro other hother hfront
      have hinitial := length_le_of_dropFront? hother hne hrest hfront
      rcases Nat.lt_or_eq_of_le hinitial.length_le with hlt | heq
      . exact .inr (by simpa only [String.length_toList] using hlt)
      . exact .inl (String.toList_inj.mp (hinitial.eq_of_length heq))
  have hname : Symbol.ofShorthand? spelling = some symbol := ofShorthand?_of_mem _ h
  simp [shorthand, hlongest, hname, String.length_toList]

end Shorthands

/--
The characters with a meaning in the rules before those of shorthands, numbers and names.
-/
def specials : List Char :=
  ['/', '_', '^', '&', '\n', '\r', '\\', '"', '#']

def wordRules : List (Rule Kind) :=
  rules.drop 8

def marks : List Char :=
  "+-*='<>!.,;:?()[]|\x7b\x7d".toList

section Words

variable {c : Char} {cs rest : List Char}

theorem best_of_not_special (hspecial : c ∉ specials) (hblank : isBlank c = false) (cs : List Char)
    : best rules (c :: cs) = best wordRules (c :: cs) := by
  simp only [specials, List.mem_cons, List.not_mem_nil, or_false, not_or] at hspecial
  obtain ⟨hslash, hsub, hsup, hcell, hfeed, hreturn, hback, hquote, _⟩ := hspecial
  have hinline : isInlineBlank c = false := by simp [isInlineBlank, hblank]
  rw [rules, best_of_none (comment_of_ne cs hslash), best_of_none (char_of_not cs (by simp [hslash])),
    best_of_none (char_of_not cs (by split <;> simp_all)),
    best_of_none (lineEnd_of_ne cs hfeed hreturn), best_of_none (run_of_not cs hinline),
    best_of_none (lineBreak_of_ne cs hback), best_of_none (escaped_of_ne cs hback),
    best_of_none (literal_of_ne cs hquote)]
  rfl

theorem wordRules_of_not_alpha (halpha : c.isAlpha = false) (hcode : c ≠ '#') (cs : List Char)
    : ∀ rule ∈ wordRules.drop 2, rule (c :: cs) = none ∨
      rule (c :: cs) = some (.verbatim .element [c]) := by
  simp only [wordRules, rules, List.drop_succ_cons, List.drop_zero, List.forall_mem_cons]
  exact ⟨char_single c cs, .inl (noneLiteral_of_ne cs hcode), .inl (codeName_of_ne cs hcode),
    .inl (code_of_ne cs hcode), .inl (name_of_not_alpha cs halpha), char_single c cs, nofun⟩

theorem size_of_not_alpha (halpha : c.isAlpha = false) (hcode : c ≠ '#') {m : Match Kind}
    (h : best (wordRules.drop 2) (c :: cs) = some m) : m.size = 1 := by
  obtain ⟨rule, hrule, heq⟩ := exists_rule_of_best h
  rcases wordRules_of_not_alpha halpha hcode cs rule hrule with hnone | hsome
  . rw [hnone] at heq
    contradiction
  . rw [hsome] at heq
    cases heq
    rfl

theorem mark_spec : ∀ c ∈ marks, c ∉ specials ∧ isBlank c = false ∧ c.isAlpha = false ∧
    c.isDigit = false ∧ c ≠ '#' := by
  decide

theorem shorthandStart_spec : ∀ c ∈ shorthandStarts, c ∉ specials ∧ isBlank c = false ∧
    c.isAlpha = false ∧ c.isDigit = false ∧ c ≠ '#' := by
  decide

theorem lex_mark (h : c ∈ marks) (hshorthand : shorthand (c :: rest) = none)
    : lex (c :: rest) = (.element, String.ofList [c]) :: lex rest := by
  obtain ⟨hspecial, hblank, halpha, hdigit, hcode⟩ := mark_spec c h
  have hmark : Rule.char .element (marks.contains ·) (c :: rest) =
      some (.verbatim Kind.element [c]) := by
    simp [Rule.char, h]
  have hmem : Rule.char .element (marks.contains ·) ∈ wordRules.drop 2 :=
    List.mem_of_getElem? (i := 0) rfl
  have hbest : best rules (c :: rest) = some (.verbatim .element [c]) := by
    rw [best_of_not_special hspecial hblank]
    apply (best_of_none hshorthand).trans
    apply (best_of_none (number_of_not_digit rest hdigit)).trans
    exact best_eq_of_unique _ hmem hmark Nat.one_pos (wordRules_of_not_alpha halpha hcode rest)
  exact cut_of_verbatim [] hbest

theorem best_of_shorthand {m : Match Kind} (h : shorthand cs = some m)
    : best rules cs = some m := by
  obtain ⟨spelling, hspelling, hfound⟩ := Option.bind_eq_some_iff.mp h
  obtain ⟨symbol, _, hm⟩ := Option.bind_eq_some_iff.mp hfound
  obtain ⟨hmem, hfront⟩ := mem_of_longestFront? hspelling
  obtain ⟨htwo, _, hfirst⟩ := spelling_of_mem hmem
  have hsize : 2 ≤ m.size := by
    cases hm
    rwa [String.length_toList] at htwo
  obtain ⟨rest, rfl⟩ := isSome_dropFront?_iff.mp hfront
  cases htext : spelling.toList with
  | nil =>
    rw [htext] at htwo
    contradiction
  | cons c cs =>
    rw [htext, List.cons_append] at h
    rw [htext] at hfirst
    obtain ⟨hspecial, hblank, halpha, hdigit, hcode⟩ := shorthandStart_spec c (hfirst c rfl)
    rw [List.cons_append, best_of_not_special hspecial hblank]
    apply best_cons h (by omega)
    intro other hother
    rw [best_of_none (number_of_not_digit _ hdigit)] at hother
    rw [size_of_not_alpha halpha hcode hother]
    omega

theorem lex_shorthand {symbol spelling : String} (h : (symbol, spelling) ∈ Symbol.shorthands)
    (hrest : NotStartsWith isShorthandTail rest)
    : lex (spelling.toList ++ rest) = (.symbol, symbol) :: lex rest := by
  have htwo : 2 ≤ spelling.toList.length := (shorthands_spelling _ h).1
  apply cut_of_best (best_of_shorthand (shorthand_append h hrest))
  . simp only [Match.whole, Match.consumed]
    rw [Nat.min_self, Nat.max_eq_right (by omega), List.drop_left]
  . apply List.ne_nil_of_length_pos
    rw [List.length_append]
    omega

theorem isAlpha_spec (h : c.isAlpha) : c ∉ specials ++ marks ++ shorthandStarts := by
  intro hmem
  exact (by decide : ∀ d ∈ specials ++ marks ++ shorthandStarts, ¬ d.isAlpha) c hmem h

theorem isDigit_spec (h : c.isDigit) : c ∉ specials ++ marks ++ shorthandStarts := by
  intro hmem
  exact (by decide : ∀ d ∈ specials ++ marks ++ shorthandStarts, ¬ d.isDigit) c hmem h

theorem best_of_alpha (h : c.isAlpha) (cs : List Char) {word : List Char} {kind : Kind}
    (hname : name (c :: cs) = some (.verbatim kind (c :: word)))
    : best rules (c :: cs) = some (.verbatim kind (c :: word)) := by
  have hclass := isAlpha_spec h
  simp only [List.mem_append, not_or] at hclass
  obtain ⟨⟨hspecial, hmark⟩, hshorthand⟩ := hclass
  have hmark : marks.contains c = false := by simpa using hmark
  have hcode : c ≠ '#' := by
    rintro rfl
    exact hspecial (by decide)
  rw [best_of_not_special hspecial (isBlank_of_isAlpha h)]
  apply (best_of_none (shorthand_of_first hshorthand cs)).trans
  apply (best_of_none (number_of_not_digit cs (isDigit_of_isAlpha h))).trans
  apply (best_of_none (char_of_not cs hmark)).trans
  rw [best_of_none (noneLiteral_of_ne cs hcode), best_of_none (codeName_of_ne cs hcode),
    best_of_none (code_of_ne cs hcode)]
  apply best_cons hname (Nat.succ_pos _)
  intro other hother
  obtain ⟨rule, hrule, heq⟩ := exists_rule_of_best hother
  rw [List.mem_singleton.mp hrule] at heq
  rcases char_single c cs with hnone | hsome
  . rw [hnone] at heq
    contradiction
  . rw [hsome] at heq
    cases heq
    exact Nat.succ_le_succ (Nat.zero_le _)

/--
Whether a text does not go on with a name or a further part of one.
-/
def EndsName (rest : List Char) : Prop :=
  NotStartsWith Char.isAlpha rest ∧ ∀ cs, rest = '.' :: cs → NotStartsWith Char.isAlpha cs

theorem endsName_nil : EndsName [] :=
  ⟨notStartsWith_nil, nofun⟩

theorem dottedParts_of_endsName (hrest : EndsName rest) : dottedParts rest = [] := by
  unfold dottedParts
  split
  next cs =>
    rw [takeWhile_eq_nil (hrest.2 cs rfl)]
  . rfl

theorem dottedParts_append {cs : List Char} (h : Symbol.isDotted true cs) (hrest : EndsName rest)
    : (cs ++ rest).takeWhile Char.isAlpha ++
        dottedParts ((cs ++ rest).drop ((cs ++ rest).takeWhile Char.isAlpha).length) = cs := by
  match cs with
  | [] =>
    rw [List.nil_append, takeWhile_eq_nil hrest.1]
    exact dottedParts_of_endsName hrest
  | c :: cs =>
    unfold Symbol.isDotted at h
    split at h
    next hpoint =>
      subst hpoint
      match cs with
      | [] => contradiction
      | c :: cs =>
        unfold Symbol.isDotted at h
        split at h
        . simp at h
        . simp only [Bool.true_and, Bool.and_eq_true] at h
          have ih := dottedParts_append h.2 hrest
          have htake : (c :: cs ++ rest).takeWhile Char.isAlpha =
              c :: (cs ++ rest).takeWhile Char.isAlpha := by
            simp [h.1]
          rw [List.cons_append, List.takeWhile_cons_of_neg (by decide), List.nil_append,
            List.length_nil, List.drop_zero, dottedParts, htake]
          simp only [List.cons_append, List.length_cons, List.drop_succ_cons, ih]
    . simp only [Bool.and_eq_true] at h
      have ih := dottedParts_append h.2 hrest
      rw [List.cons_append, List.takeWhile_cons_of_pos h.1, List.length_cons, List.drop_succ_cons,
        List.cons_append, ih]

theorem name_append {cs : List Char} (h : c.isAlpha) (hdotted : Symbol.isDotted true cs)
    (hrest : EndsName rest)
    : name (c :: cs ++ rest) =
      some (.verbatim (if (c :: cs).length = 1 then .element else .symbol) (c :: cs)) := by
  have hword := dottedParts_append hdotted hrest
  have htake : (c :: cs ++ rest).takeWhile Char.isAlpha =
      c :: (cs ++ rest).takeWhile Char.isAlpha := by
    simp [h]
  unfold name
  rw [htake]
  simp only [List.length_cons, List.cons_append, List.drop_succ_cons, hword]

theorem lex_letter (h : c.isAlpha) (hrest : EndsName rest)
    : lex (c :: rest) = (.element, String.ofList [c]) :: lex rest := by
  have hname : name ([c] ++ rest) = some (.verbatim .element [c]) :=
    @name_append c rest [] h rfl hrest
  exact cut_of_verbatim [] (best_of_alpha h rest hname)

theorem lex_dotted {word : String} (hdotted : Symbol.isDotted false word.toList)
    (htwo : 2 ≤ word.toList.length) (hrest : EndsName rest)
    : lex (word.toList ++ rest) = (.symbol, word) :: lex rest := by
  cases hword : word.toList with
  | nil =>
    rw [hword] at htwo
    contradiction
  | cons c cs =>
    rw [hword] at htwo hdotted
    unfold Symbol.isDotted at hdotted
    split at hdotted
    . simp at hdotted
    . simp only [Bool.and_eq_true] at hdotted
      have hlong : (c :: cs).length ≠ 1 := by omega
      have hname := name_append hdotted.1 hdotted.2 hrest
      rw [if_neg hlong] at hname
      have hlex : lex (c :: cs ++ rest) = (.symbol, String.ofList (c :: cs)) :: lex rest :=
        cut_of_verbatim cs (best_of_alpha hdotted.1 _ hname)
      rw [hlex, ← hword, String.ofList_toList]

theorem lex_name {word : String} (h : Symbol.TypstName word) (hrest : EndsName rest)
    : lex (word.toList ++ rest) = (.symbol, word) :: lex rest :=
  lex_dotted h.isDotted h.two_le hrest

theorem lex_number {digits : List Char} (h : ∀ c ∈ digits, c.isDigit) (hne : digits ≠ [])
    (hrest : EndsNumber rest)
    : lex (digits ++ rest) = (.element, String.ofList digits) :: lex rest := by
  have hrule : Rule.number Kind.element (digits ++ rest) = some (.verbatim .element digits) :=
    number_whole h hne hrest
  cases digits with
  | nil => contradiction
  | cons digit digits =>
    have hdigit := h digit List.mem_cons_self
    have hclass := isDigit_spec hdigit
    simp only [List.mem_append, not_or] at hclass
    have halpha : digit.isAlpha = false := by
      rw [isDigit_iff] at hdigit
      rw [Bool.eq_false_iff, ne_eq, isAlpha_iff]
      omega
    have hcode : digit ≠ '#' := by
      rintro rfl
      contradiction
    have hbest : best rules (digit :: digits ++ rest) =
        some (.verbatim .element (digit :: digits)) := by
      rw [List.cons_append, best_of_not_special hclass.1.1 (isBlank_of_isDigit hdigit)]
      apply (best_of_none (shorthand_of_first hclass.2 _)).trans
      apply best_cons hrule (Nat.succ_pos _)
      intro other hother
      have hsize : other.size = 1 := size_of_not_alpha halpha hcode hother
      rw [hsize]
      exact Nat.succ_le_succ (Nat.zero_le _)
    exact cut_of_verbatim digits hbest

end Words

section Others

variable {c : Char} {rest : List Char}

theorem lex_control (h : c ∈ ['_', '^', '&'])
    : lex (c :: rest) = (.control, String.ofList [c]) :: lex rest := by
  have hbest : best rules (c :: rest) = some (.verbatim .control [c]) := by
    simp only [List.mem_cons, List.not_mem_nil, or_false] at h
    rcases h with rfl | rfl | rfl
    all_goals rfl
  exact cut_of_verbatim [] hbest

theorem lex_slash (hrest : NotStartsWith (· == '/') rest)
    : lex ('/' :: rest) = (.element, "/") :: lex rest := by
  have hcomment : comment ('/' :: rest) = none := by
    unfold comment
    split
    next h =>
      cases h
      have := hrest '/' rfl
      contradiction
    . rfl
  have hbest : best rules ('/' :: rest) = some (.verbatim .element ['/']) := by
    rw [rules, best_of_none hcomment]
    rfl
  exact cut_of_verbatim [] hbest

theorem lex_escaped (h : c ∈ "()[]\x7b\x7d|".toList)
    : lex ('\\' :: c :: rest) = (.element, String.ofList ['\\', c]) :: lex rest := by
  have hbest : best rules ('\\' :: c :: rest) = some (.verbatim .element ['\\', c]) := by
    have hcases : c ∈ ['(', ')', '[', ']', '\x7b', '\x7d', '|'] := h
    simp only [List.mem_cons, List.not_mem_nil, or_false] at hcases
    rcases hcases with rfl | rfl | rfl | rfl | rfl | rfl | rfl
    all_goals rfl
  exact cut_of_verbatim [c] hbest

theorem lex_space (h : NotStartsWith isBlank rest)
    : lex (' ' :: rest) = (.space, " ") :: lex rest := by
  have hrun : Rule.run Kind.space isInlineBlank (' ' :: rest) = some (.verbatim .space [' ']) := by
    have hrest : NotStartsWith isInlineBlank rest := fun c hc => by simp [isInlineBlank, h c hc]
    have htake : (' ' :: rest).takeWhile isInlineBlank = [' '] :=
      @takeWhile_append_of_all isInlineBlank [' '] rest (by decide) hrest
    simp only [Rule.run, htake]
  have hbest : best rules (' ' :: rest) = some (.verbatim .space [' ']) := by
    rw [rules, best_of_none (comment_of_ne rest (by decide)), best_of_none (char_of_not rest rfl),
      best_of_none (char_of_not rest rfl), best_of_none (lineEnd_of_ne rest (by decide) (by decide))]
    apply best_cons hrun Nat.one_pos
    -- A blank also counts as an element, but the rule of spaces comes first.
    intro other hother
    rw [best_of_none (lineBreak_of_ne rest (by decide)),
      best_of_none (escaped_of_ne rest (by decide)), best_of_none (literal_of_ne rest (by decide)),
      best_of_none (shorthand_of_first (by decide) rest),
      best_of_none (number_of_not_digit rest rfl)] at hother
    exact Nat.le_of_eq (size_of_not_alpha rfl (by decide) hother)
  exact cut_of_verbatim [] hbest

theorem unquote?_quoteChars (content rest : List Char)
    : unquote? (quoteChars content ++ '"' :: rest) = some (content, rest) := by
  induction content with
  | nil => rfl
  | cons c content ih =>
    unfold quoteChars
    split
    next h =>
      simp only [Bool.or_eq_true, decide_eq_true_eq] at h
      rcases h with rfl | rfl
      all_goals simp [unquote?, ih, escapedChar]
    next h =>
      simp only [Bool.or_eq_true, decide_eq_true_eq, not_or] at h
      rw [List.cons_append, unquote?, ih]
      . rfl
      . exact h.1
      all_goals simp_all

theorem lex_quote (content : String)
    : lex ((quote content).toList ++ rest) = (.text, content) :: lex rest := by
  have htext : (quote content).toList ++ rest =
      '"' :: (quoteChars content.toList ++ '"' :: rest) := by
    simp [quote]
  have hliteral : literal ('"' :: (quoteChars content.toList ++ '"' :: rest)) =
      some (.whole ((quoteChars content.toList).length + 2) [(.text, content)]) := by
    simp only [literal, unquote?_quoteChars, Option.bind_eq_bind, Option.bind_some,
      String.ofList_toList, List.length_append, List.length_cons]
    congr 2
    omega
  have hbest : best rules ('"' :: (quoteChars content.toList ++ '"' :: rest)) =
      some (.whole ((quoteChars content.toList).length + 2) [(.text, content)]) := by
    rw [rules, best_of_none (comment_of_ne _ (by decide)), best_of_none (char_of_not _ rfl),
      best_of_none (char_of_not _ rfl), best_of_none (lineEnd_of_ne _ (by decide) (by decide)),
      best_of_none (run_of_not _ rfl), best_of_none (lineBreak_of_ne _ (by decide)),
      best_of_none (escaped_of_ne _ (by decide))]
    apply best_cons hliteral (Nat.succ_pos _)
    intro other hother
    rw [best_of_none (shorthand_of_first (by decide) _),
      best_of_none (number_of_not_digit _ rfl)] at hother
    rw [size_of_not_alpha rfl (by decide) hother]
    exact Nat.succ_le_succ (Nat.zero_le _)
  rw [htext]
  refine cut_of_best hbest ?_ (List.cons_ne_nil _ _)
  simp [Match.whole, Match.consumed]

theorem lex_nothing (hrest : NotStartsWith (fun c => isCodeStart c || c == '.' || c == '-') rest)
    : lex ("#none".toList ++ rest) = (.nothing, "#none") :: lex rest := by
  have htake := @takeWhile_append_of_all _ ['o', 'n', 'e'] rest (by decide) hrest
  have hname : codeName ('#' :: 'n' :: (['o', 'n', 'e'] ++ rest)) =
      some (.verbatim .symbol ['#', 'n', 'o', 'n', 'e']) := by
    simp only [codeName, htake]
    rfl
  have hbest : best rules ('#' :: 'n' :: (['o', 'n', 'e'] ++ rest)) =
      some (.whole 5 [(.nothing, "#none")]) := by
    rw [rules, best_of_none (comment_of_ne _ (by decide)), best_of_none (char_of_not _ rfl),
      best_of_none (char_of_not _ rfl), best_of_none (lineEnd_of_ne _ (by decide) (by decide)),
      best_of_none (run_of_not _ rfl), best_of_none (lineBreak_of_ne _ (by decide)),
      best_of_none (escaped_of_ne _ (by decide)), best_of_none (literal_of_ne _ (by decide)),
      best_of_none (shorthand_of_first (by decide) _), best_of_none (number_of_not_digit _ rfl),
      best_of_none (char_of_not _ rfl)]
    apply best_cons rfl (Nat.succ_pos _)
    -- The rule of names in code matches as much, but it comes later.
    intro other hother
    obtain ⟨rule, hrule, heq⟩ := exists_rule_of_best hother
    simp only [List.mem_cons, List.not_mem_nil, or_false] at hrule
    rcases hrule with rfl | rfl | rfl | rfl
    . rw [hname] at heq
      cases heq
      exact Nat.le_refl _
    . contradiction
    . contradiction
    . contradiction
  exact cut_of_best hbest rfl (List.cons_ne_nil _ _)

end Others

end Typst
end MathMarkup
