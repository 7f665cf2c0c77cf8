import MathMarkup.Proofs.Tex.Element
import MathMarkup.Proofs.Text

/-!
This module contains the tokens at the front of a TeX formula: for each kind of token, how it is cut
off from what follows it.
-/

namespace MathMarkup
namespace Tex

open Text Scan

abbrev Lexeme := Kind × String

abbrev lex (cs : List Char) : List Lexeme :=
  cut rules .unknown cs

@[simp]
theorem lex_nil : lex [] = [] :=
  cut_nil

theorem tokenize_lexemes (text : String)
    : (tokenize text).map Token.lexeme = lex text.toList :=
  scan_lexemes text

section Declines

variable {c : Char} (cs : List Char)

theorem arrayStart_of_ne (h : c ≠ '\\') : arrayStart (c :: cs) = none := by
  simp [arrayStart, dropFront?, Ne.symm h]

theorem textArgument_of_ne (h : c ≠ '\\') : textArgument (c :: cs) = none := by
  unfold textArgument
  split
  . simp_all
  . rfl

theorem escaped_of_ne (h : c ≠ '\\') (kind : Kind) (p : Char → Bool)
    : escaped kind p (c :: cs) = none := by
  unfold escaped
  split
  . simp_all
  . rfl

theorem command?_of_ne (h : c ≠ '\\') : command? (c :: cs) = none := by
  unfold command?
  split
  . simp_all
  . rfl

theorem bareArguments_of_ne (h : c ≠ '\\') : bareArguments (c :: cs) = none := by
  simp [bareArguments, command?_of_ne cs h]

theorem bareArgument_of_ne (h : c ≠ '\\') : bareArgument (c :: cs) = none := by
  simp [bareArgument, command?_of_ne cs h]

theorem plainCommand_of_ne (h : c ≠ '\\') : plainCommand (c :: cs) = none := by
  simp [plainCommand, command?_of_ne cs h]

theorem comment_of_ne (h : c ≠ '%') : comment (c :: cs) = none := by
  unfold comment
  split
  . simp_all
  . rfl

theorem scriptDigit_of_ne (hsub : c ≠ '_') (hsup : c ≠ '^') : scriptDigit (c :: cs) = none := by
  unfold scriptDigit
  split
  all_goals simp_all

end Declines

/--
The kind of a character that is always a token of its own, whatever follows.
-/
def singleKind? (c : Char) : Option Kind :=
  if ['{', '}', '&', '~'].contains c then some .control
  else if c.isAlpha || marks.contains c || (128 ≤ c.toNat && !isBlank c) then some .element
  else none

theorem singleKind?_cases {c : Char} {kind : Kind} (h : singleKind? c = some kind)
    : (kind = .control ∧ c ∈ ['{', '}', '&', '~']) ∨
      (kind = .element ∧ (c.isAlpha ∨ c ∈ marks ∨ (128 ≤ c.toNat ∧ isBlank c = false))) := by
  unfold singleKind? at h
  split at h
  next hcontrol =>
    cases h
    exact .inl ⟨rfl, List.contains_iff_mem.mp hcontrol⟩
  . split at h
    next helement =>
      cases h
      simp only [Bool.or_eq_true, List.contains_iff_mem, Bool.and_eq_true, decide_eq_true_eq,
        Bool.not_eq_true', or_assoc] at helement
      exact .inr ⟨rfl, helement⟩
    . contradiction

theorem isBlank_of_singleKind? {c : Char} {kind : Kind} (h : singleKind? c = some kind)
    : isBlank c = false := by
  rcases singleKind?_cases h with ⟨_, hmem⟩ | ⟨_, halpha | hmem | ⟨_, hblank⟩⟩
  . exact (by decide : ∀ c ∈ ['{', '}', '&', '~'], isBlank c = false) c hmem
  . exact isBlank_of_isAlpha halpha
  . exact (by decide : ∀ c ∈ marks, isBlank c = false) c hmem
  . exact hblank

theorem isDigit_of_singleKind? {c : Char} {kind : Kind} (h : singleKind? c = some kind)
    : c.isDigit = false := by
  rw [Bool.eq_false_iff]
  intro hdigit
  rcases singleKind?_cases h with ⟨_, hmem⟩ | ⟨_, halpha | hmem | ⟨hwide, _⟩⟩
  . exact absurd hdigit ((by decide : ∀ c ∈ ['{', '}', '&', '~'], ¬ c.isDigit) c hmem)
  . rw [isDigit_of_isAlpha halpha] at hdigit
    contradiction
  . exact absurd hdigit ((by decide : ∀ c ∈ marks, ¬ c.isDigit) c hmem)
  . rw [isDigit_iff] at hdigit
    omega

/--
The characters with a meaning in the rules before those of elements.
-/
def specials : List Char :=
  ['\\', '%', '{', '}', '_', '^', '&', '~', '\n', '\r']

/--
The rules of the elements that are written without a backslash.
-/
def elementRules : List (Rule Kind) :=
  [.number .element, .char .element Char.isAlpha, .char .element (marks.contains ·),
   .char .element (128 ≤ ·.toNat)]

theorem best_of_not_special {c : Char} (hspecial : c ∉ specials) (hblank : isBlank c = false)
    (cs : List Char) : best rules (c :: cs) = best elementRules (c :: cs) := by
  simp only [specials, List.mem_cons, List.not_mem_nil, or_false, not_or] at hspecial
  obtain ⟨hslash, hpercent, hopen, hclose, hsub, hsup, hcell, htilde, hfeed, hreturn⟩ := hspecial
  have hinline : isInlineBlank c = false := by simp [isInlineBlank, hblank]
  rw [rules, best_of_none (arrayStart_of_ne cs hslash), best_of_none (textArgument_of_ne cs hslash),
    best_of_none (comment_of_ne cs hpercent),
    best_of_none (char_of_not cs (by split <;> simp_all)),
    best_of_none (scriptDigit_of_ne cs hsub hsup), best_of_none (escaped_of_ne cs hslash _ _),
    best_of_none (char_of_not cs (by simp [htilde])), best_of_none (lineEnd_of_ne cs hfeed hreturn),
    best_of_none (run_of_not cs hinline), best_of_none (escaped_of_ne cs hslash _ _),
    best_of_none (bareArguments_of_ne cs hslash), best_of_none (bareArgument_of_ne cs hslash),
    best_of_none (plainCommand_of_ne cs hslash)]
  rfl

theorem best_element {c : Char} (h : singleKind? c = some .element) (cs : List Char)
    : best rules (c :: cs) = some (.verbatim .element [c]) := by
  have hspecial : c ∉ specials := by
    intro hmem
    exact (by decide : ∀ c ∈ specials, singleKind? c ≠ some .element) c hmem h
  have hothers : ∀ rule ∈ elementRules, rule (c :: cs) = none ∨
      rule (c :: cs) = some (.verbatim .element [c]) := by
    simp only [elementRules, List.forall_mem_cons]
    exact ⟨.inl (number_of_not_digit cs (isDigit_of_singleKind? h)), char_single c cs,
      char_single c cs, char_single c cs, nofun⟩
  have hmatch : ∃ rule ∈ elementRules, rule (c :: cs) = some (.verbatim .element [c]) := by
    rcases singleKind?_cases h with ⟨hkind, _⟩ | ⟨_, halpha | hmem | ⟨hwide, _⟩⟩
    . contradiction
    . exact ⟨.char .element Char.isAlpha, by simp [elementRules], by simp [Rule.char, halpha]⟩
    . refine ⟨.char .element (marks.contains ·), by simp [elementRules], ?_⟩
      simp [Rule.char, hmem]
    . exact ⟨.char .element (128 ≤ ·.toNat), by simp [elementRules], by simp [Rule.char, hwide]⟩
  obtain ⟨rule, hrule, heq⟩ := hmatch
  rw [best_of_not_special hspecial (isBlank_of_singleKind? h)]
  exact best_eq_of_unique rule hrule heq Nat.one_pos hothers

theorem best_single {c : Char} {kind : Kind} (h : singleKind? c = some kind) (cs : List Char)
    : best rules (c :: cs) = some (.verbatim kind [c]) := by
  rcases singleKind?_cases h with ⟨rfl, hmem⟩ | ⟨rfl, _⟩
  . simp only [List.mem_cons, List.not_mem_nil, or_false] at hmem
    rcases hmem with rfl | rfl | rfl | rfl
    all_goals rfl
  . exact best_element h cs

theorem lex_single {c : Char} {kind : Kind} (h : singleKind? c = some kind) (rest : List Char)
    : lex (c :: rest) = (kind, String.ofList [c]) :: lex rest :=
  cut_of_verbatim [] (best_single h rest)

theorem lex_newline (rest : List Char) : lex ('\n' :: rest) = (.newline, "\n") :: lex rest := by
  have hbest : best rules ('\n' :: rest) = some (.whole 1 [(.newline, "\n")]) := rfl
  exact cut_of_best hbest rfl (List.cons_ne_nil _ _)

theorem lex_blanks {blanks rest : List Char} (hne : blanks ≠ [])
    (hblanks : ∀ c ∈ blanks, c ∈ [' ', '\t']) (hrest : NotStartsWith isInlineBlank rest)
    : lex (blanks ++ rest) = (.space, String.ofList blanks) :: lex rest := by
  obtain ⟨c, cs, rfl⟩ := List.exists_cons_of_ne_nil hne
  have hrun : Rule.run Kind.space isInlineBlank (c :: cs ++ rest) =
      some (.verbatim .space (c :: cs)) := by
    have hinline : ∀ blank ∈ c :: cs, isInlineBlank blank := fun blank hblank =>
      (by decide : ∀ blank ∈ [' ', '\t'], isInlineBlank blank) blank (hblanks blank hblank)
    simp only [Rule.run, takeWhile_append_of_all hinline hrest]
  have hbest : best rules (c :: cs ++ rest) = some (.verbatim .space (c :: cs)) := by
    refine best_eq_of_unique _ (List.mem_of_getElem? (i := 8) rfl) hrun (Nat.succ_pos _) ?_
    simp only [rules, List.forall_mem_cons]
    have hc := hblanks c List.mem_cons_self
    simp only [List.mem_cons, List.not_mem_nil, or_false] at hc
    rcases hc with rfl | rfl
    all_goals
      exact ⟨.inl rfl, .inl rfl, .inl rfl, .inl rfl, .inl rfl, .inl rfl, .inl rfl, .inl rfl,
        .inr hrun, .inl rfl, .inl rfl, .inl rfl, .inl rfl, .inl rfl, .inl rfl, .inl rfl, .inl rfl,
        List.forall_mem_nil _⟩
  exact cut_of_verbatim cs hbest

theorem lex_space {rest : List Char} (h : NotStartsWith isInlineBlank rest)
    : lex (' ' :: rest) = (.space, " ") :: lex rest :=
  @lex_blanks [' '] rest (List.cons_ne_nil _ _) (by simp) h

theorem best_of_number {digit : Char} {cs : List Char} {m : Match Kind} (hdigit : digit.isDigit)
    (h : Rule.number Kind.element (digit :: cs) = some m) (hpos : 0 < m.size)
    : best rules (digit :: cs) = some m := by
  rw [isDigit_iff] at hdigit
  have hspecial : digit ∉ specials := by
    intro hmem
    exact absurd hdigit ((by decide : ∀ c ∈ specials, ¬ (48 ≤ c.toNat ∧ c.toNat ≤ 57)) _ hmem)
  have halpha : digit.isAlpha = false := by
    rw [Bool.eq_false_iff, ne_eq, isAlpha_iff]
    omega
  have hmark : marks.contains digit = false := by
    rw [Bool.eq_false_iff, ne_eq, List.contains_iff_mem]
    intro hmem
    exact absurd hdigit ((by decide : ∀ c ∈ marks, ¬ (48 ≤ c.toNat ∧ c.toNat ≤ 57)) _ hmem)
  have hwide : decide (128 ≤ digit.toNat) = false := by
    rw [decide_eq_false_iff_not]
    omega
  rw [best_of_not_special hspecial (isBlank_eq_false_of_range (by omega) (by omega))]
  refine best_eq_of_unique _ List.mem_cons_self h hpos ?_
  simp only [elementRules, List.forall_mem_cons]
  exact ⟨.inr h, .inl (char_of_not cs halpha), .inl (char_of_not cs hmark),
    .inl (char_of_not cs hwide), nofun⟩

/--
The text of a number, with or without a fraction.
-/
def IsNumber (text : List Char) : Prop :=
  ∃ digits fraction, (∀ c ∈ digits, c.isDigit) ∧ digits ≠ [] ∧ (∀ c ∈ fraction, c.isDigit) ∧
    (text = digits ∨ (fraction ≠ [] ∧ text = digits ++ '.' :: fraction))

theorem isNumber_digit {digit : Char} (h : digit.isDigit) : IsNumber [digit] :=
  ⟨[digit], [], by simpa using h, List.cons_ne_nil _ _, nofun, .inl rfl⟩

theorem IsNumber.exists_digit {text : List Char} (h : IsNumber text)
    : ∃ digit digits, digit.isDigit ∧ text = digit :: digits := by
  obtain ⟨digits, fraction, hdigits, hne, _, htext⟩ := h
  cases digits with
  | nil => contradiction
  | cons digit digits =>
    have hdigit := hdigits digit List.mem_cons_self
    rcases htext with rfl | ⟨_, rfl⟩
    . exact ⟨digit, digits, hdigit, rfl⟩
    . exact ⟨digit, _, hdigit, rfl⟩

theorem lex_number {text rest : List Char} (h : IsNumber text) (hrest : EndsNumber rest)
    : lex (text ++ rest) = (.element, String.ofList text) :: lex rest := by
  have hrule : Rule.number Kind.element (text ++ rest) = some (.verbatim .element text) := by
    obtain ⟨digits, fraction, hdigits, hne, hfraction, htext⟩ := h
    rcases htext with rfl | ⟨hfne, rfl⟩
    . exact number_whole hdigits hne hrest
    . exact number_decimal hdigits hne hfraction hfne hrest.1
  obtain ⟨digit, digits, hdigit, rfl⟩ := h.exists_digit
  exact cut_of_verbatim digits (best_of_number hdigit hrule (Nat.succ_pos _))

def markerRules : List (Rule Kind) :=
  [.char .control (· matches '{' | '}' | '_' | '^' | '&'), scriptDigit]

theorem best_marker {marker : Char} (h : marker ∈ ['_', '^']) (rest : List Char)
    : best rules (marker :: rest) = best markerRules (marker :: rest) := by
  simp only [List.mem_cons, List.not_mem_nil, or_false] at h
  rcases h with rfl | rfl
  all_goals rfl

theorem char_marker {marker : Char} (h : marker ∈ ['_', '^']) (rest : List Char)
    : Rule.char .control (· matches '{' | '}' | '_' | '^' | '&') (marker :: rest) =
      some (.verbatim Kind.control [marker]) := by
  simp only [List.mem_cons, List.not_mem_nil, or_false] at h
  rcases h with rfl | rfl
  all_goals rfl

theorem lex_marker_of_none {marker : Char} (h : marker ∈ ['_', '^']) {rest : List Char}
    (hnone : scriptDigit (marker :: rest) = none)
    : lex (marker :: rest) = (.control, String.ofList [marker]) :: lex rest := by
  have hbest : best rules (marker :: rest) = some (.verbatim .control [marker]) := by
    rw [best_marker h, markerRules]
    apply best_cons (char_marker h rest) Nat.one_pos
    intro other hother
    rw [best_of_none hnone] at hother
    contradiction
  exact cut_of_verbatim [] hbest

theorem scriptDigit_eq {marker : Char} (h : marker ∈ ['_', '^']) {rest : List Char}
    (hrest : NotStartsWith isBlank rest)
    : scriptDigit (marker :: rest) =
      match rest.takeWhile Char.isDigit with
      | digit :: _ :: digits =>
        some ⟨digits.length + 3, 2, [(.control, marker.toString), (.element, digit.toString)]⟩
      | _ => none := by
  simp only [List.mem_cons, List.not_mem_nil, or_false] at h
  rcases h with rfl | rfl
  all_goals
    rw [scriptDigit, trimStart, takeWhile_eq_nil hrest, dropWhile_eq_self hrest, if_pos rfl]
    rcases rest.takeWhile Char.isDigit with _ | ⟨digit, _ | ⟨second, digits⟩⟩
    . rfl
    . rfl
    . simp

theorem lex_marker {marker : Char} (h : marker ∈ ['_', '^']) {rest : List Char}
    (hblank : NotStartsWith isBlank rest) (hdigit : NotStartsWith Char.isDigit rest)
    : lex (marker :: rest) = (.control, String.ofList [marker]) :: lex rest := by
  apply lex_marker_of_none h
  rw [scriptDigit_eq h hblank, takeWhile_eq_nil hdigit]

theorem lex_marker_digit {marker digit : Char} (h : marker ∈ ['_', '^']) (hdigit : digit.isDigit)
    {rest : List Char} (hrest : ∀ cs, rest = '.' :: cs → NotStartsWith Char.isDigit cs)
    : lex (marker :: digit :: rest) =
      (.control, String.ofList [marker]) :: (.element, String.ofList [digit]) :: lex rest := by
  have hblank : NotStartsWith isBlank (digit :: rest) := by
    rw [notStartsWith_cons]
    exact isBlank_of_isDigit hdigit
  have hscript := scriptDigit_eq h hblank
  rw [List.takeWhile_cons_of_pos hdigit] at hscript
  cases hmore : rest.takeWhile Char.isDigit with
  | nil =>
    rw [hmore] at hscript
    have hends : EndsNumber rest := by
      refine ⟨?_, hrest⟩
      intro c hc
      cases rest with
      | nil => contradiction
      | cons d rest =>
        cases hc
        cases hd : c.isDigit with
        | false => rfl
        | true => simp [List.takeWhile, hd] at hmore
    rw [lex_marker_of_none h hscript, ← lex_number (isNumber_digit hdigit) hends]
    rfl
  | cons next digits =>
    rw [hmore] at hscript
    have hbest : best rules (marker :: digit :: rest) = some ⟨digits.length + 3, 2,
        [(.control, marker.toString), (.element, digit.toString)]⟩ := by
      rw [best_marker h, markerRules]
      refine best_of_lt (best_cons hscript (Nat.succ_pos _) nofun) ?_
      intro other hother
      rw [char_marker h] at hother
      cases hother
      exact Nat.le_add_left 2 _
    exact cut_of_best hbest (by simp [Match.consumed]) (List.cons_ne_nil _ _)

theorem lex_escaped {c : Char} (h : c ∈ escapes) (rest : List Char)
    : lex ('\\' :: c :: rest) = (.element, String.ofList ['\\', c]) :: lex rest := by
  have hbest : best rules ('\\' :: c :: rest) = some (.verbatim .element ['\\', c]) := by
    simp only [escapes, List.mem_cons, List.not_mem_nil, or_false] at h
    rcases h with rfl | rfl | rfl | rfl | rfl | rfl | rfl | rfl
    all_goals rfl
  exact cut_of_verbatim [c] hbest

theorem lex_escapedControl {c : Char} (h : c ∈ ['\\', ',', ':', ';', '!', '>', ' '])
    (rest : List Char)
    : lex ('\\' :: c :: rest) = (.control, String.ofList ['\\', c]) :: lex rest := by
  have hbest : best rules ('\\' :: c :: rest) = some (.verbatim .control ['\\', c]) := by
    simp only [List.mem_cons, List.not_mem_nil, or_false] at h
    rcases h with rfl | rfl | rfl | rfl | rfl | rfl | rfl
    all_goals rfl
  exact cut_of_verbatim [c] hbest

theorem lex_rowEnd (rest : List Char)
    : lex ('\\' :: '\\' :: rest) = (.control, "\\\\") :: lex rest :=
  lex_escapedControl (by decide) rest

def rawCommands : List String :=
  ["text", "operatorname", "begin", "end", "hspace"]

section Commands

variable {name rest : List Char} (hname : ∀ c ∈ name, c.isAlpha) (hne : name ≠ [])
  (hrest : NotStartsWith Char.isAlpha rest)

include hname in
theorem ofList_ne_star : String.ofList name ≠ "operatorname*" := by
  intro heq
  have hstar : '*' ∈ name := by
    rw [← String.toList_ofList (l := name), heq]
    decide
  exact absurd (hname _ hstar) (by decide)

include hname hrest in
theorem textCommand?_append (hraw : String.ofList name ∉ rawCommands)
    : textCommand? (name ++ rest) = none := by
  have hmem : String.ofList name ∉ textCommands := by
    have hstar := ofList_ne_star hname
    simp only [rawCommands, List.mem_cons, List.not_mem_nil, or_false, not_or] at hraw
    simp only [textCommands, List.mem_cons, List.not_mem_nil, or_false, not_or]
    exact ⟨hraw.1, hraw.2.1, hstar, hraw.2.2⟩
  simp only [textCommand?, takeWhile_append_of_all hname hrest, dropWhile_append_of_all hname hrest]
  split
  next hoperator =>
    rw [hoperator] at hraw
    exact absurd (by decide) hraw
  . exact if_neg (by simpa [List.contains_iff_mem] using hmem)

include hname hne hrest in
theorem command?_append : command? ('\\' :: name ++ rest) = some (name, rest) := by
  simp only [List.cons_append, command?, takeWhile_append_of_all hname hrest,
    dropWhile_append_of_all hname hrest]

include hname hrest in
theorem arrayStart_append (hbegin : name ≠ "begin".toList)
    : arrayStart ('\\' :: name ++ rest) = none := by
  rw [Option.eq_none_iff_forall_ne_some]
  intro m h
  simp only [arrayStart, Option.bind_eq_bind, Option.bind_eq_some_iff] at h
  obtain ⟨after, hafter, inner, hinner, _⟩ := h
  have heq : name ++ rest = "begin".toList ++ after := by
    have := append_of_dropFront? hafter
    exact List.tail_eq_of_cons_eq this
  have hblanks := append_of_dropFront? hinner
  -- What follows is blank or a brace, so the letters of the name end where those of `begin` do.
  have hstop : NotStartsWith Char.isAlpha after := by
    intro c hc
    cases after with
    | nil => contradiction
    | cons d after =>
      cases hc
      cases hblank : isBlank c with
      | true =>
        rw [Bool.eq_false_iff]
        intro halpha
        rw [isBlank_of_isAlpha halpha] at hblank
        contradiction
      | false =>
        rw [trimStart, List.dropWhile_cons_of_neg (by simp [hblank])] at hblanks
        cases hblanks
        rfl
  apply hbegin
  rw [← takeWhile_append_of_all hname hrest, heq, takeWhile_append_of_all (by decide) hstop]

include hname hne in
theorem escaped_of_name {kind : Kind} {p : Char → Bool} (hp : ∀ c : Char, c.isAlpha → p c = false)
    : escaped kind p ('\\' :: name ++ rest) = none := by
  cases name with
  | nil => contradiction
  | cons c name => simp [escaped, hp c (hname c List.mem_cons_self)]

def commandRules : List (Rule Kind) :=
  [bareArguments, bareArgument, plainCommand]

include hname hne in
theorem best_command
    : best (rules.drop 2) ('\\' :: name ++ rest) = best commandRules ('\\' :: name ++ rest) := by
  have hsplit : rules.drop 2 = (rules.drop 2).take 8 ++ (commandRules ++ elementRules) := rfl
  have hbefore : ∀ rule ∈ (rules.drop 2).take 8, rule ('\\' :: name ++ rest) = none := by
    simp only [rules, List.drop_succ_cons, List.drop_zero, List.take_succ_cons, List.take_zero,
      List.forall_mem_cons]
    refine ⟨rfl, rfl, rfl, escaped_of_name hname hne ?_, rfl, rfl, rfl,
      escaped_of_name hname hne ?_, List.forall_mem_nil _⟩
    . intro c hc
      split
      case h_8 => rfl
      all_goals contradiction
    . intro c hc
      split
      case h_9 => rfl
      all_goals contradiction
  have hafter : ∀ rule ∈ elementRules, rule ('\\' :: name ++ rest) = none := by
    simp only [elementRules, List.forall_mem_cons]
    exact ⟨rfl, rfl, rfl, rfl, List.forall_mem_nil _⟩
  rw [hsplit, best_none_append hbefore, best_append_none hafter]

include hname hne hrest in
theorem best_plainCommand
    (hbare : Symbol.arity? (String.ofList name) = none ∨ bareArgument? rest = none)
    : best (rules.drop 2) ('\\' :: name ++ rest) = some (.verbatim .command ('\\' :: name)) := by
  have hcommand := command?_append hname hne hrest
  have hplain : plainCommand ('\\' :: name ++ rest) =
      some (.verbatim .command ('\\' :: name)) := by
    simp only [plainCommand, hcommand, Option.bind_eq_bind, Option.bind_some]
  have htwo : bareArguments ('\\' :: name ++ rest) = none := by
    simp only [bareArguments, hcommand, Option.bind_eq_bind, Option.bind_some]
    rcases hbare with harity | hbare
    . cases bareArgument? rest with
      | none => rfl
      | some found =>
        simp only [harity, Option.bind_some]
        split
        . simp
        . rfl
    . rw [hbare]
      rfl
  have hone : bareArgument ('\\' :: name ++ rest) = none := by
    simp only [bareArgument, hcommand, Option.bind_eq_bind, Option.bind_some]
    rcases hbare with harity | hbare
    . cases bareArgument? rest with
      | none => rfl
      | some found => simp [harity]
    . rw [hbare]
      rfl
  rw [best_command hname hne, commandRules, best_of_none htwo, best_of_none hone]
  refine best_cons hplain (Nat.succ_pos _) fun other hother => ?_
  exact absurd hother.symm (Option.some_ne_none other)

include hname hne hrest in
theorem lex_command (hraw : String.ofList name ∉ rawCommands)
    (hbare : Symbol.arity? (String.ofList name) = none ∨ bareArgument? rest = none)
    : lex ('\\' :: name ++ rest) = (.command, String.ofList ('\\' :: name)) :: lex rest := by
  have hbegin : name ≠ "begin".toList := by
    rintro rfl
    exact absurd (by decide) hraw
  have htext : textArgument ('\\' :: name ++ rest) = none := by
    simp [textArgument, textCommand?_append hname hrest hraw]
  apply cut_of_verbatim
  exact (best_of_none (arrayStart_append hname hrest hbegin)).trans
    ((best_of_none htext).trans (best_plainCommand hname hne hrest hbare))

end Commands

theorem rawText?_append {raw : List Char} (h : ∀ c ∈ raw, c ∉ ['{', '}', '\\']) (rest : List Char)
    : rawText? (raw ++ '}' :: rest) = some (raw, rest) := by
  induction raw with
  | nil => simp [rawText?]
  | cons c raw ih =>
    simp only [List.forall_mem_cons] at h
    rw [List.cons_append, rawText?]
    . rw [ih h.2]
      rfl
    all_goals
      rintro rfl
      exact h.1 (by decide)

theorem unescape_of_no_backslash {raw : List Char} (h : '\\' ∉ raw) : unescape raw = raw := by
  induction raw with
  | nil => simp [unescape]
  | cons c raw ih =>
    simp only [List.mem_cons, not_or] at h
    rw [unescape, ih h.2]
    exact Ne.symm h.1

theorem dropFront?_of_special {c : Char} (h : isSpecial c) (cs : List Char)
    : dropFront? spelledBackslash (c :: cs) = none := by
  have hne : 't' ≠ c := by
    rintro rfl
    contradiction
  exact if_neg hne

theorem unescape_special {c : Char} (h : isSpecial c) (cs : List Char)
    : unescape ('\\' :: c :: cs) = c :: unescape cs := by
  rw [unescape]
  split
  next heq => rw [dropFront?_of_special h] at heq; contradiction
  next => exact if_pos h

theorem unescape_spelledBackslash (cs : List Char)
    : unescape ('\\' :: (spelledBackslash ++ cs)) = '\\' :: unescape cs := by
  rw [unescape]
  split
  next heq =>
    rw [dropFront?_append] at heq
    rw [Option.some.inj heq]
  next heq => rw [dropFront?_append] at heq; contradiction

theorem unescape_escape (cs : List Char) : unescape (escape cs) = cs := by
  fun_induction escape cs with
  | case1 => rw [unescape]
  | case2 cs ih => rw [List.cons_append, unescape_spelledBackslash, ih]
  | case3 c cs hc hspecial ih => rw [unescape_special hspecial, ih]
  | case4 c cs hc hspecial ih =>
    rw [unescape, ih]
    exact hc

theorem rawText?_special {c : Char} (h : isSpecial c) {cs raw rest : List Char}
    (hcs : rawText? cs = some (raw, rest))
    : rawText? ('\\' :: c :: cs) = some ('\\' :: c :: raw, rest) := by
  have hnewline : c ≠ '\n' := by
    rintro rfl
    contradiction
  rw [rawText?]
  split
  next heq => rw [dropFront?_of_special h] at heq; contradiction
  next => simp [hnewline, hcs]

theorem rawText?_spelledBackslash {cs raw rest : List Char} (hcs : rawText? cs = some (raw, rest))
    : rawText? ('\\' :: (spelledBackslash ++ cs)) = some ('\\' :: spelledBackslash ++ raw, rest) := by
  rw [rawText?]
  split
  next heq =>
    rw [dropFront?_append] at heq
    rw [← Option.some.inj heq, hcs]
    rfl
  next heq => rw [dropFront?_append] at heq; contradiction

theorem rawText?_escape (cs rest : List Char)
    : rawText? (escape cs ++ '}' :: rest) = some (escape cs, rest) := by
  fun_induction escape cs with
  | case1 => rw [List.nil_append, rawText?]
  | case2 cs ih =>
    rw [List.append_assoc]
    exact rawText?_spelledBackslash ih
  | case3 c cs hc hspecial ih => exact rawText?_special hspecial ih
  | case4 c cs hc hspecial ih =>
    rw [List.cons_append, rawText?, ih]
    . rfl
    . rintro rfl
      exact hspecial rfl
    . rintro rfl
      exact hspecial rfl
    . exact hc

section RawArguments

variable {name raw : List Char} (rest : List Char) (hname : ∀ c ∈ name, c.isAlpha)
  (hcommand : String.ofList name ∈ rawCommands)
  (hraw : rawText? (raw ++ '}' :: rest) = some (raw, rest))

include hname hcommand hraw in
theorem textArgument_append
    : textArgument ('\\' :: name ++ '{' :: raw ++ '}' :: rest) =
      some (.whole (name.length + raw.length + 3)
        ((.command, String.ofList ('\\' :: name)) :: bracedTokens (unescape raw))) := by
  have hbrace : NotStartsWith Char.isAlpha ('{' :: (raw ++ '}' :: rest)) := by
    rw [notStartsWith_cons]
    rfl
  have htext : textCommand? (name ++ '{' :: (raw ++ '}' :: rest)) =
      some (String.ofList name, '{' :: (raw ++ '}' :: rest)) := by
    have hmem : textCommands.contains (String.ofList name) := by
      simp only [rawCommands, List.mem_cons, List.not_mem_nil, or_false] at hcommand
      rcases hcommand with h | h | h | h | h
      all_goals rw [h]; decide
    simp only [textCommand?, takeWhile_append_of_all hname hbrace,
      dropWhile_append_of_all hname hbrace]
    split
    next hstar => exact absurd (List.cons.inj hstar).1 (by decide)
    . exact if_pos hmem
  have hsize : (name ++ '{' :: (raw ++ '}' :: rest)).length + 1 - rest.length =
      name.length + raw.length + 3 := by
    simp only [List.length_append, List.length_cons]
    omega
  have htrim : trimStart ('{' :: (raw ++ '}' :: rest)) = '{' :: (raw ++ '}' :: rest) := rfl
  simp only [List.append_assoc, List.cons_append, textArgument, htext, htrim, dropFront?,
    hraw, hsize, Option.bind_eq_bind, Option.bind_some, if_true]
  rw [← String.ofList_append]
  rfl

include hname hcommand hraw in
theorem best_escapedArgument
    : best (rules.drop 1) ('\\' :: name ++ '{' :: raw ++ '}' :: rest) =
      some (.whole (name.length + raw.length + 3)
        ((.command, String.ofList ('\\' :: name)) :: bracedTokens (unescape raw))) := by
  apply best_cons (textArgument_append rest hname hcommand hraw) (Nat.succ_pos _)
  intro other hother
  have hne : name ≠ [] := by
    rintro rfl
    exact absurd hcommand (by decide)
  have hbrace : NotStartsWith Char.isAlpha ('{' :: (raw ++ '}' :: rest)) := by
    rw [notStartsWith_cons]
    rfl
  have hplain := best_plainCommand hname hne hbrace (.inr rfl)
  rw [List.append_assoc, List.cons_append] at hother
  cases hplain.symm.trans hother
  simp [Match.verbatim, Match.whole]
  omega

include hname hcommand hraw in
theorem lex_escapedArgument
    (harray : arrayStart ('\\' :: name ++ '{' :: raw ++ '}' :: rest) = none)
    : lex ('\\' :: name ++ '{' :: raw ++ '}' :: rest) =
      (.command, String.ofList ('\\' :: name)) :: bracedTokens (unescape raw) ++ lex rest := by
  have hbest := (best_of_none harray).trans (best_escapedArgument rest hname hcommand hraw)
  refine cut_of_best hbest ?_ (by simp)
  have hsplit : '\\' :: name ++ '{' :: raw ++ '}' :: rest =
      ('\\' :: name ++ '{' :: raw ++ ['}']) ++ rest := by simp
  rw [hsplit]
  apply List.drop_left'
  simp [Match.whole, Match.consumed]
  omega

include hname hcommand in
theorem lex_rawArgument (hplain : ∀ c ∈ raw, c ∉ ['{', '}', '\\'])
    (harray : arrayStart ('\\' :: name ++ '{' :: raw ++ '}' :: rest) = none)
    : lex ('\\' :: name ++ '{' :: raw ++ '}' :: rest) =
      (.command, String.ofList ('\\' :: name)) :: bracedTokens raw ++ lex rest := by
  have hlex := lex_escapedArgument rest hname hcommand (rawText?_append hplain rest) harray
  rwa [unescape_of_no_backslash fun hmem => hplain _ hmem (by decide)] at hlex

end RawArguments

theorem arrayStart_of_name_ne {name : List Char} (hname : ∀ c ∈ name, c.isAlpha)
    (hne : name ≠ "array".toList) (rest : List Char)
    : arrayStart ('\\' :: "begin".toList ++ '{' :: name ++ '}' :: rest) = none := by
  have hdrop : dropFront? "\x7barray\x7d".toList ('{' :: (name ++ '}' :: rest)) = none := by
    rw [Option.eq_none_iff_forall_ne_some]
    intro after h
    have heq : name ++ '}' :: rest = "array".toList ++ '}' :: after :=
      List.tail_eq_of_cons_eq (append_of_dropFront? h)
    have hstop : ∀ cs, NotStartsWith Char.isAlpha ('}' :: cs) := fun cs => by
      rw [notStartsWith_cons]
      rfl
    apply hne
    rw [← takeWhile_append_of_all hname (hstop rest), heq,
      takeWhile_append_of_all (by decide) (hstop after)]
  have hsplit : '\\' :: "begin".toList ++ '{' :: name ++ '}' :: rest =
      "\\begin".toList ++ ('{' :: (name ++ '}' :: rest)) := by
    simp
  have hbrace : ∀ cs, trimStart ('{' :: cs) = '{' :: cs := fun _ => rfl
  rw [hsplit, arrayStart]
  simp only [dropFront?_append, hbrace, hdrop, Option.bind_eq_bind, Option.bind_some,
    Option.bind_none]

theorem arrayStart_spec {spec : List Char} (h : '}' ∉ spec) (rest : List Char)
    : arrayStart ("\\begin\x7barray\x7d".toList ++ '{' :: spec ++ '}' :: rest) =
      some (.whole (spec.length + 15)
        ((.command, "\\begin") :: bracedTokens "array".toList ++ bracedTokens spec)) := by
  have hsplit : "\\begin\x7barray\x7d".toList ++ '{' :: spec ++ '}' :: rest =
      "\\begin".toList ++ ("\x7barray\x7d".toList ++ ('{' :: (spec ++ '}' :: rest))) := by
    simp
  have hsize : ("\\begin".toList ++ ("\x7barray\x7d".toList ++
      ('{' :: (spec ++ '}' :: rest)))).length - rest.length = spec.length + 15 := by
    simp
    omega
  have htrim : ∀ cs, trimStart ("\x7barray\x7d".toList ++ cs) = "\x7barray\x7d".toList ++ cs :=
    fun _ => rfl
  have hbrace : ∀ cs, trimStart ('{' :: cs) = '{' :: cs := fun _ => rfl
  rw [hsplit, arrayStart]
  simp only [hsize, dropFront?_append, htrim, hbrace, dropFront?, splitFirst?_append h,
    Option.bind_eq_bind, Option.bind_some, if_true]

theorem lex_array {spec : List Char} (h : '}' ∉ spec) (rest : List Char)
    : lex ("\\begin\x7barray\x7d".toList ++ '{' :: spec ++ '}' :: rest) =
      (.command, "\\begin") :: bracedTokens "array".toList ++ bracedTokens spec ++ lex rest := by
  have hbest : best rules ("\\begin\x7barray\x7d".toList ++ '{' :: spec ++ '}' :: rest) =
      some (.whole (spec.length + 15)
        ((.command, "\\begin") :: bracedTokens "array".toList ++ bracedTokens spec)) := by
    apply best_cons (arrayStart_spec h rest) (Nat.succ_pos _)
    intro other hother
    -- The rule for raw text finds the beginning of an array as well, but not its specification.
    have hraw := @best_escapedArgument "begin".toList "array".toList ('{' :: spec ++ '}' :: rest)
      (by decide) (by decide) (rawText?_append (by decide) _)
    have hsplit : "\\begin\x7barray\x7d".toList ++ '{' :: spec ++ '}' :: rest =
        '\\' :: "begin".toList ++ '{' :: "array".toList ++ '}' :: ('{' :: spec ++ '}' :: rest) := by
      simp
    rw [hsplit] at hother
    cases hraw.symm.trans hother
    exact Nat.le_add_left 13 _
  refine cut_of_best hbest ?_ (by simp)
  rw [List.append_cons]
  apply List.drop_left'
  simp [Match.whole, Match.consumed]

end Tex
end MathMarkup
