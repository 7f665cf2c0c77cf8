import MathMarkup.Proofs.Scan.Places
import MathMarkup.Proofs.Tex.Element
import MathMarkup.Proofs.Typst.Lexing

/-!
This module contains the proof that no part of a text is lost when it is cut into tokens. The places
of the tokens cover the text, and a token that has its place to itself tells how the text reads
there. This holds of each language because it holds of each of its rules.
-/

namespace MathMarkup

open Text

namespace Scan

variable {κ : Type} {rules : List (Rule κ)} {unknown : κ}
variable {Writes : κ × String → List Char → Prop}

/--
A match at the front of a text leaves tokens and, if it is only one, the token is written as what
the match uses up.
-/
def Match.Faithful (Writes : κ × String → List Char → Prop) (cs : List Char) (m : Match κ) : Prop :=
  m.tokens ≠ [] ∧ ∀ lexeme, m.tokens = [lexeme] → Writes lexeme (cs.take m.consumed)

/--
What tokens keep of the text that they were cut from. `Writes` relates a token without its place to
the ways in which it can be written.
-/
structure Lossless (Writes : κ × String → List Char → Prop) (text : String)
    (tokens : List (Token κ)) : Prop where
  /-- The places, without repetitions, are those of slices that make up the text. -/
  places : ∃ slices : List (List Char), slices.flatten = text.toList ∧
    (∀ slice ∈ slices, slice ≠ []) ∧
    ((tokens.map Token.span).destutter (· ≠ ·)).map Span.range? =
      (Span.consecutive 0 slices).map some
  /-- At the place of a token that shares it with no other, the text reads like the token. -/
  alone : ∀ token ∈ tokens, (tokens.map Token.span).count token.span = 1 →
    ∃ slice, token.span.Locates text slice ∧ Writes token.lexeme slice

/--
A match that becomes one token with the text at the front.
-/
def Match.IsVerbatim (kind : κ) (cs : List Char) (m : Match κ) : Prop :=
  ∃ slice, m = .verbatim kind slice ∧ slice <+: cs ∧ slice ≠ []

section Rules

variable {kind : κ} {cs : List Char} {m : Match κ}

theorem isVerbatim_char {p : Char → Bool} (hm : Rule.char kind p cs = some m)
    : m.IsVerbatim kind cs := by
  unfold Rule.char at hm
  split at hm
  . contradiction
  next c cs =>
    obtain ⟨-, hm⟩ := Option.ite_none_right_eq_some.mp hm
    cases hm
    exact ⟨[c], rfl, List.prefix_append [c] cs, by simp⟩

theorem isVerbatim_run {p : Char → Bool} (hm : Rule.run kind p cs = some m)
    : m.IsVerbatim kind cs := by
  unfold Rule.run at hm
  split at hm
  . contradiction
  next hne =>
    cases hm
    exact ⟨_, rfl, List.takeWhile_prefix p, hne⟩

theorem isVerbatim_number (hm : Rule.number kind cs = some m) : m.IsVerbatim kind cs := by
  obtain ⟨digit, digits, -, hfront, rfl⟩ := verbatim_of_number hm
  exact ⟨_, rfl, hfront, by simp⟩

end Rules

section Faithful

variable {kind : κ} {cs : List Char} {m : Match κ}

theorem faithful_of_several (h : 2 ≤ m.tokens.length) : m.Faithful Writes cs := by
  constructor
  . intro hnil
    simp [hnil] at h
  . intro lexeme hlexeme
    simp [hlexeme] at h

theorem faithful_of_whole (slice : List Char) {lexeme : κ × String} (hslice : slice <+: cs)
    (hne : slice ≠ []) (h : Writes lexeme slice)
    : (Match.whole slice.length [lexeme]).Faithful Writes cs := by
  have hconsumed : (Match.whole slice.length [lexeme]).consumed = slice.length := by
    have := List.length_pos_iff.mpr hne
    simp only [Match.whole, Match.consumed]
    omega
  constructor
  . simp [Match.whole]
  . intro other hother
    cases hother
    rwa [hconsumed, ← List.prefix_iff_eq_take.mp hslice]

theorem Match.IsVerbatim.faithful (hm : m.IsVerbatim kind cs)
    (h : ∀ slice, Writes (kind, String.ofList slice) slice) : m.Faithful Writes cs := by
  obtain ⟨slice, rfl, hslice, hne⟩ := hm
  exact faithful_of_whole slice hslice hne (h slice)

theorem faithful_of_lineEnd (hm : Rule.lineEnd kind cs = some m)
    (h : ∀ text, Writes (kind, text) ['\n'] ∧ Writes (kind, text) ['\r', '\n'])
    : m.Faithful Writes cs := by
  unfold Rule.lineEnd at hm
  split at hm
  next rest =>
    cases hm
    exact faithful_of_whole ['\n'] (List.prefix_append _ rest) (by simp) (h _).1
  next rest =>
    cases hm
    exact faithful_of_whole ['\r', '\n'] (List.prefix_append _ rest) (by simp) (h _).2
  . contradiction

end Faithful

theorem Piece.IsFront.faithful {piece : Piece κ} {rest : List Char}
    (hpiece : piece.IsFront rules unknown rest)
    (hrules : ∀ rule ∈ rules, ∀ cs m, rule cs = some m → m.Faithful Writes cs)
    (hunknown : ∀ c : Char, Writes (unknown, c.toString) [c])
    : piece.lexemes ≠ [] ∧ ∀ lexeme, piece.lexemes = [lexeme] → Writes lexeme piece.slice := by
  obtain ⟨c, cs, -, hslice, hlexemes⟩ := hpiece
  rw [hslice, hlexemes]
  unfold step
  split
  next m hbest =>
    obtain ⟨rule, hrule, hm⟩ := exists_rule_of_best hbest
    exact hrules rule hrule _ m hm
  . refine ⟨by simp, ?_⟩
    intro lexeme hlexeme
    cases hlexeme
    exact hunknown c

theorem lossless_scan {text : String} (hsize : text.utf8ByteSize < Span.limit)
    (hrules : ∀ rule ∈ rules, ∀ cs m, rule cs = some m → m.Faithful Writes cs)
    (hunknown : ∀ c : Char, Writes (unknown, c.toString) [c])
    : Lossless Writes text (scan rules unknown text) where
  places := exists_slices hsize fun _ _ hpiece => (hpiece.faithful hrules hunknown).1
  alone := by
    intro token htoken halone
    obtain ⟨piece, rest, hspan, hpiece, hlexemes⟩ := exists_piece_of_alone hsize htoken halone
    exact ⟨piece.slice, hspan, (hpiece.faithful hrules hunknown).2 _ hlexemes⟩

end Scan

open Scan

namespace Tex

/--
How a token of TeX is written. All but comments and the ends of lines are written as they are.
-/
def Writes : (lexeme : Kind × String) → (slice : List Char) → Prop
  | (.comment, text), slice => slice = '%' :: text.toList
  | (.newline, _), slice => slice = ['\n'] ∨ slice = ['\r', '\n']
  | (_, text), slice => slice = text.toList

theorem Matched.faithful {cs : List Char} {m : Match Kind} (h : Matched cs m)
    : m.Faithful Writes cs := by
  cases h with
  | @verbatim kind slice hkind hslice hne _ =>
    refine faithful_of_whole slice hslice hne ?_
    cases kind
    case comment | newline => simp at hkind
    all_goals simp [Writes]
  | @comment text h => exact faithful_of_whole ('%' :: text) h (by simp) (by simp [Writes])
  | @lineEnd slice hslice h =>
    simp only [List.mem_cons, List.not_mem_nil, or_false] at h
    refine faithful_of_whole slice hslice ?_ h
    rcases h with rfl | rfl
    all_goals simp
  | script _ _ => exact faithful_of_several (by simp)
  | command _ _ hne _ =>
    have := List.length_pos_iff.mpr hne
    exact faithful_of_several (by simp only [Match.whole, List.length_cons]; omega)

end Tex

namespace Typst

/--
How a token of Typst is written. A text stands in quotes, a symbol may be written as its shorthand,
and all others but comments and the ends of lines are written as they are.
-/
def Writes : (lexeme : Kind × String) → (slice : List Char) → Prop
  | (.comment, text), slice => slice = '/' :: '/' :: text.toList
  | (.newline, _), slice => slice = ['\n'] ∨ slice = ['\r', '\n']
  | (.text, text), slice =>
    ∃ inner, slice = '"' :: inner ++ ['"'] ∧ unquote? (inner ++ ['"']) = some (text.toList, [])
  | (.symbol, text), slice =>
    slice = text.toList ∨ Symbol.shorthand? text = some (String.ofList slice)
  | (_, text), slice => slice = text.toList

theorem append_of_unquote? {cs content rest : List Char} (h : unquote? cs = some (content, rest))
    : ∃ inner, cs = inner ++ '"' :: rest ∧
        ∀ more, unquote? (inner ++ '"' :: more) = some (content, more) := by
  fun_induction unquote? cs generalizing content with
  | case1 => contradiction
  | case2 cs =>
    cases h
    exact ⟨[], rfl, fun more => by rw [List.nil_append, unquote?]⟩
  | case3 => contradiction
  | case4 c cs hc ih =>
    obtain ⟨⟨content, rest⟩, hread, heq⟩ := Option.map_eq_some_iff.mp h
    cases heq
    obtain ⟨inner, rfl, hinner⟩ := ih hread
    refine ⟨'\\' :: c :: inner, rfl, fun more => ?_⟩
    rw [List.cons_append, List.cons_append, unquote?, hinner]
    . rfl
    . exact hc
  | case5 => contradiction
  | case6 c cs hquote _ hescape hlast ih =>
    have hslash : c ≠ '\\' := by
      intro hc
      cases cs with
      | nil => exact hlast hc rfl
      | cons d cs => exact hescape d cs hc rfl
    obtain ⟨⟨content, rest⟩, hread, heq⟩ := Option.map_eq_some_iff.mp h
    cases heq
    obtain ⟨inner, rfl, hinner⟩ := ih hread
    refine ⟨c :: inner, rfl, fun more => ?_⟩
    rw [List.cons_append, unquote?, hinner]
    . rfl
    . exact hquote
    all_goals simp [hslash]

theorem shorthand?_of_mem : ∀ pair ∈ Symbol.shorthands,
    Symbol.shorthand? pair.1 = some pair.2 := by
  decide +kernel

theorem shorthand?_of_ofShorthand? {spelling name : String}
    (h : Symbol.ofShorthand? spelling = some name) : Symbol.shorthand? name = some spelling := by
  obtain ⟨pair, hpair, rfl⟩ := Option.map_eq_some_iff.mp h
  have hspelling := List.find?_some hpair
  rw [← eq_of_beq hspelling]
  exact shorthand?_of_mem pair (List.mem_of_find?_eq_some hpair)

theorem prefix_of_codeBody? {inner : Bool} {cs body : List Char}
    (h : codeBody? inner cs = some body) : body <+: cs := by
  fun_induction codeBody? inner cs generalizing body with
  | case1 => contradiction
  | case2 => contradiction
  | case5 =>
    cases h
    exact List.prefix_append _ _
  | case3 _ _ _ ih | case4 _ _ ih | case6 _ _ _ _ _ ih =>
    obtain ⟨body, hbody, rfl⟩ := Option.map_eq_some_iff.mp h
    exact List.cons_prefix_cons.mpr ⟨rfl, ih hbody⟩

theorem append_prefix {front more cs : List Char} (hfront : front <+: cs)
    (hmore : more <+: cs.drop front.length) : front ++ more <+: cs := by
  obtain ⟨rest, rfl⟩ := hfront
  rw [List.drop_left] at hmore
  exact (List.prefix_append_right_inj front).mpr hmore

theorem prefix_dottedParts (cs : List Char) : dottedParts cs <+: cs := by
  fun_induction dottedParts cs with
  | case1 => exact List.nil_prefix
  | case2 cs hne ih =>
    exact List.cons_prefix_cons.mpr ⟨rfl, append_prefix (List.takeWhile_prefix _) ih⟩
  | case3 => exact List.nil_prefix

section Rules

variable {cs : List Char} {m : Match Kind}

theorem writes_control (slice : List Char) : Writes (.control, String.ofList slice) slice := by
  simp [Writes]

theorem writes_element (slice : List Char) : Writes (.element, String.ofList slice) slice := by
  simp [Writes]

theorem writes_symbol (slice : List Char) : Writes (.symbol, String.ofList slice) slice := by
  simp [Writes]

theorem faithful_lineBreak (h : lineBreak cs = some m) : m.Faithful Writes cs := by
  unfold lineBreak at h
  split at h
  . cases h
    exact faithful_of_whole ['\\'] (List.prefix_refl _) (by simp) (writes_control _)
  . obtain ⟨-, h⟩ := Option.ite_none_right_eq_some.mp h
    cases h
    refine ⟨by simp, ?_⟩
    intro lexeme hlexeme
    cases hlexeme
    exact writes_control ['\\']
  . contradiction

theorem faithful_literal (h : literal cs = some m) : m.Faithful Writes cs := by
  unfold literal at h
  split at h
  next cs =>
    simp only [Option.bind_eq_bind, Option.bind_eq_some_iff] at h
    obtain ⟨⟨content, rest⟩, hread, h⟩ := h
    cases h
    obtain ⟨inner, rfl, hinner⟩ := append_of_unquote? hread
    have hsize : (inner ++ '"' :: rest).length + 1 - rest.length =
        ('"' :: inner ++ ['"']).length := by
      simp
      omega
    rw [hsize]
    refine faithful_of_whole _ (by simp) (by simp) ⟨inner, rfl, ?_⟩
    rw [hinner, String.toList_ofList]
  . contradiction

theorem faithful_shorthand (h : shorthand cs = some m) : m.Faithful Writes cs := by
  simp only [shorthand, Option.bind_eq_bind, Option.bind_eq_some_iff] at h
  obtain ⟨spelling, hspelling, name, hname, h⟩ := h
  cases h
  obtain ⟨hmem, hfront⟩ := mem_of_longestFront? hspelling
  obtain ⟨rest, hrest⟩ := Option.isSome_iff_exists.mp hfront
  have hne : spelling.toList ≠ [] := by
    have := (spelling_of_mem hmem).1
    exact List.ne_nil_of_length_pos (by omega)
  rw [append_of_dropFront? hrest, ← String.length_toList]
  refine faithful_of_whole _ (List.prefix_append _ rest) hne (.inr ?_)
  rw [String.ofList_toList]
  exact shorthand?_of_ofShorthand? hname

theorem faithful_name (h : name cs = some m) : m.Faithful Writes cs := by
  unfold name at h
  split at h
  . contradiction
  next hne =>
    cases h
    refine faithful_of_whole _ ?_ ?_ ?_
    . exact append_prefix (List.takeWhile_prefix _) (prefix_dottedParts _)
    . exact List.append_ne_nil_of_left_ne_nil hne _
    . split
      . exact writes_element _
      . exact writes_symbol _

end Rules

theorem faithful_of_rule {rule : Rule Kind} (hrule : rule ∈ rules) {cs : List Char}
    {m : Match Kind} (h : rule cs = some m) : m.Faithful Writes cs := by
  simp only [rules, List.mem_cons, List.not_mem_nil, or_false] at hrule
  rcases hrule with rfl | rfl | rfl | rfl | rfl | rfl | rfl | rfl | rfl | rfl | rfl | rfl | rfl |
    rfl | rfl | rfl
  . unfold comment at h
    split at h
    next cs =>
      cases h
      refine faithful_of_whole ('/' :: '/' :: cs.takeWhile (· != '\n')) ?_ (by simp)
        (by simp [Writes])
      exact (List.prefix_append_right_inj ['/', '/']).mpr (List.takeWhile_prefix _)
    . contradiction
  . exact (isVerbatim_char h).faithful writes_element
  . exact (isVerbatim_char h).faithful writes_control
  . exact faithful_of_lineEnd h (by simp [Writes])
  . exact (isVerbatim_run h).faithful (by simp [Writes])
  . exact faithful_lineBreak h
  . unfold escaped at h
    split at h
    next c rest =>
      obtain ⟨-, h⟩ := Option.ite_none_left_eq_some.mp h
      cases h
      exact faithful_of_whole ['\\', c] (List.prefix_append _ rest) (by simp) (writes_element _)
    . contradiction
  . exact faithful_literal h
  . exact faithful_shorthand h
  . exact (isVerbatim_number h).faithful writes_element
  . exact (isVerbatim_char h).faithful writes_element
  . obtain ⟨hfront, h⟩ := Option.ite_none_right_eq_some.mp h
    cases h
    obtain ⟨rest, hrest⟩ := Option.isSome_iff_exists.mp hfront
    rw [append_of_dropFront? hrest]
    exact faithful_of_whole "#none".toList (List.prefix_append _ rest) (by simp) rfl
  . unfold codeName at h
    split at h
    next c cs =>
      obtain ⟨-, h⟩ := Option.ite_none_right_eq_some.mp h
      cases h
      refine faithful_of_whole _ ?_ (by simp) (writes_symbol _)
      exact (List.prefix_append_right_inj ['#', c]).mpr (List.takeWhile_prefix _)
    . contradiction
  . unfold code at h
    split at h
    next cs =>
      simp only [Option.bind_eq_bind, Option.bind_eq_some_iff] at h
      obtain ⟨body, hbody, h⟩ := h
      cases h
      refine faithful_of_whole _ ?_ (by simp) (writes_symbol _)
      exact (List.prefix_append_right_inj ['#', '(']).mpr (prefix_of_codeBody? hbody)
    . contradiction
  . exact faithful_name h
  . exact (isVerbatim_char h).faithful writes_element

end Typst

/--
Both scanners keep the whole text, of which the size must be within the limit of places.
-/
theorem lossless_tokenize {text : String} (hsize : text.utf8ByteSize < Span.limit)
    : Lossless Tex.Writes text (Tex.tokenize text) ∧
      Lossless Typst.Writes text (Typst.tokenize text) := by
  constructor
  . apply lossless_scan hsize
    . intro rule hrule cs m hm
      exact (Tex.matched_of_rule hrule hm).faithful
    . simp [Tex.Writes]
  . apply lossless_scan hsize
    . intro rule hrule cs m hm
      exact Typst.faithful_of_rule hrule hm
    . simp [Typst.Writes]

theorem lossless_tokenize_arrow
    : "é -> \"\\n\" // \\frac12".utf8ByteSize < Span.limit ∧
      Lossless Tex.Writes "é -> \"\\n\" // \\frac12" (Tex.tokenize "é -> \"\\n\" // \\frac12") ∧
      Lossless Typst.Writes "é -> \"\\n\" // \\frac12"
        (Typst.tokenize "é -> \"\\n\" // \\frac12") :=
  have hsize : "é -> \"\\n\" // \\frac12".utf8ByteSize < Span.limit := by decide +kernel
  ⟨hsize, lossless_tokenize hsize⟩

end MathMarkup
