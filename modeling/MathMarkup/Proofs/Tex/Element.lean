import MathMarkup.Proofs.Scan
import MathMarkup.Tex.Token

/-!
This module contains what the rules of TeX match. `Matched` says for every match how its tokens are
related to the text, and from this follow the texts that tokens can have.
-/

namespace MathMarkup
namespace Tex

open Text Scan

def marks : List Char :=
  "+-*/='<>!.,;:?()[]|".toList

def escapes : List Char :=
  ['{', '}', '%', '$', '&', '#', '_', '|']

/--
A character that is an element on its own.
-/
def IsElementChar (c : Char) : Prop :=
  c.isAlphanum ∨ c ∈ marks ∨ 128 ≤ c.toNat

/--
The text of an element: a character, a number or an escaped character.
-/
inductive IsElement : String → Prop where
  | char {c : Char} (h : IsElementChar c) : IsElement c.toString
  | number {digit : Char} {digits : List Char} (h : digit.isDigit) :
    IsElement (String.ofList (digit :: digits))
  | escaped {c : Char} (h : c ∈ escapes) : IsElement (String.ofList ['\\', c])

def controls : List String :=
  ["\x7b", "\x7d", "_", "^", "&", "\\\\", "\\,", "\\:", "\\;", "\\!", "\\>", "\\ ", "~"]

/--
A control token is one of a few, a command has a backslash, and a space is blank.
-/
def Spelled : Kind × String → Prop
  | (.control, text) => text ∈ controls
  | (.command, text) => text.toList.head? = some '\\'
  | (.space, text) | (.newline, text) => ∀ c ∈ text.toList, Text.isBlank c
  | _ => True

/--
The text of a lexeme fits its kind.
-/
def IsLexeme (lexeme : Kind × String) : Prop :=
  Spelled lexeme ∧ (lexeme.1 = .element → IsElement lexeme.2)

theorem isElementChar_of_isDecimal {c : Char} (h : isDecimal c) : IsElementChar c := by
  simp only [isDecimal, Bool.or_eq_true, Bool.and_eq_true, decide_eq_true_eq] at h
  cases h with
  | inl hdigit => exact .inl (by simp [Char.isAlphanum, hdigit])
  | inr hwide => exact .inr (.inr hwide.1)

theorem isElementChar_of_bareArgument? {cs rest : List Char} {c : Char}
    (h : bareArgument? cs = some (c, rest)) : IsElementChar c := by
  unfold bareArgument? at h
  split at h
  . split at h
    next hc =>
      cases h
      simp only [Bool.or_eq_true, Bool.and_eq_true] at hc
      cases hc with
      | inl hdecimal => exact isElementChar_of_isDecimal hdecimal
      | inr halpha => exact .inl (by simp [Char.isAlphanum, halpha.1])
    . contradiction
  . contradiction

/--
What a rule finds at the front of a text. The tokens that follow a command in the same match are no
commands.
-/
inductive Matched (cs : List Char) : Match Kind → Prop where
  | verbatim {kind : Kind} {slice : List Char} (hkind : kind ∉ [.comment, .newline])
    (hslice : slice <+: cs) (hne : slice ≠ []) (h : IsLexeme (kind, String.ofList slice)) :
    Matched cs (.verbatim kind slice)
  | comment {text : List Char} (h : '%' :: text <+: cs) :
    Matched cs (.whole (text.length + 1) [(.comment, String.ofList text)])
  | lineEnd {slice : List Char} (hslice : slice <+: cs) (h : slice ∈ [['\n'], ['\r', '\n']]) :
    Matched cs (.whole slice.length [(.newline, "\n")])
  | script {size keep : Nat} {marker digit : Char} (hmarker : marker.toString ∈ controls)
    (hdigit : digit.isDigit) :
    Matched cs ⟨size, keep, [(.control, marker.toString), (.element, digit.toString)]⟩
  | command {size : Nat} {text : String} {args : List (Kind × String)}
    (hslash : text.toList.head? = some '\\') (htext : text.toList <+: cs) (hne : args ≠ [])
    (hargs : ∀ arg ∈ args, arg.1 ∉ [.command, .unknown] ∧ IsLexeme arg) :
    Matched cs (.whole size ((.command, text) :: args))

section Rules

variable {cs : List Char} {m : Match Kind}

theorem matched_char {kind : Kind} {p : Char → Bool} (hkind : kind ∉ [.comment, .newline])
    (h : Rule.char kind p cs = some m) (hp : ∀ c, p c → IsLexeme (kind, String.ofList [c]))
    : Matched cs m := by
  unfold Rule.char at h
  split at h
  . contradiction
  next c rest =>
    obtain ⟨hc, h⟩ := Option.ite_none_right_eq_some.mp h
    cases h
    exact .verbatim hkind (List.prefix_append [c] rest) (by simp) (hp c hc)

theorem matched_escaped {kind : Kind} {p : Char → Bool} (hkind : kind ∉ [.comment, .newline])
    (h : escaped kind p cs = some m) (hp : ∀ c, p c → IsLexeme (kind, String.ofList ['\\', c]))
    : Matched cs m := by
  unfold escaped at h
  split at h
  next c rest =>
    obtain ⟨hc, h⟩ := Option.ite_none_right_eq_some.mp h
    cases h
    exact .verbatim hkind (List.prefix_append ['\\', c] rest) (by simp) (hp c hc)
  . contradiction

theorem append_of_command? {name rest : List Char} (h : command? cs = some (name, rest))
    : cs = '\\' :: name ++ rest := by
  unfold command? at h
  split at h
  . split at h
    . contradiction
    . cases h
      rw [List.cons_append, List.takeWhile_append_dropWhile]
  . contradiction

theorem prefix_of_textCommand? {name : String} {rest : List Char}
    (h : textCommand? cs = some (name, rest)) : name.toList <+: cs := by
  have hcs : cs.takeWhile Char.isAlpha ++ cs.dropWhile Char.isAlpha = cs :=
    List.takeWhile_append_dropWhile
  unfold textCommand? at h
  dsimp only at h
  split at h
  next hname hrest =>
    obtain ⟨-, h⟩ := Option.ite_none_right_eq_some.mp h
    cases h
    have hletters : cs.takeWhile Char.isAlpha = "operatorname".toList := by
      rw [← hname, String.toList_ofList]
    rw [← hcs, hletters, hrest]
    exact List.prefix_append "operatorname*".toList _
  . obtain ⟨-, h⟩ := Option.ite_none_right_eq_some.mp h
    cases h
    rw [String.toList_ofList]
    exact List.takeWhile_prefix _

theorem isLexeme_bracedTokens (text : List Char)
    : ∀ arg ∈ bracedTokens text, arg.1 ∉ [.command, .unknown] ∧ IsLexeme arg := by
  simp [bracedTokens, IsLexeme, Spelled, controls]

theorem isLexeme_elementChar {c : Char} (h : IsElementChar c)
    : (Kind.element, c.toString).1 ∉ [.command, .unknown] ∧ IsLexeme (.element, c.toString) :=
  ⟨by simp, trivial, fun _ => .char h⟩

theorem matched_command {size : Nat} {name rest : List Char} {args : List (Kind × String)}
    (hname : command? cs = some (name, rest)) (hne : args ≠ [])
    (hargs : ∀ arg ∈ args, arg.1 ∉ [.command, .unknown] ∧ IsLexeme arg)
    : Matched cs (.whole size ((.command, String.ofList ('\\' :: name)) :: args)) := by
  refine .command (by simp) ?_ hne hargs
  rw [String.toList_ofList, append_of_command? hname]
  exact List.prefix_append _ rest

theorem matched_of_rule {rule : Rule Kind} (hrule : rule ∈ rules) (h : rule cs = some m)
    : Matched cs m := by
  simp only [rules, List.mem_cons, List.not_mem_nil, or_false] at hrule
  rcases hrule with rfl | rfl | rfl | rfl | rfl | rfl | rfl | rfl | rfl | rfl | rfl | rfl | rfl |
    rfl | rfl | rfl | rfl
  . simp only [arrayStart, Option.bind_eq_bind, Option.bind_eq_some_iff] at h
    obtain ⟨rest, hrest, _, _, _, _, ⟨spec, _⟩, _, h⟩ := h
    cases h
    refine .command rfl ?_ (by simp [bracedTokens]) (List.forall_mem_append.mpr
      ⟨isLexeme_bracedTokens _, isLexeme_bracedTokens spec⟩)
    rw [append_of_dropFront? hrest]
    exact List.prefix_append _ rest
  . unfold textArgument at h
    split at h
    . simp only [Option.bind_eq_bind, Option.bind_eq_some_iff] at h
      obtain ⟨⟨name, _⟩, hname, _, _, ⟨raw, _⟩, _, h⟩ := h
      cases h
      refine .command (by simp) ?_ (by simp [bracedTokens]) (isLexeme_bracedTokens _)
      rw [String.toList_append]
      exact List.cons_prefix_cons.mpr ⟨rfl, prefix_of_textCommand? hname⟩
    . contradiction
  . unfold comment at h
    split at h
    . cases h
      exact .comment (List.cons_prefix_cons.mpr ⟨rfl, List.takeWhile_prefix _⟩)
    . contradiction
  . refine matched_char (by decide) h fun c hc => ⟨?_, by simp⟩
    split at hc
    case h_6 => contradiction
    all_goals simp [Spelled, controls]
  . unfold scriptDigit at h
    split at h
    . obtain ⟨hmarker, h⟩ := Option.ite_none_right_eq_some.mp h
      split at h
      next hdigits =>
        cases h
        refine .script ?_ (isDigit_of_takeWhile hdigits)
        split at hmarker
        case h_3 => contradiction
        all_goals simp [controls]
      . contradiction
    . contradiction
  . refine matched_escaped (by decide) h fun c hc => ⟨?_, by simp⟩
    split at hc
    case h_8 => contradiction
    all_goals simp [Spelled, controls]
  . refine matched_char (by decide) h fun c hc => ⟨?_, by simp⟩
    cases eq_of_beq hc
    simp [Spelled, controls]
  . unfold Rule.lineEnd at h
    split at h
    next rest =>
      cases h
      exact .lineEnd (List.prefix_append ['\n'] rest) (by simp)
    next rest =>
      cases h
      exact .lineEnd (List.prefix_append ['\r', '\n'] rest) (by simp)
    . contradiction
  . unfold Rule.run at h
    split at h
    . contradiction
    next hne =>
      cases h
      refine .verbatim (by decide) (List.takeWhile_prefix _) hne ⟨fun c hc => ?_, by simp⟩
      rw [String.toList_ofList] at hc
      have hinline := List.all_eq_true.mp List.all_takeWhile c hc
      exact (Bool.and_eq_true_iff.mp hinline).1
  . refine matched_escaped (by decide) h fun c hc => ⟨trivial, fun _ => .escaped ?_⟩
    split at hc
    case h_9 => contradiction
    all_goals decide
  . simp only [bareArguments, Option.bind_eq_bind, Option.bind_eq_some_iff] at h
    obtain ⟨⟨name, _⟩, hname, ⟨first, _⟩, hfirst, h⟩ := h
    split at h
    . obtain ⟨hsecond, h⟩ := Option.ite_none_right_eq_some.mp h
      cases h
      refine matched_command hname (by simp) (List.forall_mem_cons.mpr
        ⟨isLexeme_elementChar (isElementChar_of_bareArgument? hfirst),
          List.forall_mem_singleton.mpr (isLexeme_elementChar (.inl ?_))⟩)
      exact (Bool.and_eq_true_iff.mp hsecond).1
    . contradiction
  . simp only [bareArgument, Option.bind_eq_bind, Option.bind_eq_some_iff] at h
    obtain ⟨⟨name, _⟩, hname, ⟨arg, _⟩, harg, h⟩ := h
    obtain ⟨-, h⟩ := Option.ite_none_right_eq_some.mp h
    cases h
    exact matched_command hname (by simp) (List.forall_mem_singleton.mpr
      (isLexeme_elementChar (isElementChar_of_bareArgument? harg)))
  . simp only [plainCommand, Option.bind_eq_bind, Option.bind_eq_some_iff] at h
    obtain ⟨⟨name, rest⟩, hname, h⟩ := h
    cases h
    rw [append_of_command? hname]
    exact .verbatim (by decide) (List.prefix_append _ rest) (by simp) ⟨by simp [Spelled], by simp⟩
  . obtain ⟨digit, digits, hdigit, hfront, rfl⟩ := verbatim_of_number h
    exact .verbatim (by decide) hfront (by simp) ⟨trivial, fun _ => .number hdigit⟩
  . refine matched_char (by decide) h fun c hc => ⟨trivial, fun _ => .char (.inl ?_)⟩
    simp [Char.isAlphanum, hc]
  . exact matched_char (by decide) h fun c hc =>
      ⟨trivial, fun _ => .char (.inr (.inl (List.contains_iff_mem.mp hc)))⟩
  . exact matched_char (by decide) h fun c hc =>
      ⟨trivial, fun _ => .char (.inr (.inr (of_decide_eq_true hc)))⟩

theorem Matched.isLexeme (h : Matched cs m) : ∀ lexeme ∈ m.tokens, IsLexeme lexeme := by
  have hblank : Text.isBlank '\n' := by decide
  cases h with
  | verbatim _ _ _ h => exact List.forall_mem_singleton.mpr h
  | comment _ => exact List.forall_mem_singleton.mpr ⟨trivial, by simp⟩
  | lineEnd _ _ => exact List.forall_mem_singleton.mpr ⟨by simpa [Spelled] using hblank, by simp⟩
  | script hmarker hdigit =>
    exact List.forall_mem_cons.mpr ⟨⟨hmarker, by simp⟩, List.forall_mem_singleton.mpr
      ⟨trivial, fun _ => .char (.inl (by simp [Char.isAlphanum, hdigit]))⟩⟩
  | command hslash _ _ hargs =>
    exact List.forall_mem_cons.mpr ⟨⟨hslash, by simp⟩, fun arg harg => (hargs arg harg).2⟩

end Rules

theorem isLexeme_of_mem_tokenize {text : String} {token : Token} (h : token ∈ tokenize text)
    : IsLexeme token.lexeme := by
  have hmem : token.lexeme ∈ cut rules .unknown text.toList := by
    rw [← scan_lexemes]
    exact List.mem_map_of_mem h
  cases mem_cut hmem with
  | inl hunknown =>
    have hkind : token.kind = .unknown := hunknown
    simp [IsLexeme, Token.lexeme, hkind, Spelled]
  | inr hrule =>
    obtain ⟨rule, hrule, rest, m, hm, hs⟩ := hrule
    exact (matched_of_rule hrule hm).isLexeme token.lexeme hs

theorem spelled_of_mem_tokenize {text : String} {token : Token} (h : token ∈ tokenize text)
    : Spelled token.lexeme :=
  (isLexeme_of_mem_tokenize h).1

theorem isElement_of_mem_tokenize {text : String} {token : Token} (h : token ∈ tokenize text)
    (hkind : token.kind = .element) : IsElement token.text :=
  (isLexeme_of_mem_tokenize h).2 hkind

end Tex
end MathMarkup
