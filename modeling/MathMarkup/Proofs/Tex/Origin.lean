import MathMarkup.Convert
import MathMarkup.Proofs.Scan.Lossless
import MathMarkup.Proofs.Tex.Parsed

/-!
This module contains where the tokens of a TeX formula come from. Commands and unknown characters
stand in the text as they are in the tokens, and every token that is left by the expansion of the
user's commands stems from a token of the text.
-/

namespace MathMarkup
namespace Tex

open Text Scan

section Names

variable {cs : List Char} {m : Match Kind}

/--
The commands and unknown characters that a match finds stand at the front of the text.
-/
def StartsWithNames (cs : List Char) (m : Match Kind) : Prop :=
  ∀ lexeme ∈ m.tokens, lexeme.1 = .command ∨ lexeme.1 = .unknown →
    lexeme.2 ≠ "" ∧ lexeme.2.toList <+: cs

theorem Matched.startsWithNames (h : Matched cs m) : StartsWithNames cs m := by
  intro lexeme hlexeme hkind
  cases h with
  | verbatim _ hslice hne _ =>
    cases List.mem_singleton.mp hlexeme
    refine ⟨by simpa using hne, ?_⟩
    rwa [String.toList_ofList]
  | comment _ | lineEnd _ _ =>
    cases List.mem_singleton.mp hlexeme
    simp at hkind
  | script _ _ =>
    rcases List.mem_pair.mp hlexeme with rfl | rfl
    all_goals simp at hkind
  | command hslash htext _ hargs =>
    cases List.mem_cons.mp hlexeme with
    | inl hfirst =>
      cases hfirst
      refine ⟨?_, htext⟩
      rintro rfl
      contradiction
    | inr hother => exact absurd (by simpa using hkind) (hargs lexeme hother).1

theorem infix_of_mem_tokenize {text : String} (hsize : text.utf8ByteSize < Span.limit)
    {token : Token} (h : token ∈ tokenize text)
    (hkind : token.kind = .command ∨ token.kind = .unknown)
    : token.text ≠ "" ∧ token.text.toList <:+: text.toList := by
  obtain ⟨before, piece, after, htext, ⟨c, cs, hcs, -, hlexemes⟩, -, hlexeme, -⟩ :=
    exists_piece_of_mem_scan hsize h
  have hfront : token.text ≠ "" ∧ token.text.toList <+: c :: cs := by
    rw [hlexemes] at hlexeme
    unfold step at hlexeme
    split at hlexeme
    next m hbest =>
      obtain ⟨rule, hrule, hm⟩ := exists_rule_of_best hbest
      exact (matched_of_rule hrule hm).startsWithNames token.lexeme hlexeme hkind
    . have htoken : token.text = c.toString := congrArg Prod.snd (List.mem_singleton.mp hlexeme)
      simp [htoken]
  refine ⟨hfront.1, ?_⟩
  rw [htext, List.append_assoc, hcs]
  exact hfront.2.isInfix.trans (List.suffix_append before _).isInfix

end Names

section Expansion

variable {lookup : String → Option String} {source token : Token}

/--
The tokens that take the place of a token when commands are expanded: those of its definition, or
the token itself if it has none.
-/
inductive StemsFrom (lookup : String → Option String) (source : Token) : Token → Prop where
  | self (h : source.kind = .command → lookup source.name = none) : StemsFrom lookup source source
  | definition {text : String} {token : Token} (hkind : source.kind = .command)
    (htext : lookup source.name = some text) (htoken : token ∈ tokenize text)
    : StemsFrom lookup source (token.moveTo source.span)

theorem StemsFrom.span_eq (h : StemsFrom lookup source token) : token.span = source.span := by
  cases h with
  | self => rfl
  | definition => rfl

theorem StemsFrom.spelled (h : StemsFrom lookup source token) (hsource : Spelled source.lexeme)
    : Spelled token.lexeme := by
  cases h with
  | self => exact hsource
  | definition _ _ htoken =>
    have := spelled_of_mem_tokenize htoken
    exact this

theorem exists_stemsFrom {tokens : List Token} (h : token ∈ expandMacros lookup tokens)
    : ∃ source ∈ tokens, StemsFrom lookup source token := by
  obtain ⟨source, hsource, htoken⟩ := List.mem_flatMap.mp h
  refine ⟨source, hsource, ?_⟩
  split at htoken
  next hkind =>
    split at htoken
    next text htext =>
      obtain ⟨inner, hinner, rfl⟩ := List.mem_map.mp htoken
      exact .definition hkind htext hinner
    next hnone =>
      cases List.mem_singleton.mp htoken
      exact .self fun _ => hnone
  next hkind =>
    cases List.mem_singleton.mp htoken
    exact .self fun hcommand => absurd hcommand hkind

end Expansion

end Tex
end MathMarkup
