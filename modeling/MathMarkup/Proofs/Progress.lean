import MathMarkup.Proofs.Tex.Positions
import MathMarkup.Proofs.Typst.Positions

/-!
This module contains the proof that both parsers make progress and stay within their tokens. Read by
positions, a formula passes all checks of indices and ranges, each expression uses a token, and fuel
beyond the number of tokens is never used up.
-/

namespace MathMarkup

open Positions

/--
Formulas may be read by positions, and any fuel that exceeds the number of tokens is sufficient.
-/
theorem parse_within_ranges
    : (∀ (tokens : List Tex.Token) (fuel : Nat),
        (∀ token ∈ tokens, token.kind = .command → token.text.toList.head? = some '\\') →
        tokens.length < fuel →
          Tex.RangeParser.parse fuel tokens = some (Tex.parse tokens) ∧
          ∀ inEnv, Advances tokens
            (Tex.RangeParser.expr tokens (Tex.RangeParser.atom tokens fuel) inEnv fuel)) ∧
      ∀ (tokens : List Typst.Token) (fuel : Nat), tokens.length < fuel →
        Typst.RangeParser.parse fuel tokens = some (Typst.parse tokens) ∧
        Advances tokens
          (Typst.RangeParser.expr tokens (Typst.RangeParser.atom tokens fuel) fuel) := by
  constructor
  . intro tokens fuel hcommands hfuel
    refine ⟨Tex.RangeParser.parse_eq hcommands hfuel, fun inEnv => ?_⟩
    apply advances_of_agrees
    intro pos stop token htoken
    have hstop := htoken.le
    exact ⟨_, Tex.RangeParser.expr_agrees (Tex.RangeParser.atom_reads hcommands fuel) inEnv htoken
      (by omega) (by omega)⟩
  . intro tokens fuel hfuel
    refine ⟨Typst.RangeParser.parse_eq hfuel, ?_⟩
    apply advances_of_agrees
    intro pos stop token htoken
    have hstop := htoken.le
    exact ⟨_, Typst.RangeParser.expr_agrees (Typst.RangeParser.atom_reads tokens fuel) htoken
      (by omega) (by omega)⟩

theorem parse_within_ranges_malformed
    : Tex.RangeParser.parse 24 (Tex.tokenize "_\\begin\x7barray\x7d\x7bc\x7da&\\end\x7barray") =
        some (Tex.parse (Tex.tokenize "_\\begin\x7barray\x7d\x7bc\x7da&\\end\x7barray")) ∧
      Typst.RangeParser.parse 24 (Typst.tokenize "^lr( [a, x: ) _b)") =
        some (Typst.parse (Typst.tokenize "^lr( [a, x: ) _b)")) := by
  constructor
  . exact (parse_within_ranges.1 _ 24 (by decide +kernel) (by decide +kernel)).1
  . exact (parse_within_ranges.2 _ 24 (by decide +kernel)).1

end MathMarkup
