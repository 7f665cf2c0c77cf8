import MathMarkup.Proofs.Convert.RoundTrip
import MathMarkup.Proofs.Result

/-!
This module contains what follows from the choice between shorthands and names for symbols. The
choice is left to the writer, so the formula that is written does not depend on it. A regular
formula is read back as it was written, whatever the choice. This is not so of every formula: a sign
that opens a formula is set without a space, and a shorthand behind it is read together with the
sign.
-/

namespace MathMarkup

namespace Typst

theorem Formula.ofTex_preferShorthands (options : Options) (preferShorthands : Bool)
    : ofTex { options with preferShorthands } = ofTex options := by
  delta ofTex
  congr 1

theorem Formula.Regular.restyle {style other : Style} {words : Vocabulary} {node : Formula}
    (h : Regular style words node) (hstyle : other.inftyToOo = style.inftyToOo)
    : Regular other words node := by
  induction h with
  | letter h => exact .letter h
  | sign h => exact .sign h
  | number h hne => exact .number h hne
  | symbol h hinfinity => exact .symbol h (hstyle ▸ hinfinity)
  | parens hflat hnumbers _ ih => exact .parens hflat hnumbers ih
  | group hlength hflat hnumbers _ ih => exact .group hlength hflat hnumbers ih
  | call hname hne _ ih => exact .call hname hne ih
  | frac _ _ hnumParens hdenParens ihnum ihden => exact .frac ihnum ihden hnumParens hdenParens
  | attach _ hkind _ _ hsome ihbase ihsub ihsup => exact .attach ihbase hkind ihsub ihsup hsome
  | primed _ hkind _ hcount ihbase ihsub => exact .primed ihbase hkind ihsub hcount
  | leftRight hfences _ hwords ih => exact .leftRight hfences ih hwords
  | matrix hnamed hrows hcells _ ih => exact .matrix hnamed hrows hcells ih
  | cases hrows hcells _ ih => exact .cases hrows hcells ih

end Typst

/--
What is written for a regular formula is converted to what the formula itself is converted to,
however it is written.
-/
theorem toOption_typstToTex_write {style : Typst.Style} {words : Typst.Vocabulary}
    {node : Typst.Formula} (options : Options) (h : node.Regular style words)
    : (typstToTex options (Typst.write style node)).toOption =
      (Tex.write <$> Tex.Formula.ofTypst options node).toOption := by
  obtain ⟨image, hparse, himage⟩ := h.exists_image
  have hsame := (@Tex.Formula.sameResult_withoutSpaces options _ himage.tidy).1
  rw [himage.withoutSpaces] at hsame
  rw [typstToTex, hparse, ← hsame]
  change ((Tex.Formula.ofTypst options image).mapError _ >>= _).toOption = _
  cases Tex.Formula.ofTypst options image with
  | error e => rfl
  | ok formula => rfl

/--
Shorthands are a choice of notation for the formulas that are converted to regular ones: with and
without them the results are converted back to the same formula, or neither is. Of the characters
that shorthands are made of, only `=` is an atom of such a formula.
-/
theorem toOption_typstToTex_shorthands (options : Options) (words : Typst.Vocabulary)
    (text : String) (node : Tex.Formula) (image : Typst.Formula)
    (hparse : Tex.parse (options.tokenize text) = .ok node)
    (hconverted : Typst.Formula.ofTex options node = .ok image)
    (hregular : image.Regular options.style words)
    : ∃ short long,
      texToTypst { options with preferShorthands := true } text = .ok short ∧
      texToTypst { options with preferShorthands := false } text = .ok long ∧
      (typstToTex options short).toOption = (typstToTex options long).toOption := by
  have hwritten (preferShorthands : Bool) :
      texToTypst { options with preferShorthands } text =
        .ok (Typst.write { options.style with preferShorthands } image) := by
    refine @texToTypst_eq_ok { options with preferShorthands } _ _ _ hparse ?_
    rwa [Typst.Formula.ofTex_preferShorthands]
  have hback (preferShorthands : Bool) :=
    @toOption_typstToTex_write { options.style with preferShorthands } words image options
      (hregular.restyle rfl)
  exact ⟨_, _, hwritten true, hwritten false, (hback true).trans (hback false).symm⟩

theorem toOption_typstToTex_shorthands_arrow
    : ∃ short long,
      texToTypst {} "x \\rightarrow y" = .ok short ∧
      texToTypst { preferShorthands := false } "x \\rightarrow y" = .ok long ∧
      (typstToTex {} short).toOption = (typstToTex {} long).toOption := by
  have hletter : ∀ {c : Char}, c.isAlpha → Tex.Formula.Shared (.element (String.ofList [c])) :=
    .letter
  have harrow : Tex.Formula.Shared (.symbol "rightarrow") := .symbol rfl rfl rfl (by decide)
  have hshared : Tex.Formula.Shared
      (.group [.element "x", .symbol "rightarrow", .element "y"]) := by
    refine .group (by decide) (by simp) ?_ ?_
    . simp [Tex.Formula.isNumberOrFraction, Tex.Formula.isNumber]
    . simpa using ⟨hletter (by decide : 'x'.isAlpha), harrow, hletter (by decide : 'y'.isAlpha)⟩
  have htext : Tex.write (.group [.element "x", .symbol "rightarrow", .element "y"]) =
      "x \\rightarrow y" := by
    decide +kernel
  obtain ⟨read, image, hparse, hforth, htranslation⟩ := hshared.exists_translation
  rw [htext] at hparse
  exact toOption_typstToTex_shorthands {} Typst.anyNames _ read image hparse hforth
    htranslation.regular

/--
A sign that opens a formula takes the shorthand behind it into another shorthand. A sign behind a
shorthand becomes one with the next character.
-/
theorem shorthand_joins_sign
    : texToTypst {} "(-\\to a)" = .ok "(--> a)" ∧
      texToTypst { preferShorthands := false } "(-\\to a)" = .ok "(-arrow.r a)" ∧
      typstToTex {} "(--> a)" = .ok "(\\longrightarrow a)" ∧
      typstToTex {} "(-arrow.r a)" = .ok "(-\\rightarrow a)" ∧
      texToTypst {} "\\ne ->" = .ok "!= ->" ∧
      texToTypst { preferShorthands := false } "\\ne ->" = .ok "eq.not - >" ∧
      typstToTex {} "!= ->" = .ok "\\neq \\rightarrow" ∧
      typstToTex {} "eq.not - >" = .ok "\\neq - >" := by
  refine ⟨?_, ?_, ?_, ?_, ?_, ?_, ?_, ?_⟩
  all_goals exact eq_ok_of_toOption (by decide +kernel)

end MathMarkup
