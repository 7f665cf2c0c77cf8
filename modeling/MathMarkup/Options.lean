import MathMarkup.Macros
import MathMarkup.Typst.Formula.Printer

/-!
This module contains the choices that a conversion depends on.
-/

namespace MathMarkup

structure Options where
  /-- Whether symbols are written as shorthands, like `->` for `arrow.r`. -/
  preferShorthands : Bool := true
  fracToSlash : Bool := true
  inftyToOo : Bool := false
  nonStrict : Bool := false
  /-- Whether common constructions are written in the idiom of Typst, like `abs(x)`. -/
  optimize : Bool := true
  keepSpaces : Bool := false
  /-- The function that text beyond ASCII is wrapped in. The empty name stands for none. -/
  nonAsciiWrapper : String := ""
  customMacros : Macros := .empty
deriving DecidableEq, Repr

namespace Options

def style (options : Options) : Typst.Style where
  preferShorthands := options.preferShorthands
  inftyToOo := options.inftyToOo
  optimize := options.optimize

end Options
end MathMarkup
