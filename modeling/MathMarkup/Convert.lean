import MathMarkup.Tex.Formula.OfTypst
import MathMarkup.Tex.Formula.Parser
import MathMarkup.Tex.Formula.Printer
import MathMarkup.Typst.Formula.OfTex
import MathMarkup.Typst.Formula.Parser

/-!
This module contains the conversion of written formulas: a formula is read, converted and written in
the other language.
-/

namespace MathMarkup

inductive Failure where
  | parse (error : ParseError)
  | convert (error : ConvertError)
deriving DecidableEq, Repr

namespace Failure

def message : Failure → String
  | parse error => error.message
  | convert error => error.message

def span : Failure → Span
  | parse error => error.span
  | convert error => error.span

def hints : Failure → List String
  | parse error => error.hints
  | convert error => error.hints

end Failure

def Options.tokenize (options : Options) (text : String) : List Tex.Token :=
  Tex.expandMacros options.customMacros.find? (Tex.tokenize text)

def texToTypst (options : Options) (text : String) : Except Failure String := do
  let formula ← (Tex.parse (options.tokenize text)).mapError .parse
  let converted ← (Typst.Formula.ofTex options formula).mapError (.convert <| ·.locate text)
  return Typst.write options.style converted

def typstToTex (options : Options) (text : String) : Except Failure String := do
  let formula ← (Typst.parseText text).mapError .parse
  let converted ← (Tex.Formula.ofTypst options formula).mapError (.convert <| ·.locate text)
  return Tex.write converted

end MathMarkup
