import MathMarkup.ParseError
import MathMarkup.Typst.Formula

/-!
This module contains the division of Typst, the one operator that is written between its operands.
Divisions associate to the left and take the nearest formula on either side.
-/

namespace MathMarkup
namespace Typst

inductive Item where
  | node (node : Formula)
  | slash (span : Span)
deriving Repr

namespace Item

def missingOperand (span : Span) (hints : List String) : ParseError :=
  { fault := .missingOperand "/", span, hints }

/--
Parentheses around an operand only group, so they are removed.
-/
def operand : Formula → Formula
  | .parens nodes => .ofList nodes
  | other => other

/--
Replace each slash and the formulas around it by a fraction. Spaces around a slash are dropped.
-/
def resolve (items : List Item) : Except ParseError (List Formula) :=
  go [] none items
where
  /-- `done` holds the formulas before the current item, last one first, and `pending` a numerator
  whose denominator is still to come. -/
  go (done : List Formula) (pending : Option (Formula × Span)) :
      List Item → Except ParseError (List Formula)
    | [] =>
      match pending with
      | none => .ok done.reverse
      | some (_, span) => .error (missingOperand span ["add a denominator after the slash"])
    | .slash span :: items =>
      match pending with
      | some _ => .error (missingOperand span [])
      | none =>
        match done.dropWhile Formula.isSpace with
        | [] => .error (missingOperand span ["add a numerator before the slash"])
        | num :: done => go done (some (num, span)) items
    | .node next :: items =>
      match pending with
      | none => go (next :: done) none items
      | some (num, span) =>
        if next.isSpace then
          go done (some (num, span)) items
        else
          go (.frac (operand num) (operand next) :: done) none items

end Item
end Typst
end MathMarkup
