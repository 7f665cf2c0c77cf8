import MathMarkup.Symbol
import MathMarkup.Text.Basic

/-!
This module contains the listing of the symbols that both languages know.
-/

namespace MathMarkup
namespace Command

def padTo (size : Nat) (text : String) : String :=
  text ++ String.ofList (List.replicate (size - text.length) ' ')

def contains (text part : String) : Bool :=
  (Text.findFirst? part.toList text.toList).isSome

def listPairs (pairs : List (String × String)) (filter : String)
    (line : String × String → String) : String :=
  String.join
    ((pairs.filter fun (left, right) => contains left filter || contains right filter).map
      fun pair => line pair ++ "\n")

def listSymbols (filter : String) : String :=
  listPairs Symbol.pairs filter fun (tex, typst) => padTo 24 ("\\" ++ tex) ++ typst

def listShorthands (filter : String) : String :=
  listPairs Symbol.shorthands filter fun (name, spelling) => padTo 8 spelling ++ name

end Command
end MathMarkup
