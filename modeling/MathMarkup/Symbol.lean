import MathMarkup.Symbol.Table

/-!
This module contains the questions that are put to the symbol tables: what a name is called in the
other language, how it can be abbreviated and how many arguments it takes.
-/

namespace MathMarkup
namespace Symbol

def toTypst? (name : String) : Option String :=
  pairs.lookup name

def toTex? (name : String) : Option String :=
  ((pairs ++ aliases).find? fun pair => pair.2 == name).map Prod.fst

/--
The spelling of a Typst name with punctuation, like `->` for `arrow.r`.
-/
def shorthand? (name : String) : Option String :=
  shorthands.lookup name

def ofShorthand? (spelling : String) : Option String :=
  (shorthands.find? fun pair => pair.2 == spelling).map Prod.fst

def arity? (name : String) : Option Arity :=
  arities.lookup name

/--
Whether Typst knows an operator of this name, like `sin` or `sech`.
-/
def isOperator (name : String) : Bool :=
  operators.contains name

end Symbol
end MathMarkup
