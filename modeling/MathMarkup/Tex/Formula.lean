/-!
This module contains the trees that TeX formulas are read into.
-/

namespace MathMarkup
namespace Tex

inductive Formula where
  | element (text : String)
  | symbol (name : String)
  | unknown (text : String)
  | text (text : String)
  | comment (text : String)
  | space (text : String)
  | control (text : String)
  | empty
  | group (nodes : List Formula)
  | attach (base : Formula) (sub sup : Option Formula)
  /-- A command with its arguments. Only a root has a degree. -/
  | func (name : String) (args : List Formula) (degree : Option Formula)
  /-- A body between delimiters of its size. A missing delimiter is invisible. -/
  | leftRight (left : Option String) (body : Formula) (right : Option String)
  /-- An environment: its name, the column specification of an array, and the rows of cells. -/
  | env (name : String) (spec : Option String) (rows : List (List Formula))
deriving Repr, Inhabited

namespace Formula

def ofList : List Formula → Formula
  | [] => .empty
  | [node] => node
  | nodes => .group nodes

def call (name : String) (args : List Formula) : Formula :=
  .func name args none

def isSpace : Formula → Bool
  | space _ => true
  | _ => false

def isBlank : Formula → Bool
  | .space blanks => !blanks.toList.contains '\n'
  | _ => false

def isEmpty : Formula → Bool
  | empty => true
  | _ => false

def isPrime : Formula → Bool
  | .element mark => mark == "'"
  | _ => false

def tallCommands : List String :=
  ["frac", "dfrac", "tfrac", "binom", "dbinom", "tbinom"]

mutual

def isTall : Formula → Bool
  | group nodes => anyTall nodes
  | attach base sub sup => base.isTall || optionTall sub || optionTall sup
  | func name args _ => tallCommands.contains name || anyTall args
  | leftRight _ body _ => body.isTall
  | env _ _ _ => true
  | _ => false

def anyTall : List Formula → Bool
  | [] => false
  | node :: nodes => node.isTall || anyTall nodes

def optionTall : Option Formula → Bool
  | none => false
  | some node => node.isTall

end

def trimSpaces (nodes : List Formula) : List Formula :=
  ((nodes.dropWhile isSpace).reverse.dropWhile isSpace).reverse

end Formula
end Tex
end MathMarkup
