/-!
This module contains the trees that Typst formulas are read into.
-/

namespace MathMarkup
namespace Typst

inductive Formula where
  | atom (text : String)
  | symbol (name : String)
  | text (text : String)
  | comment (text : String)
  | space (text : String)
  | control (text : String)
  | nothing
  | unknown (text : String)
  | empty
  | group (nodes : List Formula)
  | parens (nodes : List Formula)
  | attach (base : Formula) (sub sup : Option Formula)
  | call (name : String) (args : List Formula) (named : List (String × Formula))
  | frac (num den : Formula)
  /-- A body between delimiters of its size. A missing delimiter is invisible. -/
  | leftRight (left : Option String) (body : Formula) (right : Option String)
  | matrix (rows : List (List Formula)) (named : List (String × Formula))
  | cases (rows : List (List Formula)) (named : List (String × Formula))
  | align (rows : List (List Formula))
deriving Repr, Inhabited

namespace Formula

def ofList : List Formula → Formula
  | [] => .empty
  | [node] => node
  | nodes => .group nodes

def plainCall (name : String) (args : List Formula) : Formula :=
  .call name args []

def named : Formula → List (String × Formula)
  | .call _ _ named | .matrix _ named | .cases _ named => named
  | _ => []

def argument? (key : String) (node : Formula) : Option Formula :=
  node.named.lookup key

def isSpace : Formula → Bool
  | .space _ => true
  | _ => false

def isEmpty : Formula → Bool
  | .empty => true
  | _ => false

def isPrime : Formula → Bool
  | .atom mark => mark == "'"
  | _ => false

mutual

def isTall : Formula → Bool
  | .frac _ _ | .matrix _ _ | .cases _ _ | .align _ => true
  | .group nodes | .parens nodes => anyTall nodes
  | .attach base sub sup => base.isTall || optionTall sub || optionTall sup
  | .call name args _ => name == "frac" || name == "binom" || anyTall args
  | .leftRight _ body _ => body.isTall
  | _ => false

def anyTall : List Formula → Bool
  | [] => false
  | node :: nodes => node.isTall || anyTall nodes

def optionTall : Option Formula → Bool
  | none => false
  | some node => node.isTall

end

def trimSpaces (nodes : List Formula) : List Formula :=
  ((nodes.dropWhile isSpace).reverse.dropWhile isSpace).reverse

end Formula
end Typst
end MathMarkup
