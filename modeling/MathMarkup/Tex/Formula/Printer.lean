import MathMarkup.Tex.Escape
import MathMarkup.Tex.Formula
import MathMarkup.Text.Basic

/-!
This module contains the writing of TeX formulas. A formula is first spelt as a list of pieces,
which are then set one after the other with a space where TeX needs one or where it helps to read.
-/

namespace MathMarkup
namespace Tex

open Text

inductive Piece where
  | token (text : String)
  | glued (text : String)
deriving DecidableEq, Repr

namespace Formula

def escaped (raw : String) : String :=
  String.ofList (escape raw.toList)

def braced (spelled : List Piece) : List Piece :=
  .token "\x7b" :: spelled ++ [.token "\x7d"]

def needsBraces : Formula → Bool
  | group _ | attach _ _ _ | empty => true
  | _ => false

def isBareScript : Formula → Bool
  | .element s => s.length == 1 || s.toList.head? == some '\\'
  | .symbol _ => true
  | _ => false

def script (marker : String) (node : Formula) (spelled : List Piece) : List Piece :=
  .token marker :: if node.isBareScript then spelled else braced spelled

def leadingPrimes : Formula → Nat
  | group nodes => (nodes.takeWhile isPrime).length
  | node => if node.isPrime then 1 else 0

/--
The rest of a superscript after the primes at its start, given how its nodes are spelt.
-/
def afterPrimes (nodes : List Formula) (spelled : List (List Piece)) : List Piece :=
  let marks := (nodes.takeWhile isPrime).length
  let spelled := (spelled.drop marks).flatten
  match nodes.drop marks with
  | [] => []
  | [node] => script "^" node spelled
  | _ => .token "^" :: braced spelled

def betweenSpaces (nodes : List Formula) (spelled : List (List Piece)) : List Piece :=
  let before := (nodes.takeWhile isSpace).length
  ((spelled.drop before).take (trimSpaces nodes).length).flatten

def row (cells : List (List Piece)) : List Piece :=
  (cells.intersperse [.token "&"]).flatten

def grid (rows : List (List (List Piece))) : List Piece :=
  ((rows.map row).intersperse [.token "\\\\", .token "\n"]).flatten

mutual

def pieces : Formula → List Piece
  | .element s | .unknown s | .control s | .space s => [.token s]
  | .symbol name => [.token ("\\" ++ name)]
  | .text s => [.token ("\\text\x7b" ++ escaped s ++ "\x7d")]
  | .comment s => [.token ("%" ++ s), .token "\n"]
  | .empty => []
  | .group nodes => (eachPieces nodes).flatten
  | .attach base sub sup =>
    let spelled := base.pieces
    (if base.needsBraces then braced spelled else spelled) ++
      (List.replicate ((sup.map leadingPrimes).getD 0) (.token "'")) ++ subPieces sub ++
      supPieces sup
  | .func name args degree =>
    .token ("\\" ++ name) :: degreePieces degree ++ argPieces args
  | .leftRight left body right =>
    let inner :=
      match body with
      | .group nodes => betweenSpaces nodes (eachPieces nodes)
      | .space _ => []
      | body => body.pieces
    .token ("\\left" ++ left.getD ".") :: .token " " :: inner ++
      [.token ("\\right" ++ right.getD ".")]
  | .env name spec rows =>
    let spec :=
      match spec with
      | some spec => [.glued ("\x7b" ++ spec ++ "\x7d")]
      | none => []
    .token ("\\begin\x7b" ++ name ++ "\x7d") :: spec ++ .token "\n" :: grid (rowPieces rows) ++
      [.token "\n", .token ("\\end\x7b" ++ name ++ "\x7d")]

def eachPieces : List Formula → List (List Piece)
  | [] => []
  | node :: nodes => node.pieces :: eachPieces nodes

def rowPieces : List (List Formula) → List (List (List Piece))
  | [] => []
  | cells :: rows => eachPieces cells :: rowPieces rows

def subPieces : Option Formula → List Piece
  | none => []
  | some node => script "_" node node.pieces

def supPieces : Option Formula → List Piece
  | none => []
  | some (.group nodes) =>
    if leadingPrimes (.group nodes) = 0 then
      .token "^" :: braced (eachPieces nodes).flatten
    else
      afterPrimes nodes (eachPieces nodes)
  | some node => if node.isPrime then [] else script "^" node node.pieces

def degreePieces : Option Formula → List Piece
  | none => []
  | some node => .token "[" :: node.pieces ++ [.token "]"]

/--
Spell the arguments of a command. Raw text stands in the braces of the argument itself.
-/
def argPieces : List Formula → List Piece
  | [] => []
  | .text s :: nodes => braced [.token (escaped s)] ++ argPieces nodes
  | node :: nodes => braced node.pieces ++ argPieces nodes

end

end Formula

/--
What has been written so far, last character first, and whether an odd number of bars stands in it.
-/
structure Line where
  reversed : List Char := []
  openBar : Bool := false
deriving Repr

namespace Line

/--
Whether what has been written ends with a command like `\sqrt`.
-/
def endsWithCommand (reversed : List Char) : Bool :=
  !(reversed.takeWhile Char.isAlpha).isEmpty &&
    (reversed.dropWhile Char.isAlpha).head? == some '\\'

def endsWithLeadingSign : (reversed : List Char) → Bool
  | sign :: before =>
    (sign matches '-' | '+') && (before.dropWhile isBlank).head?.any (· matches '(' | '[' | '{')
  | [] => false

def tight : List String :=
  [".", ",", ";", ":", "!", "?", "(", ")", "]", "\x7b", "\x7d", "_", "^", "'", "\\\x7b", "\\\x7d"]

def needsSpace (line : Line) (token : String) : Bool :=
  match line.reversed with
  | [] => false
  | last :: before =>
    let first := token.toList.headD ' '
    if isBlank last || isBlank first then false
    else if last matches '{' | '(' | '[' | '|' | '_' | '^' then false
    else if token == "[" && endsWithCommand (last :: before) then false
    else if tight.contains token then false
    else if token == "|" && line.openBar then false
    else if (before.isEmpty && last matches '-' | '+') || endsWithLeadingSign (last :: before) then
      false
    else if last == '&' && token == "=" then false
    else if last.isDigit && first.isDigit then false
    else true

def push (line : Line) : Piece → Line
  | .glued text => { line with reversed := text.toList.reverse ++ line.reversed }
  | .token text =>
    if text.isEmpty then
      line
    else
      let gap := if line.needsSpace text then [' '] else []
      { reversed := text.toList.reverse ++ gap ++ line.reversed,
        openBar := if text == "|" then !line.openBar else line.openBar }

end Line

def setPieces (pieces : List Piece) : Line :=
  pieces.foldl Line.push {}

/--
Write a TeX formula. Blanks at the end are dropped.
-/
def write (node : Formula) : String :=
  String.ofList ((setPieces node.pieces).reversed.dropWhile isBlank).reverse

end Tex
end MathMarkup
