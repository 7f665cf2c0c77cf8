import MathMarkup.Symbol
import MathMarkup.Text.Identifier
import MathMarkup.Typst.Formula
import MathMarkup.Typst.Quote

/-!
This module contains the writing of Typst formulas. A formula is first spelt as a list of pieces,
which are then set one after the other with a space where Typst needs one or where it helps to
read. What only shows in the written text is dealt with at the end: pairs of floor and ceiling
brackets become calls, and blanks at the end of lines are dropped.
-/

namespace MathMarkup
namespace Typst

open Text

structure Style where
  /-- Whether symbols are written as shorthands, like `->` for `arrow.r`. -/
  preferShorthands : Bool := true
  inftyToOo : Bool := false
  /-- Whether pairs of brackets are written as calls, like `floor(x)`. -/
  optimize : Bool := true
deriving DecidableEq, Repr

structure Context where
  inArgs : Bool := false
  inMatrix : Bool := false
deriving DecidableEq, Repr

namespace Context

def args : Context := { inArgs := true }

def matrix : Context := { inArgs := true, inMatrix := true }

def nested : Context := {}

end Context

inductive Piece where
  | token (text : String)
  | softSpace
deriving DecidableEq, Repr

namespace Formula

def parenthesized (spelled : List Piece) : List Piece :=
  .token "(" :: spelled ++ [.token ")"]

def bracketDepth : Formula → Int
  | .atom s =>
    if ["(", "[", "\x7b"].contains s then 1
    else if [")", "]", "\x7d"].contains s then -1
    else 0
  | _ => 0

/--
Whether the depth first returns to zero at the last formula. `depth` is the depth before.
-/
def closesAtEnd (depth : Int) : List Formula → Bool
  | [] => false
  | node :: nodes =>
    if depth + node.bracketDepth = 0 then
      nodes.isEmpty
    else
      closesAtEnd (depth + node.bracketDepth) nodes

def isEnclosed : List Formula → Bool
  | node :: next :: nodes => node.bracketDepth == 1 && closesAtEnd 0 (node :: next :: nodes)
  | _ => false

def needsParens : Formula → Bool
  | .group nodes => !isEnclosed nodes
  | .attach _ _ _ | .frac _ _ | .empty => true
  | _ => false

def isWrappedScript : Formula → Bool
  | .group _ | .attach _ _ _ | .frac _ _ | .parens _ | .empty => true
  | _ => false

def primeMarks? : Formula → Option Nat
  | .group nodes => if !nodes.isEmpty && nodes.all isPrime then some nodes.length else none
  | node => if node.isPrime then some 1 else none

def symbolText (style : Style) (name : String) : String :=
  if style.inftyToOo && name == "infinity" then
    "oo"
  else if style.preferShorthands then
    (Symbol.shorthand? name).getD name
  else
    name

def atomText (cx : Context) (s : String) : String :=
  if s == "," && cx.inArgs then "comma" else if s == ";" && cx.inMatrix then "semi" else s

def separated (separator : List Piece) (parts : List (List Piece)) : List Piece :=
  (parts.intersperse separator).flatten

def grid (rowSep cellSep : List Piece) (rows : List (List (List Piece))) : List Piece :=
  separated rowSep (rows.map (separated cellSep))

def gridCall (head rowSep cellSep : String) (named : List (List Piece))
    (rows : List (List (List Piece))) : List Piece :=
  .token head :: separated [.token ","] named ++
    (if named.isEmpty || rows.isEmpty then [] else [.token ","]) ++
    grid [.token rowSep] [.token cellSep] rows ++ [.token ")"]

def scriptGap (sub sup : Option Formula) : List Piece :=
  match sup, sub with
  | some last, _ | none, some last => if last.isWrappedScript then [] else [.softSpace]
  | none, none => []

mutual

def pieces (style : Style) (cx : Context) : Formula → List Piece
  | .atom s => [.token (atomText cx s)]
  | .unknown s | .control s | .space s => [.token s]
  | .symbol name => [.token (symbolText style name)]
  | .text s => [.token (quote s)]
  | .comment s => [.token ("//" ++ s), .token "\n"]
  | .nothing => [.token "#none"]
  | .empty => []
  | .group nodes => (eachPieces style cx nodes).flatten
  | .parens nodes => parenthesized (eachPieces style .nested nodes).flatten
  | .attach base sub sup =>
    let marks := sup.bind primeMarks?
    let spelled :=
      if base.isEmpty then
        [.token "\"\""]
      else if base.needsParens then
        parenthesized (base.pieces style .nested)
      else
        base.pieces style cx
    spelled ++ List.replicate (marks.getD 0) (.token "'") ++ scriptPieces style cx "_" sub ++
      (if marks.isSome then [] else scriptPieces style cx "^" sup) ++
      scriptGap sub (if marks.isSome then none else sup)
  | .call name args named =>
    .token (name ++ "(") ::
      separated [.token ","] (eachPieces style .args args ++ namedPieces style named) ++
      [.token ")"]
  | .frac num den =>
    (if num.needsParens then
        .softSpace :: parenthesized (num.pieces style .nested)
      else
        num.pieces style cx) ++
      .token "/" ::
        (if den.needsParens then parenthesized (den.pieces style .nested) else den.pieces style cx)
  | .leftRight left body right =>
    .token "lr(" :: left.toList.map .token ++ body.pieces style .args ++ right.toList.map .token ++
      [.token ")"]
  | .matrix rows named =>
    gridCall "mat(" ";" "," (namedPieces style named) (rowPieces style .matrix rows)
  | .cases rows named =>
    gridCall "cases(" "," "&" (namedPieces style named) (rowPieces style .args rows)
  | .align rows => grid [.token "\\", .token "\n"] [.token "&"] (rowPieces style cx rows)

def eachPieces (style : Style) (cx : Context) : List Formula → List (List Piece)
  | [] => []
  | node :: nodes => node.pieces style cx :: eachPieces style cx nodes

def rowPieces (style : Style) (cx : Context) : List (List Formula) → List (List (List Piece))
  | [] => []
  | cells :: rows => eachPieces style cx cells :: rowPieces style cx rows

def namedPieces (style : Style) : List (String × Formula) → List (List Piece)
  | [] => []
  | (key, value) :: named =>
    (.token (key ++ ":") :: value.pieces style .args) :: namedPieces style named

def scriptPieces (style : Style) (cx : Context) (marker : String) : Option Formula → List Piece
  | none => []
  | some node =>
    .token marker ::
      if node.isWrappedScript then
        parenthesized (node.pieces style .nested)
      else
        node.pieces style cx

end

end Formula

/--
What has been written so far, last character first, and whether an odd number of bars stands in it.
-/
structure Line where
  reversed : List Char := []
  openBar : Bool := false
deriving Repr

namespace Line

/--
Whether a parenthesis may directly follow what has been written without making a call of it.
-/
def opensWithoutSpace : (reversed : List Char) → Bool
  | [] => true
  | last :: before =>
    if (last matches ')' | ']' | '\'' | '(' | '[' | '{' | '_' | '^') || last.isDigit then
      true
    else
      isAlphabetic last &&
        ((last :: before).takeWhile fun c => isIdentifierStart c || c == '.').length == 1

def endsWithLeadingSign : (reversed : List Char) → Bool
  | [] => false
  | sign :: before =>
    (sign matches '-' | '+') &&
      match before.dropWhile isBlank with
      | [] => true
      | c :: _ => c matches '(' | '[' | '{' | ',' | '=' | '_' | '^' | '&'

def needsSpace (line : Line) (token : String) : Bool :=
  match line.reversed with
  | [] => false
  | last :: before =>
    let first := token.toList.headD ' '
    if isBlank last then false
    else if last matches '(' | '_' | '^' | '\'' then false
    else if last == '{' && before.head? != some '\\' then false
    else if (last == '[' || (last == '|' && line.openBar)) && isIdentifierContinue first then false
    else if [")", "]", "\x7d"].contains token || (token == "|" && line.openBar) then false
    else if token == "(" then !opensWithoutSpace (last :: before)
    else if ["_", "^", ",", ";", "!", "'"].contains token then false
    else if last.isDigit && first.isDigit then false
    else if endsWithLeadingSign (last :: before) then false
    else if last == '&' && token == "=" then false
    else if last == '/' || token == "/" then false
    else true

def space (line : Line) : Line :=
  match line.reversed with
  | [] => line
  | last :: _ => if isBlank last then line else { line with reversed := ' ' :: line.reversed }

/--
Write a token. The end of a line takes the place of spaces before it, and other blanks are written
as one space.
-/
def push (line : Line) (token : String) : Line :=
  match token.toList with
  | [] => line
  | first :: rest =>
    if first = '\n' then
      { line with
        reversed := (first :: rest).reverse ++ line.reversed.dropWhile (· == ' ') }
    else if isBlank first then
      line.space
    else
      let gap := if line.needsSpace token then [' '] else []
      { reversed := (first :: rest).reverse ++ gap ++ line.reversed
        openBar := if token == "|" then !line.openBar else line.openBar }

def dropsSoftSpace : List Piece → Bool
  | [] => true
  | .softSpace :: pieces => dropsSoftSpace pieces
  | .token text :: _ =>
    text.toList.head?.any fun c => isBlank c || c matches ')' | ']' | '}' | ',' | ';'

def setPieces (line : Line) : List Piece → Line
  | [] => line
  | .softSpace :: pieces =>
    setPieces (if dropsSoftSpace pieces then line else line.space) pieces
  | .token text :: pieces => setPieces (line.push text) pieces

end Line

/--
Find a closing bracket: what stands before it on the same line, without the blanks in front of it,
and what follows it.
-/
def upTo? (bracket : List Char) (cs : List Char) : Option (List Char × List Char) :=
  match dropFront? bracket (trimStart cs) with
  | some rest => some ([], rest)
  | none =>
    match cs with
    | [] => none
    | c :: cs =>
      if c = '\n' then none else (upTo? bracket cs).map fun (content, rest) => (c :: content, rest)

/--
Find a pair of brackets like `floor.l` and `floor.r` at the front: what stands between them without
the blanks at its ends, and what follows.
-/
def bracketPair? (name cs : List Char) : Option (List Char × List Char) := do
  let rest ← dropFront? (name ++ ['.', 'l']) cs
  upTo? (name ++ ['.', 'r']) (trimStart rest)

theorem length_trimStart_le (cs : List Char) : (trimStart cs).length ≤ cs.length :=
  (List.dropWhile_sublist _).length_le

theorem length_of_upTo? {bracket cs content rest : List Char}
    (h : upTo? bracket cs = some (content, rest)) : rest.length ≤ cs.length := by
  fun_induction upTo? bracket cs generalizing content rest with
  | case1 cs after hfront =>
    simp only [Option.some.injEq, Prod.mk.injEq] at h
    have := length_of_dropFront? hfront
    have := length_trimStart_le cs
    grind
  | case2 => simp at h
  | case3 => simp at h
  | case4 c cs _ _ ih =>
    simp only [Option.map_eq_some_iff, Prod.mk.injEq] at h
    obtain ⟨⟨content', rest'⟩, hrec, _, rfl⟩ := h
    exact Nat.le_succ_of_le (ih hrec)

theorem length_of_bracketPair? {name cs content rest : List Char}
    (h : bracketPair? name cs = some (content, rest)) : rest.length < cs.length := by
  simp only [bracketPair?, Option.bind_eq_bind, Option.bind_eq_some_iff] at h
  obtain ⟨after, hfront, hclose⟩ := h
  have h₁ := length_of_dropFront? hfront
  have h₂ := length_of_upTo? hclose
  have h₃ := length_trimStart_le after
  simp only [List.length_append, List.length_cons] at h₁
  omega

def foldPairs (name cs : List Char) : List Char :=
  match _h : bracketPair? name cs with
  | some (content, rest) => name ++ '(' :: content ++ ')' :: foldPairs name rest
  | none =>
    match cs with
    | [] => []
    | c :: cs => c :: foldPairs name cs
termination_by cs.length
decreasing_by
  . exact length_of_bracketPair? _h
  . simp

def roundings : List (List Char) :=
  ["floor".toList, "ceil".toList, "round".toList]

def emptyCall? (cs : List Char) : Option (List Char) :=
  roundings.find? fun name => (dropFront? (name ++ ['(', ')']) cs).isSome

/--
Give an empty string to the functions that are called without an argument. `inWord` says whether
the text before ends within a word.
-/
def fillEmptyCalls (inWord : Bool) (cs : List Char) : List Char :=
  match cs with
  | [] => []
  | c :: cs =>
    if inWord then
      c :: fillEmptyCalls (isWordChar c) cs
    else
      match emptyCall? (c :: cs) with
      | some name =>
        name ++ ['(', '"', '"', ')'] ++ fillEmptyCalls false (cs.drop (name.length + 1))
      | none => c :: fillEmptyCalls (isWordChar c) cs
termination_by cs.length

def cleanUp (style : Style) (cs : List Char) : List Char :=
  let cs :=
    if style.optimize then
      fillEmptyCalls false (foldPairs "ceil".toList (foldPairs "floor".toList cs))
    else
      cs
  ((lines cs).map trimEnd).intersperse ['\n'] |>.flatten

def write (style : Style) (node : Formula) : String :=
  let line := Line.setPieces {} (node.pieces style {})
  String.ofList (cleanUp style line.reversed.reverse)

end Typst
end MathMarkup
