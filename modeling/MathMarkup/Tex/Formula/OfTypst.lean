import MathMarkup.ConvertError
import MathMarkup.Options
import MathMarkup.Tex.Formula

/-!
This module contains the conversion of Typst formulas into TeX formulas. Most calls are converted by
name; the calls with a rule of their own are told apart first.
-/

namespace MathMarkup
namespace Tex

open Text

namespace OfTypst

inductive Head where
  | fraction
  | binomial
  | squareRoot
  | root
  | operator
  | hspace
  | upright
  | fence (left right : String)
  | overbrace
  | underbrace
  | transparent
  | other
deriving DecidableEq, Repr

def Head.ofName : String → Head
  | "frac" => fraction
  | "binom" => binomial
  | "sqrt" => squareRoot
  | "root" => root
  | "op" => operator
  | "#h" => hspace
  | "upright" => upright
  | "abs" => fence "|" "|"
  | "norm" => fence "\\|" "\\|"
  | "floor" => fence "\\lfloor" "\\rfloor"
  | "ceil" => fence "\\lceil" "\\rceil"
  | "round" => fence "\\lfloor" "\\rceil"
  | "overbrace" => overbrace
  | "underbrace" => underbrace
  | "lr" | "display" | "inline" | "limits" | "scripts" => transparent
  | _ => other

/--
Convert an atom. Escapes that TeX does not know are dropped.
-/
def atom (s : String) : Formula :=
  match s with
  | "\x7b" | "\\\x7b" => .element "\\\x7b"
  | "\x7d" | "\\\x7d" => .element "\\\x7d"
  | "%" => .element "\\%"
  | "\\_" | "\\&" | "\\#" | "\\$" | "\\%" => .element s
  | "\\\\" => .symbol "backslash"
  | "~" => .control "~"
  | s =>
    match s.toList with
    | '\\' :: c :: rest => .element (String.ofList (c :: rest))
    | _ => .element s

def operator (name : String) : Formula :=
  .call "operatorname" [.text name]

/--
The letter of a doubled capital like `RR`.
-/
def doubledCapital? (name : String) : Option Char :=
  match name.toList with
  | [c, d] => if c = d && c.isUpper then some c else none
  | _ => none

def special? : String → Option Formula
  | "comma" => some (.element ",")
  | "semi" => some (.element ";")
  | "thin" => some (.control "\\,")
  | "med" => some (.control "\\:")
  | "thick" => some (.control "\\;")
  | "space" => some (.control "\\ ")
  | "space.nobreak" => some (.control "~")
  | "dif" => some (.call "mathrm" [.element "d"])
  | "eq.def" => some (.call "overset" [.text "def", .element "="])
  | name => (doubledCapital? name).map fun c => .call "mathbb" [.element c.toString]

def symbol (options : Options) (name : String) : Except ConvertError Formula :=
  match special? name with
  | some node => .ok node
  | none =>
    match Symbol.toTex? name with
    | some tex => .ok (.symbol tex)
    | none =>
      if Symbol.isOperator name then .ok (operator name)
      else if options.nonStrict then .ok (.unknown name)
      else .error { fault := .unknownSymbol name }

def delimiter (delim : String) : Except ConvertError String :=
  match delim with
  | "(" | "\\(" => .ok "("
  | ")" | "\\)" => .ok ")"
  | "[" | "\\[" => .ok "["
  | "]" | "\\]" => .ok "]"
  | "\x7b" | "\\\x7b" => .ok "\\\x7b"
  | "\x7d" | "\\\x7d" => .ok "\\\x7d"
  | "|" | "\\|" | "bar.v" => .ok "|"
  | "bar.v.double" => .ok "\\|"
  | "slash" => .ok "/"
  | delim =>
    match Symbol.toTex? delim with
    | some tex => .ok ("\\" ++ tex)
    | none => .error { fault := .unknownDelimiter delim }

def delimiter? : Option String → Except ConvertError (Option String)
  | none => .ok none
  | some delim => do
    let mapped ← delimiter delim
    return some mapped

def delimiterNode (delim : String) : Formula :=
  match delim.toList with
  | '\\' :: name =>
    if name.all Char.isAlpha then .symbol (String.ofList name) else .element delim
  | _ => .element delim

def bracketed (opening body closing : Formula) : Formula :=
  let inner :=
    match body with
    | .group nodes => nodes
    | .empty => []
    | node => [node]
  .group (opening :: inner ++ [closing])

def enclose (left right : String) (tall : Bool) (body : Formula) : Formula :=
  if tall then
    .leftRight (some left) body (some right)
  else
    bracketed (delimiterNode left) body (delimiterNode right)

/--
A formula in front of a list of arguments, like `\sin(x)`.
-/
def applied (head : Formula) (args : List Formula) : Formula :=
  .group (head :: .element "(" :: args.intersperse (.element ",") ++ [.element ")"])

def byName (options : Options) (name : String) (args : List Formula) :
    Except ConvertError Formula :=
  match Symbol.toTex? name with
  | some tex =>
    match Symbol.arity? tex with
    | some arity =>
      if arity.toNat = args.length then
        .ok (.call tex args)
      else
        let count :=
          match arity with
          | .one => "1 argument"
          | .two => "2 arguments"
        .error { fault := .invalidArgument ("`" ++ name ++ "` takes " ++ count ++ " in TeX") }
    | none => .ok (applied (.symbol tex) args)
  | none =>
    if Symbol.isOperator name then
      .ok (applied (operator name) args)
    else if options.nonStrict then
      .ok (.call name args)
    else
      .error
        { fault := .unknownSymbol name
          hints := ["enable non-strict mode to pass unknown functions through"] }

def namedArgument (name key : String) : ConvertError :=
  { fault := .invalidArgument
      ("argument `" ++ key ++ "` of `" ++ name ++ "` cannot be expressed in TeX") }

def plain (node : Typst.Formula) : String :=
  removeBlanks
    (Typst.write { preferShorthands := false, inftyToOo := false, optimize := false } node)

def space (length : Typst.Formula) : Formula :=
  if plain length == "-math.thin.amount" then
    .control "\\!"
  else
    .call "hspace" [.text (plain length)]

def stack (sub sup : Option Formula) (base : Formula) : Formula :=
  let base :=
    match sup with
    | some sup => .call "overset" [sup, base]
    | none => base
  match sub with
  | some sub => .call "underset" [sub, base]
  | none => base

/--
The numbers in a text, with a minus sign if one stands directly before the first digit.
`afterMinus` says whether the text before ends with such a sign.
-/
def integers (afterMinus : Bool) (cs : List Char) : List Int :=
  match cs with
  | [] => []
  | c :: cs =>
    if c.isDigit then
      let rest := cs.takeWhile Char.isDigit
      let value := (c :: rest).foldl (fun (n : Nat) d => 10 * n + (d.toNat - '0'.toNat)) 0
      (if afterMinus then -(value : Int) else value) :: integers false (cs.drop rest.length)
    else
      integers (c == '-') cs
termination_by cs.length

def isWord (n : Int) : Bool :=
  -0x8000000000000000 ≤ n && n < 0x8000000000000000

def lastLine (columns : Nat) : Int :=
  min columns 0x7FFFFFFFFFFFFFFF

/--
A position counted from the first column. Negative positions count from the end.
-/
def lineFromStart (columns : Nat) (n : Int) : Int :=
  if n < 0 then lastLine columns + n else n

/--
The position of a rule among a number of columns. What lies outside is moved to the nearest end.
-/
def linePosition (columns : Nat) (n : Int) : Nat :=
  (max 0 (min (lineFromStart columns n) (lastLine columns))).toNat

def dropRepeats : List Nat → List Nat
  | first :: second :: lines =>
    if first = second then
      dropRepeats (second :: lines)
    else
      first :: dropRepeats (second :: lines)
  | lines => lines

/--
The positions of the vertical rules in the value of `augment`. Numbers of more than 64 bits are
passed over.
-/
def augmentLines (value : List Char) (columns : Nat) : List Nat :=
  let positions := ((integers false value).filter isWord).map (linePosition columns)
  dropRepeats positions.mergeSort

/--
A column specification: letters for the columns, and in each gap a bar for every rule there.
-/
def columnSpec (letter : Char) (lines : List Nat) (columns : Nat) : String :=
  String.ofList <| (List.range (columns + 1)).flatMap fun gap =>
    ((lines.filter (· == gap)).map fun _ => '|') ++ (if gap < columns then [letter] else [])

def columnLetter : (align : Option Typst.Formula) → Except ConvertError Char
  | none => .ok 'c'
  | some (.symbol value) =>
    match value with
    | "#left" | "#start" => .ok 'l'
    | "#right" | "#end" => .ok 'r'
    | "#center" => .ok 'c'
    | _ => .error { fault := .invalidArgument ("unsupported matrix alignment `" ++ value ++ "`") }
  | some other =>
    .error { fault := .invalidArgument ("unsupported matrix alignment `" ++ plain other ++ "`") }

/--
The vertical rules of an array. There are no horizontal ones in TeX, so what follows `hline` is
refused or passed over.
-/
def columnLines (options : Options) (columns : Nat) :
    (augment : Option Typst.Formula) → Except ConvertError (List Nat)
  | none => .ok []
  | some (.symbol value) =>
    match findFirst? "hline".toList value.toList with
    | none => .ok (augmentLines value.toList columns)
    | some before =>
      if options.nonStrict then
        .ok (augmentLines before columns)
      else
        .error { fault := .invalidArgument "horizontal rules cannot be expressed in TeX" }
  | some other =>
    .error { fault := .invalidArgument ("unsupported augmentation `" ++ plain other ++ "`") }

def arraySpec (options : Options) (named : List (String × Typst.Formula)) (columns : Nat) :
    Except ConvertError String := do
  let letter ← columnLetter (named.lookup "align")
  let lines ← columnLines options columns (named.lookup "augment")
  return columnSpec letter lines columns

structure MatrixFrame where
  name : String
  fences : Option (String × String)
deriving DecidableEq, Repr

def MatrixFrame.ofDelimiter? : String → Option MatrixFrame
  | "(" => some ⟨"pmatrix", some ("(", ")")⟩
  | "[" => some ⟨"bmatrix", some ("[", "]")⟩
  | "\x7b" => some ⟨"Bmatrix", some ("\\\x7b", "\\\x7d")⟩
  | "|" => some ⟨"vmatrix", some ("|", "|")⟩
  | "||" => some ⟨"Vmatrix", some ("\\|", "\\|")⟩
  | _ => none

/--
The frame of a matrix with the given `delim`. Without one it has parentheses.
-/
def matrixFrame : (delim : Option Typst.Formula) → Except ConvertError MatrixFrame
  | none => .ok ⟨"pmatrix", some ("(", ")")⟩
  | some .nothing => .ok ⟨"matrix", none⟩
  | some (.text delim) =>
    match MatrixFrame.ofDelimiter? delim with
    | some frame => .ok frame
    | none =>
      .error
        { fault := .unknownDelimiter delim
          hints := ["TeX matrices support `(`, `[`, `\x7b`, `|` and `||`"] }
  | some other => .error { fault := .unknownDelimiter (plain other) }

def foreignArgument? (named : List (String × Typst.Formula)) : Option String :=
  (named.find? fun (key, _) => key ∉ ["delim", "align", "augment"]).map Prod.fst

/--
Convert a matrix whose cells are already converted. Alignment and rules need an array, which has no
delimiters of its own.
-/
def matrix (options : Options) (named : List (String × Typst.Formula))
    (rows : List (List Formula)) : Except ConvertError Formula := do
  let frame ← matrixFrame (named.lookup "delim")
  match foreignArgument? named, options.nonStrict with
  | some key, false =>
    .error
      { fault := .invalidArgument ("matrix argument `" ++ key ++ "` cannot be expressed in TeX") }
  | _, _ =>
    if (named.lookup "align").isNone && (named.lookup "augment").isNone then
      return .env frame.name none rows
    else
      let columns := (rows.map List.length).foldl max 0
      let spec ← arraySpec options named columns
      match frame.fences with
      | some (left, right) =>
        return .leftRight (some left) (.env "array" (some spec) rows) (some right)
      | none => return .env "array" (some spec) rows

end OfTypst

namespace Formula

open OfTypst

mutual

def ofTypst (options : Options) : Typst.Formula → Except ConvertError Formula
  | .atom s => .ok (OfTypst.atom s)
  | .symbol name => OfTypst.symbol options name
  | .text s => .ok (.call "text" [.text s])
  | .comment s => .ok (.comment s)
  | .space _ | .nothing | .empty => .ok .empty
  | .control s => .ok (.control (if s == "\\" then "\\\\" else s))
  | .unknown s =>
    if options.nonStrict then .ok (.unknown s) else .error { fault := .unknownToken s }
  | .group nodes => do
    let nodes ← eachOfTypst options nodes
    return .ofList (nodes.filter fun node => !node.isEmpty)
  | .parens nodes => do
    let body ← eachOfTypst options nodes
    return enclose "(" ")" (Typst.Formula.anyTall nodes)
      (.ofList (body.filter fun node => !node.isEmpty))
  | .attach base sub sup => do
    let sub ← optionOfTypst options sub
    let sup ← optionOfTypst options sup
    match base with
    | .call "limits" args [] =>
      match args with
      | [body] => do
        let body ← ofTypst options body
        return stack sub sup body
      | _ => .error { fault := .invalidArgument "`limits` takes exactly one argument" }
    | .text "" => return .attach .empty sub sup
    | base => do
      let base ← ofTypst options base
      return .attach base sub sup
  | .call name args named =>
    match named with
    | [(key, value)] =>
      match name, args, key, value with
      | "op", [.text s], "limits", .symbol "#true" => .ok (.call "operatorname*" [.text s])
      | name, args, key, _ =>
        if options.nonStrict then do
          let args ← eachOfTypst options args
          byName options name args
        else
          .error (namedArgument name key)
    | (key, _) :: _ =>
      if options.nonStrict then do
        let args ← eachOfTypst options args
        byName options name args
      else
        .error (namedArgument name key)
    | [] =>
      match Head.ofName name, args with
      | .fraction, [num, den] => do
        let num ← ofTypst options num
        let den ← ofTypst options den
        return .call "frac" [num, den]
      | .binomial, [n, k] => do
        let n ← ofTypst options n
        let k ← ofTypst options k
        return .call "binom" [n, k]
      | .squareRoot, [radicand] => do
        let radicand ← ofTypst options radicand
        return .call "sqrt" [radicand]
      | .root, [degree, radicand] => do
        let radicand ← ofTypst options radicand
        let degree ← ofTypst options degree
        return .func "sqrt" [radicand] (some degree)
      | .operator, [.text s] => .ok (OfTypst.operator s)
      | .hspace, [length] => .ok (OfTypst.space length)
      | .upright, [.call "bold" [body] []] => do
        let body ← ofTypst options body
        return .call "mathbf" [body]
      | .fence left right, [body] => do
        let inner ← ofTypst options body
        return enclose left right body.isTall inner
      | .overbrace, [body, label] => do
        let body ← ofTypst options body
        let label ← ofTypst options label
        return .attach (.call "overbrace" [body]) none (some label)
      | .underbrace, [body, label] => do
        let body ← ofTypst options body
        let label ← ofTypst options label
        return .attach (.call "underbrace" [body]) (some label) none
      | .transparent, [body] => ofTypst options body
      | _, [.text s] =>
        if options.nonAsciiWrapper == name then
          .ok (.call "text" [.text s])
        else
          byName options name [.call "text" [.text s]]
      | _, args => do
        let args ← eachOfTypst options args
        byName options name args
  | .frac num den => do
    let num ← ofTypst options num
    let den ← ofTypst options den
    return .call "frac" [num, den]
  | .leftRight left body right => do
    let left ← delimiter? left
    let right ← delimiter? right
    let body ← ofTypst options body
    return .leftRight left body right
  | .matrix rows named => do
    let rows ← rowsOfTypst options rows
    OfTypst.matrix options named rows
  | .cases rows _ => do
    let rows ← rowsOfTypst options rows
    return .env "cases" none rows
  | .align rows => do
    let rows ← rowsOfTypst options rows
    return .env "aligned" none rows

def eachOfTypst (options : Options) : List Typst.Formula → Except ConvertError (List Formula)
  | [] => .ok []
  | node :: nodes => do
    let node ← ofTypst options node
    let nodes ← eachOfTypst options nodes
    return node :: nodes

def rowsOfTypst (options : Options) :
    List (List Typst.Formula) → Except ConvertError (List (List Formula))
  | [] => .ok []
  | row :: rows => do
    let row ← eachOfTypst options row
    let rows ← rowsOfTypst options rows
    return row :: rows

def optionOfTypst (options : Options) :
    Option Typst.Formula → Except ConvertError (Option Formula)
  | none => .ok none
  | some node => do
    let node ← ofTypst options node
    return some node

end

end Formula
end Tex
end MathMarkup
