import MathMarkup.ConvertError
import MathMarkup.Options
import MathMarkup.Tex.Formula

/-!
This module contains the conversion of TeX formulas into Typst formulas. Most commands are converted
by name; the commands with a rule of their own are told apart first.
-/

namespace MathMarkup
namespace Typst

open Text

namespace OfTex

inductive Head where
  | fraction
  | binomial
  | root
  | text
  | operator
  | limitsOperator
  | hspace
  | bold
  | blackboard
  | roman
  | above
  | below
  | other
deriving DecidableEq, Repr

def Head.ofName : String → Head
  | "frac" | "dfrac" | "tfrac" => fraction
  | "binom" | "dbinom" | "tbinom" => binomial
  | "sqrt" => root
  | "text" => text
  | "operatorname" => operator
  | "operatorname*" => limitsOperator
  | "hspace" => hspace
  | "mathbf" => bold
  | "mathbb" => blackboard
  | "mathrm" => roman
  | "overset" | "stackrel" => above
  | "underset" => below
  | _ => other

def element (s : String) : Formula :=
  match s with
  | "/" => .atom "\\/"
  | "\\\x7b" => .atom "\x7b"
  | "\\\x7d" => .atom "\x7d"
  | "\\%" => .atom "%"
  | "\\|" => .symbol "bar.v.double"
  | s => .atom s

def control (s : String) : Except ConvertError Formula :=
  match s with
  | "\\\\" => .ok (.control "\\")
  | "&" => .ok (.control "&")
  | "\\!" => .ok (.plainCall "#h" [.atom "-math.thin.amount"])
  | "\\," => .ok (.symbol "thin")
  | "\\:" | "\\>" => .ok (.symbol "med")
  | "\\;" => .ok (.symbol "thick")
  | "\\ " => .ok (.symbol "space")
  | "~" => .ok (.symbol "space.nobreak")
  | s => .error { fault := .unknownToken s }

/--
Convert what is unknown: a command is passed on by its name and a character as text, if at all.
-/
def unknown (options : Options) (s : String) : Except ConvertError Formula :=
  match s.toList with
  | '\\' :: name =>
    if options.nonStrict then
      .ok (.symbol (String.ofList name))
    else
      .error
        { fault := .unknownCommand s
          hints := ["enable non-strict mode to pass unknown macros through"] }
  | _ => if options.nonStrict then .ok (.text s) else .error { fault := .unknownToken s }

def symbol (options : Options) (name : String) : Except ConvertError Formula :=
  match Symbol.toTypst? name with
  | some mapped => .ok (.symbol mapped)
  | none => unknown options ("\\" ++ name)

/--
Convert raw text. Text beyond ASCII is wrapped if there is a wrapper.
-/
def text (options : Options) (s : String) : Formula :=
  if !options.nonAsciiWrapper.isEmpty && s.toList.any (128 ≤ ·.toNat) then
    .plainCall options.nonAsciiWrapper [.text s]
  else
    .text s

/--
Convert the name of an operator. Typst knows some operators by name.
-/
def operator (name : String) : Formula :=
  if Symbol.isOperator (trim name) then
    .symbol (trim name)
  else
    .plainCall "op" [.text (trim name)]

def isCapital (s : String) : Bool :=
  match s.toList with
  | [c] => c.isUpper
  | _ => false

/--
The letters that a formula contributes to a word. Only elements do.
-/
def spelledLetter : Tex.Formula → String
  | .element s => s
  | _ => ""

def spelledWord (nodes : List Tex.Formula) : String :=
  String.join (nodes.map spelledLetter)

/--
Whether a formula spells `def`, with or without a command that sets it upright.
-/
def isDef : Tex.Formula → Bool
  | .group nodes => spelledWord nodes == "def"
  | .text s => trim s == "def"
  | .func name (arg :: _) _ => (name == "text" || name == "mathrm") && isDef arg
  | _ => false

def isEqualSign : Tex.Formula → Bool
  | .element s => s == "="
  | _ => false

def byName (options : Options) (name : String) (args : List Formula) :
    Except ConvertError Formula :=
  match Symbol.toTypst? name with
  | some mapped => .ok (.plainCall mapped args)
  | none =>
    if options.nonStrict then
      .ok (.plainCall name args)
    else
      .error { fault := .unknownCommand ("\\" ++ name) }

def nodesOf : Formula → List Formula
  | .group nodes => nodes
  | .empty => []
  | node => [node]

def bracketed (opening : String) (body : Formula) (closing : String) : Formula :=
  .group (.atom opening :: nodesOf body ++ [.atom closing])

/--
Whether the delimiters are a pair that Typst scales on its own, and what they make of a body.
-/
def scaled? (left right : Option String) (body : Formula) : Option Formula :=
  match left, right with
  | none, none => some body
  | some "(", some ")" => some (.parens (nodesOf body))
  | some "[", some "]" => some (bracketed "[" body "]")
  | some left, some right =>
    if ["\\\x7b", "\\lbrace"].contains left && ["\\\x7d", "\\rbrace"].contains right then
      some (bracketed "\x7b" body "\x7d")
    else
      none
  | _, _ => none

def fenceName? (left right : String) : Option String :=
  if ["|", "\\vert", "\\lvert"].contains left && ["|", "\\vert", "\\rvert"].contains right then
    some "abs"
  else if ["\\|", "\\Vert", "\\lVert"].contains left &&
      ["\\|", "\\Vert", "\\rVert"].contains right then
    some "norm"
  else
    match left, right with
    | "\\lfloor", "\\rfloor" => some "floor"
    | "\\lceil", "\\rceil" => some "ceil"
    | "\\lfloor", "\\rceil" => some "round"
    | _, _ => none

def delimiter (delim : String) : Except ConvertError String :=
  match delim with
  | "(" | ")" | "[" | "]" => .ok ("\\" ++ delim)
  | "\\\x7b" | "\\\x7d" | "|" => .ok delim
  | "\\|" => .ok "bar.v.double"
  | "<" => .ok "chevron.l"
  | ">" => .ok "chevron.r"
  | "/" => .ok "slash"
  | _ =>
    match delim.toList with
    | '\\' :: name =>
      match Symbol.toTypst? (String.ofList name) with
      | some mapped => .ok mapped
      | none => .error { fault := .unknownDelimiter delim }
    | _ => .error { fault := .unknownDelimiter delim }

def delimiter? : Option String → Except ConvertError (Option String)
  | none => .ok none
  | some delim => do
    let mapped ← delimiter delim
    return some mapped

def enclose (options : Options) (left right : Option String) (body : Formula) :
    Except ConvertError Formula :=
  match scaled? left right body with
  | some node => .ok node
  | none =>
    let fence := if options.optimize then fenceName? (left.getD "") (right.getD "") else none
    match fence with
    | some name => .ok (.plainCall name [body])
    | none => do
      let opening ← delimiter? left
      let closing ← delimiter? right
      return .leftRight opening body closing

/--
Whether a column specification has only the letters of columns and bars, and at least one column.
-/
def isColumnSpec (spec : List Char) : Bool :=
  spec.all (· matches 'l' | 'c' | 'r' | '|') && spec.any (· != '|')

def specColumns (spec : List Char) : List Char :=
  spec.filter (· != '|')

/--
The positions of the rules of a specification: how many columns stand before each bar.
-/
def specLines (before : Nat) : List Char → List Nat
  | [] => []
  | c :: spec => if c = '|' then before :: specLines before spec else specLines (before + 1) spec

/--
The alignment of the columns as a named argument. Typst aligns all columns of a matrix alike.
-/
def alignArgument (options : Options) (spec columns : List Char) :
    Except ConvertError (List (String × Formula)) :=
  let uniform := columns.all fun c => some c == columns.head?
  match uniform, columns.head? with
  | true, some 'l' => .ok [("align", .symbol "#left")]
  | true, some 'r' => .ok [("align", .symbol "#right")]
  | true, _ => .ok []
  | false, _ =>
    if options.nonStrict then
      .ok []
    else
      .error
        { fault := .invalidArgument
            ("mixed column alignment `" ++ String.ofList spec ++ "` cannot be expressed")
          hints := ["Typst aligns all columns of a matrix the same way"] }

def augmentArgument : (lines : List Nat) → List (String × Formula)
  | [] => []
  | [line] => [("augment", .symbol ("#" ++ toString line))]
  | lines =>
    [("augment", .symbol ("#(vline: (" ++ ", ".intercalate (lines.map toString) ++ "))"))]

def array (options : Options) (spec : String) (rows : List (List Formula)) :
    Except ConvertError Formula :=
  let spec := spec.toList.filter fun c => !isBlank c
  if isColumnSpec spec then do
    let align ← alignArgument options spec (specColumns spec)
    return .matrix rows
      (("delim", .nothing) :: align ++ augmentArgument (specLines 0 spec))
  else
    .error
      { fault := .invalidArgument ("invalid column specification `" ++ String.ofList spec ++ "`") }

def alignments : List String :=
  ["aligned", "align", "align*", "alignat", "alignat*", "gathered", "gather", "gather*", "split",
   "eqnarray", "eqnarray*"]

def matrixDelimiter? : String → Option Formula
  | "matrix" | "smallmatrix" => some .nothing
  | "pmatrix" => some (.text "(")
  | "bmatrix" => some (.text "[")
  | "Bmatrix" => some (.text "\x7b")
  | "vmatrix" => some (.text "|")
  | "Vmatrix" => some (.text "||")
  | _ => none

def environment (options : Options) (name : String) (spec : Option String)
    (rows : List (List Formula)) : Except ConvertError Formula :=
  if alignments.contains name then
    .ok (.align rows)
  else if name == "cases" then
    .ok (.cases rows [])
  else if name == "array" then
    array options (spec.getD "") rows
  else
    match matrixDelimiter? name with
    | some delim => .ok (.matrix rows [("delim", delim)])
    | none =>
      .error
        { fault := .unknownEnvironment name
          hints :=
            ["supported are `matrix`, `pmatrix`, `bmatrix`, `cases`, `aligned` and `array` " ++
              "among others"] }

end OfTex

namespace Formula

open OfTex

mutual

def ofTex (options : Options) : Tex.Formula → Except ConvertError Formula
  | .element s => .ok (element s)
  | .symbol name => OfTex.symbol options name
  | .unknown s => OfTex.unknown options s
  | .text s => .ok (.text s)
  | .comment s => .ok (.comment s)
  | .space s => .ok (if options.keepSpaces then .space s else .empty)
  | .control s => OfTex.control s
  | .empty => .ok .empty
  | .group nodes => do
    let nodes ← eachOfTex options nodes
    return .ofList (nodes.filter fun node => !node.isEmpty)
  | .attach base sub sup =>
    match base, sub, sup with
    | .func "overbrace" [body] _, none, some label => do
      let body ← ofTex options body
      let label ← ofTex options label
      return .plainCall "overbrace" [body, label]
    | .func "underbrace" [body] _, some label, none => do
      let body ← ofTex options body
      let label ← ofTex options label
      return .plainCall "underbrace" [body, label]
    | base, sub, sup => do
      let base ← ofTex options base
      let sub ← optionOfTex options sub
      let sup ← optionOfTex options sup
      return .attach base sub sup
  | .func name args degree =>
    match Head.ofName name, args with
    | .fraction, [num, den] => do
      let num ← ofTex options num
      let den ← ofTex options den
      return if options.fracToSlash then .frac num den else .plainCall "frac" [num, den]
    | .binomial, [n, k] => do
      let n ← ofTex options n
      let k ← ofTex options k
      return .plainCall "binom" [n, k]
    | .root, [radicand] =>
      match degree with
      | some degree => do
        let degree ← ofTex options degree
        let radicand ← ofTex options radicand
        return .plainCall "root" [degree, radicand]
      | none => do
        let radicand ← ofTex options radicand
        return .plainCall "sqrt" [radicand]
    | .text, [.text s] => .ok (OfTex.text options s)
    | .operator, [.text s] => .ok (OfTex.operator s)
    | .limitsOperator, [.text s] =>
      .ok (.call "op" [.text (trim s)] [("limits", .symbol "#true")])
    | .hspace, [.text s] => .ok (.plainCall "#h" [.atom (trim s)])
    | .bold, [body] => do
      let body ← ofTex options body
      return .plainCall "upright" [.plainCall "bold" [body]]
    | .blackboard, [.element letter] =>
      if options.optimize && isCapital letter then
        .ok (.symbol (letter ++ letter))
      else
        byName options name [element letter]
    | .roman, [.element letter] =>
      if options.optimize && letter == "d" then
        .ok (.symbol "dif")
      else
        byName options name [element letter]
    | .above, [top, base] =>
      if options.optimize && isDef top && isEqualSign base then
        .ok (.symbol "eq.def")
      else do
        let base ← ofTex options base
        let top ← ofTex options top
        return .attach (.plainCall "limits" [base]) none (some top)
    | .below, [bottom, base] => do
      let base ← ofTex options base
      let bottom ← ofTex options bottom
      return .attach (.plainCall "limits" [base]) (some bottom) none
    | _, args => do
      let args ← eachOfTex options args
      byName options name args
  | .leftRight left body right => do
    let body ← ofTex options body
    enclose options left right body
  | .env name spec rows => do
    let rows ← rowsOfTex options rows
    environment options name spec rows

def eachOfTex (options : Options) : List Tex.Formula → Except ConvertError (List Formula)
  | [] => .ok []
  | node :: nodes => do
    let node ← ofTex options node
    let nodes ← eachOfTex options nodes
    return node :: nodes

def rowsOfTex (options : Options) :
    List (List Tex.Formula) → Except ConvertError (List (List Formula))
  | [] => .ok []
  | row :: rows => do
    let row ← eachOfTex options row
    let rows ← rowsOfTex options rows
    return row :: rows

def optionOfTex (options : Options) : Option Tex.Formula → Except ConvertError (Option Formula)
  | none => .ok none
  | some node => do
    let node ← ofTex options node
    return some node

end

end Formula
end Typst
end MathMarkup
