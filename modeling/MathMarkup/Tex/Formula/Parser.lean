import MathMarkup.Script
import MathMarkup.Tex.Formula
import MathMarkup.Tex.Token
import MathMarkup.Token.Nesting

/-!
This module contains the reading of TeX formulas from tokens by recursive descent. Each function
takes the tokens that it may look at, so what stands between a pair of brackets is read on its own,
and answers how many of them it has used.
-/

namespace MathMarkup
namespace Tex

open Text

def Token.script? (token : Token) : Option Script :=
  if token.kind == .control then Script.ofMarker? token.text else none

def Token.isMarker (token : Token) : Bool :=
  token.script?.isSome

def Token.isPrime (token : Token) : Bool :=
  token.is .element "'"

/--
The delimiters among the elements. The point is the invisible one.
-/
def elementDelimiters : List String :=
  ["(", ")", "[", "]", "|", "/", ".", "<", ">", "\\\x7b", "\\\x7d", "\\|"]

def commandDelimiters : List String :=
  ["langle", "rangle", "lfloor", "rfloor", "lceil", "rceil", "vert", "Vert", "lvert", "rvert",
   "lVert", "rVert", "lbrace", "rbrace", "lbrack", "rbrack", "uparrow", "downarrow", "updownarrow",
   "Uparrow", "Downarrow", "backslash"]

def Token.isDelimiter (token : Token) : Bool :=
  match token.kind with
  | .element => elementDelimiters.contains token.text
  | .command => commandDelimiters.contains token.name
  | _ => false

def Token.endsArgument (token : Token) : Bool :=
  token.kind == .control && ["_", "^", "&", "\\\\", "\x7d"].contains token.text

/--
Drop the spaces and line ends next to script markers. What counts is the nearest token on either
side that is no space.
-/
def stripScriptSpaces (tokens : List Token) : List Token :=
  go false tokens
where
  go (afterMarker : Bool) : List Token → List Token
    | [] => []
    | token :: tokens =>
      if token.isSpace then
        if afterMarker || (tokens.find? fun next => !next.isSpace).any Token.isMarker then
          go afterMarker tokens
        else
          token :: go afterMarker tokens
      else
        token :: go token.isMarker tokens

def closingBrace? : List Token → Option (Nat × Token) :=
  Token.closing? (·.is .control "\x7b") (·.is .control "\x7d") 0

def closingBracket? : List Token → Option (Nat × Token) :=
  Token.closing? (·.is .element "[") (·.is .element "]") 0

def closingRight? : List Token → Option (Nat × Token) :=
  Token.closing? (·.is .command "\\left") (·.is .command "\\right") 0

def closingEnd? : List Token → Option (Nat × Token) :=
  Token.closing? (·.is .command "\\begin") (·.is .command "\\end") 0

def bracedText? : List Token → Option String
  | opening :: text :: closing :: _ =>
    if opening.is .control "\x7b" && text.kind == .text && closing.is .control "\x7d" then
      some (trim text.text)
    else
      none
  | _ => none

def missingArgument (owner : Token) : ParseError :=
  { fault := .missingArgument owner.text, span := owner.span }

/--
Read the raw text that is the argument of `owner`, and how many tokens it takes.
-/
def rawArgument (owner : Token) (tokens : List Token) : Except ParseError (String × Nat) :=
  let blanks := Token.countFront Token.isSpace tokens
  match bracedText? (tokens.drop blanks) with
  | some text => .ok (text, blanks + 3)
  | none =>
    match tokens.drop blanks with
    | token :: _ =>
      if token.kind == .element then
        .ok (token.text, blanks + 1)
      else
        .error (missingArgument owner)
    | [] => .error (missingArgument owner)

/--
Read the delimiter after `owner`, and how many tokens it takes. The invisible one is `none`.
-/
def delimiter (owner : Token) (tokens : List Token) : Except ParseError (Option String × Nat) :=
  let blanks := Token.countFront Token.isSpace tokens
  match tokens.drop blanks with
  | [] => .error (missingArgument owner)
  | token :: _ =>
    if token.isDelimiter then
      .ok (if token.text == "." then none else some token.text, blanks + 1)
    else
      .error { fault := .invalidDelimiter token.text, span := token.span }

def degree? (tokens : List Token) : Except ParseError (Option (Nat × Nat)) :=
  let blanks := Token.countFront Token.isSpace tokens
  match tokens.drop blanks with
  | [] => .ok none
  | token :: rest =>
    if token.is .element "[" then
      match closingBracket? rest with
      | some (size, _) => .ok (some (blanks + 1, size))
      | none => .error { fault := .unclosedDelimiter "[", span := token.span }
    else
      .ok none

def attachScripts (scripts : Scripts Formula) (base : Formula) : Formula :=
  match scripts.sub, scripts.superscript (.element "'") .group with
  | none, none => base
  | sub, sup => .attach base sub sup

inductive GridItem where
  | node (node : Formula)
  | cellEnd
  | rowEnd

namespace GridItem

def ofToken? (token : Token) : Option GridItem :=
  if token.is .control "&" then some .cellEnd
  else if token.is .control "\\\\" then some .rowEnd
  else none

def cell (nodes : List Formula) : Formula :=
  .ofList (Formula.trimSpaces nodes)

/--
Split a body into the nodes of its first cell, the further cells of its first row, and the further
rows.
-/
def split : List GridItem → List Formula × List Formula × List (List Formula)
  | [] => ([], [], [])
  | .node first :: items =>
    let (nodes, row, rows) := split items
    (first :: nodes, row, rows)
  | .cellEnd :: items =>
    let (nodes, row, rows) := split items
    ([], cell nodes :: row, rows)
  | .rowEnd :: items =>
    let (nodes, row, rows) := split items
    ([], [], (cell nodes :: row) :: rows)

def isEmptyRow : List Formula → Bool
  | [only] => only.isEmpty
  | _ => false

/--
The rows of a body. A separator at the very end opens no further row.
-/
def rows (items : List GridItem) : List (List Formula) :=
  let (nodes, row, rows) := split items
  let all := (cell nodes :: row) :: rows
  if !rows.isEmpty && (all.getLast?.any isEmptyRow) then all.dropLast else all

end GridItem

namespace Parser

mutual

/--
Read all tokens as formulas side by side. In an environment, separators may stand in braces.
-/
def sequence (inEnv : Bool) (tokens : List Token) : Except ParseError (List Formula) :=
  match tokens with
  | [] => .ok []
  | token :: tokens => do
    let (node, used) ← expr inEnv token tokens
    let nodes ← sequence inEnv (tokens.drop used)
    return node :: nodes
termination_by 8 * tokens.length + 5

def items (tokens : List Token) : Except ParseError (List GridItem) :=
  match tokens with
  | [] => .ok []
  | token :: tokens =>
    match GridItem.ofToken? token with
    | some item => do
      let rest ← items tokens
      return item :: rest
    | none => do
      let (node, used) ← expr true token tokens
      let rest ← items (tokens.drop used)
      return .node node :: rest
termination_by 8 * tokens.length + 5

/--
Read an expression with its primes and scripts. The answer counts the tokens used after the first.
-/
def expr (inEnv : Bool) (token : Token) (tokens : List Token) :
    Except ParseError (Formula × Nat) :=
  match token.script? with
  | some place => do
    let (found, used) ← script inEnv {} place token tokens
    let (found, more) ← scripts inEnv found (tokens.drop used)
    return (attachScripts found .empty, used + more)
  | none => do
    let (base, used) ← atom inEnv token tokens
    let primes := Token.countFront Token.isPrime (tokens.drop used)
    let (found, more) ← scripts inEnv { primes } (tokens.drop (used + primes))
    return (attachScripts found base, used + primes + more)
termination_by 8 * tokens.length + 12

def scripts (inEnv : Bool) (found : Scripts Formula) (tokens : List Token) :
    Except ParseError (Scripts Formula × Nat) :=
  match tokens with
  | [] => .ok (found, 0)
  | token :: tokens =>
    match token.script? with
    | none => .ok (found, 0)
    | some place => do
      let (found, used) ← script inEnv found place token tokens
      let (found, more) ← scripts inEnv found (tokens.drop used)
      return (found, 1 + used + more)
termination_by 8 * tokens.length + 5

/--
Read the script after the marker `owner`. Primes may follow a subscript.
-/
def script (inEnv : Bool) (found : Scripts Formula) (place : Script) (owner : Token)
    (tokens : List Token) : Except ParseError (Scripts Formula × Nat) :=
  if (found.get? place).isSome then
    .error (place.double "braces" owner.span)
  else do
    let (node, used) ← argument inEnv owner tokens
    let found := found.insert node place
    match place with
    | .sup => return (found, used)
    | .sub =>
      let primes := Token.countFront Token.isPrime (tokens.drop used)
      return (found.addPrimes primes, used + primes)
termination_by 8 * tokens.length + 4

/--
Read an expression without scripts. The answer counts the tokens used after the first.
-/
def atom (inEnv : Bool) (token : Token) (tokens : List Token) :
    Except ParseError (Formula × Nat) :=
  match token.kind with
  | .element => .ok (.element token.text, 0)
  | .text => .ok (.text token.text, 0)
  | .comment => .ok (.comment token.text, 0)
  | .space | .newline => .ok (.space token.text, 0)
  | .unknown => .ok (.unknown token.text, 0)
  | .command => command inEnv token tokens
  | .control =>
    match token.text with
    | "\x7b" =>
      match closingBrace? tokens with
      | none => .error { fault := .unclosedDelimiter "\x7b", span := token.span }
      | some (size, _) => do
        let nodes ← sequence inEnv (tokens.take size)
        return (.ofList nodes, size + 1)
    | "\x7d" => .error { fault := .unexpectedClose "\x7d", span := token.span }
    | "&" =>
      if inEnv then
        .ok (.control "&", 0)
      else
        .error
          { fault := .strayCellSeparator, span := token.span,
            hints := ["cells can only be separated inside an environment like `aligned`"] }
    | "\\\\" =>
      if inEnv then
        .ok (.control "\\\\", 0)
      else
        .error
          { fault := .strayRowSeparator, span := token.span,
            hints := ["rows can only be separated inside an environment like `aligned`"] }
    | text => .ok (.control text, 0)
termination_by 8 * tokens.length + 10

/--
Read a command with its arguments. The answer counts the tokens used after the command itself.
-/
def command (inEnv : Bool) (token : Token) (tokens : List Token) :
    Except ParseError (Formula × Nat) :=
  match token.name with
  | "left" => leftRight inEnv token tokens
  | "right" => .error { fault := .unexpectedRight, span := token.span }
  | "begin" => environment token tokens
  | "end" =>
    .error { fault := .unexpectedEnd ((bracedText? tokens).getD ""), span := token.span }
  | name =>
    if ["text", "operatorname", "operatorname*", "hspace"].contains name then do
      let (text, used) ← rawArgument token tokens
      return (.call name [.text text], used)
    else
      match Symbol.arity? name with
      | none =>
        .ok (if (Symbol.toTypst? name).isSome then .symbol name else .unknown token.text, 0)
      | some arity => do
        let optional ← if name == "sqrt" then degree? tokens else .ok none
        match optional with
        | none =>
          let (args, used) ← arguments inEnv token arity tokens
          return (.func name args none, used)
        | some (before, size) =>
          let degree ← sequence inEnv ((tokens.drop before).take size)
          let (args, used) ← arguments inEnv token arity (tokens.drop (before + size + 1))
          return (.func name args (some (.ofList degree)), before + size + 1 + used)
termination_by 8 * tokens.length + 9

def arguments (inEnv : Bool) (owner : Token) (arity : Symbol.Arity) (tokens : List Token) :
    Except ParseError (List Formula × Nat) :=
  match arity with
  | .one => do
    let (arg, used) ← argument inEnv owner tokens
    return ([arg], used)
  | .two => do
    let (first, used) ← argument inEnv owner tokens
    let (second, more) ← argument inEnv owner (tokens.drop used)
    return ([first, second], used + more)
termination_by 8 * tokens.length + 4

def argument (inEnv : Bool) (owner : Token) (tokens : List Token) :
    Except ParseError (Formula × Nat) :=
  match tokens with
  | [] => .error (missingArgument owner)
  | token :: tokens =>
    if token.isSpace then do
      let (node, used) ← argument inEnv owner tokens
      return (node, used + 1)
    else if token.endsArgument then
      .error (missingArgument owner)
    else do
      let (node, used) ← atom inEnv token tokens
      return (node, used + 1)
termination_by 8 * tokens.length + 3

def leftRight (inEnv : Bool) (left : Token) (tokens : List Token) :
    Except ParseError (Formula × Nat) :=
  match closingRight? tokens with
  | none =>
    .error
      { fault := .unclosedLeft, span := left.span,
        hints := ["use `\\right.` for an invisible delimiter"] }
  | some (size, right) => do
    let (opening, before) ← delimiter left (tokens.take size)
    let (closing, after) ← delimiter right (tokens.drop (size + 1))
    let body ← sequence inEnv ((tokens.take size).drop before)
    return (.leftRight opening (.ofList body) closing, size + 1 + after)
termination_by 8 * tokens.length + 8

/--
Read an environment from its name to the name after its `\end`.
-/
def environment (start : Token) (tokens : List Token) : Except ParseError (Formula × Nat) :=
  match bracedText? tokens with
  | none =>
    .error
      { fault := .invalidArgument "expected environment name after `\\begin`", span := start.span }
  | some name =>
    let tokens := tokens.drop 3
    match closingEnd? tokens with
    | none => .error { fault := .unclosedEnvironment name, span := start.span }
    | some (size, stop) =>
      let spec := if name == "array" then bracedText? (tokens.take size) else none
      match bracedText? (tokens.drop (size + 1)) with
      | none =>
        .error
          { fault := .invalidArgument "expected environment name after `\\end`", span := stop.span }
      | some stopName =>
        if stopName != name then
          .error { fault := .mismatchedEnvironment name stopName, span := stop.span }
        else do
          let body ← items ((tokens.take size).drop (if spec.isSome then 3 else 0))
          return (.env name spec (GridItem.rows body), size + 7)
termination_by 8 * tokens.length + 8

end

end Parser

/--
Read a TeX formula from its tokens. Spaces next to script markers are dropped; all others are kept.
-/
def parse (tokens : List Token) : Except ParseError Formula := do
  let nodes ← Parser.sequence false (stripScriptSpaces tokens)
  return .ofList nodes

def parseText (text : String) : Except ParseError Formula :=
  parse (tokenize text)

end Tex
end MathMarkup
