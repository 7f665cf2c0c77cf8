import MathMarkup.Script
import MathMarkup.Token.Nesting
import MathMarkup.Typst.Formula.Division
import MathMarkup.Typst.Token

/-!
This module contains the reading of Typst formulas from tokens by recursive descent. Each function
takes the tokens that it may look at and answers how many of them it has used. The arguments of a
call are split at their separators first, and each part is then read on its own.
-/

namespace MathMarkup
namespace Typst

namespace Token

def script? (token : Token) : Option Script :=
  if token.kind == .control then Script.ofMarker? token.text else none

def isPrime (token : Token) : Bool :=
  token.is .element "'"

def isOpen (token : Token) : Bool :=
  token.is .element "("

def isClose (token : Token) : Bool :=
  token.is .element ")"

def isComma (token : Token) : Bool :=
  token.is .element ","

def isSemicolon (token : Token) : Bool :=
  token.is .element ";"

def isAlignment (token : Token) : Bool :=
  token.is .control "&"

def isLineBreak (token : Token) : Bool :=
  token.is .control "\\"

end Token

def elementDelimiters : List String :=
  ["(", ")", "[", "]", "\x7b", "\x7d", "|", "\\(", "\\)", "\\[", "\\]", "\\\x7b", "\\\x7d", "\\|"]

def symbolDelimiters : List String :=
  ["chevron.l", "chevron.r", "angle.l", "angle.r", "floor.l", "floor.r", "ceil.l", "ceil.r",
   "bar.v", "bar.v.double", "brace.l", "brace.r", "bracket.l", "bracket.r", "paren.l", "paren.r",
   "arrow.t", "arrow.b", "arrow.t.b", "arrow.t.double", "arrow.b.double", "slash", "backslash"]

def Token.isDelimiter (token : Token) : Bool :=
  match token.kind with
  | .element => elementDelimiters.contains token.text
  | .symbol => symbolDelimiters.contains token.text
  | _ => false

/--
The parenthesis that closes the one just before these tokens, and how many tokens stand before it.
-/
def closingParen? : List Token → Option (Nat × Token) :=
  Token.closing? Token.isOpen Token.isClose 0

/--
How many parentheses are left open, where closing parentheses without a partner do not count.
-/
def openParens (tokens : List Token) : Nat :=
  tokens.foldl
    (fun depth token =>
      if token.isOpen then depth + 1 else if token.isClose then depth - 1 else depth) 0

/--
Split tokens at the separators that stand outside of parentheses. There is one part more than there
are separators.
-/
def split (isSep : Token → Bool) (tokens : List Token) : List (List Token) :=
  let (part, parts) := go 0 tokens
  part :: parts
where
  /-- The first part and the further parts, where `depth` parentheses are open. -/
  go (depth : Nat) : List Token → List Token × List (List Token)
    | [] => ([], [])
    | token :: tokens =>
      if token.isOpen then
        cons token (go (depth + 1) tokens)
      else if token.isClose then
        cons token (go (depth - 1) tokens)
      else if depth = 0 && isSep token then
        let (part, parts) := go depth tokens
        ([], part :: parts)
      else
        cons token (go depth tokens)
  cons (token : Token) : List Token × List (List Token) → List Token × List (List Token)
    | (part, parts) => (token :: part, parts)

def partsSize (parts : List (List Token)) : Nat :=
  parts.foldr (fun part size => part.length + 1 + size) 0

@[simp]
theorem partsSize_nil : partsSize [] = 0 := rfl

@[simp]
theorem partsSize_cons (part : List Token) (parts : List (List Token)) :
    partsSize (part :: parts) = part.length + 1 + partsSize parts := rfl

theorem split.go_size (isSep : Token → Bool) (depth : Nat) (tokens : List Token) :
    (split.go isSep depth tokens).1.length + partsSize (split.go isSep depth tokens).2 =
      tokens.length := by
  fun_induction split.go isSep depth tokens <;> grind [split.cons, partsSize_nil, partsSize_cons]

@[simp]
theorem partsSize_split (isSep : Token → Bool) (tokens : List Token) :
    partsSize (split isSep tokens) = tokens.length + 1 := by
  have := split.go_size isSep 0 tokens
  simp only [split, partsSize_cons]
  omega

def isBlankPart (part : List Token) : Bool :=
  part.all Token.isSpace

/--
Drop the last part if it is blank, since a separator at the end opens no further part.
-/
def dropBlankLast (parts : List (List Token)) : List (List Token) :=
  if parts.getLast?.any isBlankPart then parts.dropLast else parts

theorem partsSize_dropLast_le (parts : List (List Token)) :
    partsSize parts.dropLast ≤ partsSize parts := by
  induction parts with
  | nil => simp
  | cons part parts ih =>
    cases parts with
    | nil => simp
    | cons next parts => simp only [List.dropLast_cons_cons, partsSize_cons] at *; omega

theorem partsSize_dropBlankLast_le (parts : List (List Token)) :
    partsSize (dropBlankLast parts) ≤ partsSize parts := by
  simp only [dropBlankLast]
  split
  . exact partsSize_dropLast_le parts
  . exact Nat.le_refl _

def namedArgument? (part : List Token) : Option (String × Nat) :=
  let blanks := Token.countFront Token.isSpace part
  match part.drop blanks with
  | key :: colon :: _ =>
    let isName :=
      match key.kind with
      | .symbol => key.text.toList.head? != some '#'
      | .element => key.text.toList.all Char.isAlpha
      | _ => false
    if isName && colon.is .element ":" then some (key.text, blanks + 2) else none
  | _ => none

def trimTokens (tokens : List Token) : List Token :=
  ((tokens.dropWhile Token.isSpace).reverse.dropWhile Token.isSpace).reverse

/--
The body of `lr` with the delimiters at its ends, if there are any.
-/
structure Delimited where
  left : Option String
  body : List Token
  right : Option String

namespace Delimited

/--
Take off the delimiter at the front. A parenthesis that is closed in the body groups and does not
delimit.
-/
def takeLeft : List Token → Option String × List Token
  | [] => (none, [])
  | token :: tokens =>
    if token.isDelimiter && !(token.isOpen && (closingParen? tokens).isSome) then
      (some token.text, tokens)
    else
      (none, token :: tokens)

/--
Take off the delimiter at the back. A parenthesis that closes one of the body groups and does not
delimit.
-/
def takeRight (tokens : List Token) : List Token × Option String :=
  match tokens.getLast? with
  | none => (tokens, none)
  | some token =>
    if token.isDelimiter && !(token.isClose && 0 < openParens tokens.dropLast) then
      (tokens.dropLast, some token.text)
    else
      (tokens, none)

def isParenthesized : List Token → Bool
  | token :: tokens =>
    token.isOpen && (closingParen? tokens).any fun (size, _) => size + 1 = tokens.length
  | [] => false

def ofTokens (tokens : List Token) : Delimited :=
  let tokens := trimTokens tokens
  if isParenthesized tokens then
    ⟨some "(", tokens.tail.dropLast, some ")"⟩
  else
    let (left, body) := takeLeft tokens
    let (body, right) := takeRight body
    ⟨left, body, right⟩

theorem length_ofTokens_le (tokens : List Token) :
    (ofTokens tokens).body.length ≤ tokens.length := by
  have hdrop : ∀ l : List Token, (l.dropWhile Token.isSpace).length ≤ l.length :=
    fun l => (List.dropWhile_sublist _).length_le
  have htrim : (trimTokens tokens).length ≤ tokens.length := by
    have h₁ := hdrop (tokens.dropWhile Token.isSpace).reverse
    have h₂ := hdrop tokens
    simp only [trimTokens, List.length_reverse] at *
    omega
  have hleft : ∀ l, (takeLeft l).2.length ≤ l.length := by
    intro l
    fun_cases takeLeft l <;> simp
  have hright : ∀ l, (takeRight l).1.length ≤ l.length := by
    intro l
    fun_cases takeRight l <;> simp
  simp only [ofTokens]
  split
  . simp only [List.length_dropLast, List.length_tail]
    omega
  . exact Nat.le_trans (hright _) (Nat.le_trans (hleft _) htrim)

end Delimited

def attachScripts (scripts : Scripts Formula) (base : Formula) : Formula :=
  match scripts.sub, scripts.superscript (.atom "'") .group with
  | none, none => base
  | sub, sup => .attach base sub sup

def dropEmptyLast (row : List Formula) : List Formula :=
  if 1 < row.length && row.getLast?.any Formula.isEmpty then row.dropLast else row

def consRow (row : List Formula) (rows : List (List Formula)) : List (List Formula) :=
  if row.isEmpty then rows else row :: rows

def missingArgument (owner : Token) : ParseError :=
  { fault := .missingArgument owner.text, span := owner.span }

namespace Parser

mutual

def sequence (tokens : List Token) : Except ParseError (List Formula) := do
  let found ← items tokens
  Item.resolve found
termination_by 8 * tokens.length + 6

def items (tokens : List Token) : Except ParseError (List Item) :=
  match tokens with
  | [] => .ok []
  | token :: tokens =>
    if token.is .element "/" then do
      let rest ← items tokens
      return .slash token.span :: rest
    else do
      let (node, used) ← expr token tokens
      let rest ← items (tokens.drop used)
      return .node node :: rest
termination_by 8 * tokens.length + 5

/--
Read an expression with its primes and scripts. The answer counts the tokens used after the first.
-/
def expr (token : Token) (tokens : List Token) : Except ParseError (Formula × Nat) :=
  match token.script? with
  | some place => do
    let (found, used) ← script {} place token tokens
    let (found, more) ← scripts found (tokens.drop used)
    return (attachScripts found .empty, used + more)
  | none => do
    let (base, used) ← atom token tokens
    let primes := Token.countFront Token.isPrime (tokens.drop used)
    let (found, more) ← scripts { primes } (tokens.drop (used + primes))
    return (attachScripts found base, used + primes + more)
termination_by 8 * tokens.length + 12

def scripts (found : Scripts Formula) (tokens : List Token) :
    Except ParseError (Scripts Formula × Nat) :=
  match tokens with
  | [] => .ok (found, 0)
  | token :: tokens =>
    match token.script? with
    | none => .ok (found, 0)
    | some place => do
      let (found, used) ← script found place token tokens
      let (found, more) ← scripts found (tokens.drop used)
      return (found, 1 + used + more)
termination_by 8 * tokens.length + 5

/--
Read the script after the marker `owner`. Primes may follow a subscript.
-/
def script (found : Scripts Formula) (place : Script) (owner : Token) (tokens : List Token) :
    Except ParseError (Scripts Formula × Nat) :=
  if (found.get? place).isSome then
    .error (place.double "parentheses" owner.span)
  else do
    let (node, used) ← operand owner tokens
    let found := found.insert node place
    match place with
    | .sup => return (found, used)
    | .sub =>
      let primes := Token.countFront Token.isPrime (tokens.drop used)
      return (found.addPrimes primes, used + primes)
termination_by 8 * tokens.length + 4

/--
Read the single expression that is the script of `owner`. Parentheses around it only group.
-/
def operand (owner : Token) (tokens : List Token) : Except ParseError (Formula × Nat) :=
  match tokens with
  | [] => .error (missingArgument owner)
  | token :: tokens =>
    if token.isSpace then do
      let (node, used) ← operand owner tokens
      return (node, used + 1)
    else if token.kind == .control || token.isClose then
      .error (missingArgument owner)
    else do
      let (node, used) ← atom token tokens
      return (Item.operand node, used + 1)
termination_by 8 * tokens.length + 3

/--
Read an expression without scripts. The answer counts the tokens used after the first.
-/
def atom (token : Token) (tokens : List Token) : Except ParseError (Formula × Nat) :=
  match token.kind with
  | .text => .ok (.text token.text, 0)
  | .comment => .ok (.comment token.text, 0)
  | .space | .newline => .ok (.space token.text, 0)
  | .control => .ok (.control token.text, 0)
  | .nothing => .ok (.nothing, 0)
  | .unknown => .ok (.unknown token.text, 0)
  | .element =>
    match token.text with
    | "(" =>
      match closingParen? tokens with
      | none => .error { fault := .unclosedDelimiter "(", span := token.span }
      | some (size, _) => do
        let nodes ← sequence (tokens.take size)
        return (.parens nodes, size + 1)
    | ")" => .error { fault := .unexpectedClose ")", span := token.span }
    | text => .ok (.atom text, 0)
  | .symbol =>
    match tokens with
    | [] => .ok (.symbol token.text, 0)
    | next :: tokens =>
      if next.isOpen then
        match closingParen? tokens with
        | none => .error { fault := .unclosedDelimiter "(", span := next.span }
        | some (size, _) => do
          let node ← call token.text (tokens.take size)
          return (node, size + 2)
      else
        .ok (.symbol token.text, 0)
termination_by 8 * tokens.length + 10

def call (name : String) (body : List Token) : Except ParseError Formula :=
  match name with
  | "mat" => do
    let (cells, named) ← rows Token.isComma (dropBlankLast (split Token.isSemicolon body))
    return .matrix cells named
  | "cases" => do
    let (cells, named) ← rows Token.isAlignment (dropBlankLast (split Token.isComma body))
    return .cases cells named
  | "lr" => do
    let parts := Delimited.ofTokens body
    let node ← cell parts.body
    match parts.left, parts.right with
    | none, none => return .plainCall "lr" [node]
    | left, right => return .leftRight left node right
  | name => do
    let (args, named) ← arguments (dropBlankLast (split Token.isComma body))
    return .call name args named
termination_by 8 * body.length + 16
decreasing_by
  . have := partsSize_dropBlankLast_le (split Token.isSemicolon body)
    simp only [partsSize_split] at this
    omega
  . have := partsSize_dropBlankLast_le (split Token.isComma body)
    simp only [partsSize_split] at this
    omega
  . have := Delimited.length_ofTokens_le body
    omega
  . have := partsSize_dropBlankLast_le (split Token.isComma body)
    simp only [partsSize_split] at this
    omega

/--
Read the rows of a grid, which are split into cells at `isSep`, and its named arguments.
-/
def rows (isSep : Token → Bool) (parts : List (List Token)) :
    Except ParseError (List (List Formula) × List (String × Formula)) :=
  match parts with
  | [] => .ok ([], [])
  | part :: parts => do
    let (row, named) ← arguments (split isSep part)
    let (rest, more) ← rows isSep parts
    return (consRow (dropEmptyLast row) rest, named ++ more)
termination_by 8 * partsSize parts + 7
decreasing_by
  . simp only [partsSize_split, partsSize_cons]
    omega
  . simp only [partsSize_cons]
    omega

def arguments (parts : List (List Token)) :
    Except ParseError (List Formula × List (String × Formula)) :=
  match parts with
  | [] => .ok ([], [])
  | part :: parts =>
    match namedArgument? part with
    | some (key, before) => do
      let value ← cell (part.drop before)
      let (args, named) ← arguments parts
      return (args, (key, value) :: named)
    | none => do
      let arg ← cell part
      let (args, named) ← arguments parts
      return (arg :: args, named)
termination_by 8 * partsSize parts + 6
decreasing_by all_goals simp only [partsSize_cons, List.length_drop]; omega

def cell (tokens : List Token) : Except ParseError Formula := do
  let nodes ← sequence tokens
  return .ofList (Formula.trimSpaces nodes)
termination_by 8 * tokens.length + 7

end

def lines (parts : List (List Token)) : Except ParseError (List (List Formula)) :=
  parts.mapM fun part => (split Token.isAlignment part).mapM cell

end Parser

/--
Read a Typst formula from its tokens. Line breaks and alignment points outside of parentheses make
it a grid of aligned lines.
-/
def parse (tokens : List Token) : Except ParseError Formula := do
  let aligned := split (fun token => token.isLineBreak || token.isAlignment) tokens
  if aligned.length = 1 then
    let nodes ← Parser.sequence tokens
    return .ofList nodes
  else
    let parts := split Token.isLineBreak tokens
    let rows ← Parser.lines (if 1 < parts.length then dropBlankLast parts else parts)
    return .align rows

def parseText (text : String) : Except ParseError Formula :=
  parse (tokenize text)

end Typst
end MathMarkup
