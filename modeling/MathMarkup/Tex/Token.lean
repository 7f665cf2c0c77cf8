import MathMarkup.Scan
import MathMarkup.Symbol
import MathMarkup.Tex.Escape
import MathMarkup.Text.Digit

/-!
This module contains the tokens of TeX math: their kinds, the rules by which a formula is cut into
them, and the expansion of commands that the user has defined.
-/

namespace MathMarkup
namespace Tex

open Text Scan

inductive Kind where
  /-- A letter, a number, a punctuation mark or an escaped character like `\{`. -/
  | element
  | command
  /-- The raw argument of `\text` and its relatives. -/
  | text
  | comment
  | space
  | newline
  /-- Braces, script markers, cell and row separators and spacing commands like `\,`. -/
  | control
  | unknown
deriving DecidableEq, Repr

abbrev Token := MathMarkup.Token Kind

namespace Token

def isSpace (token : Token) : Bool :=
  token.kind == .space || token.kind == .newline

/--
The text of a token without its first character. For a command this is its name.
-/
def name (token : Token) : String :=
  String.ofList token.text.toList.tail

end Token

def bracedTokens (text : List Char) : List (Kind × String) :=
  [(.control, "\x7b"), (.text, String.ofList text), (.control, "\x7d")]

/--
The beginning of an `array` with its column specification, which is raw text.
-/
def arrayStart : Rule Kind := fun cs => do
  let rest ← dropFront? "\\begin".toList cs
  let rest ← dropFront? "\x7barray\x7d".toList (trimStart rest)
  let rest ← dropFront? ['{'] (trimStart rest)
  let (spec, rest) ← splitFirst? '}' rest
  some (.whole (cs.length - rest.length)
    ((.command, "\\begin") :: bracedTokens "array".toList ++ bracedTokens spec))

def textCommands : List String :=
  ["text", "operatorname", "operatorname*", "begin", "end", "hspace"]

/--
Split the text after a backslash into the name of a text command and what follows it. Only
`operatorname` may have a star.
-/
def textCommand? (cs : List Char) : Option (String × List Char) :=
  let letters := cs.takeWhile Char.isAlpha
  let (name, rest) :=
    match String.ofList letters, cs.dropWhile Char.isAlpha with
    | "operatorname", '*' :: rest => ("operatorname*", rest)
    | name, rest => (name, rest)
  if textCommands.contains name then some (name, rest) else none

def textArgument : Rule Kind
  | '\\' :: cs => do
    let (name, rest) ← textCommand? cs
    let rest ← dropFront? ['{'] (trimStart rest)
    let (raw, rest) ← rawText? rest
    some (.whole (cs.length + 1 - rest.length)
      ((.command, "\\" ++ name) :: bracedTokens (unescape raw)))
  | _ => none

def comment : Rule Kind
  | '%' :: cs =>
    let text := cs.takeWhile (· != '\n')
    some (.whole (text.length + 1) [(.comment, String.ofList text)])
  | _ => none

/--
A script marker and a number of several digits. The script takes the first digit only, so the
others are left to be read again.
-/
def scriptDigit : Rule Kind
  | marker :: cs =>
    if marker matches '_' | '^' then
      let blanks := (cs.takeWhile isBlank).length
      match (trimStart cs).takeWhile Char.isDigit with
      | digit :: _ :: digits =>
        some ⟨blanks + digits.length + 3, blanks + 2,
          [(.control, marker.toString), (.element, digit.toString)]⟩
      | _ => none
    else
      none
  | [] => none

def escaped (kind : Kind) (p : Char → Bool) : Rule Kind
  | '\\' :: c :: _ => if p c then some (.verbatim kind ['\\', c]) else none
  | _ => none

def command? : List Char → Option (List Char × List Char)
  | '\\' :: cs =>
    match cs.takeWhile Char.isAlpha with
    | [] => none
    | name => some (name, cs.dropWhile Char.isAlpha)
  | _ => none

def bareArgument? (cs : List Char) : Option (Char × List Char) :=
  match trimStart cs with
  | c :: rest =>
    if isDecimal c || (c.isAlpha && cs.head?.any isBlank) then some (c, rest) else none
  | [] => none

/--
A command of two arguments that stand without braces, like `\frac12`.
-/
def bareArguments : Rule Kind := fun cs => do
  let (name, rest) ← command? cs
  let (first, rest) ← bareArgument? rest
  match trimStart rest with
  | second :: rest =>
    if second.isAlphanum && Symbol.arity? (String.ofList name) == some .two then
      some (.whole (cs.length - rest.length)
        [(.command, String.ofList ('\\' :: name)), (.element, first.toString),
         (.element, second.toString)])
    else
      none
  | [] => none

/--
A command of one argument that stands without braces, like `\sqrt2`.
-/
def bareArgument : Rule Kind := fun cs => do
  let (name, rest) ← command? cs
  let (arg, rest) ← bareArgument? rest
  if Symbol.arity? (String.ofList name) == some .one then
    some (.whole (cs.length - rest.length)
      [(.command, String.ofList ('\\' :: name)), (.element, arg.toString)])
  else
    none

def plainCommand : Rule Kind := fun cs => do
  let (name, _) ← command? cs
  some (.verbatim .command ('\\' :: name))

def rules : List (Rule Kind) :=
  [arrayStart,
   textArgument,
   comment,
   .char .control (· matches '{' | '}' | '_' | '^' | '&'),
   scriptDigit,
   escaped .control (· matches '\\' | ',' | ':' | ';' | '!' | '>' | ' '),
   .char .control (· == '~'),
   .lineEnd .newline,
   .run .space isInlineBlank,
   escaped .element (· matches '{' | '}' | '%' | '$' | '&' | '#' | '_' | '|'),
   bareArguments,
   bareArgument,
   plainCommand,
   .number .element,
   .char .element Char.isAlpha,
   .char .element ("+-*/='<>!.,;:?()[]|".toList.contains ·),
   .char .element (128 ≤ ·.toNat)]

/--
Cut a TeX formula into tokens. Blanks are kept, and characters without meaning become tokens of the
kind `unknown`.
-/
def tokenize (text : String) : List Token :=
  scan rules .unknown text

/--
Replace each command that has a definition by the tokens of its definition, which take the place of
the command. The definitions are looked up by the name of the command and are not expanded again.
-/
def expandMacros (lookup : String → Option String) (tokens : List Token) : List Token :=
  tokens.flatMap fun token =>
    match token.kind with
    | .command =>
      match lookup token.name with
      | some text => (tokenize text).map (·.moveTo token.span)
      | none => [token]
    | _ => [token]

end Tex
end MathMarkup
