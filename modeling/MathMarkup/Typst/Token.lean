import MathMarkup.Scan
import MathMarkup.Symbol
import MathMarkup.Typst.Quote

/-!
This module contains the tokens of Typst math: their kinds and the rules by which a formula is cut
into them.
-/

namespace MathMarkup
namespace Typst

open Text Scan

inductive Kind where
  /-- A letter, a number, a punctuation mark or an escaped character like `\(`. -/
  | element
  /-- A name like `alpha` or `arrow.r`, a shorthand by the name it stands for, or code. -/
  | symbol
  | text
  | comment
  | space
  | newline
  | control
  | nothing
  | unknown
deriving DecidableEq, Repr

abbrev Token := MathMarkup.Token Kind

namespace Token

def isSpace (token : Token) : Bool :=
  token.kind == .space || token.kind == .newline

end Token

def comment : Rule Kind
  | '/' :: '/' :: cs =>
    let text := cs.takeWhile (· != '\n')
    some (.whole (text.length + 2) [(.comment, String.ofList text)])
  | _ => none

/--
A backslash before a blank or at the very end breaks the line. The blank is left to be read again.
-/
def lineBreak : Rule Kind
  | ['\\'] => some (.whole 1 [(.control, "\\")])
  | '\\' :: c :: _ => if isBlank c then some ⟨2, 1, [(.control, "\\")]⟩ else none
  | _ => none

def escaped : Rule Kind
  | '\\' :: c :: _ => if isBlank c then none else some (.verbatim .element ['\\', c])
  | _ => none

def literal : Rule Kind
  | '"' :: cs => do
    let (content, rest) ← unquote? cs
    some (.whole (cs.length + 1 - rest.length) [(.text, String.ofList content)])
  | _ => none

def longestFront? (words : List String) (cs : List Char) : Option String :=
  match words with
  | [] => none
  | word :: words =>
    let found := longestFront? words cs
    if (dropFront? word.toList cs).isSome then
      match found with
      | some other => if word.length < other.length then some other else some word
      | none => some word
    else
      found

def shorthand : Rule Kind := fun cs => do
  let spelling ← longestFront? (Symbol.shorthands.map Prod.snd) cs
  let name ← Symbol.ofShorthand? spelling
  some (.whole spelling.length [(.symbol, name)])

def noneLiteral : Rule Kind := fun cs =>
  if (dropFront? "#none".toList cs).isSome then
    some (.whole 5 [(.nothing, "#none")])
  else
    none

def isCodeStart (c : Char) : Bool :=
  c.isAlphanum || c == '_'

/--
A name in code, like `#left`.
-/
def codeName : Rule Kind
  | '#' :: c :: cs =>
    if isCodeStart c then
      let rest := cs.takeWhile fun c => isCodeStart c || c == '.' || c == '-'
      some (.verbatim .symbol ('#' :: c :: rest))
    else
      none
  | _ => none

/--
Read code up to the parenthesis that ends it. Inside, parentheses may be nested once: `inner` says
whether one is open.
-/
def codeBody? (inner : Bool) : List Char → Option (List Char)
  | [] => none
  | c :: cs =>
    if c = '(' then
      if inner then none else (codeBody? true cs).map (c :: ·)
    else if c = ')' then
      if inner then (codeBody? false cs).map (c :: ·) else some [c]
    else
      (codeBody? inner cs).map (c :: ·)

/--
Code in parentheses, like `#(vline: (1, 2))`.
-/
def code : Rule Kind
  | '#' :: '(' :: cs => do
    let body ← codeBody? false cs
    some (.verbatim .symbol ('#' :: '(' :: body))
  | _ => none

def dottedParts (cs : List Char) : List Char :=
  match cs with
  | '.' :: cs =>
    match cs.takeWhile Char.isAlpha with
    | [] => []
    | part => '.' :: part ++ dottedParts (cs.drop part.length)
  | _ => []
termination_by cs.length

/--
A name: letters, with points between its parts. A single letter stands for itself.
-/
def name : Rule Kind := fun cs =>
  match cs.takeWhile Char.isAlpha with
  | [] => none
  | part =>
    let word := part ++ dottedParts (cs.drop part.length)
    some (.verbatim (if word.length = 1 then .element else .symbol) word)

def rules : List (Rule Kind) :=
  [comment,
   .char .element (· == '/'),
   .char .control (· matches '_' | '^' | '&'),
   .lineEnd .newline,
   .run .space isInlineBlank,
   lineBreak,
   escaped,
   literal,
   shorthand,
   .number .element,
   .char .element ("+-*='<>!.,;:?()[]|\x7b\x7d".toList.contains ·),
   noneLiteral,
   codeName,
   code,
   name,
   .char .element (fun c => !(c matches '$' | '#' | '"' | '\\'))]

/--
Cut a Typst formula into tokens. Blanks are kept, and characters without meaning become tokens of
the kind `unknown`.
-/
def tokenize (text : String) : List Token :=
  scan rules .unknown text

end Typst
end MathMarkup
