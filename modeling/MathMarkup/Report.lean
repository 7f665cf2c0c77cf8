import MathMarkup.Convert
import MathMarkup.Text.Width

/-!
This module contains how failures are reported to the user. A failure with a place is shown below
the line of the input that it lies on.
-/

namespace MathMarkup
namespace Report

inductive Format where
  | human
  | short
deriving DecidableEq, Repr

structure Label where
  number : Nat
  line : List Char
  start : Nat
  /-- The offset in the line at which the range stops. It lies beyond the line if the range does. -/
  stop : Nat
deriving DecidableEq, Repr

def inputName : String := "<input>"

def sourceLines : List Char → List (List Char)
  | [] => [[]]
  | c :: cs =>
    if c = '\n' then
      [] :: sourceLines cs
    else
      match sourceLines cs with
      | line :: lines => (c :: line) :: lines
      | [] => [[c]]

/--
Find the line of an offset. A line feed belongs to the line that it ends.
-/
def findLine (number start stop : Nat) : List (List Char) → Label
  | [] => ⟨number, [], start, stop⟩
  | [line] => ⟨number, line, start, stop⟩
  | line :: lines =>
    let size := Text.byteSize line
    if start ≤ size then
      ⟨number, line, start, stop⟩
    else
      findLine (number + 1) (start - size - 1) (stop - size - 1) lines

/--
The label of a failure. Places that do not lie in the text have none.
-/
def label? (source : List Char) (span : Span) : Option Label :=
  match span.range? with
  | some (start, stop) =>
    if stop ≤ Text.byteSize source then
      some (findLine 1 start stop (sourceLines source))
    else
      none
  | none => none

namespace Label

def charsBefore (offset : Nat) : List Char → Nat
  | [] => 0
  | c :: cs => if c.utf8Size ≤ offset then charsBefore (offset - c.utf8Size) cs + 1 else 0

def column (label : Label) : Nat :=
  charsBefore label.start label.line + 1

/--
Where a label starts, like `<input>:2:7`.
-/
def position (label : Label) : String :=
  inputName ++ ":" ++ toString label.number ++ ":" ++ toString label.column

def shown (label : Label) : List Char :=
  (label.line.reverse.dropWhile fun c => c == '\n' || c == '\r' || c == '\x00').reverse

/--
How many columns a character takes after `column` others. Tabulators stand at every second column.
-/
def advance (column : Nat) (c : Char) : Nat :=
  if c = '\t' then 2 - column % 2 else Text.width c

def expandTabs (column : Nat) : List Char → List Char
  | [] => []
  | c :: cs =>
    let size := advance column c
    (if c = '\t' then List.replicate size ' ' else [c]) ++ expandTabs (column + size) cs

/--
The marks below the characters of a line from `offset` on: carets where the range from `start` to
`stop` covers a character, and spaces before that.
-/
def marks (start stop : Nat) (offset column : Nat) : List Char → List Char
  | [] => mark offset 1 1
  | c :: cs =>
    let size := advance column c
    mark offset c.utf8Size size ++ marks start stop (offset + c.utf8Size) (column + size) cs
where
  mark (offset size columns : Nat) : List Char :=
    if max start offset < min stop (offset + size) then List.replicate columns '^'
    else if offset < stop then List.replicate columns ' '
    else []

/--
The line of marks of a label. There is at least one caret.
-/
def carets (label : Label) : List Char :=
  marks label.start (max label.stop (label.start + 1)) 0 0 label.shown

end Label

def hintLines (margin : String) (hint : String) : String :=
  match Text.lines ("hint: " ++ hint).toList with
  | [] => ""
  | line :: lines =>
    margin ++ "= " ++ String.ofList line ++ "\n"
      ++ String.join (lines.map fun line => margin ++ "  " ++ String.ofList line ++ "\n")

def short (label : Option Label) (failure : Failure) : String :=
  match label with
  | some label => label.position ++ ": error: " ++ failure.message ++ "\n"
  | none => "error: " ++ failure.message ++ "\n"

def human (label : Option Label) (failure : Failure) : String :=
  let header := "error: " ++ failure.message ++ "\n"
  match label with
  | some label =>
    let number := toString label.number
    let margin := String.ofList (List.replicate (number.length + 1) ' ')
    header
      ++ margin ++ "┌─ " ++ label.position ++ "\n"
      ++ margin ++ "│\n"
      ++ number ++ " │ " ++ String.ofList (Label.expandTabs 0 label.shown) ++ "\n"
      ++ margin ++ "│ " ++ String.ofList label.carets ++ "\n"
      ++ (if failure.hints.isEmpty then "" else margin ++ "│\n")
      ++ String.join (failure.hints.map (hintLines margin)) ++ "\n"
  | none => header ++ String.join (failure.hints.map (hintLines " ")) ++ "\n"

def render (format : Format) (source : String) (failure : Failure) : String :=
  let label := label? source.toList failure.span
  match format with
  | .human => human label failure
  | .short => short label failure

end Report
end MathMarkup
