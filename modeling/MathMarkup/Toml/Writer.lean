import MathMarkup.Toml.Scalar

/-!
This module contains the writing of TOML documents.
-/

namespace MathMarkup
namespace Toml

def basicChar (c : Char) : List Char :=
  match c with
  | '"' => ['\\', '"']
  | '\\' => ['\\', '\\']
  | '\x08' => ['\\', 'b']
  | '\t' => ['\\', 't']
  | '\n' => ['\\', 'n']
  | '\x0c' => ['\\', 'f']
  | '\r' => ['\\', 'r']
  | c =>
    if isTextChar c then
      [c]
    else
      let digits := Nat.toDigits 16 c.toNat
      '\\' :: 'u' :: List.replicate (4 - digits.length) '0' ++ digits

def writeBasic (cs : List Char) : List Char :=
  '"' :: cs.flatMap basicChar ++ ['"']

def writeLiteral (cs : List Char) : List Char :=
  '\'' :: cs ++ ['\'']

/--
The content of a string on several lines between double quotes. After `before` quotes in a row the
third one is escaped, and ends of lines stay as they are.
-/
def basicLinesContent (before : Nat) : List Char → List Char
  | [] => []
  | c :: cs =>
    if c = '"' then
      if before < 2 then
        c :: basicLinesContent (before + 1) cs
      else
        basicChar c ++ basicLinesContent 0 cs
    else if c = '\n' then
      c :: basicLinesContent 0 cs
    else
      basicChar c ++ basicLinesContent 0 cs

/--
What follows the opening quotes of a string on several lines: a text that has more than one line
starts on a line of its own.
-/
def opening (cs : List Char) : List Char :=
  if cs.contains '\n' then ['\n'] else []

def writeBasicLines (cs : List Char) : List Char :=
  ['"', '"', '"'] ++ opening cs ++ basicLinesContent 0 cs ++ ['"', '"', '"']

def writeLiteralLines (cs : List Char) : List Char :=
  ['\'', '\'', '\''] ++ opening cs ++ cs ++ ['\'', '\'', '\'']

def longestRun (c : Char) (cs : List Char) : Nat :=
  go 0 cs
where
  /-- `run` characters of that kind stand directly before. -/
  go (run : Nat) : List Char → Nat
    | [] => run
    | d :: cs => if d = c then go (run + 1) cs else max run (go 0 cs)

def needsEscape (cs : List Char) : Bool :=
  cs.any fun c => c != '\n' && !isTextChar c

/--
Write a string in the first form of these that needs no escapes: on one line between double or
single quotes, or on several lines between double or single quotes. If all of them need some, it is
written between double quotes.
-/
def writeString (cs : List Char) : List Char :=
  let doubles := longestRun '"' cs
  let singles := longestRun '\'' cs
  let isLine := !cs.contains '\n'
  let isPlain := !cs.contains '\\'
  if needsEscape cs then
    if isLine then writeBasic cs else writeBasicLines cs
  else if isPlain && isLine && doubles = 0 then
    writeBasic cs
  else if isLine && singles = 0 then
    writeLiteral cs
  else if isPlain && doubles ≤ 2 then
    writeBasicLines cs
  else if singles ≤ 2 then
    writeLiteralLines cs
  else if isLine then
    writeBasic cs
  else
    writeBasicLines cs

/--
Write a key: without quotes where it can do without them, else between single quotes where only
those need no escapes, and between double quotes otherwise.
-/
def writeKey (cs : List Char) : List Char :=
  let isPlain := !cs.contains '\\' && !cs.contains '"'
  if !cs.isEmpty && cs.all isBareChar then
    cs
  else if isPlain || cs.contains '\'' || !cs.all isTextChar then
    writeBasic cs
  else
    writeLiteral cs

def writeScalar? : Value → Option (List Char)
  | .boolean value => some (toString value).toList
  | .string text => some (writeString text.toList)
  | _ => none

def writeLine? (entry : String × Value) : Option (List Char) :=
  (writeScalar? entry.2).map fun value =>
    writeKey entry.1.toList ++ " = ".toList ++ value ++ ['\n']

def writeLines? : List (String × Value) → Option (List Char)
  | [] => some []
  | entry :: entries => do
    let line ← writeLine? entry
    let lines ← writeLines? entries
    return line ++ lines

def writeTables? : List (String × Value) → Option (List Char)
  | [] => some []
  | (key, .table entries) :: tables => do
    let lines ← writeLines? entries
    let rest ← writeTables? tables
    return "\n[".toList ++ writeKey key.toList ++ "]\n".toList ++ lines ++ rest
  | _ => none

/--
Tables stand under headers of their own, so all other values have to be listed before them.
-/
def writeEntries? (entries : List (String × Value)) : Option (List Char) :=
  match entries with
  | [] => some []
  | (_, .table _) :: _ => writeTables? entries
  | entry :: rest => do
    let line ← writeLine? entry
    let lines ← writeEntries? rest
    return line ++ lines

def write? (entries : List (String × Value)) : Option String :=
  (writeEntries? entries).map String.ofList

end Toml
end MathMarkup
