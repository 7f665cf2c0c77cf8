import MathMarkup.Toml.Value

/-!
This module contains the reading of keys, strings and numbers of TOML. Functions that read from the
front of a text answer what they have read and how many characters it takes.
-/

namespace MathMarkup
namespace Toml

def isTextChar (c : Char) : Bool :=
  c == '\t' || (32 ≤ c.toNat && c.toNat != 127)

def isBareChar (c : Char) : Bool :=
  c.isAlphanum || c == '-' || c == '_'

def blanks (cs : List Char) : Nat :=
  (cs.takeWhile fun c => c == ' ' || c == '\t').length

def digitValue? (base : Nat) (c : Char) : Option Nat :=
  let value :=
    if c.isDigit then c.toNat - '0'.toNat
    else if c.isLower then c.toNat - 'a'.toNat + 10
    else if c.isUpper then c.toNat - 'A'.toNat + 10
    else base
  if value < base then some value else none

def digits? (base : Nat) (cs : List Char) : Option Nat :=
  cs.foldlM (fun n c => (digitValue? base c).map (base * n + ·)) 0

def codePoint? (digits : List Char) : Option Char := do
  let n ← digits? 16 digits
  if n < 0xD800 || (0xDFFF < n && n < 0x110000) then some (Char.ofNat n) else none

def escape? : Char → Option Char
  | 'b' => some '\x08'
  | 't' => some '\t'
  | 'n' => some '\n'
  | 'f' => some '\x0c'
  | 'r' => some '\r'
  | '"' => some '"'
  | '\\' => some '\\'
  | _ => none

def consChar (c : Char) (size : Nat) : List Char × Nat → List Char × Nat
  | (content, used) => (c :: content, size + used)

def basicString? : List Char → Option (List Char × Nat)
  | '"' :: _ => some ([], 1)
  | '\\' :: 'u' :: a :: b :: c :: d :: cs => do
    let char ← codePoint? [a, b, c, d]
    (basicString? cs).map (consChar char 6)
  | '\\' :: 'U' :: a :: b :: c :: d :: e :: f :: g :: h :: cs => do
    let char ← codePoint? [a, b, c, d, e, f, g, h]
    (basicString? cs).map (consChar char 10)
  | '\\' :: c :: cs => do
    let char ← escape? c
    (basicString? cs).map (consChar char 2)
  | c :: cs => if isTextChar c then (basicString? cs).map (consChar c 1) else none
  | [] => none

def literalString? : List Char → Option (List Char × Nat)
  | '\'' :: _ => some ([], 1)
  | c :: cs => if isTextChar c then (literalString? cs).map (consChar c 1) else none
  | [] => none

def lineString? : List Char → Option (String × Nat)
  | '"' :: cs => (basicString? cs).map fun (content, used) => (String.ofList content, used + 1)
  | '\'' :: cs => (literalString? cs).map fun (content, used) => (String.ofList content, used + 1)
  | _ => none

def lineEnd : List Char → Nat
  | '\n' :: _ => 1
  | '\r' :: '\n' :: _ => 2
  | _ => 0

def blankLines : List Char → Nat
  | ' ' :: cs => blankLines cs + 1
  | '\t' :: cs => blankLines cs + 1
  | '\n' :: cs => blankLines cs + 1
  | '\r' :: '\n' :: cs => blankLines cs + 2
  | _ => 0

/--
Read the quotes at the end of a string on several lines, the first of which is already read. Three
of them close the string, and up to two more before them belong to it. Fewer than three belong to
the string, which then goes on.
-/
def closingQuotes? (quote : Char) (cs : List Char) : Option (List Char × Nat) :=
  let more := (cs.takeWhile (· == quote)).length
  if more < 2 then none
  else if more ≤ 4 then some (List.replicate (more - 2) quote, more)
  else some ([quote, quote], 4)

/--
Read a string on several lines with escapes after its opening quotes. A backslash at the end of a
line joins it with the next text.
-/
def basicLines? (cs : List Char) : Option (List Char × Nat) :=
  match cs with
  | '"' :: cs =>
    match closingQuotes? '"' cs with
    | some (content, used) => some (content, used + 1)
    | none => (basicLines? cs).map (consChar '"' 1)
  | '\\' :: 'u' :: a :: b :: c :: d :: cs => do
    let char ← codePoint? [a, b, c, d]
    (basicLines? cs).map (consChar char 6)
  | '\\' :: 'U' :: a :: b :: c :: d :: e :: f :: g :: h :: cs => do
    let char ← codePoint? [a, b, c, d, e, f, g, h]
    (basicLines? cs).map (consChar char 10)
  | '\\' :: c :: cs =>
    match escape? c with
    | some char => (basicLines? cs).map (consChar char 2)
    | none =>
      let start := blanks (c :: cs)
      if lineEnd ((c :: cs).drop start) = 0 then
        none
      else
        let size := start + blankLines ((c :: cs).drop start)
        (basicLines? ((c :: cs).drop size)).map fun (content, used) => (content, size + 1 + used)
  | '\r' :: '\n' :: cs => (basicLines? cs).map (consChar '\n' 2)
  | c :: cs =>
    if c = '\n' || isTextChar c then (basicLines? cs).map (consChar c 1) else none
  | [] => none
termination_by cs.length
decreasing_by
  all_goals simp only [List.length_drop, List.length_cons]
  all_goals omega

def literalLines? : List Char → Option (List Char × Nat)
  | '\'' :: cs =>
    match closingQuotes? '\'' cs with
    | some (content, used) => some (content, used + 1)
    | none => (literalLines? cs).map (consChar '\'' 1)
  | '\r' :: '\n' :: cs => (literalLines? cs).map (consChar '\n' 2)
  | c :: cs =>
    if c = '\n' || isTextChar c then (literalLines? cs).map (consChar c 1) else none
  | [] => none

/--
Read a string of any form. On several lines, an end of a line after the opening quotes is left out.
-/
def string? : List Char → Option (String × Nat)
  | '"' :: '"' :: '"' :: cs =>
    (basicLines? (cs.drop (lineEnd cs))).map fun (content, used) =>
      (String.ofList content, lineEnd cs + used + 3)
  | '\'' :: '\'' :: '\'' :: cs =>
    (literalLines? (cs.drop (lineEnd cs))).map fun (content, used) =>
      (String.ofList content, lineEnd cs + used + 3)
  | cs => lineString? cs

def key? (cs : List Char) : Option (String × Nat) :=
  match cs.takeWhile isBareChar with
  | [] => lineString? cs
  | bare => some (String.ofList bare, bare.length)

structure KeyPath where
  parents : List String
  key : String
deriving DecidableEq, Repr

def depthLimit : Nat := 80

def anyKeyPath? (cs : List Char) : Option (KeyPath × Nat) := do
  let start := blanks cs
  let (key, size) ← key? (cs.drop start)
  let used := start + size + blanks (cs.drop (start + size))
  match _h : cs.drop used with
  | '.' :: rest =>
    let (path, more) ← anyKeyPath? rest
    return (⟨key :: path.parents, path.key⟩, used + 1 + more)
  | _ => return (⟨[], key⟩, used)
termination_by cs.length
decreasing_by
  have := congrArg List.length _h
  simp only [List.length_drop, List.length_cons] at this
  omega

def keyPath? (cs : List Char) : Option (KeyPath × Nat) := do
  let (path, used) ← anyKeyPath? cs
  if path.parents.length + 1 < depthLimit then some (path, used) else none

/--
Drop the underscores of a number. They may stand only between two digits of the base.
-/
def dropUnderscores? (base : Nat) (cs : List Char) : Option (List Char) :=
  go false cs
where
  /-- `afterDigit` says whether a digit stands directly before. -/
  go (afterDigit : Bool) : List Char → Option (List Char)
    | [] => if afterDigit then some [] else none
    | c :: cs =>
      if c = '_' then
        match cs with
        | next :: _ => if afterDigit && next != '_' then go false cs else none
        | [] => none
      else if (digitValue? base c).isSome then
        (go true cs).map (c :: ·)
      else
        none

def splitSign : List Char → Bool × List Char
  | '-' :: cs => (true, cs)
  | '+' :: cs => (false, cs)
  | cs => (false, cs)

/--
Read the digits of a decimal number. A zero in front is refused.
-/
def decimalDigits? (cs : List Char) : Option (List Char) := do
  let digits ← dropUnderscores? 10 cs
  match digits with
  | '0' :: _ :: _ => none
  | digits => some digits

/--
Read an integer. It has at most 64 bits.
-/
def integer? (cs : List Char) : Option Int := do
  let value ←
    match cs with
    | '0' :: 'x' :: cs => (dropUnderscores? 16 cs).bind (digits? 16) |>.map Int.ofNat
    | '0' :: 'o' :: cs => (dropUnderscores? 8 cs).bind (digits? 8) |>.map Int.ofNat
    | '0' :: 'b' :: cs => (dropUnderscores? 2 cs).bind (digits? 2) |>.map Int.ofNat
    | cs =>
      let (negative, cs) := splitSign cs
      (decimalDigits? cs).bind (digits? 10) |>.map fun n => if negative then -(n : Int) else n
  if -0x8000000000000000 ≤ value && value < 0x8000000000000000 then some value else none

def exponent? (cs : List Char) : Option Int := do
  let (negative, cs) := splitSign cs
  let n ← (dropUnderscores? 10 cs).bind (digits? 10)
  return if negative then -(n : Int) else n

/--
Read a real number: digits with a point, an exponent or both. A number that is too large is refused,
while below zero it counts as infinite.
-/
def real? (cs : List Char) : Option Real := do
  let (negative, cs) := splitSign cs
  match cs with
  | ['i', 'n', 'f'] => return .infinite negative
  | ['n', 'a', 'n'] => return .undefined
  | cs =>
    let isMark (c : Char) : Bool := c == 'e' || c == 'E'
    let body := cs.takeWhile fun c => !isMark c
    let exponent ←
      match cs.drop body.length with
      | [] => some 0
      | _ :: rest => exponent? rest
    let whole ← decimalDigits? (body.takeWhile (· != '.'))
    let places ←
      match body.dropWhile (· != '.') with
      | [] => if body.length = cs.length then none else some []
      | _ :: places => dropUnderscores? 10 places
    let significand ← digits? 10 (whole ++ places)
    let value : Decimal.Scaled := ⟨significand, exponent - places.length⟩
    if significand = 0 || (Decimal.toBinary? value).isSome then
      return .finite negative value
    else if negative then
      return .infinite true
    else
      none

def scalar? (cs : List Char) : Option (Value × Nat) :=
  let word := cs.takeWhile fun c => isBareChar c || c == '+' || c == '.'
  let value : Option Value :=
    match String.ofList word with
    | "true" => some (.boolean true)
    | "false" => some (.boolean false)
    | _ =>
      match integer? word with
      | some n => some (.integer n)
      | none => (real? word).map .real
  value.map fun value => (value, word.length)

end Toml
end MathMarkup
