import MathMarkup.Text.Basic
import MathMarkup.Token

/-!
This module contains the scanner that cuts a text into tokens by a table of rules. At each place the
rule that matches most wins, and of several such rules the first one. A character at which no rule
matches becomes a token of its own, so scanning never fails.
-/

namespace MathMarkup
namespace Scan

structure Match (κ : Type) where
  /-- How many characters were matched. The rule with the largest size wins. -/
  size : Nat
  /-- How many characters are used up. Scanning goes on after them. -/
  keep : Nat
  /-- The tokens that stand for what was matched. They share one span. -/
  tokens : List (κ × String)
deriving Repr

abbrev Rule (κ : Type) := List Char → Option (Match κ)

namespace Match

def whole {κ : Type} (size : Nat) (tokens : List (κ × String)) : Match κ :=
  ⟨size, size, tokens⟩

def verbatim {κ : Type} (kind : κ) (matched : List Char) : Match κ :=
  whole matched.length [(kind, String.ofList matched)]

def consumed {κ : Type} (m : Match κ) : Nat :=
  max 1 (min m.keep m.size)

end Match

def Rule.char {κ : Type} (kind : κ) (p : Char → Bool) : Rule κ
  | [] => none
  | c :: _ => if p c then some (.verbatim kind [c]) else none

def Rule.run {κ : Type} (kind : κ) (p : Char → Bool) : Rule κ := fun cs =>
  match cs.takeWhile p with
  | [] => none
  | run => some (.verbatim kind run)

def Rule.lineEnd {κ : Type} (kind : κ) : Rule κ
  | '\n' :: _ => some (.whole 1 [(kind, "\n")])
  | '\r' :: '\n' :: _ => some (.whole 2 [(kind, "\n")])
  | _ => none

/--
A number in decimal notation. A point belongs to it only between digits.
-/
def Rule.number {κ : Type} (kind : κ) : Rule κ := fun cs =>
  match cs.takeWhile Char.isDigit, cs.dropWhile Char.isDigit with
  | [], _ => none
  | whole, '.' :: rest =>
    match rest.takeWhile Char.isDigit with
    | [] => some (.verbatim kind whole)
    | fraction => some (.verbatim kind (whole ++ '.' :: fraction))
  | whole, _ => some (.verbatim kind whole)

/--
The match that wins: the largest one, and the first of those. Empty matches do not count.
-/
def best {κ : Type} (rules : List (Rule κ)) (cs : List Char) : Option (Match κ) :=
  match rules with
  | [] => none
  | rule :: rules =>
    match (rule cs).filter (0 < ·.size), best rules cs with
    | some m, some other => if m.size < other.size then some other else some m
    | some m, none => some m
    | none, other => other

/--
The tokens at the front of a text that is not empty, and how many characters they use up.
-/
def step {κ : Type} (rules : List (Rule κ)) (unknown : κ) (c : Char) (cs : List Char) :
    Nat × List (κ × String) :=
  match best rules (c :: cs) with
  | some m => (m.consumed, m.tokens)
  | none => (1, [(unknown, c.toString)])

theorem step_pos {κ : Type} (rules : List (Rule κ)) (unknown : κ) (c : Char) (cs : List Char) :
    0 < (step rules unknown c cs).1 := by
  simp only [step]
  split
  . exact Nat.lt_of_lt_of_le Nat.zero_lt_one (Nat.le_max_left 1 _)
  . exact Nat.zero_lt_one

end Scan

/--
Cut a text into tokens by a table of rules. Characters that no rule matches get the kind `unknown`.
-/
def scan {κ : Type} (rules : List (Scan.Rule κ)) (unknown : κ) (text : String) : List (Token κ) :=
  go 0 text.toList
where
  go (offset : Nat) (cs : List Char) : List (Token κ) :=
    match cs with
    | [] => []
    | c :: cs =>
      let found := Scan.step rules unknown c cs
      let stop := offset + Text.byteSize ((c :: cs).take found.1)
      let span := Span.ofOffsets offset stop
      found.2.map (fun (kind, text) => ⟨kind, text, span⟩) ++ go stop ((c :: cs).drop found.1)
  termination_by cs.length
  decreasing_by
    have := Scan.step_pos rules unknown c cs
    simp only [List.length_drop, List.length_cons]
    omega

end MathMarkup
