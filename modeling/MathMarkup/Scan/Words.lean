import MathMarkup.Scan

/-!
This module contains a small table of rules for words and digits. It shows each thing that a rule
can do: match a run, decline what it has matched, and use up only a part of it.
-/

namespace MathMarkup
namespace Scan
namespace Words

inductive Kind where
  | word
  | pair
  | digit
  | unknown
deriving DecidableEq, Repr

/--
Two equal digits. Two different ones are declined.
-/
def pair : Rule Kind
  | c :: d :: _ => if c.isDigit && c = d then some (.verbatim .pair [c, d]) else none
  | _ => none

def exclaimed : Rule Kind := fun cs =>
  match cs.takeWhile Char.isLower, cs.dropWhile Char.isLower with
  | c :: word, '!' :: _ => some ⟨word.length + 2, 1, [(.word, c.toString)]⟩
  | _, _ => none

def rules : List (Rule Kind) :=
  [.run .word Char.isLower, pair, .char .digit Char.isDigit, exclaimed]

def tokenize (text : String) : List (Token Kind) :=
  scan rules .unknown text

end Words
end Scan
end MathMarkup
