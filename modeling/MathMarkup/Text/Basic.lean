/-!
This module contains the class of blank characters and the functions that trim, split and search
texts. A character is blank if it has the property `White_Space` of Unicode, so the class is larger
than the blanks of ASCII.
-/

namespace MathMarkup
namespace Text

/--
Whether a character lies in one of the ranges of a table. Both ends of a range belong to it.
-/
def inRanges (table : List (Nat × Nat)) (c : Char) : Bool :=
  table.any fun (lo, hi) => lo ≤ c.toNat && c.toNat ≤ hi

def wideBlanks : List (Nat × Nat) :=
  [(0x85, 0x85), (0xA0, 0xA0), (0x1680, 0x1680), (0x2000, 0x200A), (0x2028, 0x2029),
   (0x202F, 0x202F), (0x205F, 0x205F), (0x3000, 0x3000)]

/--
Whether a character is blank: the space, the control characters from the tabulator to the carriage
return, and the blanks of `wideBlanks`.
-/
def isBlank (c : Char) : Bool :=
  c == ' ' || (9 ≤ c.toNat && c.toNat ≤ 13) || (128 ≤ c.toNat && inRanges wideBlanks c)

def isInlineBlank (c : Char) : Bool :=
  isBlank c && c != '\n'

def trimStart (cs : List Char) : List Char :=
  cs.dropWhile isBlank

def trimEnd (cs : List Char) : List Char :=
  (cs.reverse.dropWhile isBlank).reverse

def trim (text : String) : String :=
  String.ofList (trimEnd (trimStart text.toList))

def removeBlanks (text : String) : String :=
  String.ofList (text.toList.filter fun c => !isBlank c)

/--
The lines of a text without their ends. A line ends with a line feed, or with a carriage return and
a line feed. An end at the very end of the text opens no further line.
-/
def lines (cs : List Char) : List (List Char) :=
  go cs []
where
  go : List Char → List Char → List (List Char)
    | [], [] => []
    | [], current => [current.reverse]
    | '\n' :: rest, current => (dropReturn current).reverse :: go rest []
    | c :: rest, current => go rest (c :: current)
  dropReturn : List Char → List Char
    | '\r' :: rest => rest
    | current => current

def splitFirst? (sep : Char) : List Char → Option (List Char × List Char)
  | [] => none
  | c :: cs =>
    if c = sep then
      some ([], cs)
    else
      (splitFirst? sep cs).map fun (before, after) => (c :: before, after)

def dropFront? : (front text : List Char) → Option (List Char)
  | [], text => some text
  | _ :: _, [] => none
  | f :: front, c :: text => if f = c then dropFront? front text else none

theorem length_of_dropFront? {front text rest : List Char} (h : dropFront? front text = some rest) :
    text.length = front.length + rest.length := by
  fun_induction dropFront? front text with
  | case1 text => simp_all
  | case2 => simp at h
  | case3 f front text ih => simp [ih h]; omega
  | case4 => simp at h

def findFirst? (word : List Char) (text : List Char) : Option (List Char) :=
  if (dropFront? word text).isSome then
    some []
  else
    match text with
    | [] => none
    | c :: text => (findFirst? word text).map (c :: ·)

def byteSize (cs : List Char) : Nat :=
  cs.foldr (fun c size => c.utf8Size + size) 0

end Text
end MathMarkup
