import MathMarkup.Text.Basic

/-!
This module contains the escapes of raw text in TeX. Inside the braces of `\text` and its relatives
a backslash is written `\textbackslash{}`, and the characters that TeX treats specially have a
backslash in front.
-/

namespace MathMarkup
namespace Tex

open Text

def spelledBackslash : List Char :=
  "textbackslash\x7b\x7d".toList

def isSpecial (c : Char) : Bool :=
  c matches '{' | '}' | '%' | '&' | '#' | '_' | '$'

def escape : List Char → List Char
  | [] => []
  | c :: cs =>
    if c = '\\' then
      '\\' :: spelledBackslash ++ escape cs
    else if isSpecial c then
      '\\' :: c :: escape cs
    else
      c :: escape cs

/--
Resolve the escapes of raw text. A backslash that begins no escape stands for itself.
-/
def unescape (cs : List Char) : List Char :=
  match cs with
  | [] => []
  | '\\' :: cs =>
    match _h : dropFront? spelledBackslash cs with
    | some rest => '\\' :: unescape rest
    | none =>
      match cs with
      | [] => ['\\']
      | c :: cs => if isSpecial c then c :: unescape cs else '\\' :: unescape (c :: cs)
  | c :: cs => c :: unescape cs
termination_by cs.length
decreasing_by
  . have := length_of_dropFront? _h
    simp only [List.length_cons]
    omega
  all_goals simp only [List.length_cons]; omega

/--
Read raw text up to the brace that closes it. The escapes are left as they are; braces are not
nested, and a backslash does not escape the end of a line.
-/
def rawText? (cs : List Char) : Option (List Char × List Char) :=
  match cs with
  | [] => none
  | '}' :: cs => some ([], cs)
  | '{' :: _ => none
  | '\\' :: cs =>
    match _h : dropFront? spelledBackslash cs with
    | some rest => (rawText? rest).map fun (raw, rest) => ('\\' :: spelledBackslash ++ raw, rest)
    | none =>
      match cs with
      | [] => none
      | c :: cs =>
        if c = '\n' then none else (rawText? cs).map fun (raw, rest) => ('\\' :: c :: raw, rest)
  | c :: cs => (rawText? cs).map fun (raw, rest) => (c :: raw, rest)
termination_by cs.length
decreasing_by
  . have := length_of_dropFront? _h
    simp only [List.length_cons]
    omega
  all_goals simp only [List.length_cons]; omega

end Tex
end MathMarkup
