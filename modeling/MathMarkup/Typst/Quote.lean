import MathMarkup.Text.Basic

/-!
This module contains the string literals of Typst. A literal stands in double quotes, and a
backslash inside it changes the meaning of the character that follows.
-/

namespace MathMarkup
namespace Typst

def quoteChars : List Char → List Char
  | [] => []
  | c :: cs => if c = '"' || c = '\\' then '\\' :: c :: quoteChars cs else c :: quoteChars cs

def quote (text : String) : String :=
  String.ofList ('"' :: quoteChars text.toList ++ ['"'])

def escapedChar : Char → Char
  | 'n' => '\n'
  | 't' => '\t'
  | c => c

/--
Read the inside of a string literal up to the quote that ends it. The result is the content and
what follows. A backslash does not escape the end of a line.
-/
def unquote? : List Char → Option (List Char × List Char)
  | [] => none
  | '"' :: cs => some ([], cs)
  | '\\' :: '\n' :: _ => none
  | '\\' :: c :: cs => (unquote? cs).map fun (content, rest) => (escapedChar c :: content, rest)
  | ['\\'] => none
  | c :: cs => (unquote? cs).map fun (content, rest) => (c :: content, rest)

end Typst
end MathMarkup
