import MathMarkup.Decimal.Shortest
import MathMarkup.Text.Printable

/-!
This module contains the values of TOML and how they are named in messages.
-/

namespace MathMarkup
namespace Toml

inductive Real where
  | finite (negative : Bool) (value : Decimal.Scaled)
  | infinite (negative : Bool)
  | undefined
deriving DecidableEq, Repr

/--
A value of TOML. The entries of a table keep their order.
-/
inductive Value where
  | string (text : String)
  | integer (value : Int)
  | real (value : Real)
  | boolean (value : Bool)
  | array (elements : List Value)
  | table (entries : List (String × Value))
deriving Repr, Inhabited

/--
A real number as it is written in messages: the shortest decimal of the nearest binary number.
-/
def Real.describe : Real → String
  | finite negative value =>
    let sign := if negative then "-" else ""
    if value.significand = 0 then
      sign ++ "0.0"
    else
      match Decimal.toBinary? value with
      | some binary =>
        if binary.significand = 0 then
          sign ++ "0.0"
        else
          sign ++ Decimal.positional (Decimal.shortest binary)
      | none => sign ++ "inf"
  | infinite negative => if negative then "-inf" else "inf"
  | undefined => "NaN"

def describeChar (c : Char) : List Char :=
  match c with
  | '"' => ['\\', '"']
  | '\\' => ['\\', '\\']
  | '\n' => ['\\', 'n']
  | '\r' => ['\\', 'r']
  | '\t' => ['\\', 't']
  | '\x00' => ['\\', '0']
  | c =>
    if Text.isPrintable c then
      [c]
    else
      '\\' :: 'u' :: '{' :: Nat.toDigits 16 c.toNat ++ ['}']

def Value.describe : Value → String
  | string text => "string " ++ String.ofList ('"' :: text.toList.flatMap describeChar ++ ['"'])
  | integer value => "integer `" ++ toString value ++ "`"
  | real value => "floating point `" ++ value.describe ++ "`"
  | boolean value => "boolean `" ++ toString value ++ "`"
  | array _ => "sequence"
  | table _ => "map"

end Toml
end MathMarkup
