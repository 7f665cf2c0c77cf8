import MathMarkup.ParseError

/-!
This module contains the scripts that are collected while the expression they belong to is read.
-/

namespace MathMarkup

inductive Script where
  | sub
  | sup
deriving DecidableEq, Repr

namespace Script

def ofMarker? : (marker : String) → Option Script
  | "_" => some sub
  | "^" => some sup
  | _ => none

/--
The error of a script at a place that is taken. The hint names the brackets that group scripts.
-/
def double (brackets : String) (span : Span) : Script → ParseError
  | sub =>
    { fault := .doubleSubscript, span
      hints := ["use " ++ brackets ++ " to group the subscripts"] }
  | sup =>
    { fault := .doubleSuperscript, span
      hints := ["use " ++ brackets ++ " to group the superscripts"] }

@[simp]
theorem span_double (brackets : String) (span : Span) (place : Script) :
    (place.double brackets span).span = span := by
  cases place <;> rfl

end Script

structure Scripts (α : Type) where
  sub : Option α := none
  sup : Option α := none
  primes : Nat := 0
deriving Repr

namespace Scripts

variable {α : Type}

def get? (scripts : Scripts α) : Script → Option α
  | .sub => scripts.sub
  | .sup => scripts.sup

def insert (scripts : Scripts α) (script : α) : Script → Scripts α
  | .sub => { scripts with sub := some script }
  | .sup => { scripts with sup := some script }

def addPrimes (scripts : Scripts α) (count : Nat) : Scripts α :=
  { scripts with primes := scripts.primes + count }

/--
The superscript, in which the primes come first. `prime` is the mark of a prime and `group` puts
nodes side by side.
-/
def superscript (prime : α) (group : List α → α) (scripts : Scripts α) : Option α :=
  if scripts.primes = 0 then
    scripts.sup
  else
    some (group (List.replicate scripts.primes prime ++ scripts.sup.toList))

end Scripts
end MathMarkup
