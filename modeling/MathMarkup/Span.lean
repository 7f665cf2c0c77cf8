/-!
This module contains the places in a text that tokens and errors refer to. Places are counted in
bytes of the UTF-8 form of the text, and offsets of more than 32 bits are cut down.
-/

namespace MathMarkup

/--
The bytes of a text from `start` up to but not including `stop`. A place that starts at the largest
offset stands for none at all.
-/
structure Span where
  start : UInt32
  stop : UInt32
deriving DecidableEq, Repr

namespace Span

/--
The largest offset of 32 bits.
-/
def limit : Nat := 0xFFFFFFFF

def clamp (offset : Nat) : UInt32 :=
  if offset ≤ limit then .ofNat offset else .ofNat (limit - 1)

def ofOffsets (start stop : Nat) : Span :=
  ⟨clamp start, clamp stop⟩

/--
What was built rather than read has no place.
-/
def detached : Span :=
  ⟨.ofNat limit, .ofNat limit⟩

def isDetached (span : Span) : Bool :=
  span.start == .ofNat limit

def range? (span : Span) : Option (Nat × Nat) :=
  if span.isDetached then none else some (span.start.toNat, span.stop.toNat)

/--
The smallest place that covers both.
-/
def join (span other : Span) : Span :=
  if span.isDetached then
    other
  else if other.isDetached then
    span
  else
    ⟨min span.start other.start, max span.stop other.stop⟩

def or (span other : Span) : Span :=
  if span.isDetached then other else span

/--
The place in words, like `Span(2..9)`.
-/
def describe (span : Span) : String :=
  match span.range? with
  | some (start, stop) => "Span(" ++ toString start ++ ".." ++ toString stop ++ ")"
  | none => "Span(detached)"

end Span
end MathMarkup
