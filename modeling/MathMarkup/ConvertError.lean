import MathMarkup.Span
import MathMarkup.Text.Basic

/-!
This module contains the reasons why a formula cannot be expressed in the other language, with
their messages.
-/

namespace MathMarkup

open Text

inductive ConvertFault where
  | unknownCommand (name : String)
  | unknownSymbol (name : String)
  | unknownToken (text : String)
  | unknownEnvironment (name : String)
  | unknownDelimiter (delimiter : String)
  | invalidArgument (reason : String)
deriving DecidableEq, Repr

namespace ConvertFault

def message : ConvertFault → String
  | unknownCommand name => "unknown macro `" ++ name ++ "`"
  | unknownSymbol name => "unknown symbol `" ++ name ++ "`"
  | unknownToken text => "unexpected character `" ++ text ++ "`"
  | unknownEnvironment name => "unknown environment `" ++ name ++ "`"
  | unknownDelimiter delimiter => "unknown delimiter `" ++ delimiter ++ "`"
  | invalidArgument reason => reason

def culprit : ConvertFault → String
  | unknownCommand text | unknownSymbol text | unknownToken text | unknownEnvironment text
  | unknownDelimiter text => text
  | invalidArgument _ => ""

end ConvertFault

/--
A fault, the place of what it is about and hints at how to mend it. Formulas do not remember where
they were read, so an error has no place until it is located in the input.
-/
structure ConvertError where
  fault : ConvertFault
  span : Span := .detached
  hints : List String := []
deriving DecidableEq, Repr

namespace ConvertError

def message (error : ConvertError) : String :=
  error.fault.message

def locate (input : String) (error : ConvertError) : ConvertError :=
  if error.span.isDetached && !error.fault.culprit.isEmpty then
    match findFirst? error.fault.culprit.toList input.toList with
    | some before =>
      let start := byteSize before
      { error with span := .ofOffsets start (start + byteSize error.fault.culprit.toList) }
    | none => error
  else
    error

end ConvertError
end MathMarkup
