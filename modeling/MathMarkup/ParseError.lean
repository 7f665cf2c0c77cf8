import MathMarkup.Span

/-!
This module contains the reasons why a formula cannot be read, with their messages.
-/

namespace MathMarkup

inductive ParseFault where
  | unclosedDelimiter (delimiter : String)
  | unexpectedClose (delimiter : String)
  | missingArgument (owner : String)
  | doubleSuperscript
  | doubleSubscript
  | strayCellSeparator
  | strayRowSeparator
  | unclosedLeft
  | unexpectedRight
  | invalidDelimiter (text : String)
  | unclosedEnvironment (name : String)
  | mismatchedEnvironment (opened closed : String)
  | unexpectedEnd (name : String)
  | missingOperand (operator : String)
  | invalidArgument (reason : String)
deriving DecidableEq, Repr

def ParseFault.message : ParseFault → String
  | unclosedDelimiter delimiter => "unclosed delimiter `" ++ delimiter ++ "`"
  | unexpectedClose delimiter => "unexpected closing `" ++ delimiter ++ "`"
  | missingArgument owner => "missing argument for `" ++ owner ++ "`"
  | doubleSuperscript => "double superscript"
  | doubleSubscript => "double subscript"
  | strayCellSeparator => "cell separator `&` outside of an alignment environment"
  | strayRowSeparator => "row separator outside of an alignment environment"
  | unclosedLeft => "`\\left` without matching `\\right`"
  | unexpectedRight => "`\\right` without matching `\\left`"
  | invalidDelimiter text => "`" ++ text ++ "` is not a delimiter"
  | unclosedEnvironment name => "environment `" ++ name ++ "` is never closed"
  | mismatchedEnvironment opened closed =>
    "environment `" ++ opened ++ "` is closed by `\\end\x7b" ++ closed ++ "\x7d`"
  | unexpectedEnd name => "`\\end\x7b" ++ name ++ "\x7d` without matching `\\begin`"
  | missingOperand operator => "missing operand for `" ++ operator ++ "`"
  | invalidArgument reason => reason

structure ParseError where
  fault : ParseFault
  span : Span
  hints : List String := []
deriving DecidableEq, Repr

def ParseError.message (error : ParseError) : String :=
  error.fault.message

end MathMarkup
