import MathMarkup.Command.Arguments
import MathMarkup.Command.Listing
import MathMarkup.Options.Config

/-!
This module contains the program as a function of its command line. What it reads comes from a
`World`, so that it can be run on the file system as well as on given contents.
-/

namespace MathMarkup
namespace Command

inductive ReadFault where
  | missing
  | notText
  | other (reason : String)
deriving DecidableEq, Repr

def ReadFault.message : ReadFault → String
  | missing => "No such file or directory (os error 2)"
  | notText => "stream did not contain valid UTF-8"
  | other reason => reason

def decode (content : ByteArray) : Except ReadFault String :=
  match String.fromUTF8? content with
  | some text => return text
  | none => throw .notText

structure World (m : Type → Type) where
  file : (path : String) → m (Except ReadFault String)
  input : m (Except ReadFault String)
  config : Option String

structure Outcome where
  code : UInt8
  output : String := ""
  errors : String := ""
deriving DecidableEq, Repr

def Outcome.failed (message : String) : Outcome where
  code := 1
  errors := "error: " ++ message ++ "\n"

def Conversion.options {m : Type → Type} [Monad m] (world : World m) (conversion : Conversion) :
    m (Except ConfigError Options) := do
  match conversion.config with
  | none => return .ok (conversion.overrides.apply {})
  | some path =>
    match ← world.file path with
    | .error fault => return .error ⟨.unreadable fault.message, some path⟩
    | .ok text =>
      match Options.ofToml text with
      | .error fault => return .error ⟨fault, some path⟩
      | .ok options => return .ok (conversion.overrides.apply options)

/--
The formula of a conversion, which stands in a file, in the arguments or in the standard input.
-/
def Conversion.read {m : Type → Type} [Monad m] (world : World m) (conversion : Conversion) :
    m (Except String String) := do
  match conversion.file, conversion.input with
  | some path, _ =>
    return (← world.file path).mapError fun fault =>
      "failed to read " ++ path ++ " (" ++ fault.message ++ ")"
  | none, some text =>
    if text = "-" then
      readInput
    else
      return .ok text
  | none, none => readInput
where
  readInput : m (Except String String) := do
    return (← world.input).mapError fun fault =>
      "failed to read from stdin (" ++ fault.message ++ ")"

def dropLineEnds (text : String) : String :=
  String.ofList (text.toList.reverse.dropWhile fun c => c == '\n' || c == '\r').reverse

def Direction.convert (direction : Direction) (options : Options) (text : String) :
    Except Failure String :=
  match direction with
  | texToTypst => MathMarkup.texToTypst options text
  | typstToTex => MathMarkup.typstToTex options text

def Conversion.outcome (conversion : Conversion) (options : Options) (input : String) : Outcome :=
  let text := dropLineEnds input
  match conversion.direction.convert options text with
  | .ok result => { code := 0, output := result ++ "\n" }
  | .error failure => { code := 1, errors := Report.render conversion.format text failure }

/--
Carry out a conversion. Options are read before the formula.
-/
def Conversion.run {m : Type → Type} [Monad m] (world : World m) (conversion : Conversion) :
    m Outcome := do
  match ← conversion.options world with
  | .error error => return .failed error.message
  | .ok options =>
    match ← conversion.read world with
    | .error message => return .failed message
    | .ok input => return conversion.outcome options input

def Task.run {m : Type → Type} [Monad m] (world : World m) : Task → m Outcome
  | convert conversion => conversion.run world
  | list filter shorthands =>
    let filter := filter.getD ""
    return { code := 0, output := if shorthands then listShorthands filter else listSymbols filter }

def versionText : String := "t2t 0.4.0\n"

def helpText : String :=
  String.join
    ["Converts math formulas between LaTeX and Typst\n\n",
     "Usage: t2t [OPTIONS] <COMMAND>\n\n",
     "Commands:\n",
     "  tex2typst  Converts a LaTeX formula into Typst [aliases: t]\n",
     "  typst2tex  Converts a Typst formula into LaTeX [aliases: x]\n",
     "  symbols    Lists the symbols known to both dialects\n",
     "  help       Print this message or the help of the given command\n\n",
     "Options:\n",
     "      --color <COLOR>  Whether to use color [possible values: auto, always, never]\n",
     "  -v, --verbosity...   Sets the level of logging verbosity\n",
     "  -h, --help           Print help\n",
     "  -V, --version        Print version\n"]

namespace UsageError

def message : UsageError → String
  | unknownCommand name => "unrecognized subcommand '" ++ name ++ "'"
  | missingCommand => "'t2t' requires a subcommand but one was not provided"
  | noArguments => helpText
  | help => helpText
  | version => versionText
  | unknownArgument argument => "unexpected argument '" ++ argument ++ "' found"
  | conflict => "the arguments cannot be used together"
  | invalidValue => "a value is missing or invalid"
  | invalidDefinition fault => "invalid value for '--macro': " ++ fault.message
  | unexpectedValue name => "unexpected value for '--" ++ name ++ "' found; no more were expected"

def outcome (error : UsageError) : Outcome :=
  match error with
  | help | version => { code := 0, output := error.message }
  | noArguments => { code := 2, errors := error.message }
  | error => { code := 2, errors := "error: " ++ error.message ++ "\n" }

end UsageError

def run {m : Type → Type} [Monad m] (world : World m) (arguments : List String) : m Outcome :=
  match parse world.config arguments with
  | .ok invocation => invocation.task.run world
  | .error error => return error.outcome

end Command
end MathMarkup
