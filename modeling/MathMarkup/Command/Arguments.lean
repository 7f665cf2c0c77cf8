import MathMarkup.Command.Overrides
import MathMarkup.Report

/-!
This module contains the reading of command lines. Arguments are read from left to right. A value
that stands in an argument of its own is only checked when the next argument that is understood
comes, or at the end, so an argument that is not understood is reported first.
-/

namespace MathMarkup
namespace Command

inductive Color where
  | auto
  | always
  | never
deriving DecidableEq, Repr

inductive Direction where
  | texToTypst
  | typstToTex
deriving DecidableEq, Repr

structure Conversion where
  direction : Direction
  input : Option String := none
  file : Option String := none
  config : Option String := none
  overrides : Overrides := {}
  format : Report.Format := .human
deriving DecidableEq, Repr

inductive Task where
  | convert (conversion : Conversion)
  | list (filter : Option String) (shorthands : Bool)
deriving DecidableEq, Repr

structure Invocation where
  task : Task
  color : Color := .auto
  verbosity : Nat := 0
deriving DecidableEq, Repr

inductive Switch where
  | noPreferShorthands
  | noFracToSlash
  | inftyToOo
  | nonStrict
  | noOptimize
  | keepSpaces
  | shorthands
deriving DecidableEq, Repr

inductive Setting where
  | color
  | file
  | config
  | nonAsciiWrapper
  | definition
  | format
deriving DecidableEq, Repr

inductive Flag where
  | switch (switch : Switch)
  | setting (setting : Setting)
  | verbosity
  | help
  | version
deriving DecidableEq, Repr

inductive UsageError where
  | unknownCommand (name : String)
  | missingCommand
  | noArguments
  | help
  | version
  | unknownArgument (argument : String)
  | conflict
  | invalidValue
  | invalidDefinition (fault : DefinitionFault)
  | unexpectedValue (name : String)
deriving DecidableEq, Repr

/--
Where an argument stands: before the command, or after a command for conversion or listing.
-/
inductive Scope where
  | program
  | convert
  | list
deriving DecidableEq, Repr

namespace Scope

def sharedFlags : List (String × Flag) :=
  [("color", .setting .color), ("verbosity", .verbosity), ("help", .help)]

def ownFlags : Scope → List (String × Flag)
  | program => [("version", .version)]
  | convert =>
    [("file", .setting .file), ("config", .setting .config),
      ("no-prefer-shorthands", .switch .noPreferShorthands),
      ("no-frac-to-slash", .switch .noFracToSlash), ("infty-to-oo", .switch .inftyToOo),
      ("non-strict", .switch .nonStrict), ("no-optimize", .switch .noOptimize),
      ("keep-spaces", .switch .keepSpaces), ("non-ascii-wrapper", .setting .nonAsciiWrapper),
      ("macro", .setting .definition), ("diagnostic-format", .setting .format)]
  | list => [("shorthands", .switch .shorthands)]

def flag? (scope : Scope) (name : String) : Option Flag :=
  (sharedFlags ++ scope.ownFlags).lookup name

def letter? (scope : Scope) (letter : Char) : Option Flag :=
  match letter, scope with
  | 'v', _ => some .verbosity
  | 'h', _ => some .help
  | 'V', program => some .version
  | 'f', convert => some (.setting .file)
  | _, _ => none

end Scope

structure Given where
  operand : Option String := none
  switches : List Switch := []
  verbosity : Nat := 0
  color : Option Color := none
  format : Option Report.Format := none
  file : Option String := none
  config : Option String := none
  nonAsciiWrapper : Option String := none
  macros : List (String × String) := []
deriving DecidableEq, Repr

namespace Given

def isEmpty (given : Given) : Bool :=
  given.verbosity == 0 && given.color.isNone

def color? : String → Option Color
  | "auto" => some .auto
  | "always" => some .always
  | "never" => some .never
  | _ => none

def format? : String → Option Report.Format
  | "human" => some .human
  | "short" => some .short
  | _ => none

def path? (text : String) : Option String :=
  if text.isEmpty then none else some text

def once {α : Type} (old new : Option α) : Except UsageError (Option α) :=
  match old, new with
  | some _, _ => throw .conflict
  | none, some value => return some value
  | none, none => throw .invalidValue

def set (given : Given) (value : String) : Setting → Except UsageError Given
  | .color => return { given with color := ← once given.color (color? value) }
  | .format => return { given with format := ← once given.format (format? value) }
  | .file => return { given with file := ← once given.file (path? value) }
  | .config => return { given with config := ← once given.config (path? value) }
  | .nonAsciiWrapper =>
    return { given with nonAsciiWrapper := ← once given.nonAsciiWrapper (some value) }
  | .definition =>
    match definition value with
    | .ok pair => return { given with macros := given.macros ++ [pair] }
    | .error fault => throw (.invalidDefinition fault)

def turnOn (given : Given) (switch : Switch) : Except UsageError Given :=
  if given.switches.contains switch then
    throw .conflict
  else
    return { given with switches := switch :: given.switches }

def maxVerbosity : Nat := 255

def overrides (given : Given) : Overrides where
  noPreferShorthands := given.switches.contains .noPreferShorthands
  noFracToSlash := given.switches.contains .noFracToSlash
  inftyToOo := given.switches.contains .inftyToOo
  nonStrict := given.switches.contains .nonStrict
  noOptimize := given.switches.contains .noOptimize
  keepSpaces := given.switches.contains .keepSpaces
  nonAsciiWrapper := given.nonAsciiWrapper
  macros := given.macros

end Given

/--
What arguments have said so far, and a value that is waited for or was not checked yet.
-/
structure Progress where
  given : Given := {}
  waiting : Option (Setting × Option String) := none
deriving DecidableEq, Repr

namespace Progress

/--
Take in the value that was not checked yet. A value that is still missing is an error.
-/
def settle (progress : Progress) : Except UsageError Given :=
  match progress.waiting with
  | none => return progress.given
  | some (_, none) => throw .invalidValue
  | some (setting, some value) => progress.given.set value setting

def awaitsValue (progress : Progress) : Bool :=
  match progress.waiting with
  | some (_, none) => true
  | _ => false

/--
Take in a text that is no value of an argument. There is room for one.
-/
def addOperand (progress : Progress) (text : String) : Except UsageError Progress :=
  if progress.given.operand.isSome then
    throw (.unknownArgument text)
  else
    return { given := { ← progress.settle with operand := some text } }

def addText (progress : Progress) (text : String) : Except UsageError Progress :=
  match progress.waiting with
  | some (setting, none) => return { progress with waiting := some (setting, some text) }
  | _ => progress.addOperand text

def begin (progress : Progress) (setting : Setting) (value : Option String) :
    Except UsageError Progress := do
  let given ← progress.settle
  match value with
  | some value => return { given := ← given.set value setting }
  | none => return { given, waiting := some (setting, none) }

def react (progress : Progress) (flag : Flag) : Except UsageError Progress := do
  match flag with
  | .setting setting => progress.begin setting none
  | .switch switch => return { given := ← (← progress.settle).turnOn switch }
  | .verbosity =>
    let given ← progress.settle
    return { given := { given with verbosity := min (given.verbosity + 1) Given.maxVerbosity } }
  | .help =>
    let _ ← progress.settle
    throw .help
  | .version =>
    let _ ← progress.settle
    throw .version

def addLong (progress : Progress) (scope : Scope) (name : String) (value : Option String) :
    Except UsageError Progress :=
  match scope.flag? name, value with
  | none, _ => throw (.unknownArgument name)
  | some (.setting setting), value => progress.begin setting value
  | some flag, none => progress.react flag
  | some _, some _ => throw (.unexpectedValue name)

/--
Take in arguments by their letters. What follows the letter of an argument with a value is the
value, with or without a sign of equality.
-/
def addLetters (progress : Progress) (scope : Scope) : List Char → Except UsageError Progress
  | [] => return progress
  | letter :: letters =>
    match scope.letter? letter, letters with
    | none, _ => throw (.unknownArgument (String.singleton letter))
    | some (.setting setting), [] => progress.begin setting none
    | some (.setting setting), '=' :: value => progress.begin setting (some (String.ofList value))
    | some (.setting setting), value => progress.begin setting (some (String.ofList value))
    | some flag, letters => do (← progress.react flag).addLetters scope letters

end Progress

inductive Word where
  | separator
  | long (name : String) (value : Option String)
  | letters (letters : List Char)
  | text
deriving DecidableEq, Repr

def Word.ofString (argument : String) : Word :=
  match argument.toList with
  | ['-'] => .text
  | ['-', '-'] => .separator
  | '-' :: '-' :: cs =>
    match Text.splitFirst? '=' cs with
    | some (name, value) => .long (String.ofList name) (some (String.ofList value))
    | none => .long (String.ofList cs) none
  | '-' :: cs => .letters cs
  | _ => .text

/--
Take in the next argument. `literal` says whether the separator has been passed.
-/
def Progress.add (progress : Progress) (scope : Scope) (literal : Bool) (argument : String) :
    Except UsageError (Progress × Bool) :=
  if literal then
    return (← progress.addOperand argument, true)
  else
    match Word.ofString argument with
    | .separator => return (progress, true)
    | .long name value => return (← progress.addLong scope name value, false)
    | .letters letters => return (← progress.addLetters scope letters, false)
    | .text => return (← progress.addText argument, false)

def readArguments (scope : Scope) (progress : Progress) (literal : Bool) :
    List String → Except UsageError Given
  | [] => progress.settle
  | argument :: arguments => do
    let (progress, literal) ← progress.add scope literal argument
    readArguments scope progress literal arguments

inductive Name where
  | convert (direction : Direction)
  | list
  | help
deriving DecidableEq, Repr

/--
The command of a name. The conversions have short names too.
-/
def Name.ofString? : String → Option Name
  | "tex2typst" => some (.convert .texToTypst)
  | "t" => some (.convert .texToTypst)
  | "typst2tex" => some (.convert .typstToTex)
  | "x" => some (.convert .typstToTex)
  | "symbols" => some .list
  | "help" => some .help
  | _ => none

/--
Help on the commands of the given names. Commands have no commands of their own.
-/
def helpOn : List String → UsageError
  | [] => .help
  | [name] => if (Name.ofString? name).isSome then .help else .unknownCommand name
  | name :: other :: _ => .unknownCommand (if (Name.ofString? name).isSome then other else name)

/--
Read the arguments of a command, together with the file of options that the environment names.
-/
def readTask (config : Option String) (name : Name) (arguments : List String) :
    Except UsageError (Task × Given) := do
  match name with
  | .convert direction =>
    let given ← readArguments .convert {} false arguments
    let config ←
      match given.config, config with
      | some path, _ => pure (some path)
      | none, some path => Given.once none (Given.path? path)
      | none, none => pure none
    if given.file.isSome && given.operand.isSome then
      throw .conflict
    let conversion : Conversion :=
      { direction, config
        input := given.operand
        file := given.file
        overrides := given.overrides
        format := given.format.getD .human }
    return (.convert conversion, given)
  | .list =>
    let given ← readArguments .list {} false arguments
    return (.list given.operand (given.switches.contains .shorthands), given)
  | .help => throw (helpOn arguments)

/--
Put what was said before the command and after it together. What was said after it wins.
-/
def combine (task : Task) (before after : Given) : Invocation where
  task := task
  color := (after.color.or before.color).getD .auto
  verbosity := if after.verbosity = 0 then before.verbosity else after.verbosity

def readProgram (config : Option String) (progress : Progress) :
    (literal : Bool) → (arguments : List String) → Except UsageError Invocation
  | _, [] => do
    let given ← progress.settle
    throw (if given.isEmpty then .noArguments else .missingCommand)
  | true, argument :: _ =>
    throw
      (if (Name.ofString? argument).isSome then .unknownArgument argument
        else .unknownCommand argument)
  | false, argument :: arguments => do
    match progress.awaitsValue, Name.ofString? argument, Word.ofString argument with
    | false, some name, _ =>
      let (task, after) ← readTask config name arguments
      let before ← progress.settle
      return combine task before after
    | false, none, .text => throw (.unknownCommand argument)
    | _, _, _ =>
      let (progress, literal) ← progress.add .program false argument
      readProgram config progress literal arguments

def parse (config : Option String) (arguments : List String) : Except UsageError Invocation :=
  readProgram config {} false arguments

end Command
end MathMarkup
