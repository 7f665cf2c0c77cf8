import MathMarkup.Options
import MathMarkup.Toml.Library

/-!
This module contains the TOML form of the options. Every field has a default, so a document only
lists what it changes.
-/

namespace MathMarkup

inductive Shape where
  | boolean
  | string
  | table
deriving DecidableEq, Repr

def Shape.describe : Shape → String
  | boolean => "a boolean"
  | string => "a string"
  | table => "a map"

inductive ConfigFault where
  | malformed
  | unknownField (name : String)
  | wrongShape (found : Toml.Value) (expected : Shape)
  | unreadable (reason : String)
deriving Repr

inductive Field where
  | preferShorthands
  | fracToSlash
  | inftyToOo
  | nonStrict
  | optimize
  | keepSpaces
  | nonAsciiWrapper
  | customMacros
deriving DecidableEq, Repr

namespace Field

def all : List Field :=
  [preferShorthands, fracToSlash, inftyToOo, nonStrict, optimize, keepSpaces, nonAsciiWrapper,
    customMacros]

def name : Field → String
  | preferShorthands => "prefer-shorthands"
  | fracToSlash => "frac-to-slash"
  | inftyToOo => "infty-to-oo"
  | nonStrict => "non-strict"
  | optimize => "optimize"
  | keepSpaces => "keep-spaces"
  | nonAsciiWrapper => "non-ascii-wrapper"
  | customMacros => "custom-tex-macros"

def ofName? (name : String) : Option Field :=
  all.find? fun field => field.name == name

end Field

namespace ConfigFault

def message : ConfigFault → String
  | malformed => "malformed document"
  | unknownField name =>
    "unknown field `" ++ name ++ "`, expected one of "
      ++ ", ".intercalate (Field.all.map fun field => "`" ++ field.name ++ "`")
  | wrongShape found expected =>
    "invalid type: " ++ found.describe ++ ", expected " ++ expected.describe
  | unreadable reason => "could not read file (" ++ reason ++ ")"

end ConfigFault

structure ConfigError where
  fault : ConfigFault
  path : Option String := none
deriving Repr

def ConfigError.message (error : ConfigError) : String :=
  match error.path with
  | some path => "invalid options in " ++ path ++ ": " ++ error.fault.message
  | none => "invalid options: " ++ error.fault.message

namespace Options

def booleanOf : Toml.Value → Except ConfigFault Bool
  | .boolean value => return value
  | value => throw (.wrongShape value .boolean)

def stringOf : Toml.Value → Except ConfigFault String
  | .string text => return text
  | value => throw (.wrongShape value .string)

def macrosOf : Toml.Value → Except ConfigFault Macros
  | .table entries =>
    entries.foldlM
      (fun definitions (name, value) => return definitions.insert name (← stringOf value))
      Macros.empty
  | value => throw (.wrongShape value .table)

def setField (options : Options) (value : Toml.Value) : Field → Except ConfigFault Options
  | .preferShorthands => return { options with preferShorthands := ← booleanOf value }
  | .fracToSlash => return { options with fracToSlash := ← booleanOf value }
  | .inftyToOo => return { options with inftyToOo := ← booleanOf value }
  | .nonStrict => return { options with nonStrict := ← booleanOf value }
  | .optimize => return { options with optimize := ← booleanOf value }
  | .keepSpaces => return { options with keepSpaces := ← booleanOf value }
  | .nonAsciiWrapper => return { options with nonAsciiWrapper := ← stringOf value }
  | .customMacros => return { options with customMacros := ← macrosOf value }

/--
The options of the entries of a document. The first entry at fault decides the error.
-/
def ofEntries (entries : List (String × Toml.Value)) : Except ConfigFault Options :=
  entries.foldlM
    (fun options (name, value) =>
      match Field.ofName? name with
      | some field => options.setField value field
      | none => throw (.unknownField name))
    {}

/--
The entries of a document for options. All fields are listed, the definitions of commands last.
-/
def toEntries (options : Options) : List (String × Toml.Value) :=
  [(Field.preferShorthands.name, .boolean options.preferShorthands),
    (Field.fracToSlash.name, .boolean options.fracToSlash),
    (Field.inftyToOo.name, .boolean options.inftyToOo),
    (Field.nonStrict.name, .boolean options.nonStrict),
    (Field.optimize.name, .boolean options.optimize),
    (Field.keepSpaces.name, .boolean options.keepSpaces),
    (Field.nonAsciiWrapper.name, .string options.nonAsciiWrapper),
    (Field.customMacros.name,
      .table (options.customMacros.entries.map fun entry => (entry.1, .string entry.2)))]

section Library

variable (library : Toml.Library)

def ofTomlWith (text : String) : Except ConfigFault Options :=
  match library.read? text with
  | some entries => ofEntries entries
  | none => throw .malformed

/--
Write options with a library for TOML. If it has no form for them, nothing is written.
-/
def toTomlWith (options : Options) : String :=
  (library.write? options.toEntries).getD ""

end Library

def ofToml (text : String) : Except ConfigFault Options :=
  ofTomlWith Toml.library text

def toToml (options : Options) : String :=
  toTomlWith Toml.library options

end Options
end MathMarkup
