import MathMarkup.Options

/-!
This module contains what arguments change in the options. What an argument says wins over what was
read from a file.
-/

namespace MathMarkup

inductive DefinitionFault where
  | noEqualsSign
  | emptyName
deriving DecidableEq, Repr

def DefinitionFault.message : DefinitionFault → String
  | noEqualsSign => "macro definitions must have the form `NAME=EXPANSION`"
  | emptyName => "macro name must not be empty"

/--
Read the definition of a command, like `R=\mathbb{R}`. The first sign of equality ends the name,
blanks around the name do not count, and a name has more than backslashes.
-/
def definition (text : String) : Except DefinitionFault (String × String) :=
  match Text.splitFirst? '=' text.toList with
  | none => throw .noEqualsSign
  | some (name, expansion) =>
    let name := Text.trim (String.ofList name)
    if name.toList.all (· == '\\') then
      throw .emptyName
    else
      return (name, String.ofList expansion)

structure Overrides where
  noPreferShorthands : Bool := false
  noFracToSlash : Bool := false
  inftyToOo : Bool := false
  nonStrict : Bool := false
  noOptimize : Bool := false
  keepSpaces : Bool := false
  nonAsciiWrapper : Option String := none
  macros : List (String × String) := []
deriving DecidableEq, Repr

/--
Change options. Definitions of commands are added to those that are there.
-/
def Overrides.apply (overrides : Overrides) (options : Options) : Options where
  preferShorthands := options.preferShorthands && !overrides.noPreferShorthands
  fracToSlash := options.fracToSlash && !overrides.noFracToSlash
  inftyToOo := options.inftyToOo || overrides.inftyToOo
  nonStrict := options.nonStrict || overrides.nonStrict
  optimize := options.optimize && !overrides.noOptimize
  keepSpaces := options.keepSpaces || overrides.keepSpaces
  nonAsciiWrapper := overrides.nonAsciiWrapper.getD options.nonAsciiWrapper
  customMacros := options.customMacros.insertAll overrides.macros

end MathMarkup
