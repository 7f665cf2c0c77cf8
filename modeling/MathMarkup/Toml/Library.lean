import MathMarkup.Toml.Document
import MathMarkup.Toml.Writer

/-!
This module contains what is needed of a library for TOML.
-/

namespace MathMarkup
namespace Toml

/--
A writer and a reader of documents, which stand for the entries of their outermost tables.
-/
structure Library where
  write? : List (String × Value) → Option String
  read? : String → Option (List (String × Value))

def library : Library where
  write? := write?
  read? := document?

end Toml
end MathMarkup
