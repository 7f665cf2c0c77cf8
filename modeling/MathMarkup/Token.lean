import MathMarkup.Span

/-!
This module contains tokens, the pieces that a formula is cut into before it is read. Which kinds
of tokens there are depends on the language.
-/

namespace MathMarkup

/--
A token of kind `kind` that was read at `span`. The text is what the token stands for, which need
not be what was written.
-/
structure Token (κ : Type) where
  kind : κ
  text : String
  span : Span := .detached
deriving DecidableEq, Repr

namespace Token

def is {κ : Type} [BEq κ] (token : Token κ) (kind : κ) (text : String) : Bool :=
  token.kind == kind && token.text == text

def moveTo {κ : Type} (token : Token κ) (span : Span) : Token κ :=
  { token with span := span }

end Token
end MathMarkup
