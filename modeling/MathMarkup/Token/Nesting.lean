import MathMarkup.Token

/-!
This module contains the search for the token that closes a pair of brackets, with the nesting of
further pairs taken into account.
-/

namespace MathMarkup
namespace Token

variable {κ : Type}

def countFront (p : Token κ → Bool) (tokens : List (Token κ)) : Nat :=
  (tokens.takeWhile p).length

/--
Find the token that closes what was opened just before these tokens, and how many tokens stand
before it. At depth `n`, `n` further pairs are open.
-/
def closing? (opens closes : Token κ → Bool) (depth : Nat) :
    List (Token κ) → Option (Nat × Token κ)
  | [] => none
  | token :: tokens =>
    if opens token then
      next (closing? opens closes (depth + 1) tokens)
    else if closes token then
      match depth with
      | 0 => some (0, token)
      | depth + 1 => next (closing? opens closes depth tokens)
    else
      next (closing? opens closes depth tokens)
where
  next : Option (Nat × Token κ) → Option (Nat × Token κ) :=
    Option.map fun (before, closer) => (before + 1, closer)

end Token
end MathMarkup
