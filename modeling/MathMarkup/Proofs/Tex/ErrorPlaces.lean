import MathMarkup.Proofs.Result
import MathMarkup.Proofs.Tex.Lexing
import MathMarkup.Proofs.Token.Nesting
import MathMarkup.Tex.Formula.Parser

/-!
This module contains the proof that the parser of TeX uses the places of tokens for nothing but the
places of its errors: if the tokens are moved then the error moves with them, and nothing else
changes. So every error points at a token, and what a text is read as can be told from its tokens
without their places.
-/

namespace MathMarkup

variable {κ : Type} (move : Span → Span)

def Token.shift (token : Token κ) : Token κ :=
  token.moveTo (move token.span)

def ParseError.shift (error : ParseError) : ParseError :=
  { error with span := move error.span }

def ParseError.unplaced (error : ParseError) : ParseError :=
  { error with span := .detached }

variable {move}

namespace Token

theorem countFront_shift {p : Token κ → Bool} (h : ∀ token, p (token.shift move) = p token)
    (tokens : List (Token κ)) : countFront p (tokens.map (shift move)) = countFront p tokens := by
  have hp : p ∘ shift move = p := funext h
  rw [countFront, List.takeWhile_map, List.length_map, hp, countFront]

theorem closing?_shift {opens closes : Token κ → Bool}
    (hopens : ∀ token, opens (token.shift move) = opens token)
    (hcloses : ∀ token, closes (token.shift move) = closes token) (depth : Nat)
    (tokens : List (Token κ))
    : closing? opens closes depth (tokens.map (shift move)) =
      (closing? opens closes depth tokens).map fun (size, closer) => (size, closer.shift move) := by
  have hnext (answer : Option (Nat × Token κ))
      : closing?.next (answer.map fun (size, closer) => (size, closer.shift move)) =
        (closing?.next answer).map fun (size, closer) => (size, closer.shift move) := by
    cases answer with
    | none => rfl
    | some found => rfl
  fun_induction closing? opens closes depth tokens with
  | case1 => rfl
  | case2 depth token tokens h ih =>
    rw [List.map_cons, closing?_opening (by rwa [hopens]), ih, hnext]
  | case3 token tokens hopen hclose =>
    simp [closing?, hopens, hcloses, hopen, hclose]
  | case4 token tokens hopen hclose depth ih =>
    rw [List.map_cons, closing?_closing (by simpa [hopens] using hopen) (by rwa [hcloses]), ih,
      hnext]
  | case5 depth token tokens hopen hclose ih =>
    rw [List.map_cons, closing?_neutral (by simpa [hopens] using hopen)
      (by simpa [hcloses] using hclose), ih, hnext]

end Token

/--
The second computation does as the first, with the place of an error moved.
-/
def Shifted {α : Type} (move : Span → Span) (x y : Except ParseError α) : Prop :=
  y = x.mapError (ParseError.shift move)

section Shifted

variable {α β : Type} {x y : Except ParseError α}

theorem shifted_ok (a : α) : Shifted move (.ok a) (.ok a) :=
  rfl

theorem shifted_error {error : ParseError}
    : Shifted move (.error error : Except ParseError α) (.error (error.shift move)) :=
  rfl

theorem Shifted.bind (h : Shifted move x y) {f g : α → Except ParseError β}
    (hnext : ∀ a, Shifted move (f a) (g a)) : Shifted move (x >>= f) (y >>= g) := by
  subst h
  cases x with
  | error error => rfl
  | ok a => exact hnext a

theorem Shifted.ite {p : Prop} [Decidable p] {x' y' : Except ParseError α} (h : Shifted move x y)
    (h' : Shifted move x' y') : Shifted move (if p then x else x') (if p then y else y') := by
  split
  . exact h
  . exact h'

theorem Shifted.map (h : Shifted move x y) (f : α → β)
    : Shifted move (x >>= fun a => pure (f a)) (y >>= fun a => pure (f a)) :=
  h.bind fun a => shifted_ok (f a)

end Shifted

namespace Tex

variable {tokens : List Token}

theorem bracedText?_shift : bracedText? (tokens.map (Token.shift move)) = bracedText? tokens := by
  rcases tokens with _ | ⟨first, _ | ⟨second, _ | ⟨third, tokens⟩⟩⟩
  all_goals rfl

theorem shifted_rawArgument (owner : Token) (tokens : List Token)
    : Shifted move (rawArgument owner tokens)
      (rawArgument (owner.shift move) (tokens.map (Token.shift move))) := by
  unfold rawArgument
  dsimp only
  rw [Token.countFront_shift fun _ => rfl, ← List.map_drop, bracedText?_shift]
  cases bracedText? (tokens.drop (Token.countFront Token.isSpace tokens)) with
  | some text => exact shifted_ok _
  | none =>
    cases tokens.drop (Token.countFront Token.isSpace tokens) with
    | nil => exact shifted_error
    | cons token rest => exact .ite (shifted_ok _) shifted_error

theorem shifted_delimiter (owner : Token) (tokens : List Token)
    : Shifted move (delimiter owner tokens)
      (delimiter (owner.shift move) (tokens.map (Token.shift move))) := by
  unfold delimiter
  dsimp only
  rw [Token.countFront_shift fun _ => rfl, ← List.map_drop]
  cases tokens.drop (Token.countFront Token.isSpace tokens) with
  | nil => exact shifted_error
  | cons token rest => exact .ite (shifted_ok _) shifted_error

theorem shifted_degree? (tokens : List Token)
    : Shifted move (degree? tokens) (degree? (tokens.map (Token.shift move))) := by
  unfold degree?
  dsimp only
  rw [Token.countFront_shift fun _ => rfl, ← List.map_drop]
  cases tokens.drop (Token.countFront Token.isSpace tokens) with
  | nil => exact shifted_ok _
  | cons token rest =>
    refine .ite ?_ (shifted_ok _)
    rw [closingBracket?, Token.closing?_shift (fun _ => rfl) (fun _ => rfl)]
    cases Token.closing? _ _ 0 rest with
    | none => exact shifted_error
    | some found => exact shifted_ok _

namespace Parser

mutual

theorem shifted_sequence (inEnv : Bool) (tokens : List Token)
    : Shifted move (sequence inEnv tokens) (sequence inEnv (tokens.map (Token.shift move))) := by
  cases tokens with
  | nil =>
    rw [List.map_nil, sequence]
    exact shifted_ok _
  | cons token tokens =>
    rw [List.map_cons, sequence, sequence]
    apply (shifted_expr inEnv token tokens).bind
    rintro ⟨node, used⟩
    dsimp only
    rw [← List.map_drop]
    exact (shifted_sequence inEnv (tokens.drop used)).map _
termination_by 8 * tokens.length + 5
decreasing_by all_goals (subst_vars; simp only [List.length_cons, List.length_drop]; omega)

theorem shifted_items (tokens : List Token)
    : Shifted move (items tokens) (items (tokens.map (Token.shift move))) := by
  cases tokens with
  | nil =>
    rw [List.map_nil, items]
    exact shifted_ok _
  | cons token tokens =>
    rw [List.map_cons, items, items]
    change Shifted move _ (match GridItem.ofToken? token with | some item => _ | none => _)
    cases GridItem.ofToken? token with
    | some item => exact (shifted_items tokens).map _
    | none =>
      apply (shifted_expr true token tokens).bind
      rintro ⟨node, used⟩
      dsimp only
      rw [← List.map_drop]
      exact (shifted_items (tokens.drop used)).map _
termination_by 8 * tokens.length + 5
decreasing_by all_goals (subst_vars; simp only [List.length_cons, List.length_drop]; omega)

theorem shifted_expr (inEnv : Bool) (token : Token) (tokens : List Token)
    : Shifted move (expr inEnv token tokens)
      (expr inEnv (token.shift move) (tokens.map (Token.shift move))) := by
  rw [expr, expr]
  change Shifted move _ (match token.script? with | some place => _ | none => _)
  cases token.script? with
  | some place =>
    apply (shifted_script inEnv {} place token tokens).bind
    rintro ⟨found, used⟩
    dsimp only
    rw [← List.map_drop]
    exact (shifted_scripts inEnv found (tokens.drop used)).map _
  | none =>
    apply (shifted_atom inEnv token tokens).bind
    rintro ⟨base, used⟩
    dsimp only
    rw [← List.map_drop, Token.countFront_shift fun _ => rfl, ← List.map_drop]
    exact (shifted_scripts inEnv _ (tokens.drop (used + _))).map _
termination_by 8 * tokens.length + 12
decreasing_by all_goals (simp -failIfUnchanged only [List.length_drop]; omega)

theorem shifted_scripts (inEnv : Bool) (found : Scripts Formula) (tokens : List Token)
    : Shifted move (scripts inEnv found tokens)
      (scripts inEnv found (tokens.map (Token.shift move))) := by
  cases tokens with
  | nil =>
    rw [List.map_nil, scripts]
    exact shifted_ok _
  | cons token tokens =>
    rw [List.map_cons, scripts, scripts]
    change Shifted move _ (match token.script? with | none => _ | some place => _)
    cases token.script? with
    | none => exact shifted_ok _
    | some place =>
      apply (shifted_script inEnv found place token tokens).bind
      rintro ⟨found, used⟩
      dsimp only
      rw [← List.map_drop]
      exact (shifted_scripts inEnv found (tokens.drop used)).map _
termination_by 8 * tokens.length + 5
decreasing_by all_goals (subst_vars; simp only [List.length_cons, List.length_drop]; omega)

theorem shifted_script (inEnv : Bool) (found : Scripts Formula) (place : Script) (owner : Token)
    (tokens : List Token)
    : Shifted move (script inEnv found place owner tokens)
      (script inEnv found place (owner.shift move) (tokens.map (Token.shift move))) := by
  rw [script, script]
  refine .ite ?_ ?_
  . cases place with
    | sup => exact shifted_error
    | sub => exact shifted_error
  . apply (shifted_argument inEnv owner tokens).bind
    rintro ⟨node, used⟩
    cases place with
    | sup => exact shifted_ok _
    | sub =>
      dsimp only
      rw [← List.map_drop, Token.countFront_shift fun _ => rfl]
      exact shifted_ok _
termination_by 8 * tokens.length + 4
decreasing_by all_goals omega

theorem shifted_atom (inEnv : Bool) (token : Token) (tokens : List Token)
    : Shifted move (atom inEnv token tokens)
      (atom inEnv (token.shift move) (tokens.map (Token.shift move))) := by
  obtain ⟨kind, text, span⟩ := token
  dsimp only [Token.shift, Token.moveTo]
  rw [atom, atom]
  cases kind with
  | command => exact shifted_command inEnv ⟨.command, text, span⟩ tokens
  | control =>
    dsimp only
    split
    . rw [closingBrace?, Token.closing?_shift (fun _ => rfl) (fun _ => rfl)]
      cases Token.closing? _ _ 0 tokens with
      | none => exact shifted_error
      | some found =>
        obtain ⟨size, _⟩ := found
        dsimp only [Option.map_some]
        rw [← List.map_take]
        exact (shifted_sequence inEnv (tokens.take size)).map _
    . exact shifted_error
    . exact .ite (shifted_ok _) shifted_error
    . exact .ite (shifted_ok _) shifted_error
    . exact shifted_ok _
  | _ => exact shifted_ok _
termination_by 8 * tokens.length + 10
decreasing_by all_goals (simp -failIfUnchanged only [List.length_take]; omega)

theorem shifted_command (inEnv : Bool) (token : Token) (tokens : List Token)
    : Shifted move (command inEnv token tokens)
      (command inEnv (token.shift move) (tokens.map (Token.shift move))) := by
  have hname : Token.name (token.shift move) = token.name := rfl
  unfold command
  rw [hname]
  generalize token.name = name
  split
  . exact shifted_leftRight inEnv token tokens
  . exact shifted_error
  . exact shifted_environment token tokens
  . rw [bracedText?_shift]
    exact shifted_error
  . apply Shifted.ite
    . exact (shifted_rawArgument token tokens).map _
    split
    . exact shifted_ok _
    next arity _ =>
      have hplain := shifted_arguments inEnv token arity tokens
      refine .ite ?_ (hplain.map _)
      apply (shifted_degree? tokens).bind
      rintro (_ | ⟨before, size⟩)
      . exact hplain.map _
      . dsimp only
        rw [← List.map_drop, ← List.map_take, ← List.map_drop]
        apply (shifted_sequence inEnv ((tokens.drop before).take size)).bind
        intro degree
        exact (shifted_arguments inEnv token arity (tokens.drop (before + size + 1))).map _
termination_by 8 * tokens.length + 9
decreasing_by
  all_goals
    subst_vars
    simp -failIfUnchanged only [List.length_drop, List.length_take]
    omega

theorem shifted_arguments (inEnv : Bool) (owner : Token) (arity : Symbol.Arity)
    (tokens : List Token)
    : Shifted move (arguments inEnv owner arity tokens)
      (arguments inEnv (owner.shift move) arity (tokens.map (Token.shift move))) := by
  cases arity with
  | one =>
    rw [arguments, arguments]
    exact (shifted_argument inEnv owner tokens).map _
  | two =>
    rw [arguments, arguments]
    apply (shifted_argument inEnv owner tokens).bind
    rintro ⟨first, used⟩
    dsimp only
    rw [← List.map_drop]
    exact (shifted_argument inEnv owner (tokens.drop used)).map _
termination_by 8 * tokens.length + 4
decreasing_by all_goals (subst_vars; simp -failIfUnchanged only [List.length_drop]; omega)

theorem shifted_argument (inEnv : Bool) (owner : Token) (tokens : List Token)
    : Shifted move (argument inEnv owner tokens)
      (argument inEnv (owner.shift move) (tokens.map (Token.shift move))) := by
  cases tokens with
  | nil =>
    rw [List.map_nil, argument, argument]
    exact shifted_error
  | cons token tokens =>
    rw [List.map_cons, argument, argument]
    refine .ite ((shifted_argument inEnv owner tokens).map _) ?_
    exact .ite shifted_error ((shifted_atom inEnv token tokens).map _)
termination_by 8 * tokens.length + 3
decreasing_by all_goals (subst_vars; simp only [List.length_cons]; omega)

theorem shifted_leftRight (inEnv : Bool) (left : Token) (tokens : List Token)
    : Shifted move (leftRight inEnv left tokens)
      (leftRight inEnv (left.shift move) (tokens.map (Token.shift move))) := by
  rw [leftRight, leftRight, closingRight?,
    Token.closing?_shift (fun _ => rfl) (fun _ => rfl)]
  cases Token.closing? _ _ 0 tokens with
  | none => exact shifted_error
  | some found =>
    obtain ⟨size, right⟩ := found
    dsimp only [Option.map_some]
    rw [← List.map_take, ← List.map_drop]
    apply (shifted_delimiter left (tokens.take size)).bind
    rintro ⟨opening, before⟩
    apply (shifted_delimiter right (tokens.drop (size + 1))).bind
    rintro ⟨closing, after⟩
    dsimp only
    rw [← List.map_drop]
    exact (shifted_sequence inEnv ((tokens.take size).drop before)).map _
termination_by 8 * tokens.length + 8
decreasing_by all_goals (simp only [List.length_drop, List.length_take]; omega)

theorem shifted_environment (start : Token) (tokens : List Token)
    : Shifted move (environment start tokens)
      (environment (start.shift move) (tokens.map (Token.shift move))) := by
  rw [environment, environment, bracedText?_shift]
  cases bracedText? tokens with
  | none => exact shifted_error
  | some name =>
    dsimp only
    rw [← List.map_drop, closingEnd?, Token.closing?_shift (fun _ => rfl) (fun _ => rfl)]
    cases Token.closing? _ _ 0 (tokens.drop 3) with
    | none => exact shifted_error
    | some found =>
      obtain ⟨size, stop⟩ := found
      dsimp only [Option.map_some]
      rw [← List.map_take, ← List.map_drop, bracedText?_shift, bracedText?_shift]
      cases bracedText? ((tokens.drop 3).drop (size + 1)) with
      | none => exact shifted_error
      | some stopName =>
        refine .ite shifted_error ?_
        rw [← List.map_drop]
        exact (shifted_items _).map _
termination_by 8 * tokens.length + 8
decreasing_by all_goals (simp only [List.length_drop, List.length_take]; omega)

end

end Parser

theorem strip_shift (afterMarker : Bool) (tokens : List Token)
    : stripScriptSpaces.go afterMarker (tokens.map (Token.shift move)) =
      (stripScriptSpaces.go afterMarker tokens).map (Token.shift move) := by
  induction tokens generalizing afterMarker with
  | nil => rfl
  | cons token tokens ih =>
    have hspace : Token.isSpace (token.shift move) = token.isSpace := rfl
    have hmarker : Token.isMarker (token.shift move) = token.isMarker := rfl
    have hnext :
        ((tokens.map (Token.shift move)).find? fun next => !Token.isSpace next).any Token.isMarker =
          (tokens.find? fun next => !next.isSpace).any Token.isMarker := by
      rw [List.find?_map, Option.any_map]
      rfl
    simp only [List.map_cons, stripScriptSpaces.go, hspace, hmarker, hnext, ih]
    split
    . split
      . rfl
      . rfl
    . rfl

theorem shifted_parse (move : Span → Span) (tokens : List Token)
    : Shifted move (parse tokens) (parse (tokens.map (Token.shift move))) := by
  rw [parse, parse, stripScriptSpaces, stripScriptSpaces, strip_shift]
  exact (Parser.shifted_sequence false _).map _

/--
What holds of the places of all tokens holds of the place of the error with which they are refused.
-/
theorem fails_parse {q : Span → Prop} (h : ∀ token ∈ tokens, q token.span)
    : Fails (parse tokens) (q ·.span) := by
  classical
  intro error herror
  by_contra hspan
  -- A move that keeps the places with the property and no others does not move the tokens.
  let move (span : Span) : Span :=
    if q span then span else if span = .detached then .ofOffsets 0 0 else .detached
  have hmap : tokens.map (Token.shift move) = tokens := by
    refine (List.map_congr_left fun token htoken => ?_).trans (List.map_id tokens)
    simp [Token.shift, Token.moveTo, move, h token htoken]
  have hmoved := shifted_parse move tokens
  rw [hmap, herror] at hmoved
  have hfixed : error.span = move error.span :=
    congrArg ParseError.span (Except.error.inj hmoved)
  have hother : Span.ofOffsets 0 0 ≠ .detached := by decide
  grind

def Lexeme.token (lexeme : Lexeme) : Token :=
  ⟨lexeme.1, lexeme.2, .detached⟩

theorem mapError_parseText (text : String)
    : (parseText text).mapError ParseError.unplaced =
      parse ((lex text.toList).map Lexeme.token) := by
  rw [← tokenize_lexemes, List.map_map]
  exact (shifted_parse (fun _ => .detached) (tokenize text)).symm

end Tex
end MathMarkup
