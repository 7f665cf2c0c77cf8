import MathMarkup.Proofs.Token.Nesting
import MathMarkup.Typst.Formula.Parser

/-!
This module contains token sequences in which the parentheses are paired: what stands between two of
them is found as a whole, and what stands outside of them is split at its separators.
-/

namespace MathMarkup
namespace Typst

abbrev Balanced (tokens : List Token) : Prop :=
  Token.Balanced Token.isOpen Token.isClose tokens

/--
Tokens with balanced parentheses. Those outside of all parentheses are of a class.
-/
abbrev Nested (p : Token → Prop) (tokens : List Token) : Prop :=
  Token.Nested Token.isOpen Token.isClose p tokens

section Nested

variable {p q : Token → Prop} {token closer : Token} {tokens more rest : List Token} {depth : Nat}
  {isSep : Token → Bool}

theorem isOpen_of_isClose (h : token.isClose) : token.isOpen = false := by
  simp only [Token.isClose, Token.is, Bool.and_eq_true, beq_iff_eq] at h
  simp [Token.isOpen, Token.is, h.2]

theorem Nested.closingParen?_eq (h : Nested p tokens) (hcloser : closer.isClose)
    : closingParen? (tokens ++ closer :: rest) = some (tokens.length, closer) :=
  (h.skips fun _ => isOpen_of_isClose).closing?_eq (isOpen_of_isClose hcloser) hcloser

/--
The parts of a split, with tokens in front of the first one.
-/
def prepend (tokens : List Token) : List Token × List (List Token) → List Token × List (List Token)
  | (part, parts) => (tokens ++ part, parts)

theorem cons_prepend (parts : List Token × List (List Token))
    : split.cons token (prepend tokens parts) = prepend (token :: tokens) parts :=
  rfl

theorem prepend_prepend (parts : List Token × List (List Token))
    : prepend tokens (prepend more parts) = prepend (tokens ++ more) parts := by
  simp [prepend]

/--
Paired tokens are kept together by a split, unless there is a separator outside of all parentheses.
-/
theorem Nested.split_go (h : Nested p tokens)
    (hsep : depth = 0 → ∀ token, p token → isSep token = false)
    : split.go isSep depth (tokens ++ rest) = prepend tokens (split.go isSep depth rest) := by
  induction h generalizing depth rest with
  | nil => rfl
  | @cons p token tokens hopen hclose htoken _ ih =>
    have hkept : (depth = 0 && isSep token) = false := by
      rw [Bool.and_eq_false_imp]
      intro hdepth
      exact hsep (of_decide_eq_true hdepth) token htoken
    rw [List.cons_append, split.go, hopen, hclose, hkept, ih hsep]
    rfl
  | @wrap p opener closer inner tokens hopener hcloser _ _ ihinner ih =>
    -- Inside the parentheses nothing is a separator.
    have hinside : depth + 1 = 0 → ∀ token : Token, True → isSep token = false :=
      fun hzero => absurd hzero (Nat.succ_ne_zero depth)
    rw [List.cons_append, List.append_assoc, List.cons_append, split.go, if_pos hopener,
      ihinner hinside, split.go, isOpen_of_isClose hcloser, hcloser]
    simp only [Bool.false_eq_true, if_false, if_true, Nat.add_sub_cancel]
    rw [ih hsep, cons_prepend, cons_prepend, prepend_prepend, List.cons_append]

theorem Nested.split_eq (h : Nested (isSep · = false) tokens) : split isSep tokens = [tokens] := by
  have hgo := @Nested.split_go _ tokens [] 0 isSep h fun _ _ h => h
  rw [List.append_nil] at hgo
  rw [split, hgo]
  simp [split.go, prepend]

theorem Nested.split_append (h : Nested (isSep · = false) tokens) (hsep : isSep token)
    (hopen : token.isOpen = false) (hclose : token.isClose = false)
    : split isSep (tokens ++ token :: more) = tokens :: split isSep more := by
  rw [split, h.split_go fun _ _ h => h, split.go, hopen, hclose, hsep]
  simp [prepend, split]

def nextDepth (depth : Nat) (token : Token) : Nat :=
  if token.isOpen then depth + 1 else if token.isClose then depth - 1 else depth

theorem openParens_eq (tokens : List Token) : openParens tokens = tokens.foldl nextDepth 0 :=
  rfl

theorem Nested.foldl_nextDepth (h : Nested p tokens) (depth : Nat)
    : tokens.foldl nextDepth depth = depth := by
  induction h generalizing depth with
  | nil => rfl
  | cons hopen hclose _ _ ih =>
    rw [List.foldl_cons, nextDepth, hopen, hclose]
    exact ih depth
  | wrap hopener hcloser _ _ ihinner ih =>
    rw [List.foldl_cons, nextDepth, if_pos hopener, List.foldl_append, ihinner, List.foldl_cons,
      nextDepth, isOpen_of_isClose hcloser, hcloser]
    exact ih depth

theorem foldl_nextDepth_succ (tokens : List Token) (depth : Nat)
    : tokens.foldl nextDepth (depth + 1) ≤ tokens.foldl nextDepth depth + 1 := by
  induction tokens generalizing depth with
  | nil => exact Nat.le_refl _
  | cons token tokens ih =>
    rw [List.foldl_cons, List.foldl_cons, nextDepth, nextDepth]
    split
    . exact ih (depth + 1)
    . split
      . cases depth with
        | zero => exact Nat.le_succ _
        | succ depth => exact ih depth
      . exact ih depth

theorem Nested.openParens_pos (h : Nested p (tokens ++ [closer])) (hcloser : closer.isClose)
    : 0 < openParens tokens := by
  have hone := h.foldl_nextDepth 1
  rw [List.foldl_append, List.foldl_cons, nextDepth, isOpen_of_isClose hcloser, hcloser] at hone
  simp only [Bool.false_eq_true, if_false, if_true, List.foldl_nil] at hone
  have hsucc := foldl_nextDepth_succ tokens 0
  rw [Nat.zero_add] at hsucc
  rw [openParens_eq]
  omega

end Nested

/--
Tokens that consist of parts with a separator between each two.
-/
inductive Joined (isSep : Token → Bool) : List Token → List (List Token) → Prop where
  | last {part : List Token} (h : Nested (isSep · = false) part) : Joined isSep part [part]
  | cons {part tokens : List Token} {separator : Token} {parts : List (List Token)}
    (h : Nested (isSep · = false) part) (hsep : isSep separator)
    (hopen : separator.isOpen = false) (hclose : separator.isClose = false)
    (hmore : Joined isSep tokens parts) : Joined isSep (part ++ separator :: tokens) (part :: parts)

theorem Joined.split_eq {isSep : Token → Bool} {tokens : List Token} {parts : List (List Token)}
    (h : Joined isSep tokens parts) : split isSep tokens = parts := by
  induction h with
  | last h => exact h.split_eq
  | cons h hsep hopen hclose _ ih => rw [h.split_append hsep hopen hclose, ih]

theorem Joined.nested {isSep : Token → Bool} {tokens : List Token} {parts : List (List Token)}
    (h : Joined isSep tokens parts) : Nested (fun _ => True) tokens := by
  induction h with
  | last h => exact h.mono fun _ _ => trivial
  | cons h _ hopen hclose _ ih =>
    exact (h.mono fun _ _ => trivial).append (.cons hopen hclose trivial ih)

theorem Joined.prepend {isSep : Token → Bool} {front tokens part : List Token}
    {parts : List (List Token)} (hfront : Nested (isSep · = false) front)
    (h : Joined isSep tokens (part :: parts))
    : Joined isSep (front ++ tokens) ((front ++ part) :: parts) := by
  cases h with
  | last h => exact .last (hfront.append h)
  | cons h hsep hopen hclose hmore =>
    rw [← List.append_assoc]
    exact .cons (hfront.append h) hsep hopen hclose hmore

end Typst
end MathMarkup
