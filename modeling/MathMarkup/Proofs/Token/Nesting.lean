import Mathlib.Data.List.Basic
import MathMarkup.Token.Nesting

/-!
This module contains tokens in which the brackets are paired. This is told by numbers of brackets,
by a count of those that are open, and by how such tokens are built up. The search for a closing
bracket passes over them as a whole.
-/

namespace MathMarkup
namespace Token

variable {κ : Type} {opens closes : Token κ → Bool} {tokens more : List (Token κ)}

/--
The answer of a search that starts behind `count` further tokens.
-/
def later (count : Nat) (answer : Option (Nat × Token κ)) : Option (Nat × Token κ) :=
  answer.map fun (before, closer) => (count + before, closer)

/--
Tokens that the search for a closing bracket passes over, at any depth and whatever follows.
-/
def Skips (opens closes : Token κ → Bool) (tokens : List (Token κ)) : Prop :=
  ∀ depth rest, closing? opens closes depth (tokens ++ rest) =
    later tokens.length (closing? opens closes depth rest)

theorem later_zero (answer : Option (Nat × Token κ)) : later 0 answer = answer := by
  cases answer with
  | none => rfl
  | some found => simp [later]

theorem later_later (first second : Nat) (answer : Option (Nat × Token κ))
    : later first (later second answer) = later (first + second) answer := by
  cases answer with
  | none => rfl
  | some found => simp [later, Nat.add_assoc]

theorem next_later (count : Nat) (answer : Option (Nat × Token κ))
    : closing?.next (later count answer) = later (count + 1) answer := by
  cases answer with
  | none => rfl
  | some found => simp [later, closing?.next, Nat.add_right_comm]

theorem skips_nil : Skips opens closes [] := fun _ _ => (later_zero _).symm

theorem Skips.append (h : Skips opens closes tokens) (hmore : Skips opens closes more)
    : Skips opens closes (tokens ++ more) := by
  intro depth rest
  rw [List.append_assoc, h, hmore, later_later, List.length_append]

section Steps

variable {token : Token κ} {depth : Nat} {rest : List (Token κ)}

theorem closing?_opening (h : opens token)
    : closing? opens closes depth (token :: rest) =
      closing?.next (closing? opens closes (depth + 1) rest) := by
  simp [closing?, h]

theorem closing?_closing (hopens : opens token = false) (h : closes token)
    : closing? opens closes (depth + 1) (token :: rest) =
      closing?.next (closing? opens closes depth rest) := by
  simp [closing?, h, hopens]

theorem closing?_neutral (hopens : opens token = false) (hcloses : closes token = false)
    : closing? opens closes depth (token :: rest) =
      closing?.next (closing? opens closes depth rest) := by
  simp [closing?, hopens, hcloses]

theorem next_eq_later (answer : Option (Nat × Token κ))
    : closing?.next answer = later 1 answer := by
  rw [← later_zero answer, next_later, later_later]

theorem Skips.cons (hopens : opens token = false) (hcloses : closes token = false)
    (h : Skips opens closes tokens) : Skips opens closes (token :: tokens) := by
  intro depth rest
  rw [List.cons_append, closing?_neutral hopens hcloses, h, next_later, List.length_cons]

theorem Skips.closing?_eq (h : Skips opens closes tokens) (hopens : opens token = false)
    (hcloses : closes token)
    : closing? opens closes 0 (tokens ++ token :: rest) = some (tokens.length, token) := by
  rw [h, closing?, hopens, hcloses]
  simp [later]

end Steps

theorem Skips.wrap {opener closer : Token κ} (h : Skips opens closes tokens)
    (hopener : opens opener) (hopens : opens closer = false) (hcloses : closes closer)
    : Skips opens closes (opener :: (tokens ++ [closer])) := by
  intro depth rest
  rw [List.cons_append, List.append_assoc, List.singleton_append, closing?_opening hopener, h,
    closing?_closing hopens hcloses, next_later, next_eq_later, later_later]
  simp

theorem mem_of_closing? {depth size : Nat} {closer : Token κ}
    (h : closing? opens closes depth tokens = some (size, closer))
    : tokens[size]? = some closer ∧ closes closer := by
  induction tokens generalizing depth size with
  | nil => contradiction
  | cons token tokens ih =>
    have hnext : ∀ {depth : Nat}, closing?.next (closing? opens closes depth tokens) =
        some (size, closer) → (token :: tokens)[size]? = some closer ∧ closes closer := by
      intro depth hsome
      obtain ⟨⟨before, _⟩, hbefore, hpair⟩ := Option.map_eq_some_iff.mp hsome
      cases hpair
      exact ih hbefore
    unfold closing? at h
    split at h
    . exact hnext h
    . split at h
      next hcloses =>
        split at h
        . cases h
          exact ⟨rfl, hcloses⟩
        . exact hnext h
      . exact hnext h

theorem drop_of_closing? {depth size : Nat} {closer : Token κ}
    (h : closing? opens closes depth tokens = some (size, closer))
    : tokens.drop size = closer :: tokens.drop (size + 1) := by
  obtain ⟨hsize, hcloser⟩ := List.getElem?_eq_some_iff.mp (mem_of_closing? h).1
  rw [List.drop_eq_getElem_cons hsize, hcloser]

theorem drop_countFront (p : Token κ → Bool) (tokens : List (Token κ))
    : tokens.drop (countFront p tokens) = tokens.dropWhile p := by
  have := List.takeWhile_append_dropWhile (p := p) (l := tokens)
  nth_rewrite 2 [← this]
  rw [countFront, List.drop_left]

/--
Tokens in which no bracket is closed before it is opened, and none is left open.
-/
structure Balanced (opens closes : Token κ → Bool) (tokens : List (Token κ)) : Prop where
  front : ∀ front, front <+: tokens → front.countP closes ≤ front.countP opens
  total : tokens.countP closes = tokens.countP opens

/--
How many brackets are open after these tokens, unless one is closed too early.
-/
def leftOpen? (opens closes : Token κ → Bool) (depth : Nat) : List (Token κ) → Option Nat
  | [] => some depth
  | token :: tokens =>
    if opens token then
      leftOpen? opens closes (depth + 1) tokens
    else if closes token then
      match depth with
      | 0 => none
      | depth + 1 => leftOpen? opens closes depth tokens
    else
      leftOpen? opens closes depth tokens

/--
How balanced tokens are built up, where those outside of all brackets are of a class.
-/
inductive Nested (opens closes : Token κ → Bool) : (Token κ → Prop) → List (Token κ) → Prop where
  | nil {p : Token κ → Prop} : Nested opens closes p []
  | cons {p : Token κ → Prop} {token : Token κ} {tokens : List (Token κ)}
    (hopens : opens token = false) (hcloses : closes token = false) (htoken : p token)
    (h : Nested opens closes p tokens) : Nested opens closes p (token :: tokens)
  | wrap {p : Token κ → Prop} {opener closer : Token κ} {inner tokens : List (Token κ)}
    (hopener : opens opener) (hcloser : closes closer)
    (hinner : Nested opens closes (fun _ => True) inner) (h : Nested opens closes p tokens) :
    Nested opens closes p (opener :: (inner ++ closer :: tokens))

section Counts

variable {token : Token κ} {depth rest size : Nat} {closer : Token κ}

theorem bracket_cases (opens closes : Token κ → Bool) (token : Token κ)
    : opens token ∨ (opens token = false ∧ closes token) ∨
      (opens token = false ∧ closes token = false) := by
  cases opens token
  all_goals
    cases closes token
    all_goals decide

theorem leftOpen?_opening (h : opens token)
    : leftOpen? opens closes depth (token :: tokens) =
      leftOpen? opens closes (depth + 1) tokens := by
  simp [leftOpen?, h]

theorem leftOpen?_closing (hopens : opens token = false) (h : closes token)
    : leftOpen? opens closes (depth + 1) (token :: tokens) =
      leftOpen? opens closes depth tokens := by
  simp [leftOpen?, h, hopens]

theorem leftOpen?_closing_zero (hopens : opens token = false) (h : closes token)
    : leftOpen? opens closes 0 (token :: tokens) = none := by
  simp [leftOpen?, h, hopens]

theorem leftOpen?_neutral (hopens : opens token = false) (hcloses : closes token = false)
    : leftOpen? opens closes depth (token :: tokens) = leftOpen? opens closes depth tokens := by
  simp [leftOpen?, hopens, hcloses]

theorem leftOpen?_append (depth : Nat) (tokens more : List (Token κ))
    : leftOpen? opens closes depth (tokens ++ more) =
      (leftOpen? opens closes depth tokens).bind (leftOpen? opens closes · more) := by
  induction tokens generalizing depth with
  | nil => rfl
  | cons token tokens ih =>
    rw [List.cons_append]
    rcases bracket_cases opens closes token with h | h | h
    . rw [leftOpen?_opening h, leftOpen?_opening h, ih]
    . cases depth with
      | zero =>
        rw [leftOpen?_closing_zero h.1 h.2, leftOpen?_closing_zero h.1 h.2, Option.bind_none]
      | succ depth => rw [leftOpen?_closing h.1 h.2, leftOpen?_closing h.1 h.2, ih]
    . rw [leftOpen?_neutral h.1 h.2, leftOpen?_neutral h.1 h.2, ih]

/--
Between a bracket and the one that closes it all is closed, and the count goes on behind them.
-/
theorem leftOpen?_of_closing? (h : closing? opens closes depth tokens = some (size, closer))
    : leftOpen? opens closes depth (tokens.take size) = some 0 ∧
      leftOpen? opens closes (depth + 1) tokens =
        leftOpen? opens closes 0 (tokens.drop (size + 1)) := by
  induction tokens generalizing depth size with
  | nil => contradiction
  | cons token tokens ih =>
    rcases bracket_cases opens closes token with htoken | htoken | htoken
    . rw [closing?_opening htoken] at h
      obtain ⟨⟨before, _⟩, hbefore, hpair⟩ := Option.map_eq_some_iff.mp h
      cases hpair
      rw [List.take_succ_cons, leftOpen?_opening htoken, leftOpen?_opening htoken]
      exact ih hbefore
    . cases depth with
      | zero =>
        simp only [closing?, htoken] at h
        cases h
        exact ⟨rfl, leftOpen?_closing htoken.1 htoken.2⟩
      | succ depth =>
        rw [closing?_closing htoken.1 htoken.2] at h
        obtain ⟨⟨before, _⟩, hbefore, hpair⟩ := Option.map_eq_some_iff.mp h
        cases hpair
        rw [List.take_succ_cons, leftOpen?_closing htoken.1 htoken.2,
          leftOpen?_closing htoken.1 htoken.2]
        exact ih hbefore
    . rw [closing?_neutral htoken.1 htoken.2] at h
      obtain ⟨⟨before, _⟩, hbefore, hpair⟩ := Option.map_eq_some_iff.mp h
      cases hpair
      rw [List.take_succ_cons, leftOpen?_neutral htoken.1 htoken.2,
        leftOpen?_neutral htoken.1 htoken.2]
      exact ih hbefore

theorem leftOpen?_of_closing?_eq_none (h : closing? opens closes depth tokens = none)
    : leftOpen? opens closes (depth + 1) tokens ≠ some 0 := by
  induction tokens generalizing depth with
  | nil => simp [leftOpen?]
  | cons token tokens ih =>
    rcases bracket_cases opens closes token with htoken | htoken | htoken
    . rw [closing?_opening htoken] at h
      rw [leftOpen?_opening htoken]
      exact ih (Option.map_eq_none_iff.mp h)
    . cases depth with
      | zero => simp [closing?, htoken] at h
      | succ depth =>
        rw [closing?_closing htoken.1 htoken.2] at h
        rw [leftOpen?_closing htoken.1 htoken.2]
        exact ih (Option.map_eq_none_iff.mp h)
    . rw [closing?_neutral htoken.1 htoken.2] at h
      rw [leftOpen?_neutral htoken.1 htoken.2]
      exact ih (Option.map_eq_none_iff.mp h)

theorem nested_of_leftOpen? (h : leftOpen? opens closes 0 tokens = some 0)
    : Nested opens closes (fun _ => True) tokens := by
  induction hlength : tokens.length using Nat.strongRecOn generalizing tokens with
  | ind length ih =>
    cases tokens with
    | nil => exact .nil
    | cons token tokens =>
      rw [List.length_cons] at hlength
      rcases bracket_cases opens closes token with htoken | htoken | htoken
      . rw [leftOpen?_opening htoken] at h
        cases hclosing : closing? opens closes 0 tokens with
        | none => exact absurd h (leftOpen?_of_closing?_eq_none hclosing)
        | some found =>
          -- The token that closes this one cuts the others into two parts that are shorter.
          obtain ⟨size, closer⟩ := found
          obtain ⟨hinner, hrest⟩ := leftOpen?_of_closing? hclosing
          have hsplit := List.take_append_drop size tokens
          rw [drop_of_closing? hclosing] at hsplit
          have hsize := congrArg List.length hsplit
          rw [List.length_append, List.length_cons] at hsize
          rw [hrest] at h
          rw [← hsplit]
          exact .wrap htoken (mem_of_closing? hclosing).2 (ih _ (by omega) hinner rfl)
            (ih _ (by omega) h rfl)
      . rw [leftOpen?_closing_zero htoken.1 htoken.2] at h
        contradiction
      . rw [leftOpen?_neutral htoken.1 htoken.2] at h
        exact .cons htoken.1 htoken.2 trivial (ih _ (by omega) h rfl)

theorem forall_prefix_cons {α : Type} {p : List α → Prop} {a : α} {as : List α}
    : (∀ front, front <+: a :: as → p front) ↔ p [] ∧ ∀ front, front <+: as → p (a :: front) := by
  simp only [List.prefix_cons_iff]
  constructor
  . intro h
    exact ⟨h [] (.inl rfl), fun front hfront => h _ (.inr ⟨front, rfl, hfront⟩)⟩
  . rintro ⟨hnil, hcons⟩ front (rfl | ⟨front, rfl, hfront⟩)
    . exact hnil
    . exact hcons front hfront

theorem balanced_nil : Balanced opens closes [] :=
  ⟨by simp, rfl⟩

variable {p q : Token κ → Prop}

theorem Nested.append (h : Nested opens closes p tokens) (hmore : Nested opens closes p more)
    : Nested opens closes p (tokens ++ more) := by
  induction h with
  | nil => exact hmore
  | cons hopens hcloses htoken _ ih => exact .cons hopens hcloses htoken (ih hmore)
  | wrap hopener hcloser hinner _ _ ih =>
    rw [List.cons_append, List.append_assoc]
    exact .wrap hopener hcloser hinner (ih hmore)

theorem Nested.mono (h : Nested opens closes p tokens) (hpq : ∀ token, p token → q token)
    : Nested opens closes q tokens := by
  induction h with
  | nil => exact .nil
  | cons hopens hcloses htoken _ ih => exact .cons hopens hcloses (hpq _ htoken) (ih hpq)
  | wrap hopener hcloser hinner _ _ ih => exact .wrap hopener hcloser hinner (ih hpq)

theorem Nested.cons_inv (h : Nested opens closes p (token :: tokens)) (hopens : opens token = false)
    : p token ∧ Nested opens closes p tokens := by
  cases h with
  | cons _ _ htoken h => exact ⟨htoken, h⟩
  | wrap hopener => simp [hopens] at hopener

variable (hdistinct : ∀ token, closes token → opens token = false)

include hdistinct

/--
The count exists if and only if no front closes too much, and is what the numbers of opening and
closing brackets say.
-/
theorem leftOpen?_eq_some_iff
    : leftOpen? opens closes depth tokens = some rest ↔
      (∀ front, front <+: tokens → front.countP closes ≤ depth + front.countP opens) ∧
      rest + tokens.countP closes = depth + tokens.countP opens := by
  induction tokens generalizing depth with
  | nil => simp [leftOpen?, eq_comm]
  | cons token tokens ih =>
    rw [forall_prefix_cons]
    rcases bracket_cases opens closes token with h | h | h
    . have hcloses : closes token = false :=
        Bool.eq_false_iff.mpr fun hcloses => by simp [hdistinct token hcloses] at h
      rw [leftOpen?_opening h, ih]
      simp [h, hcloses, Nat.add_assoc, Nat.add_comm 1]
    . cases depth with
      | zero =>
        -- The front that ends with this token closes too much.
        rw [leftOpen?_closing_zero h.1 h.2]
        refine iff_of_false nofun ?_
        rintro ⟨⟨-, hfront⟩, -⟩
        have := hfront [] List.nil_prefix
        simp [h] at this
      | succ depth =>
        rw [leftOpen?_closing h.1 h.2, ih]
        simp only [List.countP_cons, h.1, h.2, List.countP_nil]
        simp [← Nat.add_assoc, Nat.add_right_comm depth 1]
    . rw [leftOpen?_neutral h.1 h.2, ih]
      simp [h.1, h.2]

theorem balanced_iff_leftOpen?
    : Balanced opens closes tokens ↔ leftOpen? opens closes 0 tokens = some 0 := by
  rw [leftOpen?_eq_some_iff hdistinct]
  simp only [Nat.zero_add]
  exact ⟨fun h => ⟨h.front, h.total⟩, fun h => ⟨h.1, h.2⟩⟩

theorem balanced_cons_iff (hopens : opens token = false) (hcloses : closes token = false)
    : Balanced opens closes (token :: tokens) ↔ Balanced opens closes tokens := by
  rw [balanced_iff_leftOpen? hdistinct, leftOpen?_neutral hopens hcloses,
    balanced_iff_leftOpen? hdistinct]

theorem Nested.leftOpen?_eq (h : Nested opens closes p tokens) (depth : Nat)
    : leftOpen? opens closes depth tokens = some depth := by
  induction h generalizing depth with
  | nil => rfl
  | cons hopens hcloses _ _ ih => rw [leftOpen?_neutral hopens hcloses, ih]
  | wrap hopener hcloser _ _ ihinner ih =>
    rw [leftOpen?_opening hopener, leftOpen?_append, ihinner, Option.bind_some,
      leftOpen?_closing (hdistinct _ hcloser) hcloser, ih]

/--
Tokens are balanced exactly if they can be built up.
-/
theorem balanced_iff_nested
    : Balanced opens closes tokens ↔ Nested opens closes (fun _ => True) tokens := by
  rw [balanced_iff_leftOpen? hdistinct]
  exact ⟨nested_of_leftOpen?, fun h => h.leftOpen?_eq hdistinct 0⟩

theorem Nested.skips (h : Nested opens closes p tokens) : Skips opens closes tokens := by
  induction h with
  | nil => exact skips_nil
  | cons hopens hcloses _ _ ih => exact ih.cons hopens hcloses
  | wrap hopener hcloser _ _ ihinner ih =>
    rw [List.append_cons, ← List.cons_append]
    exact (ihinner.wrap hopener (hdistinct _ hcloser) hcloser).append ih

theorem Balanced.skips (h : Balanced opens closes tokens) : Skips opens closes tokens :=
  ((balanced_iff_nested hdistinct).mp h).skips hdistinct

end Counts

end Token
end MathMarkup
