import MathMarkup.Proofs.Typst.Balance

/-!
This module contains the proof that a split cuts tokens into parts that make them up again, together
with the separators between the parts. The depth that is counted on the way is the number of
parentheses that are open before a token, also where some are closed that were never opened.
-/

namespace MathMarkup
namespace Typst

/--
Ranges of positions that fill the range from `start` to `stop` in order, with one of the positions
`gaps` between each two of them.
-/
inductive Tiles : (start stop : Nat) → (ranges : List (Nat × Nat)) → (gaps : List Nat) → Prop where
  | last {start stop : Nat} (h : start ≤ stop) : Tiles start stop [(start, stop)] []
  | cons {start gap stop : Nat} {ranges : List (Nat × Nat)} {gaps : List Nat} (h : start ≤ gap)
    (hmore : Tiles (gap + 1) stop ranges gaps) :
    Tiles start stop ((start, gap) :: ranges) (gap :: gaps)

section Splitting

variable {isSep : Token → Bool} {tokens : List Token} {start stop depth : Nat}

theorem Tiles.widen {ranges : List (Nat × Nat)} {gaps : List Nat}
    (h : Tiles (start + 1) stop ranges gaps)
    : ∃ last others, ranges = (start + 1, last) :: others ∧ start < last ∧
        Tiles start stop ((start, last) :: others) gaps := by
  cases h with
  | last h => exact ⟨stop, [], rfl, h, .last (Nat.le_of_lt h)⟩
  | @cons _ gap _ others _ h hmore => exact ⟨gap, others, rfl, h, .cons (Nat.le_of_lt h) hmore⟩

theorem extract_eq_cons {token : Token} (h : start < stop) (htoken : tokens[start]? = some token)
    : tokens.extract start stop = token :: tokens.extract (start + 1) stop := by
  obtain ⟨hlt, rfl⟩ := List.getElem?_eq_some_iff.mp htoken
  rw [List.extract_eq_take_drop, List.extract_eq_take_drop, List.drop_eq_getElem_cons hlt,
    show stop - start = stop - (start + 1) + 1 by omega, List.take_succ_cons]

theorem split.go_cons {token : Token} (hsep : isSep token → token.IsNeutral)
    : split.go isSep depth (token :: tokens) =
      if depth = 0 ∧ isSep token then
        ([], (split.go isSep (nextDepth depth token) tokens).1 ::
          (split.go isSep (nextDepth depth token) tokens).2)
      else
        split.cons token (split.go isSep (nextDepth depth token) tokens) := by
  rcases token.paren_cases with htoken | htoken | htoken
  . have hkept : ¬(depth = 0 ∧ isSep token) := fun h => by simp [(hsep h.2).isOpen] at htoken
    rw [split.go, nextDepth, if_pos htoken, if_pos htoken, if_neg hkept]
  . have hkept : ¬(depth = 0 ∧ isSep token) := fun h => by simp [(hsep h.2).isClose] at htoken
    rw [split.go, nextDepth, isOpen_of_isClose htoken, htoken, if_neg hkept]
    rfl
  . rw [split.go, nextDepth, htoken.isOpen, htoken.isClose]
    simp

/--
Whether the token at a position is a separator where no parenthesis is open, if `depth` of them are
open at `start`.
-/
def SeparatesAt (isSep : Token → Bool) (tokens : List Token) (depth start stop gap : Nat) : Prop :=
  start ≤ gap ∧ gap < stop ∧ tokens[gap]?.any isSep ∧
    (tokens.extract start gap).foldl nextDepth depth = 0

theorem separatesAt_start {token : Token} (h : start < stop) (htoken : tokens[start]? = some token)
    : SeparatesAt isSep tokens depth start stop start ↔ depth = 0 ∧ isSep token := by
  simp [SeparatesAt, h, htoken, and_comm]

theorem separatesAt_succ {token : Token} {gap : Nat} (htoken : tokens[start]? = some token)
    : SeparatesAt isSep tokens (nextDepth depth token) (start + 1) stop gap ↔
      gap ≠ start ∧ SeparatesAt isSep tokens depth start stop gap := by
  unfold SeparatesAt
  by_cases h : start < gap
  . rw [extract_eq_cons h htoken, List.foldl_cons]
    simp [Nat.succ_le_of_lt h, Nat.le_of_lt h, Nat.ne_of_gt h]
  . constructor
    . rintro ⟨hle, -⟩
      omega
    . rintro ⟨hne, hle, -⟩
      omega

theorem tiles_split_go (hsep : ∀ token, isSep token → token.IsNeutral)
    (hstop : stop ≤ tokens.length) (h : start ≤ stop) (depth : Nat)
    : ∃ ranges gaps, Tiles start stop ranges gaps ∧
        (split.go isSep depth (tokens.extract start stop)).1 ::
          (split.go isSep depth (tokens.extract start stop)).2 =
          ranges.map (fun range => tokens.extract range.1 range.2) ∧
        ∀ gap, gap ∈ gaps ↔ SeparatesAt isSep tokens depth start stop gap := by
  -- The range is read from its start on, so the induction goes down from its end.
  induction h using Nat.decreasingInduction generalizing depth with
  | self =>
    refine ⟨_, _, .last (Nat.le_refl stop), ?_, fun gap => ?_⟩
    . simp [split.go]
    . simp only [List.not_mem_nil, SeparatesAt, false_iff]
      omega
  | of_succ start hlt ih =>
    obtain ⟨token, htoken⟩ : ∃ token, tokens[start]? = some token :=
      ⟨_, List.getElem?_eq_getElem (Nat.lt_of_lt_of_le hlt hstop)⟩
    obtain ⟨ranges, gaps, htiles, hparts, hgaps⟩ := ih (nextDepth depth token)
    have hstart := @separatesAt_start isSep _ _ _ depth _ hlt htoken
    rw [extract_eq_cons hlt htoken, split.go_cons (hsep token)]
    by_cases hcut : depth = 0 ∧ isSep token
    . rw [if_pos hcut]
      refine ⟨_, _, .cons (Nat.le_refl start) htiles, ?_, fun gap => ?_⟩
      . simp [hparts]
      . rw [List.mem_cons, hgaps, separatesAt_succ htoken]
        by_cases hgap : gap = start
        . exact iff_of_true (.inl hgap) (hgap ▸ hstart.mpr hcut)
        . simp [hgap]
    . rw [if_neg hcut]
      obtain ⟨last, others, rfl, hlast, hwide⟩ := htiles.widen
      rw [List.map_cons, List.cons.injEq] at hparts
      refine ⟨_, _, hwide, ?_, fun gap => ?_⟩
      . rw [List.map_cons, extract_eq_cons hlast htoken, ← hparts.1, ← hparts.2]
        rfl
      . rw [hgaps, separatesAt_succ htoken, and_iff_right_iff_imp]
        rintro hgap rfl
        exact hcut (hstart.mp hgap)

/--
The parts of a split and the separators between them make up what was split. Exactly the separators
at which no parenthesis is open are left out, and parts of balanced tokens are balanced.
-/
theorem tiles_split (hsep : ∀ token, isSep token → token.IsNeutral) (h : start ≤ stop)
    (hstop : stop ≤ tokens.length)
    : ∃ ranges gaps, Tiles start stop ranges gaps ∧
        split isSep (tokens.extract start stop) =
          ranges.map (fun range => tokens.extract range.1 range.2) ∧
        (∀ gap, gap ∈ gaps ↔ start ≤ gap ∧ gap < stop ∧ tokens[gap]?.any isSep ∧
          openParens (tokens.extract start gap) = 0) ∧
        (Balanced (tokens.extract start stop) →
          ∀ range ∈ ranges, Balanced (tokens.extract range.1 range.2)) := by
  obtain ⟨ranges, gaps, htiles, hparts, hgaps⟩ := tiles_split_go hsep hstop h 0
  have hsplit : split isSep (tokens.extract start stop) =
      ranges.map (fun range => tokens.extract range.1 range.2) := hparts
  refine ⟨ranges, gaps, htiles, hsplit, hgaps, ?_⟩
  intro hbalanced range hrange
  rw [balanced_split isSep, hsplit] at hbalanced
  exact hbalanced _ (List.mem_map_of_mem hrange)

end Splitting

theorem tiles_split_comma
    : ∃ ranges gaps, Tiles 1 6 ranges gaps ∧ 2 ∉ gaps ∧ 5 ∈ gaps ∧
        split Token.isComma
          (([",", "(", ",", ")", ")", ","].map (⟨.element, ·, .detached⟩)).extract 1 6) =
          ranges.map fun range =>
            ([",", "(", ",", ")", ")", ","].map (⟨.element, ·, .detached⟩)).extract range.1
              range.2 := by
  obtain ⟨ranges, gaps, htiles, hparts, hgaps, -⟩ := @tiles_split Token.isComma
    ([",", "(", ",", ")", ")", ","].map (⟨.element, ·, .detached⟩)) 1 6
    (fun token htoken => Token.isNeutral_of_is htoken (by decide) (by decide)) (by decide)
    (by decide)
  refine ⟨ranges, gaps, htiles, ?_, ?_, hparts⟩
  . rw [hgaps]
    decide
  . rw [hgaps]
    decide

end Typst
end MathMarkup
