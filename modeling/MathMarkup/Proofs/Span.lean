import Mathlib.Order.Nat
import MathMarkup.Span

/-!
This module contains the theory of places. Offsets beyond the limit are cut down to one below it,
but the limit itself is not, so exactly the places that start there are lost. A lost place keeps its
end nevertheless, and of two lost places a join takes the second one. All other laws of joins hold.
-/

namespace MathMarkup
namespace Span

section Offsets

variable {start stop offset other : Nat}

theorem toNat_clamp_of_le (h : offset ≤ limit) : (clamp offset).toNat = offset := by
  rw [clamp, if_pos h]
  exact UInt32.toNat_ofNat_of_lt' (Nat.lt_succ_of_le h)

theorem toNat_clamp_of_lt (h : limit < offset) : (clamp offset).toNat = limit - 1 := by
  rw [clamp, if_neg (Nat.not_le_of_lt h)]
  exact UInt32.toNat_ofNat_of_lt' (by decide)

theorem clamp_eq_limit_iff : clamp offset = .ofNat limit ↔ offset = limit := by
  rw [← UInt32.toNat_inj, UInt32.toNat_ofNat_of_lt' (by decide)]
  rcases Nat.lt_or_ge limit offset with h | h
  . rw [toNat_clamp_of_lt h]
    simp only [limit] at h ⊢
    omega
  . rw [toNat_clamp_of_le h]

theorem clamp_le_clamp_iff (h : offset ≤ other)
    : (clamp offset).toNat ≤ (clamp other).toNat ↔ offset ≠ limit ∨ other ≤ limit := by
  rcases Nat.lt_or_ge limit offset with hoffset | hoffset
  . rw [toNat_clamp_of_lt hoffset, toNat_clamp_of_lt (Nat.lt_of_lt_of_le hoffset h)]
    omega
  . rw [toNat_clamp_of_le hoffset]
    rcases Nat.lt_or_ge limit other with hother | hother
    . rw [toNat_clamp_of_lt hother]
      unfold limit at *
      omega
    . rw [toNat_clamp_of_le hother]
      omega

theorem isDetached_ofOffsets : (ofOffsets start stop).isDetached ↔ start = limit := by
  rw [isDetached, beq_iff_eq]
  exact clamp_eq_limit_iff

theorem ofOffsets_eq_detached_iff
    : ofOffsets start stop = detached ↔ start = limit ∧ stop = limit := by
  rw [ofOffsets, detached, mk.injEq, clamp_eq_limit_iff, clamp_eq_limit_iff]

theorem range?_ofOffsets_of_ne (h : start ≠ limit)
    : (ofOffsets start stop).range? = some ((clamp start).toNat, (clamp stop).toNat) := by
  rw [range?, if_neg (mt isDetached_ofOffsets.mp h)]
  rfl

theorem range?_ofOffsets (hstart : start < limit) (hstop : stop ≤ limit)
    : (ofOffsets start stop).range? = some (start, stop) := by
  rw [range?_ofOffsets_of_ne (Nat.ne_of_lt hstart), toNat_clamp_of_le (Nat.le_of_lt hstart),
    toNat_clamp_of_le hstop]

end Offsets

/--
Whether one place covers another. What has no place is covered by all others.
-/
def Covers (outer inner : Span) : Prop :=
  ∀ inside ∈ inner.range?, ∃ around ∈ outer.range?, around.1 ≤ inside.1 ∧ inside.2 ≤ around.2

section Joins

variable {outer span other : Span}

theorem eq_of_toNat (hstart : span.start.toNat = other.start.toNat)
    (hstop : span.stop.toNat = other.stop.toNat) : span = other := by
  cases span
  cases other
  rw [mk.injEq, ← UInt32.toNat_inj, ← UInt32.toNat_inj]
  exact ⟨hstart, hstop⟩

theorem isDetached_iff : span.isDetached ↔ span.start.toNat = limit := by
  rw [isDetached, beq_iff_eq, ← UInt32.toNat_inj, UInt32.toNat_ofNat_of_lt' (by decide)]

theorem range?_of_isDetached (h : span.isDetached) : span.range? = none := if_pos h

theorem range?_of_not_isDetached (h : ¬span.isDetached)
    : span.range? = some (span.start.toNat, span.stop.toNat) :=
  if_neg h

theorem covers_of_isDetached (h : span.isDetached) : outer.Covers span := by
  intro inside hinside
  rw [range?_of_isDetached h] at hinside
  contradiction

theorem covers_of_not_isDetached (h : ¬span.isDetached)
    : outer.Covers span ↔ ¬outer.isDetached ∧ outer.start.toNat ≤ span.start.toNat ∧
        span.stop.toNat ≤ outer.stop.toNat := by
  by_cases houter : outer.isDetached
  . simp [Covers, range?_of_not_isDetached h, range?_of_isDetached houter, houter]
  . simp [Covers, range?_of_not_isDetached h, range?_of_not_isDetached houter, houter]

theorem join_left (h : span.isDetached) : span.join other = other := if_pos h

theorem join_right (hspan : ¬span.isDetached) (h : other.isDetached) : span.join other = span := by
  rw [join, if_neg hspan, if_pos h]

theorem join_both (hspan : ¬span.isDetached) (hother : ¬other.isDetached)
    : ¬(span.join other).isDetached ∧
      (span.join other).start.toNat = min span.start.toNat other.start.toNat ∧
      (span.join other).stop.toNat = max span.stop.toNat other.stop.toNat := by
  rw [join, if_neg hspan, if_neg hother]
  rw [isDetached_iff] at *
  rw [UInt32.toNat_min, UInt32.toNat_max]
  omega

theorem isDetached_join : (span.join other).isDetached ↔ span.isDetached ∧ other.isDetached := by
  by_cases hspan : span.isDetached
  . rw [join_left hspan, and_iff_right hspan]
  . rw [iff_false_right (fun h => hspan h.1)]
    by_cases hother : other.isDetached
    . rwa [join_right hspan hother]
    . exact (join_both hspan hother).1

/--
Of two lost places a join takes the second one. This is all in which the order matters.
-/
theorem join_comm_iff
    : span.join other = other.join span ↔
      (span.isDetached → other.isDetached → span = other) := by
  by_cases hspan : span.isDetached
  . by_cases hother : other.isDetached
    . rw [join_left hspan, join_left hother]
      simp only [hspan, hother, true_imp_iff]
      exact eq_comm
    . simp [join_left hspan, join_right hother hspan, hother]
  . by_cases hother : other.isDetached
    . simp [join_left hother, join_right hspan hother, hspan]
    . obtain ⟨-, hstart, hstop⟩ := join_both hspan hother
      obtain ⟨-, hstart', hstop'⟩ := join_both hother hspan
      simp only [hspan, Bool.false_eq_true, false_imp_iff, iff_true]
      apply eq_of_toNat
      . rw [hstart, hstart', Nat.min_comm]
      . rw [hstop, hstop', Nat.max_comm]

theorem join_assoc (span other third : Span)
    : (span.join other).join third = span.join (other.join third) := by
  by_cases hspan : span.isDetached
  . rw [join_left hspan, join_left hspan]
  by_cases hother : other.isDetached
  . rw [join_right hspan hother, join_left hother]
  by_cases hthird : third.isDetached
  . rw [join_right hother hthird, join_right (join_both hspan hother).1 hthird]
  obtain ⟨hleft, hstart, hstop⟩ := join_both hspan hother
  obtain ⟨hright, hstart', hstop'⟩ := join_both hother hthird
  obtain ⟨-, hfirst, hlast⟩ := join_both hleft hthird
  obtain ⟨-, hfirst', hlast'⟩ := join_both hspan hright
  apply eq_of_toNat
  . rw [hfirst, hfirst', hstart, hstart', Nat.min_assoc]
  . rw [hlast, hlast', hstop, hstop', Nat.max_assoc]

theorem join_self (span : Span) : span.join span = span := by
  by_cases h : span.isDetached
  . exact join_left h
  . obtain ⟨-, hstart, hstop⟩ := join_both h h
    apply eq_of_toNat
    . rw [hstart, Nat.min_self]
    . rw [hstop, Nat.max_self]

theorem detached_join (span : Span) : detached.join span = span := join_left rfl

theorem join_detached_iff : span.join detached = span ↔ (span.isDetached → span = detached) := by
  by_cases h : span.isDetached
  . rw [join_left h, imp_iff_right h]
    exact eq_comm
  . simp [join_right h (show detached.isDetached from rfl), h]

theorem covers_join : outer.Covers (span.join other) ↔ outer.Covers span ∧ outer.Covers other := by
  by_cases hspan : span.isDetached
  . rw [join_left hspan, and_iff_right (covers_of_isDetached hspan)]
  by_cases hother : other.isDetached
  . rw [join_right hspan hother, and_iff_left (covers_of_isDetached hother)]
  obtain ⟨hjoin, hstart, hstop⟩ := join_both hspan hother
  rw [covers_of_not_isDetached hjoin, covers_of_not_isDetached hspan,
    covers_of_not_isDetached hother, hstart, hstop, Nat.le_min, Nat.max_le]
  grind

end Joins

/--
A place is lost exactly if it is to start at the limit, and it is `detached` exactly if it ends
there as well. All others are kept as far as the limit allows, in order, and their ends are kept in
order with each other unless one of them is the limit and the other one beyond it. Joins are
smallest covers, associative and idempotent. They do not depend on the order and leave out
`detached` exactly if there are no two different lost places to choose from.
-/
theorem ofOffsets_spec {start stop : Nat} (h : start ≤ stop)
    : ((ofOffsets start stop).isDetached ↔ start = limit) ∧
      (ofOffsets start stop = detached ↔ start = limit ∧ stop = limit) ∧
      (start < limit → stop ≤ limit → (ofOffsets start stop).range? = some (start, stop)) ∧
      (start ≠ limit → ∃ first last, (ofOffsets start stop).range? = some (first, last) ∧
        first ≤ last ∧
        ∀ start' stop', start ≤ start' → stop ≤ stop' → start' ≠ limit →
          ∃ first' last', (ofOffsets start' stop').range? = some (first', last') ∧
            first ≤ first' ∧ (last ≤ last' ↔ stop ≠ limit ∨ stop' ≤ limit)) ∧
      ∀ span other third : Span,
        (span.join other = other.join span ↔
          (span.isDetached → other.isDetached → span = other)) ∧
        (span.join other).join third = span.join (other.join third) ∧
        span.join span = span ∧ detached.join span = span ∧
        (span.join detached = span ↔ (span.isDetached → span = detached)) ∧
        ((span.join other).isDetached ↔ span.isDetached ∧ other.isDetached) ∧
        ∀ outer : Span,
          outer.Covers (span.join other) ↔ outer.Covers span ∧ outer.Covers other := by
  refine ⟨isDetached_ofOffsets, ofOffsets_eq_detached_iff, range?_ofOffsets, ?_, ?_⟩
  . intro hstart
    refine ⟨_, _, range?_ofOffsets_of_ne hstart, (clamp_le_clamp_iff h).mpr (.inl hstart), ?_⟩
    intro start' stop' hle hle' hstart'
    exact ⟨_, _, range?_ofOffsets_of_ne hstart', (clamp_le_clamp_iff hle).mpr (.inl hstart),
      clamp_le_clamp_iff hle'⟩
  . intro span other third
    exact ⟨join_comm_iff, join_assoc span other third, join_self span, detached_join span,
      join_detached_iff, isDetached_join, fun _ => covers_join⟩

theorem ofOffsets_spec_around_limit
    : (ofOffsets (limit - 1) limit).range? = some (limit - 1, limit) ∧
      ∃ first last, (ofOffsets (limit + 1) (limit + 2)).range? = some (first, last) ∧
        limit - 1 ≤ first ∧ last < limit := by
  obtain ⟨-, -, hexact, hkept, -⟩ := @ofOffsets_spec (limit - 1) limit (by decide)
  have hrange := hexact (by decide) (by decide)
  obtain ⟨first, last, hfound, -, hordered⟩ := hkept (by decide)
  cases hrange.symm.trans hfound
  obtain ⟨first, last, hlater, hfirst, hlast⟩ :=
    hordered (limit + 1) (limit + 2) (by decide) (by decide) (by decide)
  refine ⟨hrange, first, last, hlater, hfirst, ?_⟩
  rw [← Nat.not_le, hlast]
  decide

/--
The limit passes for an offset that fits, so a place that starts there is lost, and an end there
lies behind the ends of longer places. A lost place with another end is replaced by `detached` in a
join with it, but not in the other order.
-/
theorem limit_not_cut
    : (ofOffsets limit limit).isDetached = true ∧
      (ofOffsets 0 limit).range? = some (0, limit) ∧
      (ofOffsets 0 (limit + 1)).range? = some (0, limit - 1) ∧
      (ofOffsets limit (limit + 1)).join detached ≠ ofOffsets limit (limit + 1) ∧
      (ofOffsets limit (limit + 1)).join detached ≠
        detached.join (ofOffsets limit (limit + 1)) := by
  decide

end Span
end MathMarkup
