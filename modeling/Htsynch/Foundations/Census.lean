/-
# Counting the members of a family that satisfy a predicate

A counter kept by several threads is compared with the number of threads whose
own state satisfies a predicate. One thread moves at a time, so what is needed
is how that number reacts to a change of one member: it stays, grows by one or
shrinks by one according to the predicate before and after the change.
-/

import Mathlib.Data.Fintype.Card
import Mathlib.Data.Finset.Card

namespace Htsynch.Foundations

universe u v

variable {ι : Type u} [Fintype ι] {α : Type v}

/-- The number of indices whose member satisfies the predicate. -/
def census (p : α → Prop) [DecidablePred p] (family : ι → α) : ℕ :=
  (Finset.univ.filter fun i => p (family i)).card

variable {p : α → Prop} [DecidablePred p] {family : ι → α}

theorem census_le_card : census p family ≤ Fintype.card ι :=
  Finset.card_le_univ _

theorem census_eq_card_iff : census p family = Fintype.card ι ↔ ∀ i, p (family i) := by
  unfold census
  rw [Finset.card_eq_iff_eq_univ, Finset.filter_eq_self]
  simp

theorem census_eq_zero_iff : census p family = 0 ↔ ∀ i, ¬ p (family i) := by
  unfold census
  rw [Finset.card_eq_zero, Finset.filter_eq_empty_iff]
  simp

theorem census_pos_iff : 0 < census p family ↔ ∃ i, p (family i) := by
  rw [Nat.pos_iff_ne_zero, ne_eq, census_eq_zero_iff, not_forall_not]

/-- Someone outside the predicate keeps the count below the number of members. -/
theorem census_lt_card {i : ι} (hi : ¬ p (family i)) :
    census p family < Fintype.card ι :=
  lt_of_le_of_ne census_le_card fun hfull => hi (census_eq_card_iff.mp hfull i)

theorem census_congr {family' : ι → α} (h : ∀ i, p (family i) ↔ p (family' i)) :
    census p family = census p family' := by
  unfold census
  congr 1
  exact Finset.filter_congr fun i _ => h i

variable [DecidableEq ι] {i : ι} {a : α}

/-- A member that enters the predicate is counted once more. -/
theorem census_update_enter (hold : ¬ p (family i)) (hnew : p a) :
    census p (Function.update family i a) = census p family + 1 := by
  unfold census
  have hset : (Finset.univ.filter fun j => p (Function.update family i a j)) =
      insert i (Finset.univ.filter fun j => p (family j)) := by
    ext j
    by_cases hj : j = i
    · subst j
      simp [hnew]
    · simp [hj]
  rw [hset, Finset.card_insert_of_notMem (by simpa using hold)]

/-- A member that leaves the predicate is counted once less. -/
theorem census_update_leave (hold : p (family i)) (hnew : ¬ p a) :
    census p (Function.update family i a) + 1 = census p family := by
  have hback : census p (Function.update (Function.update family i a) i (family i)) =
      census p (Function.update family i a) + 1 :=
    census_update_enter (by simpa using hnew) hold
  simpa using hback.symm

/-- A member that stays on its side of the predicate does not change the count. -/
theorem census_update_stay (hstay : p a ↔ p (family i)) :
    census p (Function.update family i a) = census p family := by
  refine census_congr fun j => ?_
  by_cases hj : j = i
  · subst j
    simpa using hstay
  · simp [hj]

end Htsynch.Foundations
