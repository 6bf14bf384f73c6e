/-
# Words as sets of numbers

A word stands for the set of the numbers of its bits. The zero word is the empty set, a
power of two a set with one member, and the disjunction of words is the union.
-/

import Mathlib.Data.Set.Lattice

namespace Htsynch.Foundations

variable {w : ℕ}

/-- The numbers of the bits that are set. -/
def bits (m : BitVec w) : Set ℕ := {k | m.getLsbD k = true}

theorem mem_bits {m : BitVec w} {k : ℕ} : k ∈ bits m ↔ m.getLsbD k = true := Iff.rfl

@[simp]
theorem bits_zero : bits (0 : BitVec w) = ∅ := by
  ext k
  simp [bits]

@[simp]
theorem bits_or (m m' : BitVec w) : bits (m ||| m') = bits m ∪ bits m' := by
  ext k
  simp [bits]

@[simp]
theorem bits_and (m m' : BitVec w) : bits (m &&& m') = bits m ∩ bits m' := by
  ext k
  simp [bits]

/-- A power of two is the set of its exponent. -/
theorem bits_one_shiftLeft {n : ℕ} (hn : n < w) : bits (1#w <<< n) = {n} := by
  ext k
  rw [mem_bits, ← BitVec.twoPow_eq, BitVec.getLsbD_twoPow]
  simp [hn, eq_comm]

/-- What is cut off is no longer in the set. -/
theorem bits_setWidth (m : BitVec w) (v : ℕ) : bits (m.setWidth v) = bits m ∩ {k | k < v} := by
  ext k
  simp [bits, and_comm]

/-- The sign is repeated. -/
theorem bits_signExtend (m : BitVec w) {v : ℕ} (hle : w ≤ v) :
    bits (m.signExtend v) = bits m ∪ {k | m.msb = true ∧ w ≤ k ∧ k < v} := by
  ext k
  rw [mem_bits, BitVec.getLsbD_signExtend]
  by_cases hk : k < w
  · have hv : k < v := Nat.lt_of_lt_of_le hk hle
    simp [bits, hk, hv]
  · simp [bits, hk, and_comm, Nat.le_of_not_lt hk]

/-- Only the zero word is the empty set. -/
theorem ne_zero_iff_nonempty {m : BitVec w} : m ≠ 0 ↔ (bits m).Nonempty := by
  rw [Set.nonempty_iff_ne_empty, not_iff_not]
  constructor
  · rintro rfl
    exact bits_zero
  · intro hempty
    apply BitVec.eq_of_getLsbD_eq
    intro k _
    have hk : k ∉ bits m := by simp [hempty]
    simpa [bits] using hk

/-- Words that are added one after the other are united. -/
theorem bits_foldl_or {α : Type} (f : α → BitVec w) (l : List α) (m : BitVec w) :
    bits (l.foldl (fun m c => m ||| f c) m) = bits m ∪ {k | ∃ c ∈ l, k ∈ bits (f c)} := by
  induction l generalizing m with
  | nil => simp
  | cons c l ih =>
      rw [List.foldl_cons, ih, bits_or, Set.union_assoc]
      congr 1
      ext k
      simp [or_and_right, exists_or]

end Htsynch.Foundations
