/-
# Rounding addresses up

The least multiple of an alignment that is not below an address is less than one
alignment away. For a power of two a processor finds it with an addition and a mask, as
long as the addition does not wrap.
-/

import Mathlib.Data.BitVec

namespace Htsynch.Foundations

/-- The next multiple of `a`. -/
def roundUp (a p : ℕ) : ℕ := (p + a - 1) / a * a

section

variable {a p : ℕ}

theorem dvd_roundUp (a p : ℕ) : a ∣ roundUp a p := Nat.dvd_mul_left _ _

theorem roundUp_le_add (a p : ℕ) : roundUp a p ≤ p + a - 1 := Nat.div_mul_le_self _ _

theorem roundUp_lt (ha : 0 < a) (p : ℕ) : roundUp a p < p + a := by
  have hle := roundUp_le_add a p
  omega

theorem le_roundUp (ha : 0 < a) (p : ℕ) : p ≤ roundUp a p := by
  have hmod := Nat.mod_lt (p + a - 1) ha
  have hdiv := Nat.div_add_mod' (p + a - 1) a
  unfold roundUp
  omega

/-- Less than one alignment from the address there is no other multiple. -/
theorem eq_roundUp {q : ℕ} (hdvd : a ∣ q) (hle : p ≤ q) (hlt : q < p + a) : q = roundUp a p := by
  obtain ⟨m, rfl⟩ := hdvd
  have hmul : a * m + a = a * (m + 1) := (Nat.mul_succ a m).symm
  have hdiv : (p + a - 1) / a = m := by
    apply Nat.div_eq_of_lt_le
    · rw [Nat.mul_comm]
      omega
    · rw [Nat.mul_comm, ← hmul]
      omega
  rw [roundUp, hdiv, Nat.mul_comm]

/-- Only multiples are left as they are. -/
theorem roundUp_eq_iff (ha : 0 < a) : roundUp a p = p ↔ a ∣ p := by
  constructor
  · intro hsame
    rw [← hsame]
    exact dvd_roundUp a p
  · rintro ⟨n, rfl⟩
    have hdiv : (a * n + a - 1) / a = n := by
      rw [Nat.add_sub_assoc ha, Nat.mul_add_div ha, Nat.div_eq_of_lt (by omega), Nat.add_zero]
    rw [roundUp, hdiv, Nat.mul_comm]

end

section

variable {w : ℕ} {a x : BitVec w} {k : ℕ}

/-- `(x + a - 1) & ~(a - 1)`. -/
def roundUpMask (a x : BitVec w) : BitVec w := (x + a - 1) &&& ~~~(a - 1)

theorem toNat_sub_one (ha : a.toNat = 2 ^ k) : (a - 1).toNat = 2 ^ k - 1 := by
  have hw : 2 ^ k < 2 ^ w := ha ▸ a.isLt
  have hpos : 1 ≤ 2 ^ k := Nat.one_le_two_pow
  have hone : (1 : BitVec w).toNat = 1 := Nat.mod_eq_of_lt (Nat.lt_of_le_of_lt hpos hw)
  have hle : (1 : BitVec w) ≤ a := by
    rw [BitVec.le_def, hone, ha]
    exact hpos
  rw [BitVec.toNat_sub_of_le hle, hone, ha]

/-- The mask of a power of two clears the bits below it. -/
theorem and_not_mask (ha : a.toNat = 2 ^ k) : x &&& ~~~(a - 1) = x >>> k <<< k := by
  apply BitVec.eq_of_getLsbD_eq
  intro i hi
  have hmask : (a - 1).getLsbD i = decide (i < k) := by
    rw [BitVec.getLsbD, toNat_sub_one ha, Nat.testBit_two_pow_sub_one]
  rw [BitVec.getLsbD_and, BitVec.getLsbD_not, hmask]
  by_cases hk : i < k
  · simp [hk]
  · have hback : k + (i - k) = i := by omega
    simp [hk, hi, hback]

theorem toNat_and_not_mask (ha : a.toNat = 2 ^ k) :
    (x &&& ~~~(a - 1)).toNat = x.toNat / a.toNat * a.toNat := by
  have hle : x.toNat / 2 ^ k * 2 ^ k < 2 ^ w :=
    Nat.lt_of_le_of_lt (Nat.div_mul_le_self _ _) x.isLt
  rw [and_not_mask ha, BitVec.toNat_shiftLeft, BitVec.toNat_ushiftRight, Nat.shiftLeft_eq,
    Nat.shiftRight_eq_div_pow, Nat.mod_eq_of_lt hle, ha]

theorem toNat_add_sub_one (ha : a.toNat = 2 ^ k) (hfits : x.toNat + a.toNat - 1 < 2 ^ w) :
    (x + a - 1).toNat = x.toNat + a.toNat - 1 := by
  have hpos : 1 ≤ 2 ^ k := Nat.one_le_two_pow
  rw [add_sub_assoc, BitVec.toNat_add, toNat_sub_one ha, Nat.mod_eq_of_lt (by omega), ha,
    Nat.add_sub_assoc hpos]

/-- With a mask an address is rounded up as with a division, if the addition does not
wrap. -/
theorem toNat_roundUpMask (ha : a.toNat = 2 ^ k) (hfits : x.toNat + a.toNat - 1 < 2 ^ w) :
    (roundUpMask a x).toNat = roundUp a.toNat x.toNat := by
  rw [roundUpMask, toNat_and_not_mask ha, toNat_add_sub_one ha hfits, roundUp]

end

end Htsynch.Foundations
