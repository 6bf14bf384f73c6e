/-
# Numbers in two words

A processor adds and subtracts numbers that are twice as wide as its registers word by
word: the lower words first, then the upper words together with the carry or the borrow
that the lower ones have left. What comes out is the sum or the difference of the wide
numbers, whatever the carries and the borrows are.
-/

import Mathlib.Data.BitVec
import Mathlib.Tactic.Linarith

namespace Htsynch.Foundations

variable {w : ℕ}

/-- A word and the carry flag. -/
structure Carried (w : ℕ) where
  result : BitVec w
  cf : Bool
  deriving DecidableEq

/-- The sum of two words and of the carry that comes in. -/
def addCarry (dst src : BitVec w) (cf : Bool) : Carried w :=
  ⟨dst + src + BitVec.ofNat w cf.toNat, decide (2 ^ w ≤ dst.toNat + src.toNat + cf.toNat)⟩

/-- The difference of two words, less the borrow that comes in. -/
def subBorrow (dst src : BitVec w) (cf : Bool) : Carried w :=
  ⟨dst - src - BitVec.ofNat w cf.toNat, decide (dst.toNat < src.toNat + cf.toNat)⟩

/-- The sum and the carry that goes out, weighed. -/
theorem addCarry_toNat (dst src : BitVec w) (cf : Bool) :
    (addCarry dst src cf).result.toNat + 2 ^ w * (addCarry dst src cf).cf.toNat =
      dst.toNat + src.toNat + cf.toNat := by
  have hdst := dst.isLt
  have hsrc := src.isLt
  have hcf : cf.toNat ≤ 1 := Bool.toNat_le cf
  have hsum : (addCarry dst src cf).result.toNat =
      (dst.toNat + src.toNat + cf.toNat) % 2 ^ w := by
    simp [addCarry, BitVec.toNat_add, Nat.add_mod]
  rw [hsum]
  by_cases hcarry : 2 ^ w ≤ dst.toNat + src.toNat + cf.toNat
  · have hout : (addCarry dst src cf).cf = true := decide_eq_true hcarry
    rw [hout, Nat.mod_eq_sub_mod hcarry, Nat.mod_eq_of_lt (by omega), Bool.toNat_true]
    omega
  · have hout : (addCarry dst src cf).cf = false := decide_eq_false hcarry
    rw [hout, Nat.mod_eq_of_lt (by omega), Bool.toNat_false, Nat.mul_zero, Nat.add_zero]

/-- The difference and the borrow that goes out, weighed. -/
theorem subBorrow_toNat (dst src : BitVec w) (cf : Bool) :
    (subBorrow dst src cf).result.toNat + src.toNat + cf.toNat =
      dst.toNat + 2 ^ w * (subBorrow dst src cf).cf.toNat := by
  have hdst := dst.isLt
  have hsrc := src.isLt
  have hresult := (subBorrow dst src cf).result.isLt
  have hcf : cf.toNat ≤ 1 := Bool.toNat_le cf
  have hback : (subBorrow dst src cf).result + src + BitVec.ofNat w cf.toNat = dst := by
    simp only [subBorrow]
    rw [sub_sub, add_assoc, sub_add_cancel]
  have hmod : ((subBorrow dst src cf).result.toNat + src.toNat + cf.toNat) % 2 ^ w =
      dst.toNat := by
    have hnat := congrArg BitVec.toNat hback
    simpa [BitVec.toNat_add, Nat.add_mod] using hnat
  by_cases hborrow : dst.toNat < src.toNat + cf.toNat
  · have hout : (subBorrow dst src cf).cf = true := decide_eq_true hborrow
    have hge : 2 ^ w ≤ (subBorrow dst src cf).result.toNat + src.toNat + cf.toNat := by
      by_contra hlt
      rw [Nat.mod_eq_of_lt (by omega)] at hmod
      omega
    rw [Nat.mod_eq_sub_mod hge, Nat.mod_eq_of_lt (by omega)] at hmod
    rw [hout, Bool.toNat_true]
    omega
  · have hout : (subBorrow dst src cf).cf = false := decide_eq_false hborrow
    have hlt : (subBorrow dst src cf).result.toNat + src.toNat + cf.toNat < 2 ^ w := by
      by_contra hge
      rw [Nat.mod_eq_sub_mod (by omega), Nat.mod_eq_of_lt (by omega)] at hmod
      omega
    rw [Nat.mod_eq_of_lt hlt] at hmod
    rw [hout, hmod, Bool.toNat_false, Nat.mul_zero, Nat.add_zero]

/-- A number in two words. -/
structure Limbs (w : ℕ) where
  lo : BitVec w
  hi : BitVec w
  deriving DecidableEq

namespace Limbs

/-- The wide number. -/
def value (x : Limbs w) : BitVec (w + w) := x.hi ++ x.lo

/-- The words of a wide number. -/
def split (v : BitVec (w + w)) : Limbs w := ⟨v.setWidth w, (v >>> w).setWidth w⟩

instance : Zero (Limbs w) := ⟨⟨0, 0⟩⟩

/-- Addition with the carry. -/
instance : Add (Limbs w) where
  add x y :=
    let low := addCarry x.lo y.lo false
    ⟨low.result, (addCarry x.hi y.hi low.cf).result⟩

/-- Subtraction with the borrow. -/
instance : Sub (Limbs w) where
  sub x y :=
    let low := subBorrow x.lo y.lo false
    ⟨low.result, (subBorrow x.hi y.hi low.cf).result⟩

theorem value_toNat (x : Limbs w) : x.value.toNat = x.hi.toNat * 2 ^ w + x.lo.toNat := by
  rw [value, BitVec.toNat_append, ← Nat.shiftLeft_add_eq_or_of_lt x.lo.isLt, Nat.shiftLeft_eq]

@[simp]
theorem value_zero : (0 : Limbs w).value = 0 := by
  apply BitVec.eq_of_toNat_eq
  rw [value_toNat]
  show (0 : BitVec w).toNat * 2 ^ w + (0 : BitVec w).toNat = (0 : BitVec (w + w)).toNat
  simp

@[simp]
theorem value_split (v : BitVec (w + w)) : (split v).value = v := by
  apply BitVec.eq_of_getLsbD_eq
  intro i hi
  rw [value, split, BitVec.getLsbD_append]
  by_cases hlow : i < w
  · simp [hlow]
  · have hhigh : i - w < w := by omega
    have hback : w + (i - w) = i := by omega
    simp [hlow, hhigh, hback]

/-- The words are added as the wide numbers are. -/
@[simp]
theorem value_add (x y : Limbs w) : (x + y).value = x.value + y.value := by
  have hlow := addCarry_toNat x.lo y.lo false
  have hhigh := addCarry_toNat x.hi y.hi (addCarry x.lo y.lo false).cf
  have hvalue : x.value.toNat + y.value.toNat = (x + y).value.toNat +
      2 ^ (w + w) * (addCarry x.hi y.hi (addCarry x.lo y.lo false).cf).cf.toNat := by
    rw [value_toNat, value_toNat, value_toNat, Nat.pow_add]
    show _ = (addCarry x.hi y.hi (addCarry x.lo y.lo false).cf).result.toNat * 2 ^ w +
      (addCarry x.lo y.lo false).result.toNat + _
    have hscaled := congrArg (· * 2 ^ w) hhigh
    simp only [Bool.toNat_false] at hlow hscaled
    linarith
  apply BitVec.eq_of_toNat_eq
  rw [BitVec.toNat_add, hvalue, Nat.add_mul_mod_self_left, Nat.mod_eq_of_lt (BitVec.isLt _)]

/-- So are they subtracted. -/
@[simp]
theorem value_sub (x y : Limbs w) : (x - y).value = x.value - y.value := by
  have hlow := subBorrow_toNat x.lo y.lo false
  have hhigh := subBorrow_toNat x.hi y.hi (subBorrow x.lo y.lo false).cf
  have hvalue : (x - y).value.toNat + y.value.toNat = x.value.toNat +
      2 ^ (w + w) * (subBorrow x.hi y.hi (subBorrow x.lo y.lo false).cf).cf.toNat := by
    rw [value_toNat, value_toNat, value_toNat, Nat.pow_add]
    show (subBorrow x.hi y.hi (subBorrow x.lo y.lo false).cf).result.toNat * 2 ^ w +
      (subBorrow x.lo y.lo false).result.toNat + _ = _
    have hscaled := congrArg (· * 2 ^ w) hhigh
    simp only [Bool.toNat_false] at hlow hscaled
    linarith
  rw [eq_sub_iff_add_eq]
  apply BitVec.eq_of_toNat_eq
  rw [BitVec.toNat_add, hvalue, Nat.add_mul_mod_self_left, Nat.mod_eq_of_lt (BitVec.isLt _)]

end Limbs

end Htsynch.Foundations
