/-
# How many threads a barrier is made for

The barriers receive the number of their threads as a C `int`. A thread count is
such an argument: positive, and small enough to be one.
-/

import Htsynch.X86

namespace Htsynch

/-- A positive C `int`. -/
structure ThreadCount where
  val : ℕ
  pos : 0 < val
  isInt : val < 2 ^ 31

namespace ThreadCount

variable {n : ThreadCount} {w : Word}

instance : NeZero n.val := ⟨Nat.pos_iff_ne_zero.mp n.pos⟩

/-- The argument as the barriers store it. -/
def word (n : ThreadCount) : Word := BitVec.ofNat 32 n.val

@[simp]
theorem toNat_word : n.word.toNat = n.val := by
  have := n.isInt
  rw [word, BitVec.toNat_ofNat, Nat.mod_eq_of_lt (by omega)]

theorem eq_word_iff : w = n.word ↔ w.toNat = n.val := by
  rw [← BitVec.toNat_inj, toNat_word]

theorem word_ne_zero : n.word ≠ 0 := by
  intro hzero
  have hval : n.val = 0 := by rw [← toNat_word, hzero]; rfl
  exact absurd hval (Nat.pos_iff_ne_zero.mp n.pos)

/-- A counter that never exceeds the thread count is a non-negative `int`. -/
theorem toInt_eq_toNat (hle : w.toNat ≤ n.val) : w.toInt = w.toNat := by
  have := n.isInt
  exact BitVec.toInt_eq_toNat_of_lt (by omega)

/-- Two threads, as in the shipped tests. -/
def two : ThreadCount := ⟨2, by decide, by decide⟩

end ThreadCount

end Htsynch
