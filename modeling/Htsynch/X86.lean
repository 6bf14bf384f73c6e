/-
# The x86 instructions the assembly blocks are made of

Registers and memory operands of the synchronization code are 32-bit words. A
locked instruction is one atomic step, so it is a function of the old word. Only
the flags that a later conditional jump reads are kept: the zero flag for `jne`
and `sete`, the sign flag for `jns`. Comparisons against memory are signed for
`jle`, `jg` and `jge`, which read the sign and the overflow flag of the difference.
Where the C type is a `long`, 32-bit instructions see and change the lower half of a
64-bit cell.
-/

import Htsynch.Foundations.Limbs
import Mathlib.Algebra.Ring.Int.Defs
import Mathlib.Algebra.Ring.Nat
import Mathlib.Tactic.Common

namespace Htsynch

/-- A 32-bit register or memory operand. -/
abbrev Word := BitVec 32

/-- What an arithmetic instruction leaves behind. -/
structure Flagged where
  /-- The value stored back. -/
  result : Word
  /-- The zero flag. -/
  zf : Bool
  /-- The sign flag. -/
  sf : Bool

/-- `lock; decl`. -/
def decl (w : Word) : Flagged :=
  ⟨w - 1, decide (w - 1 = 0), (w - 1).msb⟩

/-- `lock; incl`. -/
def incl (w : Word) : Word := w + 1

@[simp]
theorem decl_zf_eq_true_iff {w : Word} : (decl w).zf = true ↔ w = 1 := by
  simp only [decl, decide_eq_true_eq]
  bv_omega

theorem decl_sf_eq_true_iff {w : Word} : (decl w).sf = true ↔ (decl w).result.toInt < 0 := by
  simp [decl, BitVec.msb_eq_toInt]

/-- A decrement does not wrap above the smallest integer. -/
theorem decl_result_toInt {w : Word} (h : -2 ^ 31 < w.toInt) :
    (decl w).result.toInt = w.toInt - 1 := by
  have hlt := BitVec.toInt_lt (x := w)
  have hone : (1 : Word).toInt = 1 := by decide
  simp only [decl, BitVec.toInt_sub, hone]
  rw [Int.bmod_eq_of_le] <;> omega

/-- A decrement does not wrap above zero. -/
theorem decl_result_toNat {w : Word} (h : 0 < w.toNat) :
    (decl w).result.toNat = w.toNat - 1 := by
  simp only [decl]
  bv_omega

/-- An increment does not wrap below the largest word. -/
theorem incl_toNat {w : Word} (h : w.toNat + 1 < 2 ^ 32) : (incl w).toNat = w.toNat + 1 := by
  simp only [incl]
  bv_omega

/-- The flags that a comparison leaves behind. -/
structure Flags where
  /-- The zero flag. -/
  zf : Bool
  /-- The sign flag. -/
  sf : Bool
  /-- The overflow flag. -/
  of : Bool
  deriving DecidableEq

/-- `cmpl src, dst` and `cmpq src, dst`: the flags of the difference. -/
def cmpFlags {w : ℕ} (dst src : BitVec w) : Flags :=
  ⟨decide (dst - src = 0), (dst - src).msb, dst.ssubOverflow src⟩

/-- The conditional jumps of the wait loops. -/
inductive Jump
  | je
  | jne
  | jge
  | jle
  deriving DecidableEq

/-- Whether a jump is taken. -/
def Jump.taken (flags : Flags) : Jump → Bool
  | .je => flags.zf
  | .jne => !flags.zf
  | .jge => flags.sf == flags.of
  | .jle => flags.zf || flags.sf != flags.of

section Comparison

variable {w : ℕ} {dst src : BitVec w}

theorem cmpFlags_zf : (cmpFlags dst src).zf = decide (dst = src) := by
  simp [cmpFlags, BitVec.sub_eq_iff_eq_add]

variable (dst src) in
/-- Sign and overflow differ exactly when the destination is the smaller number. -/
theorem cmpFlags_less : ((cmpFlags dst src).sf != (cmpFlags dst src).of) = dst.slt src := by
  by_cases hover : dst.ssubOverflow src
  · have hmsb := hover
    rw [BitVec.ssubOverflow_eq] at hmsb
    simp only [cmpFlags, hover, BitVec.slt_eq_decide]
    simp only [Bool.or_eq_true, Bool.and_eq_true, Bool.not_eq_true'] at hmsb
    rcases hmsb with ⟨⟨hpos, hneg⟩, hsub⟩ | ⟨⟨hneg, hpos⟩, hsub⟩
    · rw [BitVec.msb_eq_toInt, decide_eq_false_iff_not] at hpos
      rw [BitVec.msb_eq_toInt, decide_eq_true_eq] at hneg
      have hnot : ¬ dst.toInt < src.toInt := by omega
      simp [hsub, hnot]
    · rw [BitVec.msb_eq_toInt, decide_eq_false_iff_not] at hpos
      rw [BitVec.msb_eq_toInt, decide_eq_true_eq] at hneg
      have hlt : dst.toInt < src.toInt := by omega
      simp [hsub, hlt]
  · have hsub := BitVec.toInt_sub_of_not_ssubOverflow hover
    have hof : (cmpFlags dst src).of = false := by simpa [cmpFlags] using hover
    have hsf : (cmpFlags dst src).sf = decide (dst.toInt < src.toInt) := by
      simp only [cmpFlags, BitVec.msb_eq_toInt, hsub]
      exact decide_eq_decide.mpr (by omega)
    rw [hof, hsf, BitVec.slt_eq_decide]
    simp

@[simp]
theorem je_taken : Jump.je.taken (cmpFlags dst src) = true ↔ dst = src := by
  simp [Jump.taken, cmpFlags_zf]

@[simp]
theorem jne_taken : Jump.jne.taken (cmpFlags dst src) = true ↔ dst ≠ src := by
  simp [Jump.taken, cmpFlags_zf]

@[simp]
theorem jge_taken :
    Jump.jge.taken (cmpFlags dst src) = true ↔ src.toInt ≤ dst.toInt := by
  have hless := cmpFlags_less dst src
  rw [BitVec.slt_eq_decide] at hless
  have hnot : Jump.jge.taken (cmpFlags dst src) = !decide (dst.toInt < src.toInt) := by
    rw [← hless, bne, Bool.not_not]
    rfl
  simp [hnot]

@[simp]
theorem jle_taken :
    Jump.jle.taken (cmpFlags dst src) = true ↔ dst.toInt ≤ src.toInt := by
  have hless := cmpFlags_less dst src
  rw [BitVec.slt_eq_decide] at hless
  rw [Jump.taken, hless, cmpFlags_zf, Bool.or_eq_true, decide_eq_true_eq, decide_eq_true_eq,
    ← BitVec.toInt_inj]
  omega

end Comparison

/-- The instructions that leave a carry or a borrow, or take one in. -/
inductive CarryInsn
  | subl
  | sbbl
  | addl
  | adcl
  deriving DecidableEq

/-- `insn src, dst`, with the carry flag as it was before. -/
def CarryInsn.exec (dst src : Word) (cf : Bool) : CarryInsn → Foundations.Carried 32
  | .subl => Foundations.subBorrow dst src false
  | .sbbl => Foundations.subBorrow dst src cf
  | .addl => Foundations.addCarry dst src false
  | .adcl => Foundations.addCarry dst src cf

/-- A 64-bit memory cell. -/
abbrev Quad := BitVec 64

namespace Quad

/-- What a 32-bit instruction reads of the cell. -/
def low (q : Quad) : Word := q.setWidth 32

/-- What a 32-bit store makes of the cell: the upper half stays. -/
def storeLow (q : Quad) (w : Word) : Quad := q.extractLsb' 32 32 ++ w

@[simp]
theorem low_storeLow {q : Quad} {w : Word} : (q.storeLow w).low = w :=
  BitVec.setWidth_append_eq_right

theorem storeLow_storeLow {q : Quad} {w w' : Word} :
    (q.storeLow w).storeLow w' = q.storeLow w' := by
  have hhigh : (q.storeLow w).extractLsb' 32 32 = q.extractLsb' 32 32 := by
    rw [storeLow, BitVec.extractLsb'_append_eq_of_le le_rfl, Nat.sub_self,
      BitVec.extractLsb'_eq_self]
  rw [storeLow, hhigh, storeLow]

@[simp]
theorem low_signExtend {w : Word} : Quad.low (w.signExtend 64) = w := by
  apply BitVec.eq_of_getLsbD_eq
  intro i hi
  have hwide : i < 64 := by omega
  rw [low, BitVec.getLsbD_setWidth, BitVec.getLsbD_signExtend]
  simp [hi, hwide]

end Quad

end Htsynch
