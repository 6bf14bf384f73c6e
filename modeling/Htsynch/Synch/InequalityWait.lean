/-
# The inequality wait loops

All of them are to leave once `*spin_var >= condition_val`. The jump on entry says
so, the jump at the end of a turn does not: it goes back on equality as well. So a
loop that finds its bound met exactly, and finds so after the first comparison, goes
on spinning, while the kernel's loop with the same purpose returns.

The functions of `synch.h` compare 32 bits, the forms of `spin.h` 64. Those that halt
make a system call in every turn, and its result overwrites an operand that the
compiler has left in `rax`; the comparisons that follow then look for another bound,
or in another place.
-/

import Htsynch.Kernel.SpinWhileGreater
import Htsynch.Synch.WaitLoop

namespace Htsynch

open Foundations StateTransition

/-- The text of an inequality loop. -/
def ineqLoop (turn : List TurnInsn) : List Insn := waitLoop .jge .jle turn

/-- `spin_on_condition_ineq`. -/
def spinOnConditionIneq : List Insn := ineqLoop [.pause]

/-- `spin_on_condition_ineq_cpuhalt`. -/
def spinOnConditionIneqCpuhalt : List Insn := ineqLoop [.pause, .movRax 256, .syscall]

def SPIN_ON_CONDITION_INEQ : List Insn := ineqLoop [.pause]

def SPIN_ON_CONDITION_INEQ_CNT : List Insn := ineqLoop [.pause, .incCnt]

def SPIN_ON_CONDITION_INEQ_CPUHALT : List Insn := ineqLoop [.pause, .movRax 256, .syscall]

def SPIN_ON_CONDITION_INEQ_CPUHALT_CNT : List Insn :=
  ineqLoop [.pause, .movRax 256, .syscall, .incCnt]

def SPIN_ON_CONDITION_INEQ_HLT : List Insn := ineqLoop [.pause, .movRax 16, .syscall]

def SPIN_ON_CONDITION_INEQ_HLT_CNT : List Insn :=
  ineqLoop [.pause, .movRax 16, .syscall, .incCnt]

/-- The inequality loops of `synch.h` and `spin.h`. -/
inductive IneqVariant
  | function
  | functionCpuhalt
  | ineq
  | ineqCnt
  | ineqCpuhalt
  | ineqCpuhaltCnt
  | ineqHlt
  | ineqHltCnt
  deriving DecidableEq

namespace IneqVariant

/-- The text of each loop. -/
def program : IneqVariant → List Insn
  | function => spinOnConditionIneq
  | functionCpuhalt => spinOnConditionIneqCpuhalt
  | ineq => SPIN_ON_CONDITION_INEQ
  | ineqCnt => SPIN_ON_CONDITION_INEQ_CNT
  | ineqCpuhalt => SPIN_ON_CONDITION_INEQ_CPUHALT
  | ineqCpuhaltCnt => SPIN_ON_CONDITION_INEQ_CPUHALT_CNT
  | ineqHlt => SPIN_ON_CONDITION_INEQ_HLT
  | ineqHltCnt => SPIN_ON_CONDITION_INEQ_HLT_CNT

/-- `cmpl` in `synch.h`, `cmpq` in `spin.h`. -/
def width : IneqVariant → ℕ
  | function => 32
  | functionCpuhalt => 32
  | _ => 64

theorem width_le (v : IneqVariant) : v.width ≤ 64 := by
  cases v <;> decide

/-- What the system call before comparison `k` leaves in `rax`, if there is one. -/
def result {w : ℕ} (v : IneqVariant) (env : Surroundings w) (k : ℕ) : Option Quad :=
  match v with
  | function => none
  | functionCpuhalt => some env.cpuHalt
  | ineq => none
  | ineqCnt => none
  | ineqCpuhalt => some env.cpuHalt
  | ineqCpuhaltCnt => some env.cpuHalt
  | ineqHlt => some (env.ioctl k)
  | ineqHltCnt => some (env.ioctl k)

/-- The loop makes system calls. -/
def Halts : IneqVariant → Prop
  | function => False
  | ineq => False
  | ineqCnt => False
  | _ => True

/-- What the asm block of a loop lets the compiler choose: no operand in a register that the
block says it changes, and in `spin.h`, whose constraint is `"ib"`, `condition_val` in no
register but `rbx`. -/
structure Permits (v : IneqVariant) (a : Allocation v.width) : Prop where
  clobber : v.Halts → a.Permitted
  constraint : v.width = 64 → ∀ r, a.conditionVal = .reg r → r = .rbx

/-- The turn of each loop, and what it does to a register that its block does not name. -/
theorem exists_program_eq (v : IneqVariant) :
    ∃ turn, v.program = waitLoop .jge .jle turn ∧
      ∀ (env : Surroundings v.width) (k : ℕ) (c : Core) (r : Reg),
        (v.Halts → r ∉ Allocation.clobber) →
        (turnCore env turn k c).regs r = afterTurn (v.result env k) c.regs r := by
  cases v with
  | function => exact ⟨_, rfl, fun _ _ _ _ _ => (ite_self _).symm⟩
  | ineq => exact ⟨_, rfl, fun _ _ _ _ _ => (ite_self _).symm⟩
  | ineqCnt => exact ⟨_, rfl, fun _ _ _ _ _ => (ite_self _).symm⟩
  | _ =>
      refine ⟨_, rfl, fun env k c r hr => ?_⟩
      have hclobber := hr trivial
      cases r <;>
        simp_all [Allocation.clobber, turnCore, TurnInsn.exec, syscallRegs, afterTurn, result,
          NR_CPU_HALT]

end IneqVariant

/-- A call of `sys_mwmon_mmap_spin_while_greater` with the number of tests it has made. -/
structure FedCall where
  place : Option SpinWhilePc
  machine : Machine Unit
  polls : ℕ

/-- One step of a call that reads the values of a sequence: the long holds the next of
them, and no monitor holds the processor. -/
def fedStep (ptrs : Pointers) (localCondition : BitVec 64) (seen : ℕ → BitVec 64)
    (s : FedCall) : Option FedCall :=
  s.place.bind fun pc =>
    let fed : Machine Unit :=
      ⟨writeLong s.machine.mem ptrs.mwmonLintVarAddr (seen s.polls), fun _ => none⟩
    (sysMwmonMmapSpinWhileGreater ptrs localCondition () pc fed).map fun r =>
      ⟨r.2, r.1, if pc = .test then s.polls + 1 else s.polls⟩

/-- The kernel's loop returns after `k + 1` tests. -/
def KernelReturnsAt (ptrs : Pointers) (localCondition : BitVec 64) (seen : ℕ → BitVec 64)
    (machine : Machine Unit) (k : ℕ) : Prop :=
  ∃ s ∈ eval (fedStep ptrs localCondition seen) ⟨some .test, machine, 0⟩, s.polls = k + 1

section

variable {ptrs : Pointers} {localCondition : BitVec 64} {seen : ℕ → BitVec 64}
  {machine : Machine Unit} {k : ℕ}

/-- About to make test `k`. -/
def AboutTest (k : ℕ) (s : FedCall) : Prop := s.place = some .test ∧ s.polls = k

/-- Returned after test `k`. -/
def ReturnedAfter (k : ℕ) (s : FedCall) : Prop := s.place = none ∧ s.polls = k + 1

variable (ptrs localCondition seen machine) in
/-- A test reads the next value of the sequence. -/
theorem fedStep_test (n : ℕ) :
    ∃ m, fedStep ptrs localCondition seen ⟨some .test, machine, n⟩ =
      some ⟨some (if localCondition.toInt ≤ (seen n).toInt then .reset else .irqDisable), m,
        n + 1⟩ := by
  refine ⟨⟨writeLong machine.mem ptrs.mwmonLintVarAddr (seen n), fun _ => none⟩, ?_⟩
  simp only [fedStep, sysMwmonMmapSpinWhileGreater, readLong_writeLong, BitVec.slt_eq_decide,
    decide_eq_true_eq, Option.bind_some, Option.map_some, if_true]
  by_cases hread : localCondition.toInt ≤ (seen n).toInt
  · rw [if_pos hread, if_neg (Int.not_lt.mpr hread)]
  · rw [if_neg hread, if_pos (Int.not_le.mp hread)]

/-- The kernel's loop polls, and leaves once the long is at least its argument. -/
theorem polls_fedStep :
    RepeatsPoll (fun k => localCondition.toInt ≤ (seen k).toInt) (fedStep ptrs localCondition seen)
      AboutTest ReturnedAfter where
  miss k s habout hmiss := by
    obtain ⟨place, machine, polls⟩ := s
    obtain ⟨rfl, rfl⟩ : place = some .test ∧ polls = k := habout
    obtain ⟨m₁, htest⟩ := fedStep_test ptrs localCondition seen machine polls
    rw [if_neg hmiss] at htest
    obtain ⟨m₂, hdisable⟩ : ∃ m, fedStep ptrs localCondition seen
        ⟨some .irqDisable, m₁, polls + 1⟩ = some ⟨some .monitor, m, polls + 1⟩ := ⟨_, rfl⟩
    obtain ⟨m₃, hmonitor⟩ : ∃ m, fedStep ptrs localCondition seen
        ⟨some .monitor, m₂, polls + 1⟩ = some ⟨some .irqEnable, m, polls + 1⟩ := ⟨_, rfl⟩
    obtain ⟨m₄, henable⟩ : ∃ m, fedStep ptrs localCondition seen
        ⟨some .irqEnable, m₃, polls + 1⟩ = some ⟨some .mwait, m, polls + 1⟩ := ⟨_, rfl⟩
    obtain ⟨m₅, hmwait⟩ : ∃ m, fedStep ptrs localCondition seen
        ⟨some .mwait, m₄, polls + 1⟩ = some ⟨some .test, m, polls + 1⟩ := ⟨_, rfl⟩
    exact ⟨⟨some .test, m₅, polls + 1⟩, ⟨rfl, rfl⟩,
      .head htest (.head hdisable (.head hmonitor (.head henable (.single hmwait))))⟩
  last k s habout hhit := by
    obtain ⟨place, machine, polls⟩ := s
    obtain ⟨rfl, rfl⟩ : place = some .test ∧ polls = k := habout
    obtain ⟨m₁, htest⟩ := fedStep_test ptrs localCondition seen machine polls
    rw [if_pos hhit] at htest
    obtain ⟨m₂, hreset⟩ : ∃ m, fedStep ptrs localCondition seen
        ⟨some .reset, m₁, polls + 1⟩ = some ⟨none, m, polls + 1⟩ := ⟨_, rfl⟩
    exact ⟨⟨none, m₂, polls + 1⟩, ⟨rfl, rfl⟩, .head htest (.single hreset)⟩
  stop k s hend := by
    simp [fedStep, hend.1]

/-- The kernel's loop returns on the first value that is at least its argument. -/
theorem kernelReturnsAt_iff :
    KernelReturnsAt ptrs localCondition seen machine k ↔
      FirstHit (fun k => localCondition.toInt ≤ (seen k).toInt) k :=
  polls_fedStep.exists_mem_eval_iff ⟨rfl, rfl⟩ fun _ _ hend => hend.2

end

/-- Comparison `k` is made with `*spin_var >= condition_val`. -/
def ReachesBound {w : ℕ} (a : Allocation w) (env : Surroundings w) (core : Core) (k : ℕ) : Prop :=
  (condition a core).toInt ≤ (env.mem k (address a core)).toInt

instance {w : ℕ} (a : Allocation w) (env : Surroundings w) (core : Core) :
    DecidablePred (ReachesBound a env core) :=
  fun _ => inferInstanceAs (Decidable (_ ≤ _))

section

variable {v : IneqVariant} {a : Allocation v.width} {env : Surroundings v.width} {core : Core}
  {ptrs : Pointers} {machine : Machine Unit} {k : ℕ}

/-- What the comment on the loops promises: a loop returns on the first comparison that
finds `*spin_var >= condition_val`, hence no later than any comparison that does, and
where the kernel's loop returns when it reads the same values. -/
structure ExitsAtBound (v : IneqVariant) (a : Allocation v.width) (env : Surroundings v.width)
    (core : Core) (ptrs : Pointers) (machine : Machine Unit) : Prop where
  first : ∀ k, ReturnsAt v.program a.operands env core k ↔
    FirstHit (ReachesBound a env core) k
  ended : ∀ k, ReachesBound a env core k →
    ∃ j ≤ k, ReturnsAt v.program a.operands env core j
  kernel : ∀ k, ReturnsAt v.program a.operands env core k ↔
    KernelReturnsAt ptrs ((condition a core).signExtend 64)
      (fun k => (env.mem k (address a core)).signExtend 64) machine k

/-- After a turn comparison `k` is made with a value beyond the bound. Value and bound are
those that the call of the turn leaves to compare. -/
def ExceedsBound (a : Allocation v.width) (env : Surroundings v.width) (core : Core) (k : ℕ) :
    Prop :=
  0 < k ∧ (a.conditionAfter (v.result env k) (condition a core)).toInt <
    (env.mem k (a.addressAfter (v.result env k) (address a core))).toInt

/-- Where the loops really return: the comparison on entry ends them on equality too, the
others only beyond the bound. -/
theorem returnsAt_ineq (hperm : v.Permits a) (k : ℕ) :
    ReturnsAt v.program a.operands env core k ↔
      FirstHit (fun k => k = 0 ∧ ReachesBound a env core 0 ∨ ExceedsBound a env core k) k := by
  obtain ⟨turn, hprogram, hturn⟩ := v.exists_program_eq
  rw [hprogram, returnsAt_waitLoop]
  refine firstHit_congr (fun j => ?_) k
  cases j with
  | zero =>
      rw [Leaves, if_pos rfl, flagsAt, jge_taken]
      simp [ReachesBound, ExceedsBound, addressAt, coreAt]
  | succ j =>
      have hregs (k : ℕ) (r : Reg) (hr : a.spinVar = r ∨ a.conditionVal = .reg r) :
          (coreAt turn env core (k + 1)).regs r =
            afterTurn (v.result env (k + 1)) core.regs r := by
        refine coreAt_regs (v.result env) (fun k c => hturn env k c r fun hhalts => ?_) (fun k => ?_) k
        · rcases hr with rfl | hreg
          · exact (hperm.clobber hhalts).spinVar
          · exact fun hr => (hperm.clobber hhalts).conditionVal r hr hreg
        · cases v <;> rfl
      have hoperands := operandsAt_turn (v.result env) hregs j
      rw [Leaves, if_neg (Nat.succ_ne_zero j), flagsAt, Bool.eq_false_iff, ne_eq, jle_taken,
        Int.not_le, hoperands.1, hoperands.2]
      simp [ExceedsBound]

/-- The kernel's loop returns on the first comparison that finds the bound reached. -/
theorem kernelReturnsAt_signExtend (k : ℕ) :
    KernelReturnsAt ptrs ((condition a core).signExtend 64)
        (fun k => (env.mem k (address a core)).signExtend 64) machine k ↔
      FirstHit (ReachesBound a env core) k := by
  rw [kernelReturnsAt_iff]
  simp only [BitVec.toInt_signExtend_of_le v.width_le]
  rfl

/-- The promise is a matter of where the loop returns. -/
theorem exitsAtBound_iff_firstHit (hperm : v.Permits a) :
    ExitsAtBound v a env core ptrs machine ↔
      ∀ k, FirstHit (fun k => k = 0 ∧ ReachesBound a env core 0 ∨ ExceedsBound a env core k) k ↔
        FirstHit (ReachesBound a env core) k := by
  constructor
  · intro hexits k
    exact (returnsAt_ineq hperm k).symm.trans (hexits.first k)
  · intro hsame
    have hfirst (k : ℕ) : ReturnsAt v.program a.operands env core k ↔
        FirstHit (ReachesBound a env core) k :=
      (returnsAt_ineq hperm k).trans (hsame k)
    refine ⟨hfirst, fun k hk => ?_, fun k => (hfirst k).trans (kernelReturnsAt_signExtend k).symm⟩
    obtain ⟨j, hj, hhit⟩ := @exists_firstHit_le (ReachesBound a env core) k hk
    exact ⟨j, hj, (hfirst j).mpr hhit⟩

/-- Where no call has touched the operands, a comparison beyond the bound is one that finds it
reached but not met. -/
theorem exceedsBound_iff_of_kept
    (hkept : v.Halts → a.spinVar ≠ .rax ∧ a.conditionVal ≠ .reg .rax) (hk : 0 < k) :
    ExceedsBound a env core k ↔
      ReachesBound a env core k ∧ env.mem k (address a core) ≠ condition a core := by
  have hsame : a.addressAfter (v.result env k) (address a core) = address a core ∧
      a.conditionAfter (v.result env k) (condition a core) = condition a core := by
    rw [Allocation.addressAfter, Allocation.conditionAfter]
    by_cases hhalts : v.Halts
    · exact ⟨if_neg (hkept hhalts).1, if_neg (hkept hhalts).2⟩
    · have hnone : v.result env k = none := by
        cases v <;> simp_all [IneqVariant.Halts, IneqVariant.result]
      simp [hnone]
  rw [ExceedsBound, hsame.1, hsame.2, ReachesBound, ne_eq, ← BitVec.toInt_inj]
  omega

end

/-- A counter that is 0 on entry and `n` ever after. -/
def rises (n : Word) : Surroundings 32 :=
  ⟨fun k _ => if k = 0 then 0 else n, sysCpuHalt, fun _ => 0, fun _ => 0, fun _ => 0⟩

/-- The pointer registers hold 4096, `rax` holds `n`. -/
def raxHolds (n : Quad) : Core := ⟨fun r => if r = .rax then n else 4096, 0⟩

/-- The kernel's processor before it has armed a monitor. -/
def unarmed : Machine Unit := ⟨fun _ => MWMON_ORIGINAL_VAL, fun _ => none⟩

end Htsynch
