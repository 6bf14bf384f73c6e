/-
# Two packages

Two pairs of threads share the monitored page, one pair for each package: the first calls
`mwait_barrier` on its barrier, the second `mwait_barrier2` on another one. Each thread has
a processor of its own. User space notifies through its mapping of the page, the kernel
sleeps at its own addresses. Between calls a thread may store to the long in the page, and
so may any other processor at any time.

A pair can see its barrier, its own line and the monitors of its own processors. Nothing
that happens outside the pair touches these, so that erasing the other pair's steps leaves
a run of this pair, which reads the same values and is woken by the same stores.
-/

import Htsynch.Foundations.LineAgreement
import Htsynch.Foundations.Unwinding
import Htsynch.Kernel.UserMapping
import Htsynch.MwaitBarrier.Program

namespace Htsynch

open Foundations

/-- A thread: its package, and which of the two it is. -/
abbrev PackageThread := Region × Fin 2

/-- A processor: that of a thread, or another one. -/
abbrev PackageCpu := Option PackageThread

/-- The two barriers, and the machine. -/
structure PackagesShared where
  barriers : Region → MwaitBarrier
  machine : Machine PackageCpu

namespace PackagesShared

/-- What a pair works on. -/
def pair (sh : PackagesShared) (r : Region) : BarrierShared PackageCpu :=
  ⟨sh.barriers r, sh.machine⟩

/-- What a pair has worked on is put back. -/
def put (sh : PackagesShared) (r : Region) (pair : BarrierShared PackageCpu) :
    PackagesShared :=
  ⟨Function.update sh.barriers r pair.barrier, pair.machine⟩

end PackagesShared

abbrev PackagesConfig := Config PackageThread PackagesShared BarrierThread

/-- One step of a thread in the barrier of its package. It notifies through the
mapping. -/
def packageBarrier (m : DeviceMapping) (rounds : Region → ℕ) :
    Program PackageThread PackagesShared BarrierThread (Option Interrupt)
  | who, choice, sh, t =>
      match choice, t.pc with
      | none, .notify =>
          (m.userStore (some who) (m.userByte who.1) MWMON_NOTIFIED_VAL sh.machine).map
            fun machine => ({ sh with machine := machine }, t.goto .dec)
      | _, _ =>
          (who.1.barrier m.ptrs (rounds who.1) (some who) choice (sh.pair who.1) t).map
            fun a => (sh.put who.1 a.1, a.2)

/-- What happens next: a step of a thread in its barrier, or a store to the long. -/
inductive PackageLabel
  | thread (who : PackageThread) (choice : Option Interrupt)
  | lint (c : PackageCpu) (v : BitVec 64)
  deriving DecidableEq

namespace PackageLabel

/-- The pair that takes the step. -/
def package : PackageLabel → Option Region
  | thread who _ => some who.1
  | lint c _ => c.map Prod.fst

/-- The step is an instruction of a thread or a store, and no interrupt. -/
def executes : PackageLabel → Bool
  | thread _ choice => choice.isNone
  | lint _ _ => true

end PackageLabel

/-- A processor stores to the long if it does not run a thread that is in a call. -/
def MayStoreLint (s : PackagesConfig) : PackageCpu → Prop
  | none => True
  | some who => (s.threads who).pc = .outside

instance (s : PackagesConfig) : DecidablePred (MayStoreLint s)
  | none => inferInstanceAs (Decidable True)
  | some who => inferInstanceAs (Decidable ((s.threads who).pc = .outside))

/-- One step of the two pairs. -/
def packagesNext (m : DeviceMapping) (rounds : Region → ℕ) (s : PackagesConfig) :
    PackageLabel → Option PackagesConfig
  | .thread who choice => (packageBarrier m rounds).next s (who, choice)
  | .lint c v =>
      if MayStoreLint s c then
        (m.userStoreLong c m.lintCounterAddr v s.shared.machine).map fun machine =>
          { s with shared := { s.shared with machine := machine } }
      else none

/-- Both barriers are initialised for two threads, both bytes are at their original value,
and nobody has called yet. -/
def packagesInit (m : DeviceMapping) (s : PackagesConfig) : Prop :=
  (∀ r, ∃ b, s.shared.barriers r = mwaitBarrierInit b ThreadCount.two.word) ∧
    (∀ r : Region, s.shared.machine.mem (r.byte m.ptrs) = MWMON_ORIGINAL_VAL) ∧
    ∀ who, s.threads who = .start

/-- Two pairs that each call the barrier of their package so many times. -/
def packagesSystem (m : DeviceMapping) (rounds : Region → ℕ) :
    System PackagesConfig PackageLabel :=
  .ofNext (packagesInit m) (packagesNext m rounds)

/-- The value that a thread loads with its next instruction, if it loads one. -/
def BarrierThread.loads {ι : Type} (t : BarrierThread) (p : Addr) (sh : BarrierShared ι) :
    Option (Word ⊕ Byte) :=
  match t.pc with
  | .outside => some (.inl sh.barrier.initCount)
  | .lock _ => some (.inl sh.barrier.lock)
  | .load => some (.inl sh.barrier.gathered)
  | .test => some (.inl sh.barrier.gathered)
  | .sleep .check => some (.inr (sh.machine.mem p))
  | .sleep .recheck => some (.inr (sh.machine.mem p))
  | .dec => some (.inl sh.barrier.gathered)
  | _ => none

/-- The value that a step reads. -/
def valueRead (m : DeviceMapping) (s : PackagesConfig) : PackageLabel → Option (Word ⊕ Byte)
  | .thread who none => (s.threads who).loads (who.1.byte m.ptrs) (s.shared.pair who.1)
  | _ => none

/-- The step stores and thereby lets go of a thread that MWAIT holds. -/
def WakesByStore (m : DeviceMapping) (rounds : Region → ℕ) (x : PackagesConfig × PackageLabel)
    (who : PackageThread) : Prop :=
  x.2.executes = true ∧ (x.1.threads who).pc = .sleep .mwait ∧
    x.1.shared.machine.Blocks (some who) ∧
    ∃ t, packagesNext m rounds x.1 x.2 = some t ∧ ¬ t.shared.machine.Blocks (some who)

/-- The other package. -/
def Region.other : Region → Region
  | .first => .second
  | .second => .first

section

variable {m : DeviceMapping} {rounds : Region → ℕ} {r r' : Region} {s : PackagesConfig}

/-- Behind the mapping, the steps are those of the barrier at the kernel's addresses. -/
theorem packageBarrier_eq (who : PackageThread) (choice : Option Interrupt)
    (sh : PackagesShared) (t : BarrierThread) :
    packageBarrier m rounds who choice sh t =
      (barrierCall who.1 m.ptrs (rounds who.1) (some who) choice (sh.pair who.1) t).map
        fun a => (sh.put who.1 a.1, a.2) := by
  cases choice with
  | some i => simp only [packageBarrier, Region.barrier_eq]
  | none =>
      cases hpc : t.pc with
      | notify =>
          simp [packageBarrier, barrierCall, hpc, DeviceMapping.userStore,
            m.translate_userByte, PackagesShared.put, PackagesShared.pair]
      | _ => simp only [packageBarrier, hpc, Region.barrier_eq]

end

end Htsynch
