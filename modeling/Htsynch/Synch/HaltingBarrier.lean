/-
# The halting barrier with its halts and interrupts

A waiter of `spin_barrier_lsense_cpuhalt_sendIPI` that finds the flag unpublished enters
`sys_cpu_halt` and executes `sti` and `hlt`. From then on it is up to an interrupt on its
processor to let it go on, and the only ones are those that whoever releases a round sends
to all other processors. They may take their time, and those that arrive together are
serviced together.

With the halts forgotten this is the barrier whose halted waiters may wake at any time.
-/

import Htsynch.Synch.HaltWakeup
import Htsynch.Synch.LsenseTermination

namespace Htsynch

open Foundations

/-- A thread at the barrier, and how far it is in `sys_cpu_halt` if it is there. -/
structure HaltingThread where
  barrier : LsenseThread
  stage : CpuHaltPc
  deriving DecidableEq

namespace HaltingThread

/-- The wait loop has called `sys_cpu_halt`. -/
def InKernel (t : HaltingThread) : Prop := t.barrier.pc = .wait .halted

instance (t : HaltingThread) : Decidable t.InKernel :=
  inferInstanceAs (Decidable (t.barrier.pc = .wait .halted))

/-- `hlt` has been executed. -/
def Halted (t : HaltingThread) : Prop := t.InKernel ∧ t.stage = .halted

instance (t : HaltingThread) : Decidable t.Halted :=
  inferInstanceAs (Decidable (_ ∧ _))

/-- A thread that has not called the barrier yet. -/
def start : HaltingThread := ⟨.start, .sti⟩

/-- An interrupt on the thread's processor: if it ends a halt, the system call returns to
the comparison of the loop. -/
def interrupted (t : HaltingThread) : HaltingThread :=
  if t.Halted then ⟨t.barrier.goto (.wait .poll), .sti⟩ else t

end HaltingThread

/-- The barrier, and the interrupts on their way to the processor of each thread. -/
structure HaltingShared (ι : Type) where
  barrier : SpinBarrier
  inFlight : ι → ℕ

/-- What a thread may do or suffer next. -/
inductive HaltingChoice
  /-- An instruction. `stray` is what it finds if it looks where the address was lost. -/
  | step (stray : Word)
  /-- Interrupts reach its processor. -/
  | deliver (left : ℕ)
  deriving DecidableEq

section

variable {ι : Type} [DecidableEq ι] {code : ι → ℕ → Inlined}

/-- `CPUCTRL_IOC_WAKEUP_ALLBUTSELF`. -/
def wakeupAllButSelf (who : ι) (inFlight : ι → ℕ) : ι → ℕ :=
  fun i => if i = who then inFlight i else inFlight i + 1

/-- `spin_barrier_lsense_cpuhalt_sendIPI` in user space and `sys_cpu_halt` in the kernel,
called `rounds` times. -/
def haltingBarrier (code : ι → ℕ → Inlined) (rounds : ℕ) :
    Program ι (HaltingShared ι) HaltingThread HaltingChoice
  | who, .step stray, sh, t =>
      if t.InKernel then (sysCpuHaltStep t.stage).map fun stage => (sh, { t with stage := stage })
      else (spinBarrierLsenseCpuhaltSendIPI code rounds who stray sh.barrier t.barrier).map fun r =>
        ({ barrier := r.1
           inFlight :=
             if t.barrier.pc = .ioctl then wakeupAllButSelf who sh.inFlight else sh.inFlight },
          ⟨r.2, .sti⟩)
  | who, .deliver left, sh, t =>
      if left < sh.inFlight who then
        some ({ sh with inFlight := Function.update sh.inFlight who left }, t.interrupted)
      else none

/-- What one step of a thread can be. -/
inductive HaltingMove (code : ι → ℕ → Inlined) (rounds : ℕ) (who : ι) (sh : HaltingShared ι)
    (t : HaltingThread) : HaltingChoice → HaltingShared ι → HaltingThread → Prop
  | user (stray : Word) (sb : SpinBarrier) (own : LsenseThread) (huser : ¬ t.InKernel)
      (hstep : lsenseBarrier code rounds .cpuhaltSendIPI who stray sh.barrier t.barrier =
        some (sb, own)) :
      HaltingMove code rounds who sh t (.step stray)
        ⟨sb, if t.barrier.pc = .ioctl then wakeupAllButSelf who sh.inFlight else sh.inFlight⟩
        ⟨own, .sti⟩
  | kernel (stray : Word) (stage : CpuHaltPc) (hin : t.InKernel)
      (hstep : sysCpuHaltStep t.stage = some stage) :
      HaltingMove code rounds who sh t (.step stray) sh { t with stage := stage }
  | wake (left : ℕ) (hleft : left < sh.inFlight who) (hhalted : t.Halted) :
      HaltingMove code rounds who sh t (.deliver left)
        { sh with inFlight := Function.update sh.inFlight who left }
        ⟨t.barrier.goto (.wait .poll), .sti⟩
  | serviced (left : ℕ) (hleft : left < sh.inFlight who) (hawake : ¬ t.Halted) :
      HaltingMove code rounds who sh t (.deliver left)
        { sh with inFlight := Function.update sh.inFlight who left } t

theorem haltingBarrier_cases {rounds : ℕ} {who : ι} {choice : HaltingChoice}
    {sh sh' : HaltingShared ι} {t t' : HaltingThread}
    (hstep : haltingBarrier code rounds who choice sh t = some (sh', t')) :
    HaltingMove code rounds who sh t choice sh' t' := by
  cases choice with
  | step stray =>
      by_cases hin : t.InKernel
      · simp only [haltingBarrier, if_pos hin, Option.map_eq_some_iff, Prod.mk.injEq] at hstep
        obtain ⟨stage, hstage, rfl, rfl⟩ := hstep
        exact .kernel stray stage hin hstage
      · simp only [haltingBarrier, if_neg hin, Option.map_eq_some_iff, Prod.exists,
          Prod.mk.injEq] at hstep
        obtain ⟨sb, own, hrun, rfl, rfl⟩ := hstep
        exact .user stray sb own hin hrun
  | deliver left =>
      simp only [haltingBarrier, Option.ite_none_right_eq_some, Option.some.injEq,
        Prod.mk.injEq] at hstep
      obtain ⟨hleft, rfl, rfl⟩ := hstep
      by_cases hhalted : t.Halted
      · rw [HaltingThread.interrupted, if_pos hhalted]
        exact .wake left hleft hhalted
      · rw [HaltingThread.interrupted, if_neg hhalted]
        exact .serviced left hleft hhalted

end

variable {n : ThreadCount} {code : Fin n.val → ℕ → Inlined} {rounds round : ℕ}
  {s t : Config (Fin n.val) (HaltingShared (Fin n.val)) HaltingThread} {i who : Fin n.val}
  {sh : HaltingShared (Fin n.val)} {own : HaltingThread} {choice : HaltingChoice}

/-- The barrier and all senses are initialised, nobody has called yet, and no interrupt is
on its way. -/
def haltingInit (n : ThreadCount)
    (s : Config (Fin n.val) (HaltingShared (Fin n.val)) HaltingThread) : Prop :=
  s.shared.barrier = spinBarrierInit n.word ∧ (∀ i, s.shared.inFlight i = 0) ∧
    ∀ i, s.threads i = .start

/-- `n` threads that each call the barrier `rounds` times. -/
def haltingSystem (n : ThreadCount) (code : Fin n.val → ℕ → Inlined) (rounds : ℕ) :
    System (Config (Fin n.val) (HaltingShared (Fin n.val)) HaltingThread)
      (Fin n.val × HaltingChoice) :=
  interleave (haltingInit n) (haltingBarrier code rounds)

/-- What is left of a state without halts and interrupts. -/
def userView (s : Config (Fin n.val) (HaltingShared (Fin n.val)) HaltingThread) :
    Config (Fin n.val) SpinBarrier LsenseThread where
  shared := s.shared.barrier
  threads i := (s.threads i).barrier

theorem userView_move :
    userView (s.move who sh own) = (userView s).move who sh.barrier own.barrier := by
  rw [userView, userView, Config.move, Config.move]
  refine congrArg (Config.mk _) (funext fun i => ?_)
  by_cases hi : i = who
  · subst i
    simp
  · simp [hi]

/-- Neither arrivals nor operands are lost. -/
def HaltingLosesNothing (code : Fin n.val → ℕ → Inlined)
    (s : Config (Fin n.val) (HaltingShared (Fin n.val)) HaltingThread)
    (label : Fin n.val × HaltingChoice) : Prop :=
  match label.2 with
  | .step stray => LosesNothing .cpuhaltSendIPI code (userView s) (label.1, stray)
  | .deliver _ => True

instance (code : Fin n.val → ℕ → Inlined) :
    ∀ (s : Config (Fin n.val) (HaltingShared (Fin n.val)) HaltingThread)
      (label : Fin n.val × HaltingChoice), Decidable (HaltingLosesNothing code s label) := by
  rintro s ⟨who, choice⟩
  cases choice with
  | step stray => exact inferInstanceAs (Decidable (LosesNothing _ _ _ _))
  | deliver left => exact inferInstanceAs (Decidable True)

/-- A step of the thread is a step of the barrier, a waiter being woken, or nothing. -/
theorem HaltingMove.view_step
    (hmove : HaltingMove code rounds who s.shared (s.threads who) choice sh own) :
    (∃ stray, (choice = .step stray ∨ (s.threads who).InKernel) ∧
        lsenseBarrier code rounds .cpuhaltSendIPI who stray s.shared.barrier
          (s.threads who).barrier = some (sh.barrier, own.barrier)) ∨
      sh.barrier = s.shared.barrier ∧ own.barrier = (s.threads who).barrier := by
  cases hmove with
  | user stray sb own huser hstep => exact .inl ⟨stray, .inl rfl, hstep⟩
  | kernel stray stage hin hstep => exact .inr ⟨rfl, rfl⟩
  | wake left hleft hhalted =>
      refine .inl ⟨0, .inr hhalted.1, ?_⟩
      have hpc : (s.threads who).barrier.pc = .wait .halted := hhalted.1
      simp [lsenseBarrier, hpc, LsenseVariant.waitLoop, spinOnConditionCpuhalt]
  | serviced left hleft hawake => exact .inr ⟨rfl, rfl⟩

/-- The barrier with its halts refines the one without. -/
theorem haltingSystem_simulates (n : ThreadCount) (code : Fin n.val → ℕ → Inlined) (rounds : ℕ) :
    System.Simulates (haltingSystem n code rounds) (HaltingLosesNothing code)
      (lsenseSystem .cpuhaltSendIPI n code rounds) (LosesNothing .cpuhaltSendIPI code)
      (fun s a => a = userView s) where
  init s hinit := by
    refine ⟨userView s, ⟨hinit.1, fun i => ?_⟩, rfl⟩
    show (s.threads i).barrier = .start
    rw [hinit.2.2 i]
    rfl
  step := by
    rintro s ⟨who, choice⟩ t _ rfl hallow hstep
    obtain ⟨sh, own, hrun, rfl⟩ := interleave_step_iff.mp hstep
    refine ⟨_, rfl, ?_⟩
    rw [userView_move]
    rcases (haltingBarrier_cases hrun).view_step with ⟨stray, hwho, hmove⟩ | ⟨hshared, hown⟩
    · refine .inr ⟨(who, stray), ?_, interleave_step_iff.mpr ⟨_, _, hmove, rfl⟩⟩
      rcases hwho with rfl | hin
      · exact hallow
      · -- what follows a halt is no reset and no call
        have hpc : ((userView s).threads who).pc = .wait .halted := hin
        exact ⟨fun hreset => absurd (hpc.symm.trans hreset) LsensePc.noConfusion,
          fun _ hpause => by rw [hpc] at hpause; cases hpause⟩
    · left
      rw [hshared, hown]
      exact Config.move_eq_self

theorem lsenseSound_of_halting
    (hreach : (haltingSystem n code rounds).ReachableVia (HaltingLosesNothing code) s) :
    LsenseSound .cpuhaltSendIPI code rounds (userView s) := by
  obtain ⟨_, hreach', rfl⟩ := (haltingSystem_simulates n code rounds).reachable hreach
  exact .of_reachable hreach'

end Htsynch
