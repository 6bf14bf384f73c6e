/-
# How far the test programs are from their end

A thread waits in three kinds of loops: in a sleep call for the notification, at the barrier
for the other thread, and in `mwmon_mmap_spin_while_greater` for the notifier's count. A step
or an interrupt either does some of the work that is left, or goes on in one of these loops
and leaves what the other thread sees as it is.
-/

import Htsynch.Synch.LoopTurns
import Htsynch.ThreadTest.Counting

namespace Htsynch

open Foundations

/-- How far a thread is from its end. -/
def TestPlace.left (printed : ℕ) : TestPlace → ℕ
  | .loop i => 2 * (END_TIME - i) + 93
  | .asleep i => 2 * (END_TIME - i) + 92
  | .look => 92
  | .barrier => 91
  | .second i => 2 * (20 - i) + 1
  | .spinning i => 2 * (20 - i)
  | .clear => 82
  | .load => 4 * (20 - printed) + 3
  | .store _ => 4 * (20 - printed) + 2
  | .test => 4 * (20 - printed) + 1
  | .print => 4 * (20 - printed)
  | .exited => 0

namespace TestThread

variable (b : ThreadTest) (sh : TestShared) (t : TestThread)

/-- The work left, in the function and in the barrier. -/
def work : ℕ := t.place.left t.printed.length + t.barrier.work Spin.SpinPc.left 11 1

/-- What is left of a loop while the memory and the barrier stay as they are. -/
def turns : ℕ :=
  match t.kernel.activity with
  | .user => Spin.spinTurns sh.barrier t.barrier
  | .asleep call pc =>
      if sh.machine.mem (call.target b.ptrs) = MWMON_NOTIFIED_VAL then pc.turns else 0
  | .spinning cond place _ =>
      if cond.toInt ≤ (readLong sh.machine.mem b.ptrs.mwmonLintVarAddr).toInt then place.turns
      else 0

theorem turns_le : t.turns b sh ≤ 6 := by
  unfold turns
  cases t.kernel.activity with
  | user => exact (Spin.spinTurns_le _ _).trans (by decide)
  | asleep call pc =>
      dsimp only
      split
      · exact (SleepPc.turns_le pc).trans (by decide)
      · exact Nat.zero_le 6
  | spinning cond place reads =>
      dsimp only
      split
      · exact SpinPlace.turns_le place
      · exact Nat.zero_le 6

/-- The thread waits for a store of the other one. -/
def Stuck : Prop :=
  match t.kernel.activity with
  | .user => Spin.Stuck sh.barrier t.barrier
  | .asleep call pc =>
      pc ≠ .reset ∧ sh.machine.mem (call.target b.ptrs) ≠ MWMON_NOTIFIED_VAL
  | .spinning cond place _ =>
      place ≠ .shared .reset ∧
        (readLong sh.machine.mem b.ptrs.mwmonLintVarAddr).toInt < cond.toInt

/-- The thread is in the MWAIT that only an interrupt ends. -/
def AtMwait : Prop := ∃ cond reads, t.kernel.activity = .spinning cond (.shared .mwait) reads

end TestThread

/-- The loops of a test program. -/
def testLoops (b : ThreadTest) : Loops TestId TestShared TestThread where
  Active t := t.place ≠ .exited
  Stuck sh _ t := t.Stuck b sh
  work := TestThread.work
  turns sh t := t.turns b sh
  bound := 6
  turns_le sh t := t.turns_le b sh

variable {b : ThreadTest} {c : TestId} {sh sh' : TestShared} {t t' : TestThread}

theorem testLoops_turns : (testLoops b).turns sh t = t.turns b sh := rfl

/-- The memory has not changed, nor anything that the loops of the barrier look at. -/
theorem testLoops_unmoved (hmem : sh'.machine.mem = sh.machine.mem)
    (hbarrier : (Spin.spinLoops 1).Unmoved c sh.barrier sh'.barrier) :
    (testLoops b).Unmoved c sh sh' where
  turns_eq t := by
    show t.turns b sh' = t.turns b sh
    unfold TestThread.turns
    rw [hmem]
    cases t.kernel.activity with
    | user => exact hbarrier.turns_eq t.barrier
    | _ => rfl
  stuck := by
    intro j hj t hstuck
    show t.Stuck b sh
    have hstuck' : t.Stuck b sh' := hstuck
    unfold TestThread.Stuck at hstuck' ⊢
    rw [hmem] at hstuck'
    cases hactivity : t.kernel.activity with
    | user =>
        rw [hactivity] at hstuck'
        exact hbarrier.stuck j hj t.barrier hstuck'
    | _ => rwa [hactivity] at hstuck'

/-- Work in the function. -/
theorem testLoops_works (hbarrier : t'.barrier = t.barrier)
    (hleft : t'.place.left t'.printed.length < t.place.left t.printed.length) :
    (testLoops b).work t' < (testLoops b).work t := by
  show t'.work < t.work
  unfold TestThread.work
  rw [hbarrier]
  exact Nat.add_lt_add_right hleft _

/-- In user space a thread waits as the barrier has it. -/
theorem stuck_iff_of_user (huser : t.kernel.activity = .user) :
    t.Stuck b sh ↔ Spin.Stuck sh.barrier t.barrier := by
  simp only [TestThread.Stuck, huser]

/-- A step in the barrier that does not lead out of it. -/
theorem advances_inside {sb : Spin.SpinBarrier} {own : Spin.SpinThread}
    (huser : t.kernel.activity = .user) (hplace : t.place = .barrier)
    (hadvances : (Spin.spinLoops (ι := TestId) 1).Advances True c sh.barrier t.barrier sb own) :
    (testLoops b).Advances True c sh t { sh with barrier := sb } { t with
      barrier := own
      place := .barrier } := by
  have hturns (own : Spin.SpinThread) :
      (testLoops b).turns sh { t with barrier := own, place := .barrier } =
        Spin.spinTurns sh.barrier own := by
    simp only [testLoops_turns, TestThread.turns, huser]
  have hbefore : { t with barrier := t.barrier, place := .barrier } = t := by
    rw [← hplace]
  cases hadvances with
  | works h =>
      refine .works ?_
      show TestPlace.left _ _ + _ < TestPlace.left _ _ + _
      rw [hplace]
      exact Nat.add_lt_add_left h _
  | turns hwork hshared h =>
      refine .turns ?_ (testLoops_unmoved rfl hshared) ?_
      · show TestPlace.left _ _ + _ = TestPlace.left _ _ + _
        rw [hplace]
        exact congrArg _ hwork
      · have hlast := hturns t.barrier
        rw [hbefore] at hlast
        rw [hturns, hlast]
        exact h
  | waits hwork hshared h hwaits =>
      refine .waits ?_ (testLoops_unmoved rfl hshared) ?_ ((stuck_iff_of_user huser).mpr hwaits)
      · show TestPlace.left _ _ + _ = TestPlace.left _ _ + _
        rw [hplace]
        exact congrArg _ hwork
      · have hlast := hturns t.barrier
        rw [hbefore] at hlast
        rw [hturns, hlast]
        exact h
  | passes hother => exact absurd trivial hother

/-- A step in the barrier. -/
theorem advances_barrier {next : TestPlace} {sb : Spin.SpinBarrier}
    {own : Spin.SpinThread} (huser : t.kernel.activity = .user) (hplace : t.place = .barrier)
    (hnext : c.val = 0 ∧ next = .second 10 ∨ c.val ≠ 0 ∧ next = .clear)
    (hadvances : (Spin.spinLoops (ι := TestId) 1).Advances True c sh.barrier t.barrier sb own) :
    (testLoops b).Advances True c sh t { sh with barrier := sb } { t with
      barrier := own
      place := if own.pc = .outside then next else .barrier } := by
  by_cases hout : own.pc = .outside
  · rw [if_pos hout]
    have hwork : own.work Spin.SpinPc.left 11 1 ≤ t.barrier.work Spin.SpinPc.left 11 1 := by
      cases hadvances with
      | works h => exact h.le
      | turns hwork => exact hwork.le
      | waits hwork => exact hwork.le
      | passes hother => exact absurd trivial hother
    have hleft : next.left t.printed.length < t.place.left t.printed.length := by
      rw [hplace]
      rcases hnext with ⟨-, rfl⟩ | ⟨-, rfl⟩
      · exact show 21 < 91 by decide
      · exact show 82 < 91 by decide
    exact .works (Nat.add_lt_add_of_lt_of_le hleft hwork)
  · rw [if_neg hout]
    exact advances_inside huser hplace hadvances

/-- A step of a call. -/
theorem CallRun.advances {i : ℕ} {back : TestPlace} {machine : Machine TestId}
    {kernel : SpinThread} (hok : t.Ok b c)
    (hplace : t.place = .asleep i ∧ back = .loop (i + 1) ∨
      t.place = .spinning i ∧ back = .second (i + 1))
    (hrun : CallRun b.kernel.version b.ptrs c sh.machine t.kernel machine kernel) :
    (testLoops b).Advances True c sh t { sh with machine := machine } { t with
      kernel := kernel
      place := if kernel.activity = .user then back else t.place } := by
  have hleft : back.left t.printed.length < t.place.left t.printed.length := by
    have hof := hok.place_of
    rcases hplace with ⟨hplace, rfl⟩ | ⟨hplace, rfl⟩
    · rw [hplace] at hof ⊢
      obtain ⟨-, rfl⟩ := hof
      exact show 121 < 122 by decide
    · rw [hplace] at hof ⊢
      have hi := hof.2.2
      show 2 * (20 - (i + 1)) + 1 < 2 * (20 - i)
      omega
  cases hrun with
  | awakes call hactivity =>
      rw [if_pos rfl]
      exact .works (testLoops_works rfl hleft)
  | returns cond reads hactivity =>
      rw [if_pos rfl]
      exact .works (testLoops_works rfl hleft)
  | sleeps call pc pc' h' hactivity hmove =>
      rw [if_neg (by simp)]
      have hunmoved : (testLoops b).Unmoved c sh { sh with machine := machine } :=
        testLoops_unmoved (hmove.mem_eq rfl) (.refl _ _)
      by_cases hbyte : sh.machine.mem (call.target b.ptrs) = MWMON_NOTIFIED_VAL
      · refine .turns rfl hunmoved ?_
        simp only [testLoops_turns, TestThread.turns, hactivity, if_pos hbyte]
        exact hmove.turns_lt rfl hbyte
      · refine .waits rfl hunmoved ?_ ?_
        · simp only [testLoops_turns, TestThread.turns, hactivity, if_neg hbyte]
        · show t.Stuck b sh
          simp only [TestThread.Stuck, hactivity]
          exact ⟨hmove.ne_reset rfl, hbyte⟩
  | spins cond place place' reads h' hactivity hspin =>
      rw [if_neg (by simp)]
      have hunmoved : (testLoops b).Unmoved c sh { sh with machine := machine } :=
        testLoops_unmoved (hspin.mem_eq rfl) (.refl _ _)
      by_cases hlong : cond.toInt ≤ (readLong sh.machine.mem b.ptrs.mwmonLintVarAddr).toInt
      · refine .turns rfl hunmoved ?_
        simp only [testLoops_turns, TestThread.turns, hactivity, if_pos hlong]
        exact hspin.turns_lt rfl hlong
      · refine .waits rfl hunmoved ?_ ?_
        · simp only [testLoops_turns, TestThread.turns, hactivity, if_neg hlong]
        · show t.Stuck b sh
          simp only [TestThread.Stuck, hactivity]
          exact ⟨hspin.ne_reset rfl, not_le.mp hlong⟩

/-- Every step of a thread advances it. -/
theorem TestMove.advances (hok : t.Ok b c)
    (hbarrier : ∀ sb own, Spin.lsenseBarrier 1 c () sh.barrier t.barrier = some (sb, own) →
      (Spin.spinLoops (ι := TestId) 1).Advances True c sh.barrier t.barrier sb own)
    (hprint : t.place = .print → t.printed.length < 20) (hmove : TestMove b c sh t sh' t') :
    (testLoops b).Advances True c sh t sh' t' := by
  cases hmove with
  | barrier next sb own hplace hnext hrun =>
      exact advances_barrier (hok.fits.user_of (by rw [hplace]; rfl)) hplace hnext
        (hbarrier sb own hrun)
  | call i back machine kernel hrole hplace hrun =>
      exact (callRun_of_step hrun).advances hok hplace
  | turn i hplace hi =>
      refine .works (testLoops_works rfl ?_)
      rw [hplace]
      show 2 * (END_TIME - (i + 1)) + 93 < 2 * (END_TIME - i) + 93
      omega
  | finish i hplace hi =>
      refine .works (testLoops_works rfl ?_)
      rw [hplace, TestThread.goto_place]
      rcases b.afterLoop_cases with ⟨-, heq⟩ | heq
      · rw [heq]
        exact Nat.lt_add_left _ (Nat.lt_succ_self 92)
      · rw [heq]
        exact Nat.succ_pos _
  | sleep hrole hplace =>
      refine .works (testLoops_works rfl ?_)
      rw [hplace]
      exact Nat.lt_succ_self _
  | notify hrole hplace =>
      refine .works (testLoops_works rfl ?_)
      rw [hplace]
      exact show 111 < 113 by decide
  | look hplace =>
      refine .works (testLoops_works rfl ?_)
      rw [hplace]
      rcases b.afterLook_cases with ⟨-, heq⟩ | ⟨-, heq⟩
      · rw [heq]
        exact Nat.lt_succ_self 91
      · rw [heq]
        exact Nat.succ_pos 91
  | spin i cond hrole hplace =>
      refine .works (testLoops_works rfl ?_)
      rw [hplace]
      exact Nat.lt_succ_self _
  | stray i call hrole hplace =>
      refine .works (testLoops_works rfl ?_)
      rw [hplace]
      exact Nat.lt_succ_self _
  | leave i hrole hplace =>
      refine .works (testLoops_works rfl ?_)
      rw [hplace]
      exact Nat.succ_pos _
  | clear hrole hplace =>
      refine .works (testLoops_works rfl ?_)
      rw [hplace]
      show 4 * (20 - t.printed.length) + 1 < 82
      omega
  | test hrole hplace =>
      refine .works (testLoops_works rfl ?_)
      rw [hplace, TestThread.goto_place]
      split
      · exact Nat.lt_succ_self _
      · exact Nat.succ_pos _
  | print hrole hplace =>
      refine .works (testLoops_works rfl ?_)
      have hless := hprint hplace
      rw [hplace]
      show 4 * (20 - (t.printed ++ [_]).length) + 3 < 4 * (20 - t.printed.length)
      rw [List.length_append, List.length_singleton]
      omega
  | load hrole hplace =>
      refine .works (testLoops_works rfl ?_)
      rw [hplace]
      exact Nat.lt_succ_self _
  | store v hrole hplace =>
      refine .works (testLoops_works rfl ?_)
      rw [hplace]
      exact Nat.lt_succ_self _

/-- The thread after an interrupt. -/
abbrev TestThread.interrupted (t : TestThread) (i : Interrupt) : TestThread :=
  { t with kernel := { t.kernel with activity := i.onSpinActivity t.kernel.activity } }

theorem interrupted_turns_le (i : Interrupt) : (t.interrupted i).turns b sh ≤ t.turns b sh := by
  unfold TestThread.turns
  rw [TestThread.interrupted]
  rcases i.onSpinActivity_cases t.kernel.activity with hsame | ⟨call, hactivity, hwake⟩ |
      ⟨cond, reads, -, hactivity, htest⟩
  · rw [hsame]
  · rw [hwake, hactivity]
    dsimp only
    split
    · decide
    · exact le_rfl
  · rw [htest, hactivity]
    dsimp only
    split
    · decide
    · exact le_rfl

/-- An interrupt advances nobody, and makes nobody wait. -/
theorem interrupt_advances {mine : Prop} (hother : ¬ mine) (i : Interrupt) :
    (testLoops b).Advances mine c sh t { sh with machine := i.onMachine c sh.machine }
      (t.interrupted i) := by
  refine .passes hother rfl (testLoops_unmoved Interrupt.onMachine_mem (.refl _ _))
    (interrupted_turns_le i) id fun hstuck => ?_
  have hafter : (t.interrupted i).Stuck b
      { sh with machine := i.onMachine c sh.machine } := hstuck
  show t.Stuck b sh
  unfold TestThread.Stuck at hafter ⊢
  rw [Interrupt.onMachine_mem] at hafter
  rw [TestThread.interrupted] at hafter
  rcases i.onSpinActivity_cases t.kernel.activity with hsame | ⟨call, hactivity, hwake⟩ |
      ⟨cond, reads, -, hactivity, htest⟩
  · rwa [hsame] at hafter
  · rw [hwake] at hafter
    rw [hactivity]
    exact ⟨by simp, hafter.2⟩
  · rw [htest] at hafter
    rw [hactivity]
    exact ⟨by simp, hafter.2⟩

/-- An interrupt that ends a wait that need not be shortens the loop. -/
theorem interrupted_turns_lt {i : Interrupt} (hwakes : i.wakes = true) (hat : t.AtMwait)
    (hfree : ¬ t.Stuck b sh) : (t.interrupted i).turns b sh < t.turns b sh := by
  obtain ⟨cond, reads, hactivity⟩ := hat
  have hlong : cond.toInt ≤ (readLong sh.machine.mem b.ptrs.mwmonLintVarAddr).toInt := by
    by_contra hless
    refine hfree ?_
    simp only [TestThread.Stuck, hactivity]
    exact ⟨by simp, not_le.mp hless⟩
  unfold TestThread.turns
  rw [TestThread.interrupted, hactivity]
  simp only [Interrupt.onSpinActivity, hwakes, ↓reduceIte, if_pos hlong]
  decide

end Htsynch
