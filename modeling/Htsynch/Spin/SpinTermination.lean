/-
# Everybody leaves the barrier of spin.c

The barrier has two loops to wait in: for the lock, and for the sense. In a fair run of
any number of threads none of them is gone round for ever, so all calls return, and the
barrier is left as the next call expects it.
-/

import Htsynch.Foundations.BusyWaiting
import Htsynch.Spin.SpinRendezvous
import Htsynch.Synch.LoopTurns

namespace Htsynch.Spin

open Foundations

/-- The places a thread has still to pass before its call returns. -/
def SpinPc.left : SpinPc → ℕ
  | .outside => 11
  | .lock _ => 10
  | .load => 9
  | .store _ => 8
  | .read => 7
  | .reset => 6
  | .release => 5
  | .unlock => 4
  | .wait _ => 3

/-- What is left of a loop while the lock and the flag stay as they are. -/
def spinTurns (sb : SpinBarrier) (t : SpinThread) : ℕ :=
  match t.pc with
  | .lock pc => pc.turns (sb.lock.low = 0)
  | .wait pc => pc.turns (sb.releaseFlag.low = t.lsense)
  | _ => 0

theorem spinTurns_le (sb : SpinBarrier) (t : SpinThread) : spinTurns sb t ≤ 2 := by
  unfold spinTurns
  cases t.pc with
  | lock pc => exact (LockPc.turns_le pc).trans (by decide)
  | wait pc => exact WaitPc.turns_le pc
  | _ => exact Nat.zero_le 2

/-- The loops of the barrier. -/
def spinLoops {ι : Type} (rounds : ℕ) : Loops ι SpinBarrier SpinThread where
  Active t := t.calls < rounds
  Stuck sb _ t := Stuck sb t
  work := SenseThread.work SpinPc.left 11 rounds
  turns := spinTurns
  bound := 2
  turns_le := spinTurns_le

variable {n : ThreadCount} {round rounds : ℕ} {form : SpinForm}
  {s : Config (Fin n.val) SpinBarrier SpinThread} {who i : Fin n.val}
  {holder : Option (Fin n.val)} {sb : SpinBarrier} {own : SpinThread}

/-- Neither the lock nor the flag moves. -/
theorem unmoved_of_eq {ι : Type} {c : ι} {sb sb' : SpinBarrier}
    (hlock : sb'.lock.low = 0 ↔ sb.lock.low = 0) (hflag : sb'.releaseFlag = sb.releaseFlag) :
    (spinLoops rounds).Unmoved c sb sb' where
  turns_eq t := by
    show spinTurns sb' t = spinTurns sb t
    simp only [spinTurns, hlock, hflag]
  stuck := by
    intro j _ t hstuck
    show Stuck sb t
    have hstuck' : Stuck sb' t := hstuck
    unfold Stuck at hstuck' ⊢
    simpa only [hlock, hflag, ne_eq] using hstuck'

/-- A step in the acquisition loop. -/
theorem advances_of_lock {pc : LockPc} (hpc : (s.threads who).pc = .lock pc)
    (hstep : lsenseBarrier rounds who () s.shared (s.threads who) = some (sb, own)) :
    (spinLoops rounds).Advances True who s.shared (s.threads who) sb own := by
  have hwork (pc' : LockPc) : (spinLoops (ι := Fin n.val) rounds).work
      ((s.threads who).goto (.lock pc')) =
        (spinLoops (ι := Fin n.val) rounds).work (s.threads who) :=
    SenseThread.work_eq rfl (by rw [hpc]; rfl)
  by_cases htaken : s.shared.lock.low ≠ 0
  · cases pc with
    | attempt =>
        simp only [lsenseBarrier, hpc, spinLock, if_pos htaken, Option.some.injEq,
          Prod.mk.injEq] at hstep
        obtain ⟨rfl, rfl⟩ := hstep
        refine .turns (hwork .poll) (unmoved_of_eq ?_ rfl) ?_
        · exact iff_of_false (by simp) htaken
        · simpa only [spinLoops, spinTurns, SenseThread.goto_pc, hpc] using
            LockPc.turns_poll_lt htaken
    | poll =>
        simp only [lsenseBarrier, hpc, spinLock, if_pos htaken, Option.some.injEq,
          Prod.mk.injEq] at hstep
        obtain ⟨rfl, rfl⟩ := hstep
        refine .waits (hwork .poll) (.refl who s.shared) ?_ ?_
        · simp only [spinLoops, spinTurns, SenseThread.goto_pc, hpc]
        · show Stuck s.shared (s.threads who)
          rw [Stuck, hpc]
          exact htaken
  · have hfree := not_not.mp htaken
    cases pc with
    | attempt =>
        simp only [lsenseBarrier, hpc, spinLock, if_neg htaken, Option.some.injEq,
          Prod.mk.injEq] at hstep
        obtain ⟨rfl, rfl⟩ := hstep
        exact .works (SenseThread.work_lt rfl (by rw [hpc, SenseThread.goto_pc]; decide))
    | poll =>
        simp only [lsenseBarrier, hpc, spinLock, if_neg htaken, Option.some.injEq,
          Prod.mk.injEq] at hstep
        obtain ⟨rfl, rfl⟩ := hstep
        refine .turns (hwork .attempt) (.refl who s.shared) ?_
        simpa only [spinLoops, spinTurns, SenseThread.goto_pc, hpc] using
          LockPc.turns_attempt_lt hfree

/-- A step in the wait loop. -/
theorem advances_of_wait {pc : WaitPc} (hpc : (s.threads who).pc = .wait pc)
    (hcalls : (s.threads who).calls < rounds)
    (hstep : lsenseBarrier rounds who () s.shared (s.threads who) = some (sb, own)) :
    (spinLoops rounds).Advances True who s.shared (s.threads who) sb own := by
  cases hwait : spinOnCondition pc s.shared.releaseFlag (s.threads who).lsense with
  | done =>
      simp only [lsenseBarrier, hpc, hwait, Option.some.injEq, Prod.mk.injEq] at hstep
      obtain ⟨rfl, rfl⟩ := hstep
      exact .works (SenseThread.work_ret_lt hcalls le_rfl)
  | goto pc' =>
      simp only [lsenseBarrier, hpc, hwait, Option.some.injEq, Prod.mk.injEq] at hstep
      obtain ⟨rfl, rfl⟩ := hstep
      have hwork : (spinLoops (ι := Fin n.val) rounds).work ((s.threads who).goto (.wait pc')) =
          (spinLoops (ι := Fin n.val) rounds).work (s.threads who) :=
        SenseThread.work_eq rfl (by rw [hpc]; rfl)
      rcases spinOnCondition_turns hwait with hlt | ⟨hne, heq⟩
      · refine .turns hwork (.refl who s.shared) ?_
        simp only [spinLoops, spinTurns, SenseThread.goto_pc, SenseThread.goto_lsense, hpc]
        exact hlt
      · refine .waits hwork (.refl who s.shared) ?_ ?_
        · simp only [spinLoops, spinTurns, SenseThread.goto_pc, SenseThread.goto_lsense, hpc]
          exact heq
        · show Stuck s.shared (s.threads who)
          rw [Stuck, hpc]
          exact hne

/-- Every step of a thread advances it. -/
theorem SpinInv.advances (h : SpinInv n rounds round holder s)
    (hstep : lsenseBarrier rounds who () s.shared (s.threads who) = some (sb, own)) :
    (spinLoops rounds).Advances True who s.shared (s.threads who) sb own := by
  cases hpc : (s.threads who).pc with
  | lock pc => exact advances_of_lock hpc hstep
  | wait pc => exact advances_of_wait hpc ((h.within who).calls_lt (by rw [hpc]; rfl)) hstep
  | outside =>
      simp only [lsenseBarrier, hpc, Option.ite_none_right_eq_some, Option.some.injEq,
        Prod.mk.injEq] at hstep
      obtain ⟨-, rfl, rfl⟩ := hstep
      exact .works (SenseThread.work_lt rfl (by rw [hpc, SenseThread.enter_pc]; decide))
  | load =>
      simp only [lsenseBarrier, hpc, Option.some.injEq, Prod.mk.injEq] at hstep
      obtain ⟨rfl, rfl⟩ := hstep
      exact .works (SenseThread.work_lt rfl (by rw [hpc]; exact Nat.lt_succ_self 8))
  | store count =>
      simp only [lsenseBarrier, hpc, Option.some.injEq, Prod.mk.injEq] at hstep
      obtain ⟨rfl, rfl⟩ := hstep
      exact .works (SenseThread.work_lt rfl (by rw [hpc]; exact Nat.lt_succ_self 7))
  | read =>
      by_cases hcount : s.shared.currentCount = s.shared.total
      · simp only [lsenseBarrier, hpc, if_pos hcount, Option.some.injEq, Prod.mk.injEq] at hstep
        obtain ⟨rfl, rfl⟩ := hstep
        exact .works (SenseThread.work_lt rfl (by rw [hpc, SenseThread.goto_pc]; decide))
      · simp only [lsenseBarrier, hpc, if_neg hcount, Option.some.injEq, Prod.mk.injEq] at hstep
        obtain ⟨rfl, rfl⟩ := hstep
        exact .works (SenseThread.work_lt rfl (by rw [hpc, SenseThread.goto_pc]; decide))
  | reset =>
      simp only [lsenseBarrier, hpc, Option.some.injEq, Prod.mk.injEq] at hstep
      obtain ⟨rfl, rfl⟩ := hstep
      exact .works (SenseThread.work_lt rfl (by rw [hpc, SenseThread.goto_pc]; decide))
  | release =>
      simp only [lsenseBarrier, hpc, Option.some.injEq, Prod.mk.injEq] at hstep
      obtain ⟨rfl, rfl⟩ := hstep
      exact .works (SenseThread.work_lt rfl (by rw [hpc, SenseThread.goto_pc]; decide))
  | unlock =>
      simp only [lsenseBarrier, hpc, Option.some.injEq, Prod.mk.injEq] at hstep
      obtain ⟨rfl, rfl⟩ := hstep
      exact .works (SenseThread.work_lt rfl (by rw [hpc, SenseThread.goto_pc]; decide))

/-- A thread that need not wait can move. -/
theorem lsenseBarrier_isSome {sb : SpinBarrier} {t : SpinThread} (hcalls : t.calls < rounds) :
    (lsenseBarrier rounds who () sb t).isSome := by
  cases hpc : t.pc with
  | outside => simp [lsenseBarrier, hpc, hcalls]
  | lock pc =>
      cases hout : (spinLock pc sb.lock).2 with
      | goto pc' => simp [lsenseBarrier, hpc, hout]
      | acquired => simp [lsenseBarrier, hpc, hout]
  | read =>
      by_cases hcount : sb.currentCount = sb.total
      · simp [lsenseBarrier, hpc, hcount]
      · simp [lsenseBarrier, hpc, hcount]
  | wait pc =>
      cases hwait : spinOnCondition pc sb.releaseFlag t.lsense with
      | goto pc' => simp [lsenseBarrier, hpc, hwait]
      | done => simp [lsenseBarrier, hpc, hwait]
  | load => simp [lsenseBarrier, hpc]
  | store count => simp [lsenseBarrier, hpc]
  | reset => simp [lsenseBarrier, hpc]
  | release => simp [lsenseBarrier, hpc]
  | unlock => simp [lsenseBarrier, hpc]

theorem spinInv_of_reachable (hreach : (spinSystem form n rounds).Reachable s) :
    ∃ round holder, SpinInv n rounds round holder s :=
  have ⟨_, _, hInv, _⟩ := spinSystem_simulates_rendezvous.reachable hreach
  hInv

/-- Threads that have not finished always make progress. -/
theorem spin_descent :
    System.Descent (spinSystem form n rounds) (fun _ _ => True) (Owns fun _ => True)
      (fun s => ∃ round holder, SpinInv n rounds round holder s)
      (fun s => ∀ i, ¬ (spinLoops (ι := Fin n.val) rounds).Active (s.threads i))
      (spinLoops rounds).rank (spinLoops rounds).Helps := by
  apply Loops.descent
  · rintro s ⟨round, holder, h⟩ hactive
    by_contra hnone
    push Not at hnone
    exact h.not_deadlock ⟨hactive, fun i hi => by_contra fun hfree => hnone i ⟨hi, hfree⟩⟩
  · intro s i _ hi
    refine ⟨(), trivial, ?_⟩
    rw [SpinForm.program_eq]
    exact lsenseBarrier_isSome hi.1
  · rintro s who choice sb own ⟨round, holder, h⟩ - hrun
    rw [SpinForm.program_eq] at hrun
    exact h.advances hrun

/-- All calls have returned. -/
def AllReturned (rounds : ℕ) (s : Config (Fin n.val) SpinBarrier SpinThread) : Prop :=
  ∀ i, (s.threads i).pc = .outside ∧ (s.threads i).calls = rounds

instance : Decidable (AllReturned rounds s) :=
  inferInstanceAs (Decidable (∀ i, (s.threads i).pc = .outside ∧ (s.threads i).calls = rounds))

/-- Nothing can happen when all calls have returned. -/
theorem AllReturned.not_step (h : AllReturned rounds s) (label : Fin n.val × Unit)
    (t : Config (Fin n.val) SpinBarrier SpinThread) :
    ¬ (spinSystem form n rounds).step s label t := by
  intro hstep
  obtain ⟨sb, own, hrun, -⟩ := interleave_step_iff.mp hstep
  obtain ⟨hpc, hcalls⟩ := h label.1
  rw [SpinForm.program_eq] at hrun
  simp [lsenseBarrier, hpc, hcalls] at hrun

/-- What the barrier must be like when nobody is in it. -/
structure Ready (s : Config (Fin n.val) SpinBarrier SpinThread) : Prop where
  lock_free : s.shared.lock.low = 0
  count_eq : s.shared.currentCount = 0
  flag_eq : ∀ i, s.shared.releaseFlag.low = (s.threads i).lsense

namespace SpinInv

theorem allReturned (h : SpinInv n rounds round holder s)
    (hcalls : ∀ i, ¬ (s.threads i).calls < rounds) : AllReturned rounds s := by
  intro i
  refine ⟨?_, le_antisymm (h.within i).calls_le (not_lt.mp (hcalls i))⟩
  by_contra hin
  refine hcalls i ((h.within i).calls_lt ?_)
  cases hpc : (s.threads i).pc with
  | outside => exact absurd hpc hin
  | _ => rfl

/-- A barrier that all have left is ready for the next call. -/
theorem ready (h : SpinInv n rounds round holder s) (hall : AllReturned rounds s) : Ready s := by
  have harr (i : Fin n.val) : (s.threads i).arrivals = (s.threads i).calls := by
    have := (h.thread_ok i).arrivals_eq
    rwa [(hall i).1] at this
  have hround (i : Fin n.val) : (s.threads i).calls = round := by
    have hlow := (h.thread_ok i).round_le
    have hhigh := (h.thread_ok i).calls_le
    rw [harr i] at hlow
    omega
  have hfree : holder = none := by
    apply h.held.eq_none_iff.mpr
    intro i hcritical
    rw [Critical, (hall i).1] at hcritical
    cases hcritical
  subst hfree
  have hnone : arrived round s.threads = 0 := by
    apply census_eq_zero_iff.mpr
    intro i
    rw [SenseThread.Arrived, harr i, hround i]
    exact (Nat.succ_ne_self round).symm
  constructor
  case lock_free => exact h.lock_eq.mpr rfl
  case count_eq =>
    have hstage := h.stage.1
    rw [hnone] at hstage
    exact BitVec.eq_of_toNat_eq hstage
  case flag_eq =>
    intro i
    rw [h.flag_eq, (h.thread_ok i).lsense_eq, (hall i).1, hround i]
    rfl

end SpinInv

/-- In every fair run all calls of the barrier return, and the barrier is left ready. -/
theorem spinSystem_terminates (e : System.Execution (spinSystem form n rounds) fun _ _ => True)
    (hfair : e.Fair (Owns fun _ => True)) :
    ∃ m, ∀ k, m ≤ k → AllReturned rounds (e.state k) ∧ Ready (e.state k) := by
  have hinv (k : ℕ) := spinInv_of_reachable (e.reachable k)
  obtain ⟨m, -, hdone⟩ := spin_descent.eventually hfair hinv 0
  obtain ⟨round, holder, h⟩ := hinv m
  refine ⟨m, fun k hk => ?_⟩
  have hall := e.stays (P := AllReturned rounds)
    (fun _ _ _ hs _ hstep => absurd hstep (hs.not_step _ _)) (h.allReturned hdone) hk
  obtain ⟨round', holder', h'⟩ := hinv k
  exact ⟨hall, h'.ready hall⟩

/-- Three threads, of which the last one lets the others go. -/
def threeThreads : ThreadCount := ⟨3, by decide, by decide⟩

def oneRound : List (Fin threeThreads.val × Unit) :=
  let order : List (Fin threeThreads.val) :=
    List.replicate 7 0 ++ List.replicate 7 1 ++ List.replicate 9 2 ++ [0, 0, 1, 1]
  order.map (·, ())

theorem spinStart_init : spinInitial n (spinStart n) := ⟨⟨_, rfl⟩, fun _ => rfl⟩

/-- The run of that schedule of the function. -/
def oneRoundRun :
    System.Execution (spinSystem .called threeThreads 1) (fun _ _ => True) :=
  System.scheduled _ _ (spinStart threeThreads) spinStart_init (oneRound[·]?)

theorem AllReturned.not_able (form : SpinForm) (h : AllReturned rounds s) (i : Fin n.val) :
    ¬ (spinSystem form n rounds).Able (Owns (fun _ => True) i) s :=
  fun ⟨label, t, _, hstep⟩ => h.not_step label t hstep

set_option maxRecDepth 4000 in
theorem oneRoundRun_fair : oneRoundRun.Fair (Owns fun _ => True) :=
  System.fair_scheduled (AllReturned.not_able .called (by decide))

theorem spinSystem_terminates_oneRound :
    ∃ m, ∀ k, m ≤ k → AllReturned 1 (oneRoundRun.state k) ∧ Ready (oneRoundRun.state k) :=
  spinSystem_terminates oneRoundRun oneRoundRun_fair

end Htsynch.Spin
