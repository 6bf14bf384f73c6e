/-
# The barrier without a sense lets everybody go once

Used once, the barrier of either file has no deadlock. In a fair run, then, all threads
return from it, and it is left ready for a next use, though not for one that begins before.
-/

import Htsynch.Foundations.BusyWaiting
import Htsynch.PlainBarrier.Once
import Htsynch.Synch.LoopTurns

namespace Htsynch

open Foundations PlainThread

variable {B : Type} {F : BarrierFile B} {n : ThreadCount} {rounds : ℕ}
  {s : Config (Fin n.val) B PlainThread} {who : Fin n.val} {holder : Option (Fin n.val)}
  {b : B} {own : PlainThread}

/-- The places a thread has still to pass before its call returns. -/
def PlainPc.left : PlainPc → ℕ
  | .outside => 12
  | .lock _ => 11
  | .test => 10
  | .clear => 9
  | .load => 8
  | .store _ => 7
  | .unlock => 6
  | .read => 5
  | .reset => 4
  | .release => 3
  | .wait _ => 3

/-- What is left of a loop while the lock and the flag stay as they are. -/
def plainTurns (F : BarrierFile B) (b : B) (t : PlainThread) : ℕ :=
  match t.pc with
  | .lock pc => pc.turns ((F.lock .poll b).2 = .goto .attempt)
  | .wait pc => pc.turns ((F.view b).flag.low = 1)
  | _ => 0

theorem plainTurns_le (F : BarrierFile B) (b : B) (t : PlainThread) : plainTurns F b t ≤ 2 := by
  unfold plainTurns
  cases t.pc with
  | lock pc => exact (LockPc.turns_le pc).trans (by decide)
  | wait pc => exact WaitPc.turns_le pc
  | _ => exact Nat.zero_le 2

/-- The loops of the barrier. -/
def plainLoops {ι : Type} (F : BarrierFile B) (rounds : ℕ) : Loops ι B PlainThread where
  Active t := t.calls < rounds
  Stuck b _ t := PlainStuck F b t
  work := SenseThread.work PlainPc.left 12 rounds
  turns := plainTurns F
  bound := 2
  turns_le := plainTurns_le F

/-- A poll sees whether the lock is free. -/
theorem poll_iff {held : Prop} {k : ℕ} (h : F.Says held k b) :
    (F.lock .poll b).2 = .goto .attempt ↔ ¬ held := by
  rcases (F.poll h).2 with ⟨hheld, hgoto⟩ | ⟨hfree, hgoto, -⟩
  · rw [hgoto]
    exact iff_of_false (by simp) (not_not.mpr hheld)
  · exact iff_of_true hgoto hfree

/-- Neither the lock nor the flag moves. -/
theorem plain_unmoved {ι : Type} {c : ι} {held : Prop} {k k' : ℕ} {b' : B}
    (h : F.Says held k b) (h' : F.Says held k' b') (hview : F.view b' = F.view b) :
    (plainLoops F rounds).Unmoved c b b' where
  turns_eq t := by
    have hpoll : (F.lock .poll b').2 = .goto .attempt ↔ (F.lock .poll b).2 = .goto .attempt :=
      (poll_iff h').trans (poll_iff h).symm
    show plainTurns F b' t = plainTurns F b t
    simp only [plainTurns, hpoll, hview]
  stuck := by
    intro j _ t hstuck
    show PlainStuck F b t
    have hstuck' : PlainStuck F b' t := hstuck
    unfold PlainStuck at hstuck' ⊢
    simpa only [F.free_iff h, F.free_iff h', hview] using hstuck'

/-- A step in the acquisition loop. -/
theorem PlainBase.advances_of_lock (h : PlainBase F n rounds holder s) {pc : LockPc}
    (hpc : (s.threads who).pc = .lock pc)
    (hstep : plainBarrier F rounds who () s.shared (s.threads who) = some (b, own)) :
    (plainLoops F rounds).Advances True who s.shared (s.threads who) b own := by
  have hwork (pc' : LockPc) : (plainLoops (ι := Fin n.val) F rounds).work
      ((s.threads who).goto (.lock pc')) =
        (plainLoops (ι := Fin n.val) F rounds).work (s.threads who) :=
    SenseThread.work_eq rfl (by rw [hpc]; rfl)
  cases pc with
  | attempt =>
      rcases F.attempt h.lock (PlainBase.polls_lt s) with
        ⟨-, hout, -⟩ | ⟨hheld, hout, hsays⟩
      · simp only [plainBarrier, hpc, hout, Option.some.injEq, Prod.mk.injEq] at hstep
        obtain ⟨rfl, rfl⟩ := hstep
        exact .works (SenseThread.work_lt rfl (by rw [hpc, SenseThread.goto_pc]; decide))
      · simp only [plainBarrier, hpc, hout, Option.some.injEq, Prod.mk.injEq] at hstep
        obtain ⟨rfl, rfl⟩ := hstep
        have htaken : ¬ (F.lock .poll s.shared).2 = .goto .attempt :=
          fun hgoto => (poll_iff h.lock).mp hgoto hheld
        refine .turns (hwork .poll) (plain_unmoved h.lock hsays (F.view_lock _ _)) ?_
        simp only [plainLoops, plainTurns, SenseThread.goto_pc, hpc]
        exact LockPc.turns_poll_lt htaken
  | poll =>
      obtain ⟨hread, hcases⟩ := F.poll h.lock
      rcases hcases with ⟨hheld, hout⟩ | ⟨hfree, hout, -⟩
      · simp only [plainBarrier, hpc, hout, hread, Option.some.injEq, Prod.mk.injEq] at hstep
        obtain ⟨rfl, rfl⟩ := hstep
        refine .waits (hwork .poll) (.refl who s.shared) ?_ ?_
        · simp only [plainLoops, plainTurns, SenseThread.goto_pc, hpc]
        · show PlainStuck F s.shared (s.threads who)
          rw [PlainStuck, hpc]
          exact fun hfree => (F.free_iff h.lock).mp hfree hheld
      · simp only [plainBarrier, hpc, hout, hread, Option.some.injEq, Prod.mk.injEq] at hstep
        obtain ⟨rfl, rfl⟩ := hstep
        refine .turns (hwork .attempt) (.refl who s.shared) ?_
        simp only [plainLoops, plainTurns, SenseThread.goto_pc, hpc]
        exact LockPc.turns_attempt_lt hout

/-- A step in the wait loop. -/
theorem plain_advances_of_wait {pc : WaitPc} (hpc : (s.threads who).pc = .wait pc)
    (hcalls : (s.threads who).calls < rounds)
    (hstep : plainBarrier F rounds who () s.shared (s.threads who) = some (b, own)) :
    (plainLoops F rounds).Advances True who s.shared (s.threads who) b own := by
  cases hwait : F.waitFlag pc s.shared with
  | done =>
      simp only [plainBarrier, hpc, hwait, Option.some.injEq, Prod.mk.injEq] at hstep
      obtain ⟨rfl, rfl⟩ := hstep
      exact .works (SenseThread.work_ret_lt hcalls le_rfl)
  | goto pc' =>
      simp only [plainBarrier, hpc, hwait, Option.some.injEq, Prod.mk.injEq] at hstep
      obtain ⟨rfl, rfl⟩ := hstep
      have hwork : (plainLoops (ι := Fin n.val) F rounds).work
          ((s.threads who).goto (.wait pc')) =
            (plainLoops (ι := Fin n.val) F rounds).work (s.threads who) :=
        SenseThread.work_eq rfl (by rw [hpc]; rfl)
      rw [F.waitFlag_eq] at hwait
      rcases spinOnCondition_turns hwait with hlt | ⟨hne, heq⟩
      · refine .turns hwork (.refl who s.shared) ?_
        simp only [plainLoops, plainTurns, SenseThread.goto_pc, hpc]
        exact hlt
      · refine .waits hwork (.refl who s.shared) ?_ ?_
        · simp only [plainLoops, plainTurns, SenseThread.goto_pc, hpc]
          exact heq
        · show PlainStuck F s.shared (s.threads who)
          rw [PlainStuck, hpc]
          exact hne

/-- Every step of a thread advances it. -/
theorem PlainBase.advances (h : PlainBase F n rounds holder s)
    (hstep : plainBarrier F rounds who () s.shared (s.threads who) = some (b, own)) :
    (plainLoops F rounds).Advances True who s.shared (s.threads who) b own := by
  have hcalls : (s.threads who).pc ≠ .outside → (s.threads who).calls < rounds :=
    fun hin => (h.within who).calls_lt (PlainPc.inCall_of_ne hin)
  cases hpc : (s.threads who).pc with
  | lock pc => exact h.advances_of_lock hpc hstep
  | wait pc => exact plain_advances_of_wait hpc (hcalls (by simp [hpc])) hstep
  | outside =>
      simp only [plainBarrier, hpc, Option.ite_none_right_eq_some, Option.some.injEq,
        Prod.mk.injEq] at hstep
      obtain ⟨-, rfl, rfl⟩ := hstep
      exact .works (SenseThread.work_lt rfl (by rw [hpc, SenseThread.goto_pc]; decide))
  | test =>
      simp only [plainBarrier, hpc, Option.some.injEq, Prod.mk.injEq] at hstep
      obtain ⟨rfl, rfl⟩ := hstep
      refine .works (SenseThread.work_lt rfl ?_)
      rw [hpc, SenseThread.goto_pc]
      split <;> decide
  | clear =>
      simp only [plainBarrier, hpc, Option.some.injEq, Prod.mk.injEq] at hstep
      obtain ⟨rfl, rfl⟩ := hstep
      exact .works (SenseThread.work_lt rfl (by rw [hpc, SenseThread.goto_pc]; decide))
  | load =>
      simp only [plainBarrier, hpc, Option.some.injEq, Prod.mk.injEq] at hstep
      obtain ⟨rfl, rfl⟩ := hstep
      exact .works (SenseThread.work_lt rfl (by rw [hpc]; exact Nat.lt_succ_self 7))
  | store count =>
      simp only [plainBarrier, hpc, Option.some.injEq, Prod.mk.injEq] at hstep
      obtain ⟨rfl, rfl⟩ := hstep
      exact .works (SenseThread.work_lt rfl (by rw [hpc]; exact Nat.lt_succ_self 6))
  | unlock =>
      simp only [plainBarrier, hpc, Option.some.injEq, Prod.mk.injEq] at hstep
      obtain ⟨rfl, rfl⟩ := hstep
      exact .works (SenseThread.work_lt rfl (by rw [hpc, SenseThread.goto_pc]; decide))
  | read =>
      simp only [plainBarrier, hpc, Option.some.injEq, Prod.mk.injEq] at hstep
      obtain ⟨rfl, rfl⟩ := hstep
      refine .works (SenseThread.work_lt rfl ?_)
      rw [hpc, SenseThread.goto_pc]
      split <;> decide
  | reset =>
      simp only [plainBarrier, hpc, Option.some.injEq, Prod.mk.injEq] at hstep
      obtain ⟨rfl, rfl⟩ := hstep
      exact .works (SenseThread.work_lt rfl (by rw [hpc, SenseThread.goto_pc]; decide))
  | release =>
      simp only [plainBarrier, hpc, Option.some.injEq, Prod.mk.injEq] at hstep
      obtain ⟨rfl, rfl⟩ := hstep
      exact .works (SenseThread.work_ret_lt (hcalls (by simp [hpc])) le_rfl)

/-- A thread with calls left can move. -/
theorem plainBarrier_isSome {t : PlainThread} (hcalls : t.calls < rounds) :
    (plainBarrier F rounds who () b t).isSome := by
  cases hpc : t.pc with
  | outside => simp [plainBarrier, hpc, hcalls]
  | lock pc =>
      cases hout : (F.lock pc b).2 with
      | goto pc' => simp [plainBarrier, hpc, hout]
      | acquired => simp [plainBarrier, hpc, hout]
  | wait pc =>
      cases hwait : F.waitFlag pc b with
      | goto pc' => simp [plainBarrier, hpc, hwait]
      | done => simp [plainBarrier, hpc, hwait]
  | test => simp [plainBarrier, hpc]
  | clear => simp [plainBarrier, hpc]
  | load => simp [plainBarrier, hpc]
  | store count => simp [plainBarrier, hpc]
  | unlock => simp [plainBarrier, hpc]
  | read => simp [plainBarrier, hpc]
  | reset => simp [plainBarrier, hpc]
  | release => simp [plainBarrier, hpc]

/-- Used once, the barrier always makes progress while there are calls left. -/
theorem plainOnce_descent :
    System.Descent (plainSystem F n 1) (fun _ _ => True) (Owns fun _ => True)
      (PlainInv F n 1)
      (fun s => ∀ i, ¬ (plainLoops (ι := Fin n.val) F 1).Active (s.threads i))
      (plainLoops F 1).rank (plainLoops F 1).Helps := by
  apply Loops.descent
  · rintro s ⟨⟨holder, hbase⟩, round, hphase⟩ hactive
    by_contra hnone
    push Not at hnone
    exact not_plainDeadlock hbase hphase
      ⟨hactive, fun i hi => by_contra fun hfree => hnone i ⟨hi, hfree⟩⟩
  · exact fun s i _ hi => ⟨(), trivial, plainBarrier_isSome hi.1⟩
  · rintro s who choice b own ⟨⟨holder, hbase⟩, -⟩ - hrun
    exact hbase.advances hrun

/-- Nothing can happen when all calls have returned. -/
theorem plain_not_step (h : ∀ i, (s.threads i).pc = .outside ∧ (s.threads i).calls = rounds)
    (label : Fin n.val × Unit) (t : Config (Fin n.val) B PlainThread) :
    ¬ (plainSystem F n rounds).step s label t := by
  intro hstep
  obtain ⟨b, own, hrun, -⟩ := interleave_step_iff.mp hstep
  obtain ⟨hpc, hcalls⟩ := h label.1
  simp [plainBarrier, hpc, hcalls] at hrun

theorem PlainBase.outside_of_done (h : PlainBase F n 1 holder s)
    (hcalls : ∀ i, ¬ (s.threads i).calls < 1) (i : Fin n.val) :
    (s.threads i).pc = .outside ∧ (s.threads i).calls = 1 := by
  refine ⟨?_, le_antisymm (h.within i).calls_le (not_lt.mp (hcalls i))⟩
  by_contra hin
  exact hcalls i ((h.within i).calls_lt (PlainPc.inCall_of_ne hin))

/-- In every fair run in which each thread calls the barrier once all calls return, and the
barrier is left ready. -/
theorem plainOnce_terminates {file : PlainFile}
    (e : System.Execution (plainSystem file.ops n 1) fun _ _ => True)
    (hfair : e.Fair (Owns fun _ => True)) :
    ∃ m, ∀ k, m ≤ k →
      (∀ i, ((e.state k).threads i).pc = .outside ∧ ((e.state k).threads i).calls = 1) ∧
        LeftReady file.ops (e.state k).shared := by
  have hinv (k : ℕ) := plainInv_of_reachable (reachableVia_of_once (e.reachable k))
  obtain ⟨m, -, hdone⟩ := plainOnce_descent.eventually hfair hinv 0
  obtain ⟨⟨holder, hbase⟩, -⟩ := hinv m
  refine ⟨m, fun k hk => ?_⟩
  have hall := e.stays
    (P := fun s => ∀ i, (s.threads i).pc = .outside ∧ (s.threads i).calls = 1)
    (fun _ _ _ hs _ hstep => absurd hstep (plain_not_step hs _ _))
    (hbase.outside_of_done hdone) hk
  obtain ⟨⟨holder', hbase'⟩, round, hphase⟩ := hinv k
  exact ⟨hall, leftReady hbase' hphase fun i => (hall i).2⟩

/-- The run of two threads that call the barrier of `spin.c` once. -/
def spinOnceRun :
    System.Execution (plainSystem PlainFile.spinC.ops .two 1) (fun _ _ => True) :=
  let order : List (Fin ThreadCount.two.val) :=
    List.replicate 8 0 ++ List.replicate 9 1 ++ List.replicate 3 0
  System.scheduled _ _ spinStart spinStart_init ((order.map (·, ()))[·]?)

set_option maxRecDepth 4000 in
theorem spinOnceRun_fair : spinOnceRun.Fair (Owns fun _ => True) :=
  System.fair_scheduled fun i ⟨label, t, _, hstep⟩ =>
    plain_not_step (by decide) label t hstep

theorem plainOnce_terminates_two :
    ∃ m, ∀ k, m ≤ k →
      (∀ i, ((spinOnceRun.state k).threads i).pc = .outside ∧
        ((spinOnceRun.state k).threads i).calls = 1) ∧
        LeftReady PlainFile.spinC.ops (spinOnceRun.state k).shared :=
  plainOnce_terminates spinOnceRun spinOnceRun_fair

end Htsynch
