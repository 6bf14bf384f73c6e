/-
# When everybody leaves the barrier of synch.h

A run in which neither arrivals nor operands are lost never deadlocks. If it is fair,
moreover, all its calls return: the halting waiters too, since a halted processor is woken
by the next interrupt.
-/

import Htsynch.Foundations.BusyWaiting
import Htsynch.Synch.LoopTurns
import Htsynch.Synch.LsenseDeadlock

namespace Htsynch

open Foundations

/-- The places a thread has still to pass before its call returns. -/
def LsensePc.left : LsensePc → ℕ
  | .outside => 8
  | .arrive => 7
  | .read => 6
  | .reset => 5
  | .release => 4
  | .ioctl => 3
  | .wait _ => 3

/-- What is left of the wait loop while the flag stays as it is. -/
def lsenseTurns (sb : SpinBarrier) (t : LsenseThread) : ℕ :=
  match t.pc with
  | .wait pc => pc.turns (sb.releaseFlag = t.lsense)
  | _ => 0

theorem lsenseTurns_le (sb : SpinBarrier) (t : LsenseThread) : lsenseTurns sb t ≤ 2 := by
  unfold lsenseTurns
  cases t.pc with
  | wait pc => exact WaitPc.turns_le pc
  | _ => exact Nat.zero_le 2

/-- The loops of the barrier. -/
def lsenseLoops {ι : Type} (rounds : ℕ) : Loops ι SpinBarrier LsenseThread where
  Active t := t.calls < rounds
  Stuck sb _ t := t.pc.polling = true ∧ sb.releaseFlag ≠ t.lsense
  work := SenseThread.work LsensePc.left 8 rounds
  turns := lsenseTurns
  bound := 2
  turns_le := lsenseTurns_le

variable {n : ThreadCount} {code : Fin n.val → ℕ → Inlined} {stray : Word} {round rounds : ℕ}
  {v : LsenseVariant} {s : Config (Fin n.val) SpinBarrier LsenseThread} {who i : Fin n.val}
  {sb : SpinBarrier} {own : LsenseThread}

/-- A turn of any of the wait loops. -/
theorem LsenseVariant.waitLoop_turns {copy : Inlined} {t : LsenseThread} {flag : Word}
    {pc pc' : WaitPc} [Decidable (flag = t.lsense)] (hkept : v.Kept copy t)
    (hpc : t.pc = .wait pc) (h : v.waitLoop copy stray pc flag t.lsense = .goto pc') :
    pc'.turns (flag = t.lsense) < pc.turns (flag = t.lsense) ∨
      flag ≠ t.lsense ∧ pc'.turns (flag = t.lsense) = pc.turns (flag = t.lsense) := by
  have hkeeps (hhalts : v.halts = true) (hpoll : pc = .poll) : copy.Keeps t.lsense :=
    hkept hhalts (by rw [hpc, hpoll]; rfl)
  cases v with
  | pause => exact spinOnCondition_turns h
  | cpuhalt => exact spinOnConditionCpuhalt_turns (hkeeps rfl) h
  | cpuhaltSendIPI => exact spinOnConditionCpuhalt_turns (hkeeps rfl) h

/-- A step in the wait loop. -/
theorem lsense_advances_of_wait {pc : WaitPc} (hpc : (s.threads who).pc = .wait pc)
    (hcalls : (s.threads who).calls < rounds)
    (hkept : v.Kept (code who (s.threads who).calls) (s.threads who))
    (hstep : lsenseBarrier code rounds v who stray s.shared (s.threads who) = some (sb, own)) :
    (lsenseLoops rounds).Advances True who s.shared (s.threads who) sb own := by
  cases hwait : v.waitLoop (code who (s.threads who).calls) stray pc s.shared.releaseFlag
      (s.threads who).lsense with
  | done =>
      simp only [lsenseBarrier, hpc, hwait, Option.some.injEq, Prod.mk.injEq] at hstep
      obtain ⟨rfl, rfl⟩ := hstep
      exact .works (SenseThread.work_ret_lt hcalls le_rfl)
  | goto pc' =>
      simp only [lsenseBarrier, hpc, hwait, Option.some.injEq, Prod.mk.injEq] at hstep
      obtain ⟨rfl, rfl⟩ := hstep
      have hwork : (lsenseLoops (ι := Fin n.val) rounds).work
          ((s.threads who).goto (.wait pc')) =
            (lsenseLoops (ι := Fin n.val) rounds).work (s.threads who) :=
        SenseThread.work_eq rfl (by rw [hpc]; rfl)
      rcases LsenseVariant.waitLoop_turns hkept hpc hwait with hlt | ⟨hne, heq⟩
      · refine .turns hwork (.refl who s.shared) ?_
        simp only [lsenseLoops, lsenseTurns, SenseThread.goto_pc, SenseThread.goto_lsense, hpc]
        exact hlt
      · refine .waits hwork (.refl who s.shared) ?_ ⟨by rw [hpc]; rfl, hne⟩
        simp only [lsenseLoops, lsenseTurns, SenseThread.goto_pc, SenseThread.goto_lsense, hpc]
        exact heq

namespace LsenseExact

/-- Outside the wait loop every step is work that is done. -/
theorem work_lt (h : LsenseExact n rounds round s)
    (hpolls : (s.threads who).pc.polling = false)
    (hstep : lsenseBarrier code rounds v who stray s.shared (s.threads who) = some (sb, own)) :
    own.work LsensePc.left 8 rounds < (s.threads who).work LsensePc.left 8 rounds := by
  have hcalls : CallSite.inCall (s.threads who).pc = true → (s.threads who).calls < rounds :=
    (h.within who).calls_lt
  cases hpc : (s.threads who).pc with
  | wait pc =>
      rw [hpc] at hpolls
      cases hpolls
  | outside =>
      simp only [lsenseBarrier, hpc, Option.ite_none_right_eq_some, Option.some.injEq,
        Prod.mk.injEq] at hstep
      obtain ⟨-, rfl, rfl⟩ := hstep
      exact SenseThread.work_lt rfl (by rw [hpc, SenseThread.enter_pc]; decide)
  | arrive =>
      simp only [lsenseBarrier, hpc, Option.some.injEq, Prod.mk.injEq] at hstep
      obtain ⟨rfl, rfl⟩ := hstep
      exact SenseThread.work_lt rfl (by rw [hpc, SenseThread.arrive_pc]; decide)
  | read =>
      by_cases hcount : s.shared.currentCount = s.shared.nthreads
      · simp only [lsenseBarrier, hpc, if_pos hcount, Option.some.injEq, Prod.mk.injEq] at hstep
        obtain ⟨rfl, rfl⟩ := hstep
        exact SenseThread.work_lt rfl (by rw [hpc, SenseThread.goto_pc]; decide)
      · simp only [lsenseBarrier, hpc, if_neg hcount, Option.some.injEq, Prod.mk.injEq] at hstep
        obtain ⟨rfl, rfl⟩ := hstep
        exact SenseThread.work_lt rfl (by rw [hpc, SenseThread.goto_pc]; decide)
  | reset =>
      simp only [lsenseBarrier, hpc, Option.some.injEq, Prod.mk.injEq] at hstep
      obtain ⟨rfl, rfl⟩ := hstep
      exact SenseThread.work_lt rfl (by rw [hpc, SenseThread.goto_pc]; decide)
  | release =>
      simp only [lsenseBarrier, hpc, Option.some.injEq, Prod.mk.injEq] at hstep
      obtain ⟨rfl, rfl⟩ := hstep
      cases v with
      | pause => exact SenseThread.work_ret_lt (hcalls (by rw [hpc]; rfl)) le_rfl
      | cpuhalt => exact SenseThread.work_ret_lt (hcalls (by rw [hpc]; rfl)) le_rfl
      | cpuhaltSendIPI =>
          refine SenseThread.work_lt rfl ?_
          rw [hpc, LsenseVariant.released, SenseThread.goto_pc]
          decide
  | ioctl =>
      simp only [lsenseBarrier, hpc, Option.some.injEq, Prod.mk.injEq] at hstep
      obtain ⟨rfl, rfl⟩ := hstep
      exact SenseThread.work_ret_lt (hcalls (by rw [hpc]; rfl)) le_rfl

/-- Every step of a thread advances it. -/
theorem advances (h : LsenseExact n rounds round s)
    (hkept : v.Kept (code who (s.threads who).calls) (s.threads who))
    (hstep : lsenseBarrier code rounds v who stray s.shared (s.threads who) = some (sb, own)) :
    (lsenseLoops rounds).Advances True who s.shared (s.threads who) sb own := by
  cases hpc : (s.threads who).pc with
  | wait pc =>
      have hcalls := (h.within who).calls_lt (by rw [hpc]; rfl)
      exact lsense_advances_of_wait hpc hcalls hkept hstep
  | _ => exact .works (h.work_lt (by rw [hpc]; rfl) hstep)

end LsenseExact

/-- A thread with calls left can move. -/
theorem lsenseBarrier_isSome {t : LsenseThread} (hcalls : t.calls < rounds) :
    (lsenseBarrier code rounds v who stray sb t).isSome := by
  cases hpc : t.pc with
  | outside => simp [lsenseBarrier, hpc, hcalls]
  | read =>
      by_cases hcount : sb.currentCount = sb.nthreads
      · simp [lsenseBarrier, hpc, hcount]
      · simp [lsenseBarrier, hpc, hcount]
  | wait pc =>
      cases hwait : v.waitLoop (code who t.calls) stray pc sb.releaseFlag t.lsense with
      | goto pc' => simp [lsenseBarrier, hpc, hwait]
      | done => simp [lsenseBarrier, hpc, hwait]
  | arrive => simp [lsenseBarrier, hpc]
  | reset => simp [lsenseBarrier, hpc]
  | release => simp [lsenseBarrier, hpc]
  | ioctl => simp [lsenseBarrier, hpc]

/-- As long as nothing is lost, threads that have not finished make progress. -/
theorem lsense_descent :
    System.Descent (lsenseSystem v n code rounds) (LosesNothing v code) (Owns fun _ => True)
      (LsenseSound v code rounds)
      (fun s => ∀ i, ¬ (lsenseLoops (ι := Fin n.val) rounds).Active (s.threads i))
      (lsenseLoops rounds).rank (lsenseLoops rounds).Helps := by
  apply Loops.descent
  · rintro s ⟨⟨round, h⟩, -⟩ hactive
    exact h.not_stuck hactive
  · intro s i _ hi
    refine ⟨0, trivial, ?_⟩
    rw [LsenseVariant.program_eq]
    exact lsenseBarrier_isSome hi.1
  · rintro s who choice sb own ⟨⟨round, h⟩, hkept⟩ - hrun
    rw [LsenseVariant.program_eq] at hrun
    exact h.advances (hkept who) hrun

/-- All calls have returned. -/
def LsenseReturned (rounds : ℕ) (s : Config (Fin n.val) SpinBarrier LsenseThread) : Prop :=
  ∀ i, (s.threads i).pc = .outside ∧ (s.threads i).calls = rounds

instance : Decidable (LsenseReturned rounds s) :=
  inferInstanceAs (Decidable (∀ i, (s.threads i).pc = .outside ∧ (s.threads i).calls = rounds))

theorem LsenseReturned.not_step (h : LsenseReturned rounds s) (label : Fin n.val × Word)
    (t : Config (Fin n.val) SpinBarrier LsenseThread) :
    ¬ (lsenseSystem v n code rounds).step s label t := by
  intro hstep
  obtain ⟨sb, own, hrun, -⟩ := interleave_step_iff.mp hstep
  obtain ⟨hpc, hcalls⟩ := h label.1
  rw [LsenseVariant.program_eq] at hrun
  simp [lsenseBarrier, hpc, hcalls] at hrun

/-- What the barrier must be like when nobody is in it. -/
structure LsenseReady (s : Config (Fin n.val) SpinBarrier LsenseThread) : Prop where
  count_eq : s.shared.currentCount = 0
  flag_eq : ∀ i, s.shared.releaseFlag = (s.threads i).lsense

namespace LsenseExact

theorem returned (h : LsenseExact n rounds round s)
    (hcalls : ∀ i, ¬ (s.threads i).calls < rounds) : LsenseReturned rounds s := by
  intro i
  refine ⟨?_, le_antisymm (h.within i).calls_le (not_lt.mp (hcalls i))⟩
  by_contra hin
  refine hcalls i ((h.within i).calls_lt ?_)
  cases hpc : (s.threads i).pc with
  | outside => exact absurd hpc hin
  | _ => rfl

/-- A barrier that all have left is ready for the next call. -/
theorem ready (h : LsenseExact n rounds round s) (hall : LsenseReturned rounds s) :
    LsenseReady s := by
  have hround (i : Fin n.val) : (s.threads i).arrivals = round ∧ (s.threads i).calls = round :=
    (h.thread_ok i).arrivals_eq_of_not_counted (by rw [(hall i).1]; rfl)
  constructor
  case count_eq =>
    rcases h.count_eq with hcount | ⟨hzero, -⟩
    · have hnone : census (SenseThread.Arrived round) s.threads = 0 := by
        apply census_eq_zero_iff.mpr
        intro i
        rw [SenseThread.Arrived, (hround i).1]
        exact (Nat.succ_ne_self round).symm
      rw [hnone] at hcount
      exact BitVec.eq_of_toNat_eq hcount
    · exact hzero
  case flag_eq =>
    intro i
    rw [h.flag_eq, (h.thread_ok i).lsense_eq, (hall i).1, (hround i).2]
    rfl

end LsenseExact

/-- In every fair run in which neither arrivals nor operands are lost all calls return, and
the barrier is left ready. -/
theorem lsenseSystem_terminates
    (e : System.Execution (lsenseSystem v n code rounds) (LosesNothing v code))
    (hfair : e.Fair (Owns fun _ => True)) :
    ∃ m, ∀ k, m ≤ k → LsenseReturned rounds (e.state k) ∧ LsenseReady (e.state k) := by
  have hinv (k : ℕ) := LsenseSound.of_reachable (e.reachableVia k)
  obtain ⟨m, -, hdone⟩ := lsense_descent.eventually hfair hinv 0
  obtain ⟨⟨round, h⟩, -⟩ := hinv m
  refine ⟨m, fun k hk => ?_⟩
  have hall := e.stays (P := LsenseReturned rounds)
    (fun _ _ _ hs _ hstep => absurd hstep (hs.not_step _ _)) (h.returned hdone) hk
  obtain ⟨⟨round', h'⟩, -⟩ := hinv k
  exact ⟨hall, h'.ready hall⟩

/-- Thread 0 waits in both rounds, and thread 1 lets it go. -/
def lsenseRounds : List (Fin ThreadCount.two.val × Word) :=
  let round : List (Fin ThreadCount.two.val) :=
    List.replicate 4 0 ++ List.replicate 6 1 ++ List.replicate 3 0
  (round ++ round).map (·, 0)

/-- The run of that schedule of the function that halts and sends interrupts, in copies that
keep their operands. -/
def lsenseRoundsRun :
    System.Execution (lsenseSystem .cpuhaltSendIPI .two (fun _ _ => senseInRbx) 2)
      (LosesNothing .cpuhaltSendIPI fun _ _ => senseInRbx) :=
  System.scheduled _ _ (lsenseStart .two) lsenseStart_init (lsenseRounds[·]?)

theorem LsenseReturned.not_able (v : LsenseVariant) (code : Fin n.val → ℕ → Inlined)
    (h : LsenseReturned rounds s) (i : Fin n.val) :
    ¬ (lsenseSystem v n code rounds).Able (Owns (fun _ => True) i) s :=
  fun ⟨label, t, _, hstep⟩ => h.not_step label t hstep

set_option maxRecDepth 4000 in
theorem lsenseRoundsRun_fair : lsenseRoundsRun.Fair (Owns fun _ => True) :=
  System.fair_scheduled (LsenseReturned.not_able .cpuhaltSendIPI _ (by decide))

theorem lsenseSystem_terminates_twoRounds :
    ∃ m, ∀ k, m ≤ k →
      LsenseReturned 2 (lsenseRoundsRun.state k) ∧ LsenseReady (lsenseRoundsRun.state k) :=
  lsenseSystem_terminates lsenseRoundsRun lsenseRoundsRun_fair

end Htsynch
