/-
# Two threads at the MWAIT barrier finish

Not being stuck is not yet finishing: a thread may spin or go round the sleep loop for
ever while another one could move. In a fair run it cannot. Every instruction but those
of the acquisition loop and the sleep loop is done once in a call, so it is work that is
left; and while neither the lock nor the byte changes, a thread that need not wait leaves
its loop after a few turns. Interrupts only shorten a turn.
-/

import Htsynch.Foundations.BusyWaiting
import Htsynch.MwaitBarrier.Progress
import Htsynch.Synch.LoopTurns

namespace Htsynch

open Foundations BarrierThread

/-- The places a thread has still to pass before its call returns. -/
def BarrierPc.work : BarrierPc → ℕ
  | .outside => 10
  | .lock _ => 9
  | .load => 8
  | .store _ => 7
  | .test => 6
  | .notify => 5
  | .unlock => 5
  | .sleep _ => 4
  | .dec => 3
  | .unlockLast => 2

namespace BarrierThread

/-- What is left of all calls. -/
def work (rounds : ℕ) (t : BarrierThread) : ℕ := (rounds - t.calls) * 11 + t.pc.work

/-- What is left of a loop while the lock and the byte stay as they are. -/
def turns {ι : Type} (p : Addr) (sh : BarrierShared ι) (t : BarrierThread) : ℕ :=
  match t.pc with
  | .lock pc => pc.turns (0 < sh.barrier.lock.toInt)
  | .sleep pc => if sh.machine.mem p = MWMON_NOTIFIED_VAL then pc.turns else 0
  | _ => 0

theorem turns_le {ι : Type} (p : Addr) (sh : BarrierShared ι) (t : BarrierThread) :
    t.turns p sh ≤ 4 := by
  unfold turns
  cases t.pc with
  | lock pc => exact (LockPc.turns_le pc).trans (by decide)
  | sleep pc =>
      show (if sh.machine.mem p = MWMON_NOTIFIED_VAL then pc.turns else 0) ≤ 4
      split
      · exact SleepPc.turns_le pc
      · omega
  | _ => exact Nat.zero_le 4

variable {rounds : ℕ} {t : BarrierThread}

/-- Going on to a later place. -/
theorem work_goto_lt {pc : BarrierPc} (h : pc.work < t.pc.work) :
    (t.goto pc).work rounds < t.work rounds :=
  Nat.add_lt_add_left h _

theorem work_goto_eq {pc : BarrierPc} (h : pc.work = t.pc.work) :
    (t.goto pc).work rounds = t.work rounds :=
  congrArg ((rounds - t.calls) * 11 + ·) h

/-- Returning. -/
theorem work_lt_of_calls {t' : BarrierThread} (hcalls : t.calls < rounds)
    (hnext : t'.calls = t.calls + 1) (hpc : t'.pc = .outside) :
    t'.work rounds < t.work rounds := by
  have hplace : t'.pc.work = 10 := by rw [hpc]; rfl
  unfold work
  rw [hnext, hplace]
  omega

end BarrierThread

/-- A thread waits for a taken lock or for a byte that is not notified. -/
def Waits {ι : Type} (p : Addr) (sh : BarrierShared ι) (i : ι) (t : BarrierThread) : Prop :=
  (∃ pc, t.pc = .lock pc) ∧ sh.barrier.lock.toInt ≤ 0 ∨
    ∃ pc, t.pc = .sleep pc ∧
      (sh.machine.mem p ≠ MWMON_NOTIFIED_VAL ∨ pc = .mwait ∧ sh.machine.Blocks i)

/-- The loops of the barrier. -/
def barrierLoops {ι : Type} (p : Addr) (rounds : ℕ) :
    Loops ι (BarrierShared ι) BarrierThread where
  Active t := t.calls < rounds
  Stuck := Waits p
  work := BarrierThread.work rounds
  turns := BarrierThread.turns p
  bound := 4
  turns_le := turns_le p

variable {n : ThreadCount} {rounds round : ℕ} {p : Addr}
  {s : Config (Fin n.val) (BarrierShared (Fin n.val)) BarrierThread} {i who : Fin n.val}
  {sh : BarrierShared (Fin n.val)} {own : BarrierThread}

/-- Neither the lock nor the byte moves, and nobody else is held by MWAIT who was not. -/
theorem unmoved_of_eq {ι : Type} {c : ι} {sh sh' : BarrierShared ι}
    (hlock : 0 < sh'.barrier.lock.toInt ↔ 0 < sh.barrier.lock.toInt)
    (hbyte : sh'.machine.mem p = sh.machine.mem p)
    (hblocks : ∀ j ≠ c, sh'.machine.Blocks j → sh.machine.Blocks j) :
    (barrierLoops p rounds).Unmoved c sh sh' where
  turns_eq t := by
    show t.turns p sh' = t.turns p sh
    simp only [BarrierThread.turns, hlock, hbyte]
  stuck := by
    rintro j hj t (⟨hpc, hle⟩ | ⟨pc, hpc, hstay⟩)
    · exact .inl ⟨hpc, not_lt.mp fun hfree => not_lt.mpr hle (hlock.mpr hfree)⟩
    · refine .inr ⟨pc, hpc, hstay.imp (fun hmem => ?_) fun hheld => ?_⟩
      · rwa [hbyte] at hmem
      · exact ⟨hheld.1, hblocks j hj hheld.2⟩

/-- A thread in the sleep call advances. -/
theorem advances_of_sleep {pc pc' : SleepPc} {machine : Machine (Fin n.val)}
    (hpc : (s.threads who).pc = .sleep pc)
    (hmove : SleepMove p who pc s.shared.machine machine (.goto pc')) :
    (barrierLoops p rounds).Advances True who s.shared (s.threads who)
      { s.shared with machine := machine } ((s.threads who).goto (.sleep pc')) := by
  have hwork : ((s.threads who).goto (.sleep pc')).work rounds =
      (s.threads who).work rounds := work_goto_eq (by rw [hpc]; rfl)
  have hblocks : ∀ j ≠ who, machine.Blocks j → s.shared.machine.Blocks j := by
    intro j hj hheld
    cases hmove with
    | arm => rwa [Hardware.Blocks, Hardware.monitor_armed_of_ne hj] at hheld
    | _ => exact hheld
  have hshared : (barrierLoops p rounds).Unmoved who s.shared
      { s.shared with machine := machine } :=
    unmoved_of_eq Iff.rfl (congrFun (hmove.mem_eq rfl) p) hblocks
  by_cases hmem : s.shared.machine.mem p = MWMON_NOTIFIED_VAL
  · refine .turns hwork hshared ?_
    simpa only [barrierLoops, BarrierThread.turns, goto_pc, hpc, if_pos hmem] using
      hmove.turns_lt rfl hmem
  · refine .waits hwork hshared ?_ (.inr ⟨pc, hpc, .inl hmem⟩)
    simp only [barrierLoops, BarrierThread.turns, goto_pc, hpc, if_neg hmem]

/-- A thread in the acquisition loop advances. -/
theorem advances_of_poll {held : Prop} (hlock : LockWord held (census Polls s.threads)
      s.shared.barrier.lock) {pc : LockPc} (hpc : (s.threads who).pc = .lock .poll)
    (hout : (LockVariant.fast.run .poll s.shared.barrier.lock).2 = .goto pc) :
    (barrierLoops p rounds).Advances True who s.shared (s.threads who) s.shared
      ((s.threads who).goto (.lock pc)) := by
  have hwork : ((s.threads who).goto (.lock pc)).work rounds = (s.threads who).work rounds :=
    work_goto_eq (by rw [hpc]; rfl)
  rcases (hlock.poll (v := .fast)).2 with ⟨hheld, hgoto⟩ | ⟨hfree, hgoto⟩
  · rw [hgoto] at hout
    cases hout
    have hle := hlock.le_zero_of_held hheld
    refine .waits hwork (.refl who s.shared) ?_ (.inl ⟨⟨.poll, hpc⟩, hle⟩)
    simp only [barrierLoops, BarrierThread.turns, goto_pc, hpc]
  · rw [hgoto] at hout
    cases hout
    have hword : 0 < s.shared.barrier.lock.toInt := by
      rw [hlock.eq_one_of_free hfree]
      decide
    refine .turns hwork (.refl who s.shared) ?_
    simpa only [barrierLoops, BarrierThread.turns, goto_pc, hpc] using
      LockPc.turns_attempt_lt hword

/-- A thread that loses an attempt advances. -/
theorem advances_of_lose {held : Prop} (hlock : LockWord held (census Polls s.threads)
      s.shared.barrier.lock) (hpc : (s.threads who).pc = .lock .attempt)
    (hout : (LockVariant.fast.run .attempt s.shared.barrier.lock).2 = .goto .poll) :
    (barrierLoops p rounds).Advances True who s.shared (s.threads who)
      { s.shared with barrier := { s.shared.barrier with
        lock := (LockVariant.fast.run .attempt s.shared.barrier.lock).1 } }
      ((s.threads who).goto (.lock .poll)) := by
  have hheld := hlock.held_of_goto hout
  have hle := hlock.le_zero_of_held hheld
  have hnext := (hlock.attempt_held (v := .fast) hheld barrier_polls_lt).2.le_zero_of_held hheld
  refine .turns (work_goto_eq (by rw [hpc]; rfl)) (unmoved_of_eq ?_ rfl fun _ _ => id) ?_
  · exact iff_of_false (not_lt.mpr hnext) (not_lt.mpr hle)
  · simpa only [barrierLoops, BarrierThread.turns, goto_pc, hpc] using
      LockPc.turns_poll_lt (not_lt.mpr hle)

/-- A thread that attempts to take the lock advances. -/
theorem advances_of_attempt {held : Prop} {r : Region} {ptrs : Pointers}
    (hlock : LockWord held (census Polls s.threads) s.shared.barrier.lock)
    (hpc : (s.threads who).pc = .lock .attempt)
    (hstep : barrierCall r ptrs rounds who none s.shared (s.threads who) = some (sh, own)) :
    (barrierLoops (r.byte ptrs) rounds).Advances True who s.shared (s.threads who) sh own := by
  cases hout : (spinLockFast .attempt s.shared.barrier.lock).2 with
  | goto pc =>
      have hheld := hlock.held_of_goto (v := .fast) hout
      have hpoll := (hlock.attempt_held (v := .fast) hheld barrier_polls_lt).1
      obtain rfl : pc = .poll := LockOutcome.goto.inj (hout.symm.trans hpoll)
      simp only [barrierCall, hpc, hout, Option.some.injEq, Prod.mk.injEq] at hstep
      obtain ⟨rfl, rfl⟩ := hstep
      exact advances_of_lose hlock hpc hout
  | acquired =>
      simp only [barrierCall, hpc, hout, Option.some.injEq, Prod.mk.injEq] at hstep
      obtain ⟨rfl, rfl⟩ := hstep
      exact .works (work_goto_lt (by rw [hpc]; decide))

/-- Every step of a thread advances it. -/
theorem BarrierInv.advances {phase : Phase (Fin n.val)} {r : Region} {ptrs : Pointers}
    (h : BarrierInv (r.byte ptrs) n rounds round phase s)
    (hstep : barrierCall r ptrs rounds who none s.shared (s.threads who) = some (sh, own)) :
    (barrierLoops (r.byte ptrs) rounds).Advances True who s.shared (s.threads who) sh own := by
  have hcalls : (s.threads who).pc ≠ .outside → (s.threads who).calls < rounds :=
    (h.base.thread_ok who).calls_lt
  cases hpc : (s.threads who).pc with
  | outside =>
      simp only [barrierCall, hpc, Option.ite_none_right_eq_some, Option.some.injEq,
        Prod.mk.injEq] at hstep
      obtain ⟨-, rfl, rfl⟩ := hstep
      exact .works (Nat.add_lt_add_left (by rw [hpc, enter_pc, BarrierPc.work]; decide) _)
  | lock pc =>
      cases pc with
      | attempt => exact advances_of_attempt h.lock hpc hstep
      | poll =>
          cases hout : (spinLockFast .poll s.shared.barrier.lock).2 with
          | goto pc' =>
              simp only [barrierCall, hpc, hout, Option.some.injEq, Prod.mk.injEq] at hstep
              obtain ⟨rfl, rfl⟩ := hstep
              exact advances_of_poll h.lock hpc hout
          | acquired =>
              rcases (h.lock.poll (v := .fast)).2 with ⟨-, hgoto⟩ | ⟨-, hgoto⟩
              · exact absurd (hgoto.symm.trans hout) (by simp)
              · exact absurd (hgoto.symm.trans hout) (by simp)
  | load =>
      simp only [barrierCall, hpc, Option.some.injEq, Prod.mk.injEq] at hstep
      obtain ⟨rfl, rfl⟩ := hstep
      exact .works (work_goto_lt (by rw [hpc, BarrierPc.work, BarrierPc.work]; decide))
  | store gathered =>
      simp only [barrierCall, hpc, Option.some.injEq, Prod.mk.injEq] at hstep
      obtain ⟨rfl, rfl⟩ := hstep
      exact .works (Nat.add_lt_add_left (by rw [hpc, arrive_pc, BarrierPc.work]; decide) _)
  | test =>
      by_cases hcount : s.shared.barrier.gathered = (s.threads who).initCount
      · simp only [barrierCall, hpc, if_pos hcount, Option.some.injEq, Prod.mk.injEq] at hstep
        obtain ⟨rfl, rfl⟩ := hstep
        exact .works (work_goto_lt (by rw [hpc]; decide))
      · simp only [barrierCall, hpc, if_neg hcount, Option.some.injEq, Prod.mk.injEq] at hstep
        obtain ⟨rfl, rfl⟩ := hstep
        exact .works (work_goto_lt (by rw [hpc]; decide))
  | notify =>
      simp only [barrierCall, hpc, Option.some.injEq, Prod.mk.injEq] at hstep
      obtain ⟨rfl, rfl⟩ := hstep
      exact .works (work_goto_lt (by rw [hpc]; decide))
  | unlock =>
      simp only [barrierCall, hpc, Option.some.injEq, Prod.mk.injEq] at hstep
      obtain ⟨rfl, rfl⟩ := hstep
      exact .works (work_goto_lt (by rw [hpc]; decide))
  | sleep pc =>
      simp only [barrierCall, hpc, SleepCall.run_eq, Region.sleepCall_target,
        Option.map_eq_some_iff, Prod.exists] at hstep
      obtain ⟨machine, out, hrun, hout⟩ := hstep
      cases out with
      | goto pc' =>
          obtain ⟨rfl, rfl⟩ := Prod.mk.inj hout
          exact advances_of_sleep hpc (mwmonSleep_cases hrun)
      | returned =>
          obtain ⟨rfl, rfl⟩ := Prod.mk.inj hout
          exact .works (work_goto_lt (by rw [hpc, BarrierPc.work]; decide))
  | dec =>
      by_cases hlast : (atomicDecAndTest s.shared.barrier.gathered).2 = true
      · simp only [barrierCall, hpc, if_pos hlast, Option.some.injEq, Prod.mk.injEq] at hstep
        obtain ⟨rfl, rfl⟩ := hstep
        exact .works (Nat.add_lt_add_left (by rw [hpc, leaveLast_pc]; decide) _)
      · simp only [barrierCall, hpc, if_neg hlast, Option.some.injEq, Prod.mk.injEq] at hstep
        obtain ⟨rfl, rfl⟩ := hstep
        exact .works (work_lt_of_calls (hcalls (by simp [hpc])) rfl rfl)
  | unlockLast =>
      simp only [barrierCall, hpc, Option.some.injEq, Prod.mk.injEq] at hstep
      obtain ⟨rfl, rfl⟩ := hstep
      exact .works (work_lt_of_calls (hcalls (by simp [hpc])) rfl rfl)

theorem Interrupt.blocks_of_onMachine {ι : Type} [DecidableEq ι] {c j : ι} (intr : Interrupt)
    {h : Machine ι} (hheld : (intr.onMachine c h).Blocks j) : h.Blocks j := by
  unfold Interrupt.onMachine at hheld
  split at hheld
  · by_cases hj : j = c
    · subst j
      simp [Hardware.Blocks] at hheld
    · rwa [Hardware.Blocks, Hardware.disarm_armed_of_ne hj] at hheld
  · exact hheld

theorem Interrupt.eq_mwait_of_onSleeper (intr : Interrupt) {pc : SleepPc}
    (hmwait : intr.onSleeper pc = .mwait) : pc = .mwait := by
  rcases intr.onSleeper_cases pc with hsame | ⟨hpc, -⟩
  · rw [← hsame, hmwait]
  · exact hpc

/-- An interrupt changes at most where in the sleep loop its thread is, and its monitor. -/
theorem barrierCall_some {r : Region} {ptrs : Pointers} {intr : Interrupt}
    (hstep : barrierCall r ptrs rounds who (some intr) s.shared (s.threads who) =
      some (sh, own)) :
    sh = { s.shared with machine := intr.onMachine who s.shared.machine } ∧
      (own = s.threads who ∨ ∃ pc, (s.threads who).pc = .sleep pc ∧
        own = (s.threads who).goto (.sleep (intr.onSleeper pc))) := by
  cases hpc : (s.threads who).pc with
  | sleep pc =>
      simp only [barrierCall, hpc, Option.some.injEq, Prod.mk.injEq] at hstep
      obtain ⟨rfl, rfl⟩ := hstep
      exact ⟨rfl, .inr ⟨pc, rfl, rfl⟩⟩
  | _ =>
      simp only [barrierCall, hpc, Option.some.injEq, Prod.mk.injEq] at hstep
      obtain ⟨rfl, rfl⟩ := hstep
      exact ⟨rfl, .inl rfl⟩

/-- An interrupt leaves its thread no worse off, and does not concern the others. -/
theorem advances_of_interrupt {r : Region} {ptrs : Pointers} {intr : Interrupt}
    (hstep : barrierCall r ptrs rounds who (some intr) s.shared (s.threads who) =
      some (sh, own)) :
    (barrierLoops p rounds).Advances False who s.shared (s.threads who) sh own := by
  obtain ⟨rfl, hown⟩ := barrierCall_some hstep
  have hmem : (intr.onMachine who s.shared.machine).mem p = s.shared.machine.mem p :=
    congrFun Interrupt.onMachine_mem p
  have hshared : (barrierLoops p rounds).Unmoved who s.shared
      { s.shared with machine := intr.onMachine who s.shared.machine } :=
    unmoved_of_eq Iff.rfl hmem fun _ _ => intr.blocks_of_onMachine
  rcases hown with rfl | ⟨pc, hpc, rfl⟩
  · refine .passes id rfl hshared le_rfl id (.imp id ?_)
    rintro ⟨pc, hpc, hstay⟩
    refine ⟨pc, hpc, hstay.imp (fun hne => ?_) fun hheld => ?_⟩
    · rwa [hmem] at hne
    · exact ⟨hheld.1, intr.blocks_of_onMachine hheld.2⟩
  · refine .passes id (work_goto_eq (by rw [hpc]; rfl)) hshared ?_ id ?_
    · simp only [barrierLoops, BarrierThread.turns, goto_pc, hpc]
      split
      · exact intr.turns_onSleeper pc
      · exact le_rfl
    · rintro (⟨⟨pc', hpc'⟩, -⟩ | ⟨pc', hpc', hstay⟩)
      · cases hpc'
      · obtain rfl : intr.onSleeper pc = pc' := BarrierPc.sleep.inj hpc'
        refine .inr ⟨pc, hpc, hstay.imp (fun hne => ?_) fun hheld => ?_⟩
        · rwa [hmem] at hne
        · exact ⟨intr.eq_mwait_of_onSleeper hheld.1, intr.blocks_of_onMachine hheld.2⟩

/-! ## Fair runs -/

section

variable {r : Region} {ptrs : Pointers}

/-- A thread that need not wait can move. -/
theorem barrierCall_isSome (hi : (barrierLoops (r.byte ptrs) rounds).Helps s i) :
    (barrierCall r ptrs rounds i none s.shared (s.threads i)).isSome := by
  cases hpc : (s.threads i).pc with
  | outside =>
      have hcalls : (s.threads i).calls < rounds := hi.1
      simp [barrierCall, hpc, hcalls]
  | lock pc =>
      cases hout : (spinLockFast pc s.shared.barrier.lock).2 with
      | goto pc' => simp [barrierCall, hpc, hout]
      | acquired => simp [barrierCall, hpc, hout]
  | test =>
      by_cases hcount : s.shared.barrier.gathered = (s.threads i).initCount
      · simp [barrierCall, hpc, hcount]
      · simp [barrierCall, hpc, hcount]
  | sleep pc =>
      have hfree : pc = .mwait → ¬ s.shared.machine.Blocks i := by
        rintro rfl hheld
        exact hi.2 (.inr ⟨.mwait, hpc, .inr ⟨rfl, hheld⟩⟩)
      simp only [barrierCall, hpc, SleepCall.run_eq, Option.isSome_map]
      cases pc with
      | mwait => simp [mwmonSleep, hfree rfl]
      | _ => rfl
  | dec =>
      by_cases hlast : (atomicDecAndTest s.shared.barrier.gathered).2 = true
      · simp [barrierCall, hpc, hlast]
      · simp [barrierCall, hpc, hlast]
  | load => simp [barrierCall, hpc]
  | store gathered => simp [barrierCall, hpc]
  | notify => simp [barrierCall, hpc]
  | unlock => simp [barrierCall, hpc]
  | unlockLast => simp [barrierCall, hpc]

/-- A thread at the barrier makes `rounds` calls and no more. -/
theorem BarrierMove.calls_le_rounds {ι : Type} [DecidableEq ι] {c : ι}
    {sh sh' : BarrierShared ι} {t t' : BarrierThread} (hmove : BarrierMove p rounds c sh t sh' t')
    (hok : t.Ok n rounds) (hcalls : t.calls ≤ rounds) : t'.calls ≤ rounds := by
  cases hmove with
  | leave hpc => exact hok.calls_lt (by simp [hpc])
  | unlockLast hpc => exact hok.calls_lt (by simp [hpc])
  | _ => exact hcalls

/-- What is known of every state of a run. -/
def BarrierLive (p : Addr) (n : ThreadCount) (rounds : ℕ)
    (s : Config (Fin n.val) (BarrierShared (Fin n.val)) BarrierThread) : Prop :=
  (∃ round phase, BarrierInv p n rounds round phase s) ∧ ∀ i, (s.threads i).calls ≤ rounds

theorem barrierLive_of_reachable (hn : 2 ≤ n.val)
    (hreach : (barrierSystem r ptrs n rounds).Reachable s) :
    BarrierLive (r.byte ptrs) n rounds s := by
  refine interleave_invariant ?_ ?_ hreach
  · intro s hinit
    refine ⟨⟨0, .gathering none, .init hinit⟩, fun i => ?_⟩
    rw [hinit.2.2 i]
    exact Nat.zero_le rounds
  · rintro s who choice sh own ⟨⟨round, phase, h⟩, hcalls⟩ hstep
    rw [Region.barrier_eq] at hstep
    have hmove := barrierCall_cases hstep
    refine ⟨h.step hn hmove, fun i => ?_⟩
    exact Config.move_cases (motive := fun t : BarrierThread => t.calls ≤ rounds) i
      (fun _ => hmove.calls_le_rounds (h.base.thread_ok who) (hcalls who)) (fun _ => hcalls i)

/-- All calls have returned. -/
def AllReturned (rounds : ℕ)
    (s : Config (Fin n.val) (BarrierShared (Fin n.val)) BarrierThread) : Prop :=
  ∀ i, (s.threads i).pc = .outside ∧ (s.threads i).calls = rounds

instance : Decidable (AllReturned rounds s) :=
  inferInstanceAs (Decidable (∀ i, (s.threads i).pc = .outside ∧ (s.threads i).calls = rounds))

theorem BarrierLive.allReturned (h : BarrierLive p n rounds s)
    (hcalls : ∀ i, ¬ (s.threads i).calls < rounds) : AllReturned rounds s := by
  obtain ⟨⟨round, phase, hinv⟩, hle⟩ := h
  intro i
  refine ⟨?_, le_antisymm (hle i) (not_lt.mp (hcalls i))⟩
  by_contra hin
  exact hcalls i ((hinv.base.thread_ok i).calls_lt hin)

/-- Once all calls have returned the barrier is as it was initialised. -/
theorem BarrierLive.between (h : BarrierLive p n rounds s) (hall : AllReturned rounds s) :
    s.shared.barrier.gathered = 0 ∧ s.shared.barrier.lock = 1 ∧
      s.shared.machine.mem p = MWMON_ORIGINAL_VAL := by
  obtain ⟨⟨round, phase, hinv⟩, -⟩ := h
  exact hinv.between fun i => (hall i).1

/-- Once all calls have returned nothing but interrupts can happen. -/
theorem AllReturned.step {t : Config (Fin n.val) (BarrierShared (Fin n.val)) BarrierThread}
    {label : Fin n.val × Option Interrupt} (h : AllReturned rounds s)
    (hstep : (barrierSystem r ptrs n rounds).step s label t) : AllReturned rounds t := by
  obtain ⟨sh, own, hrun, rfl⟩ := interleave_step_iff.mp hstep
  rw [Region.barrier_eq] at hrun
  obtain ⟨hpc, hcalls⟩ := h label.1
  have hsame : own = s.threads label.1 := by
    cases hchoice : label.2 with
    | none =>
        rw [hchoice] at hrun
        simp [barrierCall, hpc, hcalls] at hrun
    | some intr =>
        rw [hchoice] at hrun
        simp only [barrierCall, hpc, Option.some.injEq, Prod.mk.injEq] at hrun
        exact hrun.2.symm
  intro i
  exact Config.move_cases (motive := fun t : BarrierThread => t.pc = .outside ∧ t.calls = rounds) i
    (fun _ => hsame ▸ h label.1) (fun _ => h i)

theorem AllReturned.not_able (h : AllReturned rounds s) (i : Fin n.val) :
    ¬ (barrierSystem r ptrs n rounds).Able (Owns (· = none) i) s := by
  rintro ⟨⟨j, choice⟩, t, ⟨rfl, hown⟩, hstep⟩
  obtain rfl : choice = none := hown
  obtain ⟨sh, own, hrun, -⟩ := interleave_step_iff.mp hstep
  obtain ⟨hpc, hcalls⟩ := h j
  rw [Region.barrier_eq] at hrun
  simp [barrierCall, hpc, hcalls] at hrun

/-- Two threads that have not finished always make progress. -/
theorem barrier_descent (hn : n.val = 2) :
    System.Descent (barrierSystem r ptrs n rounds) (fun _ _ => True) (Owns (· = none))
      (BarrierLive (r.byte ptrs) n rounds)
      (fun s => ∀ i, ¬ (barrierLoops (ι := Fin n.val) (r.byte ptrs) rounds).Active (s.threads i))
      (barrierLoops (r.byte ptrs) rounds).rank (barrierLoops (r.byte ptrs) rounds).Helps := by
  apply Loops.descent
  · rintro s ⟨⟨round, phase, h⟩, -⟩ hactive
    by_contra hnone
    push Not at hnone
    exact h.not_stuck hn ⟨hactive, fun i hi => by_contra fun hwait => hnone i ⟨hi, hwait⟩⟩
  · intro s i _ hi
    exact ⟨none, rfl, by rw [Region.barrier_eq]; exact barrierCall_isSome hi⟩
  · rintro s who choice sh own ⟨⟨round, phase, h⟩, -⟩ - hrun
    rw [Region.barrier_eq] at hrun
    cases choice with
    | none => simpa using h.advances hrun
    | some intr => simpa using advances_of_interrupt hrun

end

section

variable {r : Region} {ptrs : Pointers}

/-- In a fair run of two threads all calls return at some point. -/
theorem barrier_finishes
    (e : System.Execution (barrierSystem r ptrs .two rounds) (fun _ _ => True))
    (hfair : e.Fair (Owns (· = none))) :
    ∃ m, ∀ k, m ≤ k → AllReturned rounds (e.state k) ∧
      BarrierLive (r.byte ptrs) .two rounds (e.state k) := by
  have hlive (k : ℕ) := barrierLive_of_reachable (by decide) (e.reachable k)
  obtain ⟨m, -, hdone⟩ := (barrier_descent rfl).eventually hfair hlive 0
  refine ⟨m, fun k hk => ⟨?_, hlive k⟩⟩
  exact e.stays (fun _ _ _ hs _ hstep => AllReturned.step hs hstep)
    ((hlive m).allReturned hdone) hk

/-- In every fair run of two threads all calls of the barrier return, and the barrier is
left as it was initialised. -/
theorem barrierSystem_terminates
    (e : System.Execution (barrierSystem r ptrs .two rounds) (fun _ _ => True))
    (hfair : e.Fair (Owns (· = none))) :
    ∃ m, ∀ k, m ≤ k → AllReturned rounds (e.state k) ∧
      (e.state k).shared.barrier.gathered = 0 ∧ (e.state k).shared.barrier.lock = 1 ∧
        (e.state k).shared.machine.mem (r.byte ptrs) = MWMON_ORIGINAL_VAL := by
  obtain ⟨m, hdone⟩ := barrier_finishes e hfair
  refine ⟨m, fun k hk => ?_⟩
  obtain ⟨hall, hlive⟩ := hdone k hk
  exact ⟨hall, hlive.between hall⟩

/-- Thread 0 sleeps in both rounds and thread 1 notifies it. -/
def twoRounds : List (Fin ThreadCount.two.val × Option Interrupt) :=
  let round := List.replicate 10 0 ++ List.replicate 7 1 ++ List.replicate 5 0
  (round ++ round).map (·, none)

/-- The run of that schedule in the first region. -/
def twoRoundsRun :
    System.Execution (barrierSystem .first examplePointers .two 2) (fun _ _ => True) :=
  System.scheduled _ _ (barrierStart .two) barrierStart_init (twoRounds[·]?)

set_option maxRecDepth 4000 in
theorem twoRoundsRun_fair : twoRoundsRun.Fair (Owns (· = none)) :=
  System.fair_scheduled (AllReturned.not_able (by decide))

theorem barrierSystem_terminates_twoRounds :
    ∃ m, ∀ k, m ≤ k → AllReturned 2 (twoRoundsRun.state k) ∧
      (twoRoundsRun.state k).shared.barrier.gathered = 0 ∧
        (twoRoundsRun.state k).shared.barrier.lock = 1 ∧
          (twoRoundsRun.state k).shared.machine.mem (Region.first.byte examplePointers) =
            MWMON_ORIGINAL_VAL :=
  barrierSystem_terminates twoRoundsRun twoRoundsRun_fair

end

end Htsynch
