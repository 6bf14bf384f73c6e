/-
# When the halting barrier comes to an end

Whoever releases a round sends its interrupts after the store to the flag. A waiter that
looks at the flag later sees it published; one that is halted is woken; but one that has
looked before and is still on its way to `hlt` is interrupted in vain. If no other release
is on its way this was its last interrupt, and it halts for good: nobody completes another
round without it. A fair run in which this never happens ends.
-/

import Htsynch.Synch.HaltingBarrier

namespace Htsynch

open Foundations

/-- The thread will not look at the flag again before the next interrupt. -/
def HaltingThread.Committed (t : HaltingThread) : Prop :=
  t.barrier.pc = .wait .pause ∨ t.InKernel

/-- The thread is about to send interrupts. -/
def LsensePc.Wakes (pc : LsensePc) : Prop := pc.Releasing ∨ pc = .ioctl

variable {n : ThreadCount} {code : Fin n.val → ℕ → Inlined} {stray : Word} {rounds round : ℕ}
  {s t : Config (Fin n.val) (HaltingShared (Fin n.val)) HaltingThread} {i who : Fin n.val}
  {sh : HaltingShared (Fin n.val)} {own : HaltingThread} {choice : HaltingChoice}

/-- The sense of the thread is published. -/
def Published (sh : HaltingShared (Fin n.val)) (t : HaltingThread) : Prop :=
  sh.barrier.releaseFlag = t.barrier.lsense

instance (sh : HaltingShared (Fin n.val)) (t : HaltingThread) : Decidable (Published sh t) :=
  inferInstanceAs (Decidable (_ = _))

/-- The last interrupt reaches a waiter whose sense is published when it has looked before
and is not halted yet. -/
def LosesInterrupt (s : Config (Fin n.val) (HaltingShared (Fin n.val)) HaltingThread)
    (label : Fin n.val × HaltingChoice) : Prop :=
  label.2 = .deliver 0 ∧
    ((s.threads label.1).Committed ∧ ¬ (s.threads label.1).Halted) ∧
    Published s.shared (s.threads label.1) ∧ ∀ j, ¬ (s.threads j).barrier.pc.Wakes

section

variable {sb sb' : SpinBarrier} {t t' : LsenseThread}

/-- A thread decides to halt on a comparison that fails. -/
theorem committed_of_step (hkept : LsenseVariant.cpuhaltSendIPI.Kept (code who t.calls) t)
    (hstep : lsenseBarrier code rounds .cpuhaltSendIPI who stray sb t = some (sb', t'))
    (hcommitted : t'.pc = .wait .pause ∨ t'.pc = .wait .halted) :
    sb' = sb ∧ t'.lsense = t.lsense ∧ (t.pc = .wait .pause ∨ sb.releaseFlag ≠ t.lsense) := by
  cases lsenseBarrier_cases hkept.leavesOnSense hstep with
  | poll pc pc' hpc =>
      refine ⟨rfl, rfl, ?_⟩
      cases pc with
      | pause => exact .inl hpc
      | halted =>
          simp only [lsenseBarrier, hpc, LsenseVariant.waitLoop, spinOnConditionCpuhalt,
            Option.some.injEq, Prod.mk.injEq, true_and] at hstep
          rw [← hstep] at hcommitted
          simp at hcommitted
      | entry =>
          refine .inr fun hflag => ?_
          have hdone := congrArg (Option.map fun r => r.2.pc) hstep
          simp [lsenseBarrier, hpc, LsenseVariant.waitLoop, spinOnConditionCpuhalt, hflag] at hdone
      | poll =>
          refine .inr fun hflag => ?_
          have hkeeps := hkept rfl (by rw [hpc]; rfl)
          have hdone := congrArg (Option.map fun r => r.2.pc) hstep
          simp [lsenseBarrier, hpc, LsenseVariant.waitLoop, hkeeps.poll_eq, spinOnCondition,
            hflag] at hdone
  | enter => simp at hcommitted
  | arrive => simp at hcommitted
  | full => simp at hcommitted
  | short => simp at hcommitted
  | reset => simp at hcommitted
  | publish => simp [LsenseVariant.released] at hcommitted
  | woken => simp at hcommitted
  | leave => simp at hcommitted

/-- Only a release changes the flag. -/
theorem LsenseMove.releaseFlag_eq {v : LsenseVariant} (hmove : LsenseMove v rounds sb t sb' t')
    (hpc : t.pc ≠ .release) : sb'.releaseFlag = sb.releaseFlag := by
  cases hmove with
  | publish hrelease => exact absurd hrelease hpc
  | _ => rfl

/-- A thread that is about to send interrupts sends them or comes nearer to it. -/
theorem LsenseMove.wakes (hmove : LsenseMove .cpuhaltSendIPI rounds sb t sb' t')
    (hwakes : t.pc.Wakes) : t.pc = .ioctl ∧ t'.pc = .outside ∨ t'.pc.Wakes := by
  have hpc : t.pc = .reset ∨ t.pc = .release ∨ t.pc = .ioctl := or_assoc.mp hwakes
  cases hmove with
  | woken hioctl => exact .inl ⟨hioctl, rfl⟩
  | reset => exact .inr (.inl (.inr rfl))
  | publish => exact .inr (.inr rfl)
  | enter hpc' => simp [hpc'] at hpc
  | arrive hpc' => simp [hpc'] at hpc
  | full hpc' => simp [hpc'] at hpc
  | short hpc' => simp [hpc'] at hpc
  | poll pc pc' hpc' => simp [hpc'] at hpc
  | leave pc hpc' => simp [hpc'] at hpc

end

/-! ## As long as no interrupt is lost -/

/-- An interrupt is on its way to the thread, or will be. -/
def InterruptToCome (s : Config (Fin n.val) (HaltingShared (Fin n.val)) HaltingThread)
    (i : Fin n.val) : Prop :=
  0 < s.shared.inFlight i ∨ ∃ j, (s.threads j).barrier.pc.Wakes

/-- Whoever is committed while its sense is published has an interrupt to come. -/
def AllAttended (s : Config (Fin n.val) (HaltingShared (Fin n.val)) HaltingThread) : Prop :=
  ∀ i, (s.threads i).Committed → Published s.shared (s.threads i) → InterruptToCome s i

theorem HaltingThread.Committed.not_wakes {t : HaltingThread} (h : t.Committed) :
    ¬ t.barrier.pc.Wakes := by
  rintro ((hpc | hpc) | hpc)
  all_goals
    rcases h with hpause | hin
    · rw [hpause] at hpc
      cases hpc
    · rw [HaltingThread.InKernel, hpc] at hin
      cases hin

/-- Interrupts that are yet to be sent are sent to everybody who is committed. -/
theorem InterruptToCome.user {sb : SpinBarrier} {t' : LsenseThread}
    (h : InterruptToCome s i)
    (hkept : LsenseVariant.cpuhaltSendIPI.Kept (code who (s.threads who).barrier.calls)
      (s.threads who).barrier)
    (hstep : lsenseBarrier code rounds .cpuhaltSendIPI who stray s.shared.barrier
      (s.threads who).barrier = some (sb, t'))
    (hcommitted : ((s.move who sh ⟨t', .sti⟩).threads i).Committed)
    (hsh : sh.inFlight = if (s.threads who).barrier.pc = .ioctl
      then wakeupAllButSelf who s.shared.inFlight else s.shared.inFlight) :
    InterruptToCome (s.move who sh ⟨t', .sti⟩) i := by
  have hgrows : s.shared.inFlight i ≤ sh.inFlight i := by
    rw [hsh]
    split
    · unfold wakeupAllButSelf
      split <;> omega
    · exact le_rfl
  rcases h with hflight | ⟨j, hj⟩
  · exact .inl (hflight.trans_le hgrows)
  · by_cases hwho : j = who
    · subst j
      rcases (lsenseBarrier_cases hkept.leavesOnSense hstep).wakes hj with ⟨hioctl, hout⟩ | hnext
      · have hne : i ≠ who := by
          rintro rfl
          rw [Config.move_threads_self] at hcommitted
          rcases hcommitted with hpause | hin
          · exact absurd (hout.symm.trans hpause) LsensePc.noConfusion
          · exact absurd (hout.symm.trans hin) LsensePc.noConfusion
        left
        rw [Config.move_shared, hsh, if_pos hioctl, wakeupAllButSelf, if_neg hne]
        exact Nat.succ_pos _
      · exact .inr ⟨who, by rwa [Config.move_threads_self]⟩
    · exact .inr ⟨j, by rwa [Config.move_threads_of_ne hwho]⟩

/-- Nobody commits itself in a step of the barrier while its sense is published. -/
theorem committed_before {sb : SpinBarrier} {t' : LsenseThread}
    (hkept : LsenseVariant.cpuhaltSendIPI.Kept (code who (s.threads who).barrier.calls)
      (s.threads who).barrier)
    (hstep : lsenseBarrier code rounds .cpuhaltSendIPI who stray s.shared.barrier
      (s.threads who).barrier = some (sb, t'))
    (hrelease : (s.threads who).barrier.pc ≠ .release) (hsh : sh.barrier = sb)
    (hcommitted : ((s.move who sh ⟨t', .sti⟩).threads i).Committed)
    (hpublished : Published sh ((s.move who sh ⟨t', .sti⟩).threads i)) :
    (s.threads i).Committed ∧ Published s.shared (s.threads i) := by
  have hflag := (lsenseBarrier_cases hkept.leavesOnSense hstep).releaseFlag_eq hrelease
  unfold Published at hpublished ⊢
  rw [hsh, hflag] at hpublished
  by_cases hi : i = who
  · subst i
    rw [Config.move_threads_self] at hcommitted hpublished
    obtain ⟨-, hlsense, hbefore⟩ := committed_of_step hkept hstep hcommitted
    rw [hlsense] at hpublished
    exact ⟨.inl (hbefore.resolve_right fun hne => hne hpublished), hpublished⟩
  · rw [Config.move_threads_of_ne hi] at hcommitted hpublished
    exact ⟨hcommitted, hpublished⟩

/-- A step that loses no interrupt keeps everybody attended. -/
theorem AllAttended.step (h : AllAttended s)
    (hsound : LsenseSound .cpuhaltSendIPI code rounds (userView s))
    (hkeeps : ¬ LosesInterrupt s (who, choice))
    (hmove : HaltingMove code rounds who s.shared (s.threads who) choice sh own) :
    AllAttended (s.move who sh own) := by
  intro i hcommitted hpublished
  have hkept := hsound.2 who
  cases hmove with
  | user stray sb t' huser hstep =>
      by_cases hrelease : (s.threads who).barrier.pc = .release
      · obtain ⟨-, rfl⟩ := (lsenseBarrier_cases hkept.leavesOnSense hstep).of_release hrelease
        exact .inr ⟨who, by rw [Config.move_threads_self]; exact .inr rfl⟩
      · obtain ⟨hbefore, hearlier⟩ :=
          committed_before hkept hstep hrelease rfl hcommitted hpublished
        exact (h i hbefore hearlier).user hkept hstep hcommitted rfl
  | kernel stray stage hin hstep =>
      have hown : (HaltingThread.mk (s.threads who).barrier stage).barrier =
          (s.threads who).barrier := rfl
      have hsame (j : Fin n.val) : ((s.move who s.shared
          ⟨(s.threads who).barrier, stage⟩).threads j).barrier = (s.threads j).barrier :=
        Config.move_threads_eq_of_eq hown j
      unfold HaltingThread.Committed HaltingThread.InKernel at hcommitted
      unfold Published at hpublished
      rw [hsame] at hcommitted hpublished
      refine (h i hcommitted hpublished).imp id fun ⟨j, hj⟩ => ⟨j, ?_⟩
      rwa [hsame]
  | wake left hleft hhalted =>
      have hne : i ≠ who := by
        rintro rfl
        rw [Config.move_threads_self] at hcommitted
        rcases hcommitted with hpause | hin
        · simp at hpause
        · simp [HaltingThread.InKernel] at hin
      rw [Config.move_threads_of_ne hne] at hcommitted hpublished
      refine (h i hcommitted hpublished).imp (fun hflight => ?_) fun ⟨j, hj⟩ => ⟨j, ?_⟩
      · simpa [Function.update_of_ne hne] using hflight
      · have hwho : j ≠ who := by
          rintro rfl
          exact HaltingThread.Committed.not_wakes (.inr hhalted.1) hj
        rwa [Config.move_threads_of_ne hwho]
  | serviced left hleft hawake =>
      have hsame (j : Fin n.val) : (s.move who
          { s.shared with inFlight := Function.update s.shared.inFlight who left }
          (s.threads who)).threads j = s.threads j :=
        Config.move_threads_eq_of_eq (f := id) rfl j
      rw [hsame] at hcommitted hpublished
      have hbefore := h i hcommitted hpublished
      by_cases hwaker : ∃ j, (s.threads j).barrier.pc.Wakes
      · obtain ⟨j, hj⟩ := hwaker
        exact .inr ⟨j, by rwa [hsame]⟩
      · left
        by_cases hi : i = who
        · subst i
          show 0 < Function.update s.shared.inFlight who left who
          rw [Function.update_self]
          -- otherwise this would have been the last interrupt
          refine Nat.pos_of_ne_zero fun hzero => hkeeps ⟨?_, ⟨hcommitted, hawake⟩, hpublished, ?_⟩
          · rw [hzero]
          · exact not_exists.mp hwaker
        · show 0 < Function.update s.shared.inFlight who left i
          rw [Function.update_of_ne hi]
          exact hbefore.resolve_right hwaker

/-! ## A waiter without interrupt -/

/-- The sense of the thread is published, but it will not look before the next interrupt,
and none will be sent. -/
structure Abandoned (s : Config (Fin n.val) (HaltingShared (Fin n.val)) HaltingThread)
    (i : Fin n.val) : Prop where
  committed : (s.threads i).Committed
  published : Published s.shared (s.threads i)
  none_coming : s.shared.inFlight i = 0
  none_sent : ∀ j, ¬ (s.threads j).barrier.pc.Wakes

namespace Abandoned

/-- Losing its last interrupt abandons a waiter. -/
theorem of_loses {label : Fin n.val × HaltingChoice} (hloses : LosesInterrupt s label)
    (hmove : HaltingMove code rounds label.1 s.shared (s.threads label.1) label.2 sh own) :
    Abandoned (s.move label.1 sh own) label.1 := by
  obtain ⟨hchoice, ⟨hcommitted, hawake⟩, hpublished, hquiet⟩ := hloses
  rw [hchoice] at hmove
  cases hmove with
  | wake _ _ hhalted => exact absurd hhalted hawake
  | serviced =>
      refine ⟨?_, ?_, Function.update_self _ _ _, fun j => ?_⟩
      · rwa [Config.move_threads_self]
      · rwa [Config.move_threads_self]
      · exact Config.move_cases (motive := fun t : HaltingThread => ¬ t.barrier.pc.Wakes) j
          (fun _ => hquiet label.1) (fun _ => hquiet j)

/-- Nobody has read the full count, since the waiter has not arrived in the next round. -/
theorem not_full (h : Abandoned s i) (hexact : LsenseExact n rounds round (userView s)) :
    s.shared.barrier.currentCount ≠ s.shared.barrier.nthreads := by
  intro hcount
  have hall := hexact.all_arrived_of_count_eq hcount i
  have hpc : (s.threads i).barrier.pc = .wait .pause ∨ (s.threads i).barrier.pc = .wait .halted :=
    h.committed
  have hin : CallSite.inCall (s.threads i).barrier.pc = true := by
    rcases hpc with hpc | hpc <;> rw [hpc] <;> rfl
  have hcounted : CallSite.counted (s.threads i).barrier.pc = true := by
    rcases hpc with hpc | hpc <;> rw [hpc] <;> rfl
  have hle := (hexact.thread_ok i).arrivals_le_of_published sense_succ_ne hin hcounted
    (hexact.flag_eq.symm.trans h.published)
  exact absurd hall (Nat.ne_of_lt (Nat.lt_succ_of_le hle))

/-- No step of the barrier comes near to sending interrupts. -/
theorem not_wakes_user (h : Abandoned s i)
    (hsound : LsenseSound .cpuhaltSendIPI code rounds (userView s))
    {sb : SpinBarrier} {t' : LsenseThread}
    (hstep : lsenseBarrier code rounds .cpuhaltSendIPI who stray s.shared.barrier
      (s.threads who).barrier = some (sb, t')) : ¬ t'.pc.Wakes := by
  obtain ⟨⟨round, hexact⟩, hkept⟩ := hsound
  have hquiet := h.none_sent who
  have hcases : ∀ pc : LsensePc, pc.Wakes ↔ pc = .reset ∨ pc = .release ∨ pc = .ioctl :=
    fun pc => or_assoc
  rw [hcases] at hquiet ⊢
  cases lsenseBarrier_cases (hkept who).leavesOnSense hstep with
  | full hpc hcount => exact absurd hcount (h.not_full hexact)
  | reset hpc => exact absurd (.inl hpc) hquiet
  | publish hpc => exact absurd (.inr (.inl hpc)) hquiet
  | enter => simp
  | arrive => simp
  | short => simp
  | woken => simp
  | poll => simp
  | leave => simp

/-- Steps that leave the flag, the waiter and the senders as they are. -/
theorem keep (h : Abandoned s i)
    (hflag : sh.barrier.releaseFlag = s.shared.barrier.releaseFlag) (hflight : sh.inFlight i = 0)
    (hown : i = who → own.Committed ∧ own.barrier.lsense = (s.threads who).barrier.lsense)
    (hquiet : ¬ own.barrier.pc.Wakes) : Abandoned (s.move who sh own) i := by
  have hwaiter : ((s.move who sh own).threads i).Committed ∧
      ((s.move who sh own).threads i).barrier.lsense = (s.threads i).barrier.lsense := by
    by_cases hi : i = who
    · subst i
      rw [Config.move_threads_self]
      exact hown rfl
    · rw [Config.move_threads_of_ne hi]
      exact ⟨h.committed, rfl⟩
  refine ⟨hwaiter.1, ?_, hflight, fun j => ?_⟩
  · unfold Published
    rw [Config.move_shared, hflag, hwaiter.2]
    exact h.published
  · exact Config.move_cases (motive := fun t : HaltingThread => ¬ t.barrier.pc.Wakes) j
      (fun _ => hquiet) (fun _ => h.none_sent j)

/-- Nobody completes another round, and nobody sends an interrupt. -/
theorem step (h : Abandoned s i)
    (hsound : LsenseSound .cpuhaltSendIPI code rounds (userView s))
    (hmove : HaltingMove code rounds who s.shared (s.threads who) choice sh own) :
    Abandoned (s.move who sh own) i := by
  cases hmove with
  | user stray sb t' huser hstep =>
      have hrelease : (s.threads who).barrier.pc ≠ .release :=
        fun hpc => h.none_sent who (.inl (.inr hpc))
      have hioctl : (s.threads who).barrier.pc ≠ .ioctl :=
        fun hpc => h.none_sent who (.inr hpc)
      have hmove := lsenseBarrier_cases (hsound.2 who).leavesOnSense hstep
      refine h.keep (hmove.releaseFlag_eq hrelease) ?_ ?_ (h.not_wakes_user hsound hstep)
      · show (if _ then _ else s.shared.inFlight) i = 0
        rw [if_neg hioctl]
        exact h.none_coming
      · rintro rfl
        have hpause := h.committed.resolve_right huser
        simp only [lsenseBarrier, hpause, LsenseVariant.waitLoop, spinOnConditionCpuhalt,
          Option.some.injEq, Prod.mk.injEq] at hstep
        obtain ⟨-, rfl⟩ := hstep
        exact ⟨.inr rfl, rfl⟩
  | kernel stray stage hin hstep =>
      exact h.keep rfl h.none_coming (fun _ => ⟨.inr hin, rfl⟩) (h.none_sent who)
  | wake left hleft hhalted =>
      have hne : i ≠ who := by
        rintro rfl
        rw [h.none_coming] at hleft
        exact absurd hleft (Nat.not_lt_zero left)
      refine h.keep rfl ?_ (fun heq => absurd heq hne) ?_
      · exact (Function.update_of_ne hne _ _).trans h.none_coming
      · rintro ((hpc | hpc) | hpc) <;> cases hpc
  | serviced left hleft hawake =>
      have hne : i ≠ who := by
        rintro rfl
        rw [h.none_coming] at hleft
        exact absurd hleft (Nat.not_lt_zero left)
      exact h.keep rfl ((Function.update_of_ne hne _ _).trans h.none_coming)
        (fun heq => absurd heq hne) (h.none_sent who)

end Abandoned

/-! ## Progress -/

/-- How far a thread in `sys_cpu_halt` is from the next comparison. -/
def CpuHaltPc.turns : CpuHaltPc → ℕ
  | .sti => 3
  | .hlt => 2
  | .halted => 1

/-- What is left of the wait loop of a thread whose sense is published. -/
def haltingTurns (sh : HaltingShared (Fin n.val)) (t : HaltingThread) : ℕ :=
  if Published sh t then
    match t.barrier.pc with
    | .wait .pause => 4
    | .wait .halted => t.stage.turns
    | _ => 0
  else 0

theorem haltingTurns_le (sh : HaltingShared (Fin n.val)) (t : HaltingThread) :
    haltingTurns sh t ≤ 4 := by
  unfold haltingTurns
  split
  · split
    · exact le_rfl
    · cases t.stage <;> decide
    · exact Nat.zero_le 4
  · exact Nat.zero_le 4

/-- The loops of the barrier; a halted thread does not move by itself. -/
def haltingLoops (n : ThreadCount) (rounds : ℕ) :
    Loops (Fin n.val) (HaltingShared (Fin n.val)) HaltingThread where
  Active t := t.barrier.calls < rounds
  Stuck sh _ t := t.barrier.pc.polling = true ∧ ¬ Published sh t ∨ t.Halted
  work t := t.barrier.work LsensePc.left 8 rounds
  turns := haltingTurns
  bound := 4
  turns_le := haltingTurns_le

/-- The loops only look at the flag. -/
theorem halting_unmoved
    (hflag : sh.barrier.releaseFlag = s.shared.barrier.releaseFlag) :
    (haltingLoops n rounds).Unmoved who s.shared sh where
  turns_eq t := by
    have hiff : Published sh t ↔ Published s.shared t := by rw [Published, Published, hflag]
    show haltingTurns sh t = haltingTurns s.shared t
    simp only [haltingTurns, hiff]
  stuck j _ t hstuck := by
    refine hstuck.imp (fun hpolls => ⟨hpolls.1, fun hpublished => hpolls.2 ?_⟩) id
    exact hflag.trans hpublished

/-- A thread whose sense is not published advances by going round its loop. -/
theorem halting_advances_of_waits {t' : LsenseThread} {stage : CpuHaltPc} {pc : WaitPc}
    (hbarrier : sh.barrier = s.shared.barrier)
    (hpc : (s.threads who).barrier.pc = .wait pc)
    (hown : t' = (s.threads who).barrier ∨ ∃ pc', t' = (s.threads who).barrier.goto (.wait pc'))
    (hunpublished : ¬ Published s.shared (s.threads who)) :
    (haltingLoops n rounds).Advances True who s.shared (s.threads who) sh ⟨t', stage⟩ := by
  have hwork : t'.work LsensePc.left 8 rounds =
      (s.threads who).barrier.work LsensePc.left 8 rounds := by
    rcases hown with rfl | ⟨pc', rfl⟩
    · rfl
    · exact SenseThread.work_eq rfl (by rw [hpc]; rfl)
  have hsense : t'.lsense = (s.threads who).barrier.lsense := by
    rcases hown with rfl | ⟨pc', rfl⟩ <;> rfl
  have hlater : ¬ Published s.shared ⟨t', stage⟩ := by
    unfold Published
    rwa [hsense]
  refine .waits hwork (halting_unmoved (by rw [hbarrier])) ?_ ?_
  · show haltingTurns s.shared ⟨t', stage⟩ = haltingTurns s.shared (s.threads who)
    rw [haltingTurns, haltingTurns, if_neg hunpublished, if_neg hlater]
  · exact .inl ⟨by rw [hpc]; rfl, hunpublished⟩

/-- A step in the wait loop. -/
theorem halting_advances_of_wait {sb : SpinBarrier} {t' : LsenseThread} {pc : WaitPc}
    (hcalls : (s.threads who).barrier.calls < rounds)
    (hpc : (s.threads who).barrier.pc = .wait pc) (huser : ¬ (s.threads who).InKernel)
    (hkept : LsenseVariant.cpuhaltSendIPI.Kept (code who (s.threads who).barrier.calls)
      (s.threads who).barrier)
    (hstep : lsenseBarrier code rounds .cpuhaltSendIPI who stray s.shared.barrier
      (s.threads who).barrier = some (sb, t'))
    (hsh : sh.barrier = sb) :
    (haltingLoops n rounds).Advances True who s.shared (s.threads who) sh ⟨t', .sti⟩ := by
  cases hout : LsenseVariant.cpuhaltSendIPI.waitLoop (code who (s.threads who).barrier.calls)
      stray pc s.shared.barrier.releaseFlag (s.threads who).barrier.lsense with
  | done =>
      simp only [lsenseBarrier, hpc, hout, Option.some.injEq, Prod.mk.injEq] at hstep
      obtain ⟨rfl, rfl⟩ := hstep
      exact .works (SenseThread.work_ret_lt hcalls le_rfl)
  | goto pc' =>
      simp only [lsenseBarrier, hpc, hout, Option.some.injEq, Prod.mk.injEq] at hstep
      obtain ⟨rfl, rfl⟩ := hstep
      by_cases hpublished : Published s.shared (s.threads who)
      · -- the comparison would have succeeded, so this was the pause
        have hpause : pc = .pause ∧ pc' = .halted := by
          have hflag : s.shared.barrier.releaseFlag = (s.threads who).barrier.lsense := hpublished
          cases pc with
          | pause => exact ⟨rfl, (WaitOutcome.goto.inj hout).symm⟩
          | halted => exact absurd hpc huser
          | entry => simp [LsenseVariant.waitLoop, spinOnConditionCpuhalt, hflag] at hout
          | poll =>
              have hkeeps := hkept rfl (by rw [hpc]; rfl)
              simp [LsenseVariant.waitLoop, hkeeps.poll_eq, spinOnCondition, hflag] at hout
        obtain ⟨rfl, rfl⟩ := hpause
        refine .turns (SenseThread.work_eq rfl (by rw [hpc]; rfl))
          (halting_unmoved (by rw [hsh])) ?_
        have hlater : Published s.shared
            ⟨(s.threads who).barrier.goto (.wait .halted), .sti⟩ := hpublished
        show haltingTurns s.shared ⟨(s.threads who).barrier.goto (.wait .halted), .sti⟩ <
          haltingTurns s.shared (s.threads who)
        rw [haltingTurns, haltingTurns, if_pos hpublished, if_pos hlater]
        simp [hpc, CpuHaltPc.turns]
      · exact halting_advances_of_waits hsh hpc (.inr ⟨pc', rfl⟩) hpublished

/-- A step in the kernel. -/
theorem halting_advances_of_kernel {stage : CpuHaltPc} (hin : (s.threads who).InKernel)
    (hstep : sysCpuHaltStep (s.threads who).stage = some stage) :
    (haltingLoops n rounds).Advances True who s.shared (s.threads who) s.shared
      ⟨(s.threads who).barrier, stage⟩ := by
  by_cases hpublished : Published s.shared (s.threads who)
  · refine .turns rfl (.refl who s.shared) ?_
    have hlater : Published s.shared ⟨(s.threads who).barrier, stage⟩ := hpublished
    have hlt : stage.turns < (s.threads who).stage.turns := by
      cases hold : (s.threads who).stage with
      | sti =>
          rw [hold] at hstep
          obtain rfl := Option.some.inj hstep
          decide
      | hlt =>
          rw [hold] at hstep
          obtain rfl := Option.some.inj hstep
          decide
      | halted =>
          rw [hold] at hstep
          cases hstep
    have hpc : (s.threads who).barrier.pc = .wait .halted := hin
    show haltingTurns s.shared ⟨(s.threads who).barrier, stage⟩ <
      haltingTurns s.shared (s.threads who)
    rw [haltingTurns, haltingTurns, if_pos hpublished, if_pos hlater]
    simpa only [hpc] using hlt
  · exact halting_advances_of_waits rfl hin (.inl rfl) hpublished

section

variable (hhalted : (s.threads who).Halted)

include hhalted

theorem work_wake : ((s.threads who).barrier.goto (.wait .poll)).work LsensePc.left 8 rounds =
    (s.threads who).barrier.work LsensePc.left 8 rounds := by
  have hpc : (s.threads who).barrier.pc = .wait .halted := hhalted.1
  exact SenseThread.work_eq rfl (by rw [hpc]; rfl)

/-- A waiter that is woken finds its sense. -/
theorem haltingTurns_wake_lt (hpublished : Published s.shared (s.threads who)) :
    haltingTurns s.shared ⟨(s.threads who).barrier.goto (.wait .poll), .sti⟩ <
      haltingTurns s.shared (s.threads who) := by
  have hpc : (s.threads who).barrier.pc = .wait .halted := hhalted.1
  have hlater : Published s.shared
      ⟨(s.threads who).barrier.goto (.wait .poll), .sti⟩ := hpublished
  rw [haltingTurns, haltingTurns, if_pos hpublished, if_pos hlater]
  simp [hpc, hhalted.2, CpuHaltPc.turns]

/-- An interrupt that ends a halt. -/
theorem halting_advances_of_wake {flight : Fin n.val → ℕ} {mine : Prop} :
    (haltingLoops n rounds).Advances mine who s.shared (s.threads who)
      { s.shared with inFlight := flight }
      ⟨(s.threads who).barrier.goto (.wait .poll), .sti⟩ := by
  by_cases hpublished : Published s.shared (s.threads who)
  · exact .turns (work_wake hhalted) (halting_unmoved rfl)
      (haltingTurns_wake_lt hhalted hpublished)
  · refine .waits (work_wake hhalted) (halting_unmoved rfl) ?_ (.inr hhalted)
    have hlater : ¬ Published s.shared
        ⟨(s.threads who).barrier.goto (.wait .poll), .sti⟩ := hpublished
    show haltingTurns s.shared ⟨(s.threads who).barrier.goto (.wait .poll), .sti⟩ =
      haltingTurns s.shared (s.threads who)
    rw [haltingTurns, haltingTurns, if_neg hpublished, if_neg hlater]

end

/-- Every step advances. -/
theorem HaltingMove.advances (h : LsenseSound .cpuhaltSendIPI code rounds (userView s))
    (hmove : HaltingMove code rounds who s.shared (s.threads who) choice sh own) :
    (haltingLoops n rounds).Advances (∃ stray, choice = .step stray) who s.shared
      (s.threads who) sh own := by
  obtain ⟨⟨round, hexact⟩, hkept⟩ := h
  cases hmove with
  | user stray sb t' huser hstep =>
      have hmine : ∃ stray', HaltingChoice.step stray = .step stray' := ⟨stray, rfl⟩
      rw [eq_true hmine]
      cases hpc : (s.threads who).barrier.pc with
      | wait pc =>
          have hcalls := (hexact.within who).calls_lt (by rw [userView, hpc]; rfl)
          exact halting_advances_of_wait hcalls hpc huser (hkept who) hstep rfl
      | _ => exact .works (hexact.work_lt (by rw [userView, hpc]; rfl) hstep)
  | kernel stray stage hin hstep =>
      have hmine : ∃ stray', HaltingChoice.step stray = .step stray' := ⟨stray, rfl⟩
      rw [eq_true hmine]
      exact halting_advances_of_kernel hin hstep
  | wake left hleft hhalted => exact halting_advances_of_wake hhalted
  | serviced left hleft hawake =>
      refine .passes ?_ rfl (halting_unmoved rfl) le_rfl id id
      rintro ⟨stray, heq⟩
      cases heq

/-- A step does the work of a call, or it leaves the flag and takes nobody else's
interrupts. -/
theorem HaltingMove.works_or_keeps (h : LsenseSound .cpuhaltSendIPI code rounds (userView s))
    (hmove : HaltingMove code rounds who s.shared (s.threads who) choice sh own) :
    (haltingLoops n rounds).work own < (haltingLoops n rounds).work (s.threads who) ∨
      sh.barrier.releaseFlag = s.shared.barrier.releaseFlag ∧
        ∀ i ≠ who, s.shared.inFlight i ≤ sh.inFlight i := by
  obtain ⟨⟨round, hexact⟩, hkept⟩ := h
  cases hmove with
  | user stray sb t' huser hstep =>
      cases hpolls : (s.threads who).barrier.pc.polling with
      | false => exact .inl (hexact.work_lt hpolls hstep)
      | true =>
          have hrelease : (s.threads who).barrier.pc ≠ .release := by
            intro hpc
            rw [hpc] at hpolls
            cases hpolls
          have hmove := lsenseBarrier_cases (hkept who).leavesOnSense hstep
          refine .inr ⟨hmove.releaseFlag_eq hrelease, fun i _ => ?_⟩
          show s.shared.inFlight i ≤ (if _ then _ else s.shared.inFlight) i
          split
          · unfold wakeupAllButSelf
            split <;> omega
          · exact le_rfl
  | kernel => exact .inr ⟨rfl, fun _ _ => le_rfl⟩
  | wake => exact .inr ⟨rfl, fun i hi => (Function.update_of_ne hi _ _).ge⟩
  | serviced => exact .inr ⟨rfl, fun i hi => (Function.update_of_ne hi _ _).ge⟩

/-- Who has to act: a thread, or whatever brings interrupts to its processor. -/
inductive HaltingParty (ι : Type)
  | thread (i : ι)
  | processor (i : ι)

/-- The steps each of them owns. -/
def HaltingOwns {ι : Type} : HaltingParty ι → ι × HaltingChoice → Prop
  | .thread i, label => ∃ stray, label = (i, .step stray)
  | .processor i, label => ∃ left, label = (i, .deliver left)

/-- A thread that need not wait, or an interrupt for one that is halted and need not be. -/
def HaltingHelps (rounds : ℕ)
    (s : Config (Fin n.val) (HaltingShared (Fin n.val)) HaltingThread) :
    HaltingParty (Fin n.val) → Prop
  | .thread i => (haltingLoops n rounds).Helps s i
  | .processor i => (s.threads i).Halted ∧ Published s.shared (s.threads i) ∧
      0 < s.shared.inFlight i

/-- What is known of every state of a run that loses no interrupt. -/
def HaltingLive (code : Fin n.val → ℕ → Inlined) (rounds : ℕ)
    (s : Config (Fin n.val) (HaltingShared (Fin n.val)) HaltingThread) : Prop :=
  LsenseSound .cpuhaltSendIPI code rounds (userView s) ∧ AllAttended s

/-- As long as somebody has calls left, somebody helps. -/
theorem HaltingLive.helper (h : HaltingLive code rounds s)
    (hactive : ∃ i, (s.threads i).barrier.calls < rounds) :
    ∃ party, HaltingHelps rounds s party := by
  obtain ⟨⟨⟨round, hexact⟩, -⟩, hattended⟩ := h
  obtain ⟨i, hcalls, hfree⟩ : ∃ i, (s.threads i).barrier.calls < rounds ∧
      ¬ ((s.threads i).barrier.pc.polling = true ∧ ¬ Published s.shared (s.threads i)) :=
    hexact.not_stuck hactive
  by_cases hhalted : (s.threads i).Halted
  · have hpolls : (s.threads i).barrier.pc.polling = true := by
      rw [show (s.threads i).barrier.pc = .wait .halted from hhalted.1]
      rfl
    have hpublished : Published s.shared (s.threads i) :=
      by_contra fun hne => hfree ⟨hpolls, hne⟩
    rcases hattended i (.inr hhalted.1) hpublished with hflight | ⟨j, hj⟩
    · exact ⟨.processor i, hhalted, hpublished, hflight⟩
    · -- whoever is about to send it can go on
      have hpc : (s.threads j).barrier.pc.polling = false ∧
          CallSite.inCall (s.threads j).barrier.pc = true := by
        rcases hj with (hj | hj) | hj <;> rw [hj] <;> exact ⟨rfl, rfl⟩
      refine ⟨.thread j, (hexact.within j).calls_lt hpc.2, ?_⟩
      rintro (⟨hpolls', -⟩ | hhalted')
      · exact absurd (hpolls'.symm.trans hpc.1) Bool.noConfusion
      · exact HaltingThread.Committed.not_wakes (.inr hhalted'.1) hj
  · exact ⟨.thread i, hcalls, fun hstuck => hstuck.elim hfree hhalted⟩

/-- Whoever helps can act. -/
theorem HaltingHelps.able {party : HaltingParty (Fin n.val)}
    (h : HaltingHelps rounds s party) :
    (haltingSystem n code rounds).Able (HaltingOwns party) s := by
  cases party with
  | thread i =>
      have hsome : (haltingBarrier code rounds i (.step 0) s.shared (s.threads i)).isSome := by
        by_cases hin : (s.threads i).InKernel
        · have hawake : (s.threads i).stage ≠ .halted := fun hstage => h.2 (.inr ⟨hin, hstage⟩)
          simp only [haltingBarrier, if_pos hin, Option.isSome_map]
          cases hstage : (s.threads i).stage with
          | sti => rfl
          | hlt => rfl
          | halted => exact absurd hstage hawake
        · simp only [haltingBarrier, if_neg hin, Option.isSome_map]
          exact lsenseBarrier_isSome (v := .cpuhaltSendIPI) h.1
      obtain ⟨r, hrun⟩ := Option.isSome_iff_exists.mp hsome
      exact ⟨(i, .step 0), _, ⟨0, rfl⟩, interleave_step_iff.mpr ⟨_, _, hrun, rfl⟩⟩
  | processor i =>
      have hrun : haltingBarrier code rounds i (.deliver 0) s.shared (s.threads i) =
          some ({ s.shared with inFlight := Function.update s.shared.inFlight i 0 },
            (s.threads i).interrupted) := if_pos h.2.2
      exact ⟨(i, .deliver 0), _, ⟨0, rfl⟩, interleave_step_iff.mpr ⟨_, _, hrun, rfl⟩⟩

/-- An interrupt that is to end a halt stays, unless a step lowers the rank. -/
theorem HaltingHelps.processor_down
    (h : LsenseSound .cpuhaltSendIPI code rounds (userView s))
    (hhelps : HaltingHelps rounds s (.processor i))
    (hmove : HaltingMove code rounds who s.shared (s.threads who) choice sh own) :
    (haltingLoops n rounds).rank (s.move who sh own) < (haltingLoops n rounds).rank s ∨
      i ≠ who ∧
        (haltingLoops n rounds).rank (s.move who sh own) = (haltingLoops n rounds).rank s ∧
          HaltingHelps rounds (s.move who sh own) (.processor i) := by
  obtain ⟨hhalted, hpublished, hflight⟩ := hhelps
  by_cases hi : i = who
  · subst i
    cases hmove with
    | user _ _ _ huser => exact absurd hhalted.1 huser
    | kernel stray stage hin hstep =>
        rw [hhalted.2] at hstep
        cases hstep
    | serviced _ _ hawake => exact absurd hhalted hawake
    | wake left hleft =>
        exact .inl (Loops.rank_lt_of_turns (work_wake hhalted) (halting_unmoved rfl)
          (haltingTurns_wake_lt hhalted hpublished))
  · rcases lt_or_eq_of_le (hmove.advances h).rank_le with hlt | heq
    · exact .inl hlt
    · rcases hmove.works_or_keeps h with hwork | ⟨hflag, hothers⟩
      · exact absurd heq (Loops.rank_lt_of_work hwork).ne
      · refine .inr ⟨hi, heq, ?_, ?_, ?_⟩
        · rwa [Config.move_threads_of_ne hi]
        · rw [Config.move_threads_of_ne hi]
          exact hflag.trans hpublished
        · exact hflight.trans_le (hothers i hi)

/-- A run that loses no arrivals, operands or interrupts makes progress. -/
theorem halting_descent :
    System.Descent (haltingSystem n code rounds)
      (fun s label => HaltingLosesNothing code s label ∧ ¬ LosesInterrupt s label) HaltingOwns
      (HaltingLive code rounds) (fun s => ∀ i, ¬ (s.threads i).barrier.calls < rounds)
      (haltingLoops n rounds).rank (HaltingHelps rounds) where
  helper s hlive hgoal := hlive.helper (not_forall_not.mp hgoal)
  able s party _ hhelps := hhelps.able
  down := by
    rintro s party ⟨who, choice⟩ t ⟨hsound, -⟩ hhelps - hstep
    obtain ⟨sh, own, hrun, rfl⟩ := interleave_step_iff.mp hstep
    have hmove := haltingBarrier_cases hrun
    cases party with
    | thread i =>
        refine ((hmove.advances hsound).down hhelps).imp id ?_
        rintro ⟨hmine, hrank, hnext⟩
        refine ⟨fun hown => ?_, hrank, hnext⟩
        obtain ⟨stray, hown⟩ := hown
        obtain ⟨rfl, rfl⟩ := Prod.mk.inj hown
        exact hmine rfl ⟨stray, rfl⟩
    | processor i =>
        refine (hhelps.processor_down hsound hmove).imp id ?_
        rintro ⟨hne, hrank, hnext⟩
        refine ⟨?_, hrank, hnext⟩
        rintro ⟨left, hown⟩
        exact hne (Prod.mk.inj hown).1.symm

/-- What a run that loses no interrupt keeps. -/
theorem haltingLive_of_reachable
    (hreach : (haltingSystem n code rounds).ReachableVia
      (fun s label => HaltingLosesNothing code s label ∧ ¬ LosesInterrupt s label) s) :
    HaltingLive code rounds s := by
  have hboth : (haltingSystem n code rounds).ReachableVia (HaltingLosesNothing code) s ∧
      AllAttended s := by
    refine interleave_invariant_via (P := fun s =>
      (haltingSystem n code rounds).ReachableVia (HaltingLosesNothing code) s ∧ AllAttended s)
      ?_ ?_ hreach
    · intro s hinit
      refine ⟨.of_init hinit, fun i hcommitted => ?_⟩
      rw [hinit.2.2 i] at hcommitted
      rcases hcommitted with hpause | hin
      · cases hpause
      · cases hin
    · intro s who choice sh own ⟨hbefore, hattended⟩ hallow hstep
      have hsound := lsenseSound_of_halting hbefore
      exact ⟨hbefore.step hallow.1 (interleave_step_iff.mpr ⟨sh, own, hstep, rfl⟩),
        hattended.step hsound hallow.2 (haltingBarrier_cases hstep)⟩
  exact ⟨lsenseSound_of_halting hboth.1, hboth.2⟩

/-- Once all calls have returned only interrupts are left. -/
theorem halting_returned_step {label : Fin n.val × HaltingChoice}
    (h : LsenseReturned rounds (userView s))
    (hstep : (haltingSystem n code rounds).step s label t) :
    LsenseReturned rounds (userView t) := by
  obtain ⟨sh, own, hrun, rfl⟩ := interleave_step_iff.mp hstep
  rw [userView_move]
  rcases (haltingBarrier_cases hrun).view_step with ⟨stray, -, hmove⟩ | ⟨hshared, hown⟩
  · refine absurd (interleave_step_iff.mpr ⟨_, _, hmove, rfl⟩)
      (h.not_step (v := .cpuhaltSendIPI) (label.1, stray) _)
  · rw [hshared, hown]
    exact (Config.move_eq_self (s := userView s)).symm ▸ h

/-- A waiter that is abandoned stays so. -/
theorem Abandoned.stays
    {e : System.Execution (haltingSystem n code rounds) (HaltingLosesNothing code)} {m k : ℕ}
    (h : Abandoned (e.state m) i) (hk : m ≤ k) : Abandoned (e.state k) i := by
  have hboth := e.stays
    (P := fun s => Abandoned s i ∧
      (haltingSystem n code rounds).ReachableVia (HaltingLosesNothing code) s)
    (fun s label t hs hallow hstep => by
      have hsound := lsenseSound_of_halting hs.2
      obtain ⟨sh, own, hrun, rfl⟩ := interleave_step_iff.mp hstep
      exact ⟨hs.1.step hsound (haltingBarrier_cases hrun), hs.2.step hallow hstep⟩)
    ⟨h, e.reachableVia m⟩ hk
  exact hboth.1

/-- Somebody who is committed has not returned. -/
theorem HaltingThread.Committed.not_returned (h : (s.threads i).Committed) :
    ¬ LsenseReturned rounds (userView s) := by
  intro hall
  have hout : (s.threads i).barrier.pc = .outside := (hall i).1
  rcases h with hpause | hin
  · exact LsensePc.noConfusion (hout.symm.trans hpause)
  · exact LsensePc.noConfusion (hout.symm.trans hin)

/-- In a fair run in which neither arrivals nor operands are lost all calls return exactly if
no waiter loses its last interrupt. -/
theorem haltingSystem_terminates_iff
    (e : System.Execution (haltingSystem n code rounds) (HaltingLosesNothing code))
    (hfair : e.Fair HaltingOwns) :
    (∃ m, LsenseReturned rounds (userView (e.state m))) ↔
      ∀ m label, e.label m = some label → ¬ LosesInterrupt (e.state m) label := by
  constructor
  · rintro ⟨m, hall⟩ k label hlabel hloses
    rcases e.step k with ⟨hnone, -⟩ | ⟨label', hlabel', -, hstep⟩
    · rw [hlabel] at hnone
      cases hnone
    obtain rfl : label = label' := Option.some.inj (hlabel.symm.trans hlabel')
    obtain ⟨sh, own, hrun, htarget⟩ := interleave_step_iff.mp hstep
    have habandoned : Abandoned (e.state (k + 1)) label.1 := by
      rw [htarget]
      exact .of_loses hloses (haltingBarrier_cases hrun)
    rcases Nat.lt_or_ge k m with hlt | hle
    · exact (habandoned.stays hlt).committed.not_returned hall
    · have hlater := e.stays (P := fun s => LsenseReturned rounds (userView s))
        (fun _ _ _ hs _ hstep => halting_returned_step hs hstep) hall hle
      exact hloses.2.1.1.not_returned hlater
  · intro hkeeps
    let e' : System.Execution (haltingSystem n code rounds)
        (fun s label => HaltingLosesNothing code s label ∧ ¬ LosesInterrupt s label) :=
      e.restrict hkeeps
    have hlive (k : ℕ) : HaltingLive code rounds (e'.state k) :=
      haltingLive_of_reachable (e'.reachableVia k)
    obtain ⟨m, -, hdone⟩ := halting_descent.eventually (e := e'.toPath) hfair.restrict hlive 0
    obtain ⟨⟨round, hexact⟩, -⟩ := (hlive m).1
    exact ⟨m, hexact.returned hdone⟩

/-- The configuration before the first call. -/
def haltingStart (n : ThreadCount) :
    Config (Fin n.val) (HaltingShared (Fin n.val)) HaltingThread where
  shared := ⟨spinBarrierInit n.word, fun _ => 0⟩
  threads _ := .start

/-- Thread `i` halts, thread `j` releases it and sends an interrupt, and `i` is woken. -/
def haltAndWake (i j : Fin n.val) : List (Fin n.val × HaltingChoice) :=
  List.replicate 7 (i, .step 0) ++ List.replicate 6 (j, .step 0) ++
    [(i, .deliver 0), (i, .step 0)]

def haltAndWakeRun (i j : Fin ThreadCount.two.val) :
    System.Execution (haltingSystem .two (fun _ _ => senseInRbx) 1)
      (HaltingLosesNothing fun _ _ => senseInRbx) :=
  System.scheduled _ _ (haltingStart .two) ⟨rfl, fun _ => rfl, fun _ => rfl⟩
    ((haltAndWake i j)[·]?)

/-- Nobody can act when all have returned and no interrupt is left. -/
theorem halting_not_able (h : LsenseReturned rounds (userView s))
    (hflight : ∀ i, s.shared.inFlight i = 0) (party : HaltingParty (Fin n.val)) :
    ¬ (haltingSystem n code rounds).Able (HaltingOwns party) s := by
  rintro ⟨⟨who, choice⟩, t, -, hstep⟩
  obtain ⟨sh, own, hrun, -⟩ := interleave_step_iff.mp hstep
  cases haltingBarrier_cases hrun with
  | user stray sb own huser hstep =>
      exact h.not_step (v := .cpuhaltSendIPI) (who, stray) _
        (interleave_step_iff.mpr ⟨_, _, hstep, rfl⟩)
  | kernel stray stage hin => exact LsensePc.noConfusion ((h who).1.symm.trans hin)
  | wake left hleft => exact absurd (hflight who ▸ hleft) (Nat.not_lt_zero left)
  | serviced left hleft => exact absurd (hflight who ▸ hleft) (Nat.not_lt_zero left)

set_option maxRecDepth 4000 in
theorem haltingSystem_terminates_iff_woken :
    LsenseReturned 1 (userView ((haltAndWakeRun 0 1).state 15)) ∧
      ∀ m label, (haltAndWakeRun 0 1).label m = some label →
        ¬ LosesInterrupt ((haltAndWakeRun 0 1).state m) label := by
  have hreturned : LsenseReturned 1 (userView ((haltAndWakeRun 0 1).state 15)) := by decide
  exact ⟨hreturned, (haltingSystem_terminates_iff (haltAndWakeRun 0 1)
    (System.fair_scheduled (halting_not_able (by decide) (by decide)))).mp ⟨15, hreturned⟩⟩

end Htsynch
