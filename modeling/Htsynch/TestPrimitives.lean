/-
# The notify and sleep pairs of test_primitives.c

`heavy` notifies and `light` sleeps, the same number of times. The pair is either a
store of `MWMON_NOTIFIED_VAL` with a sleep system call, or a store of
`NOTIFIED_VALUE` with a spin loop and a store of `ORIGINAL_VALUE`. Nothing keeps the
notifier from running ahead: a notification made while the previous one is pending
is lost, and `light` then waits forever. If every notification finds the flag
cleared, every one of them is honoured.
-/

import Htsynch.Foundations.Handshake
import Htsynch.Kernel.Mwmon
import Htsynch.Synch.SpinWait

namespace Htsynch

open Foundations

/-- Where a step of a sleep call leaves the sleeper. -/
def SleepOutcome.place : SleepOutcome → Option SleepPc
  | .goto pc => some pc
  | .returned => none

theorem SleepOutcome.place_eq_some {out : SleepOutcome} {pc : SleepPc} :
    out.place = some pc ↔ out = .goto pc := by
  cases out <;> simp [SleepOutcome.place]

theorem SleepOutcome.place_eq_none {out : SleepOutcome} :
    out.place = none ↔ out = .returned := by
  cases out <;> simp [SleepOutcome.place]

/-- How `heavy` notifies: the system call where the byte is the kernel's own, a
user-space store otherwise. -/
def notifyFor (ptrs : Pointers) (call : SleepCall) (h : Machine Role) : Machine Role :=
  match call with
  | .kernelSleep => sysMwmonKernelNotify ptrs .notifier h
  | _ => h.store .notifier (call.target ptrs) MWMON_NOTIFIED_VAL

theorem notifyFor_eq (ptrs : Pointers) (call : SleepCall) (h : Machine Role) :
    notifyFor ptrs call h = h.store .notifier (call.target ptrs) MWMON_NOTIFIED_VAL := by
  cases call <;> rfl

/-- One step of a sleep call, or an interrupt. -/
def sleepStep (ptrs : Pointers) (call : SleepCall) : Option Interrupt → SleepPc →
    Machine Role → Option (Machine Role × Option SleepPc)
  | none, pc, h => (call.run ptrs .sleeper pc h).map fun r => (r.1, r.2.place)
  | some i, pc, h => some (i.onMachine .sleeper h, some (i.onSleeper pc))

variable {ptrs : Pointers} {call : SleepCall} {c : Option Interrupt} {pc pc' : SleepPc}
  {h h' : Machine Role} {out : SleepOutcome} {k : ℕ}

theorem sleepStep_none_iff {place : Option SleepPc} :
    sleepStep ptrs call none pc h = some (h', place) ↔
      ∃ out, mwmonSleep (call.target ptrs) .sleeper pc h = some (h', out) ∧
        out.place = place := by
  simp only [sleepStep, SleepCall.run_eq, Option.map_eq_some_iff, Prod.exists, Prod.mk.injEq]
  constructor
  · rintro ⟨_, out, hrun, rfl, hplace⟩
    exact ⟨out, hrun, hplace⟩
  · rintro ⟨out, hrun, hplace⟩
    exact ⟨_, out, hrun, rfl, hplace⟩

/-- The sleeper of a sleep system call. -/
def sleepWaiter (ptrs : Pointers) (call : SleepCall) :
    Waiter (Machine Role) SleepPc (Option Interrupt) where
  start := .irqDisable
  step := sleepStep ptrs call
  notify := notifyFor ptrs call
  Pending h := h.mem (call.target ptrs) = MWMON_NOTIFIED_VAL
  Clearing pc := pc = .reset
  notify_pending h := by rw [notifyFor_eq, Hardware.store_mem_self]
  start_not_clearing := nofun
  pending_of_step := by
    intro c pc h h' pc' hstep
    cases c with
    | none =>
        obtain ⟨out, hrun, hplace⟩ := sleepStep_none_iff.mp hstep
        have hout := SleepOutcome.place_eq_some.mp hplace
        rw [(mwmonSleep_cases hrun).mem_eq hout]
    | some i =>
        simp only [sleepStep, Option.some.injEq, Prod.mk.injEq] at hstep
        rw [← hstep.1, Interrupt.onMachine_mem]
  clearing_of_step := by
    intro c pc h h' pc' hstep hclearing
    cases c with
    | none =>
        obtain ⟨out, hrun, hplace⟩ := sleepStep_none_iff.mp hstep
        rw [hclearing] at hplace
        exact .inr ((mwmonSleep_cases hrun).notified (SleepOutcome.place_eq_some.mp hplace))
    | some i =>
        simp only [sleepStep, Option.some.injEq, Prod.mk.injEq] at hstep
        rw [← hstep.2] at hclearing
        rcases i.onSleeper_cases pc with hsame | ⟨-, hwake⟩
        · exact .inl (hsame.symm.trans hclearing)
        · rw [hwake] at hclearing
          cases hclearing
  clears := by
    intro c pc h h' hstep
    cases c with
    | none =>
        obtain ⟨out, hrun, hplace⟩ := sleepStep_none_iff.mp hstep
        have hout := SleepOutcome.place_eq_none.mp hplace
        cases mwmonSleep_cases hrun with
        | reset hpc =>
            refine ⟨hpc, ?_⟩
            rw [Hardware.store_mem_self]
            exact original_ne_notified
        | _ => cases hout
    | some i => simp [sleepStep] at hstep

instance : DecidablePred (sleepWaiter ptrs call).Pending :=
  fun h => inferInstanceAs (Decidable (h.mem (call.target ptrs) = MWMON_NOTIFIED_VAL))

/-- `k` notifications against `k` sleeps on a byte at `MWMON_ORIGINAL_VAL`. -/
def sleepPair (ptrs : Pointers) (call : SleepCall) (k : ℕ) :
    System (Config Role (Machine Role) (Party SleepPc)) (Role × Option Interrupt) :=
  interleave (Waiter.Initial fun h => h.mem (call.target ptrs) = MWMON_ORIGINAL_VAL)
    ((sleepWaiter ptrs call).program k)

/-- All notifications are made, a sleep is left to finish, and the byte is at its
original value. -/
def SleepStarved (ptrs : Pointers) (call : SleepCall) (k : ℕ)
    (s : Config Role (Machine Role) (Party SleepPc)) : Prop :=
  (s.threads .notifier).done = k ∧ (s.threads .sleeper).done < k ∧
    s.shared.mem (call.target ptrs) = MWMON_ORIGINAL_VAL

instance {s : Config Role (Machine Role) (Party SleepPc)} :
    Decidable (SleepStarved ptrs call k s) :=
  inferInstanceAs (Decidable (_ ∧ _ ∧ _))

def ORIGINAL_VALUE : Word := 0
def NOTIFIED_VALUE : Word := 1

/-- Where `light` is in its two statements. -/
inductive SpinPausePc
  /-- In `spin_on_condition(&spin_var, NOTIFIED_VALUE)`. -/
  | spin (pc : WaitPc)
  /-- `spin_var = ORIGINAL_VALUE`. -/
  | reset
  deriving DecidableEq

/-- One step of `light`. -/
def spinPauseStep : Unit → SpinPausePc → Word → Option (Word × Option SpinPausePc)
  | _, .spin pc, spinVar =>
      match spinOnCondition pc spinVar NOTIFIED_VALUE with
      | .goto pc' => some (spinVar, some (.spin pc'))
      | .done => some (spinVar, some .reset)
  | _, .reset, _ => some (ORIGINAL_VALUE, none)

/-- The sleeper of the SPINPAUSE pair. -/
def spinPauseWaiter : Waiter Word SpinPausePc Unit where
  start := .spin .entry
  step := spinPauseStep
  notify _ := NOTIFIED_VALUE
  Pending spinVar := spinVar = NOTIFIED_VALUE
  Clearing pc := pc = .reset
  notify_pending _ := rfl
  start_not_clearing := nofun
  pending_of_step := by
    intro c pc spinVar spinVar' pc' hstep
    cases pc with
    | spin pc =>
        cases hwait : spinOnCondition pc spinVar NOTIFIED_VALUE <;>
          simp only [spinPauseStep, hwait, Option.some.injEq, Prod.mk.injEq] at hstep <;>
          rw [hstep.1]
    | reset => simp [spinPauseStep] at hstep
  clearing_of_step := by
    intro c pc spinVar spinVar' pc' hstep hclearing
    cases pc with
    | spin pc =>
        cases hwait : spinOnCondition pc spinVar NOTIFIED_VALUE with
        | goto pc'' =>
            simp only [spinPauseStep, hwait, Option.some.injEq, Prod.mk.injEq] at hstep
            rw [← hstep.2] at hclearing
            cases hclearing
        | done => exact .inr (spinOnCondition_eq_done hwait)
    | reset => exact .inl rfl
  clears := by
    intro c pc spinVar spinVar' hstep
    cases pc with
    | spin pc =>
        cases hwait : spinOnCondition pc spinVar NOTIFIED_VALUE <;>
          simp [spinPauseStep, hwait] at hstep
    | reset =>
        simp only [spinPauseStep, Option.some.injEq, Prod.mk.injEq] at hstep
        refine ⟨rfl, ?_⟩
        rw [← hstep.1]
        decide

instance : DecidablePred spinPauseWaiter.Pending :=
  fun spinVar => inferInstanceAs (Decidable (spinVar = NOTIFIED_VALUE))

/-- `k` notifications against `k` waits on a `spin_var` at `ORIGINAL_VALUE`. -/
def spinPausePair (k : ℕ) : System (Config Role Word (Party SpinPausePc)) (Role × Unit) :=
  interleave (Waiter.Initial fun spinVar => spinVar = ORIGINAL_VALUE)
    (spinPauseWaiter.program k)

/-- All notifications are made, a wait is left to finish, and `spin_var` is at its
original value. -/
def SpinPauseStarved (k : ℕ) (s : Config Role Word (Party SpinPausePc)) : Prop :=
  (s.threads .notifier).done = k ∧ (s.threads .sleeper).done < k ∧ s.shared = ORIGINAL_VALUE

instance {s : Config Role Word (Party SpinPausePc)} : Decidable (SpinPauseStarved k s) :=
  inferInstanceAs (Decidable (_ ∧ _ ∧ _))

theorem sleepPair_not_starved {s : Config Role (Machine Role) (Party SleepPc)}
    (hreach : (sleepPair ptrs call k).ReachableVia (sleepWaiter ptrs call).FindsCleared s) :
    ¬ SleepStarved ptrs call k s := by
  rintro ⟨hposted, htaken, hbyte⟩
  have hcleared : ∀ h : Machine Role, h.mem (call.target ptrs) = MWMON_ORIGINAL_VAL →
      ¬ (sleepWaiter ptrs call).Pending h := by
    intro h horiginal hpending
    exact original_ne_notified (horiginal.symm.trans hpending)
  have hdone := Waiter.done_eq_of_not_pending hcleared hreach (hcleared _ hbyte)
  omega

/-- One notification that overruns another is never made good. -/
theorem sleepPair_behind_of_overrun {s t u : Config Role (Machine Role) (Party SleepPc)}
    (hreach : (sleepPair ptrs call k).Reachable s)
    (hbyte : s.shared.mem (call.target ptrs) = MWMON_NOTIFIED_VAL)
    (hstep : ((sleepWaiter ptrs call).program k).next s (.notifier, c) = some t)
    (hpath : Relation.ReflTransGen ((sleepPair ptrs call k).Next fun _ _ => True) t u) :
    (u.threads .sleeper).done < (u.threads .notifier).done := by
  refine Waiter.done_lt_of_overrun ?_ hreach hbyte hstep hpath
  intro h horiginal hpending
  exact original_ne_notified (horiginal.symm.trans hpending)

theorem spinPausePair_not_starved {s : Config Role Word (Party SpinPausePc)}
    (hreach : (spinPausePair k).ReachableVia spinPauseWaiter.FindsCleared s) :
    ¬ SpinPauseStarved k s := by
  rintro ⟨hposted, htaken, hvalue⟩
  have hcleared : ∀ spinVar : Word, spinVar = ORIGINAL_VALUE →
      ¬ spinPauseWaiter.Pending spinVar := by
    rintro _ rfl hpending
    exact absurd hpending (by decide)
  have hdone := Waiter.done_eq_of_not_pending hcleared hreach (hcleared _ hvalue)
  omega

/-- In runs in which every notification finds the flag cleared the sleeper never
waits forever. -/
theorem notifications_honoured (ptrs : Pointers) (call : SleepCall) (k : ℕ) :
    (∀ s, (sleepPair ptrs call k).ReachableVia (sleepWaiter ptrs call).FindsCleared s →
      ¬ SleepStarved ptrs call k s) ∧
    ∀ s, (spinPausePair k).ReachableVia spinPauseWaiter.FindsCleared s →
      ¬ SpinPauseStarved k s :=
  ⟨fun _ => sleepPair_not_starved, fun _ => spinPausePair_not_starved⟩

/-- Nobody has started and every byte is at its original value. -/
def sleepPairStart : Config Role (Machine Role) (Party SleepPc) :=
  ⟨⟨fun _ => MWMON_ORIGINAL_VAL, fun _ => none⟩, fun _ => ⟨none, 0⟩⟩

def spinPairStart : Config Role Word (Party SpinPausePc) :=
  ⟨ORIGINAL_VALUE, fun _ => ⟨none, 0⟩⟩

/-- The second notification comes after the first sleep has returned and the second has begun.
One in between finds the first notification pending and is not made. -/
def sleepPairServed : Config Role (Machine Role) (Party SleepPc) :=
  System.exec (System.guarded (sleepWaiter examplePointers .mmapSleep).FindsCleared
      ((sleepWaiter examplePointers .mmapSleep).program 2).next) sleepPairStart
    (List.replicate 2 (.notifier, none) ++ List.replicate 8 (.sleeper, none) ++
      [(.notifier, none)])

def spinPairServed : Config Role Word (Party SpinPausePc) :=
  System.exec (System.guarded spinPauseWaiter.FindsCleared (spinPauseWaiter.program 2).next)
    spinPairStart (List.replicate 2 (.notifier, ()) ++ List.replicate 4 (.sleeper, ()) ++
      [(.notifier, ())])

theorem notifications_honoured_twice :
    (((sleepPairServed.threads .notifier).done = 2 ∧ (sleepPairServed.threads .sleeper).done = 1 ∧
        (sleepPairServed.threads .sleeper).pc.isSome) ∧
      ¬ SleepStarved examplePointers .mmapSleep 2 sleepPairServed) ∧
    ((spinPairServed.threads .notifier).done = 2 ∧ (spinPairServed.threads .sleeper).done = 1 ∧
        (spinPairServed.threads .sleeper).pc.isSome) ∧
      ¬ SpinPauseStarved 2 spinPairServed :=
  ⟨⟨by decide, (notifications_honoured examplePointers .mmapSleep 2).1 _
      (System.reachableVia_exec _ (.of_init ⟨rfl, fun _ => rfl⟩))⟩,
    by decide, (notifications_honoured examplePointers .mmapSleep 2).2 _
      (System.reachableVia_exec _ (.of_init ⟨rfl, fun _ => rfl⟩))⟩

/-- Two notifications before the first sleep: the second sleep is never served. -/
theorem notifications_lost :
    (∃ s, (sleepPair examplePointers .mmapSleep 2).Reachable s ∧
      SleepStarved examplePointers .mmapSleep 2 s) ∧
    (∃ s, (sleepPair examplePointers .mmapSleep2 2).Reachable s ∧
      SleepStarved examplePointers .mmapSleep2 2 s) ∧
    (∃ s, (sleepPair examplePointers (.userSleep 12288) 2).Reachable s ∧
      SleepStarved examplePointers (.userSleep 12288) 2 s) ∧
    (∃ s, (sleepPair examplePointers .kernelSleep 2).Reachable s ∧
      SleepStarved examplePointers .kernelSleep 2 s) ∧
    (∃ s, (spinPausePair 2).Reachable s ∧ SpinPauseStarved 2 s) := by
  have hsleep : ∀ call : SleepCall, (sleepPair examplePointers call 2).Reachable
      (System.exec ((sleepWaiter examplePointers call).program 2).next sleepPairStart
        (List.replicate 2 (.notifier, none) ++ List.replicate 6 (.sleeper, none))) :=
    fun _ => System.reachable_exec _ (.of_init ⟨rfl, fun _ => rfl⟩)
  have hspin : (spinPausePair 2).Reachable
      (System.exec (spinPauseWaiter.program 2).next spinPairStart
        (List.replicate 2 (.notifier, ()) ++ List.replicate 3 (.sleeper, ()))) :=
    System.reachable_exec _ (.of_init ⟨rfl, fun _ => rfl⟩)
  refine ⟨⟨_, hsleep _, ?_⟩, ⟨_, hsleep _, ?_⟩, ⟨_, hsleep _, ?_⟩, ⟨_, hsleep _, ?_⟩,
    ⟨_, hspin, ?_⟩⟩
  · decide
  · decide
  · decide
  · decide
  · decide

end Htsynch
