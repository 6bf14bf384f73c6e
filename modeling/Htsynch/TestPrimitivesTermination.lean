/-
# When test_primitives.c comes to an end

`heavy` and `light` finish exactly in those fair runs in which no notification overruns
another one: nothing else can keep a sleep call or a spin loop from being served, neither
interrupts nor the order of the steps.
-/

import Htsynch.Foundations.HandshakeProgress
import Htsynch.Synch.LoopTurns
import Htsynch.TestPrimitives

namespace Htsynch

open Foundations

variable {ptrs : Pointers} {call : SleepCall} {k : ℕ}

/-- A sleep call ends once its byte is notified. -/
def sleepLively (ptrs : Pointers) (call : SleepCall) : (sleepWaiter ptrs call).Lively where
  own := none
  Sound h pc := SleepWatch (call.target ptrs) .sleeper h pc
  turns := SleepPc.turns
  bound := 4
  turns_le := SleepPc.turns_le
  sound_start _ := trivial
  sound_notify {h pc} hwatch := by
    show SleepWatch _ _ (notifyFor ptrs call h) pc
    rw [notifyFor_eq]
    exact hwatch.store Role.noConfusion
  sound_step {c pc h h' pc'} hwatch hstep := by
    cases c with
    | none =>
        obtain ⟨out, hrun, hplace⟩ := sleepStep_none_iff.mp hstep
        exact hwatch.step (mwmonSleep_cases hrun) (SleepOutcome.place_eq_some.mp hplace)
    | some i =>
        obtain ⟨rfl, hpc⟩ := Prod.mk.inj (Option.some.inj hstep)
        obtain rfl := Option.some.inj hpc
        exact hwatch.interrupt.onSleeper
  able {pc h} hwatch hpending := by
    show (sleepStep ptrs call none pc h).isSome
    simp only [sleepStep, SleepCall.run_eq, Option.isSome_map]
    cases pc with
    | mwait =>
        have hfree : ¬ h.Blocks Role.sleeper := Hardware.Watched.not_blocks hwatch hpending
        simp [mwmonSleep, hfree]
    | _ => rfl
  turns_step {c pc h h' pc'} hstep hpending := by
    cases c with
    | none =>
        obtain ⟨out, hrun, hplace⟩ := sleepStep_none_iff.mp hstep
        have hlt := (mwmonSleep_cases hrun).turns_lt (SleepOutcome.place_eq_some.mp hplace)
          hpending
        exact ⟨hlt.le, fun _ => hlt⟩
    | some i =>
        obtain ⟨-, hpc⟩ := Prod.mk.inj (Option.some.inj hstep)
        obtain rfl := Option.some.inj hpc
        exact ⟨i.turns_onSleeper pc, nofun⟩

namespace SpinPausePc

/-- How far `light` is from its store once `spin_var` is notified. -/
def turns : SpinPausePc → ℕ
  | .spin pc => pc.turns True + 1
  | .reset => 0

theorem turns_le (pc : SpinPausePc) : pc.turns ≤ 3 := by
  cases pc with
  | spin pc => exact Nat.succ_le_succ (WaitPc.turns_le pc)
  | reset => exact Nat.zero_le 3

end SpinPausePc

/-- A spin loop ends once `spin_var` is notified. -/
def spinPauseLively : spinPauseWaiter.Lively where
  own := ()
  Sound _ _ := True
  turns := SpinPausePc.turns
  bound := 3
  turns_le := SpinPausePc.turns_le
  sound_start _ := trivial
  sound_notify _ := trivial
  sound_step _ _ := trivial
  able {pc spinVar} _ _ := by
    cases pc with
    | spin pc =>
        cases hwait : spinOnCondition pc spinVar NOTIFIED_VALUE <;>
          simp [spinPauseWaiter, spinPauseStep, hwait]
    | reset => rfl
  turns_step {c pc spinVar spinVar' pc'} hstep hpending := by
    have hlt : pc'.turns < pc.turns := by
      cases pc with
      | spin pc =>
          cases hwait : spinOnCondition pc spinVar NOTIFIED_VALUE with
          | goto pc'' =>
              simp only [spinPauseWaiter, spinPauseStep, hwait, Option.some.injEq,
                Prod.mk.injEq] at hstep
              obtain rfl := hstep.2
              have hfound : spinVar = NOTIFIED_VALUE := hpending
              have hturns := (spinOnCondition_turns hwait).resolve_right fun h => h.1 hfound
              simpa only [SpinPausePc.turns, hfound, Nat.add_lt_add_iff_right] using hturns
          | done =>
              simp only [spinPauseWaiter, spinPauseStep, hwait, Option.some.injEq,
                Prod.mk.injEq] at hstep
              obtain rfl := hstep.2
              exact Nat.succ_pos _
      | reset => simp [spinPauseWaiter, spinPauseStep] at hstep
    exact ⟨hlt.le, fun _ => hlt⟩

/-- In a fair run `heavy` and `light` finish exactly if no notification is made while the
one before it is still pending. -/
theorem notifications_complete_iff (ptrs : Pointers) (call : SleepCall) (k : ℕ) :
    (∀ e : System.Execution (sleepPair ptrs call k) fun _ _ => True,
      e.Fair (Owns (· = none)) →
        ((∃ n, Waiter.Complete k (e.state n)) ↔
          ∀ n l, e.label n = some l → (sleepWaiter ptrs call).FindsCleared (e.state n) l)) ∧
    ∀ e : System.Execution (spinPausePair k) fun _ _ => True,
      e.Fair (Owns (· = ())) →
        ((∃ n, Waiter.Complete k (e.state n)) ↔
          ∀ n l, e.label n = some l → spinPauseWaiter.FindsCleared (e.state n) l) := by
  constructor
  · refine (sleepLively ptrs call).completes_iff fun h horiginal hpending => ?_
    exact original_ne_notified (horiginal.symm.trans hpending)
  · refine spinPauseLively.completes_iff fun spinVar horiginal hpending => ?_
    exact absurd (horiginal.symm.trans hpending) (by decide)

/-- Two notifications, and a whole sleep call after each. -/
def servedSleeps : List (Role × Option Interrupt) :=
  (List.replicate 2 ((.notifier, none) :: List.replicate 6 (.sleeper, none))).flatten

def servedSleepsRun :
    System.Execution (sleepPair examplePointers .mmapSleep 2) (fun _ _ => True) :=
  System.scheduled _ _ sleepPairStart ⟨rfl, fun _ => rfl⟩ (servedSleeps[·]?)

theorem notifications_complete_iff_served :
    (∃ n, Waiter.Complete 2 (servedSleepsRun.state n)) ↔
      ∀ n l, servedSleepsRun.label n = some l →
        (sleepWaiter examplePointers .mmapSleep).FindsCleared (servedSleepsRun.state n) l :=
  (notifications_complete_iff examplePointers .mmapSleep 2).1 servedSleepsRun
    (System.fair_scheduled (Waiter.Complete.not_able (by decide) (by decide)))

end Htsynch
