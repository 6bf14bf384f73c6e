/-
# How long the loops turn

While the lock, the flag and the byte stay as they are, a thread in one of the acquisition
loops, the wait loops and the sleep calls either leaves it after a few instructions or
settles where it can only be let out by another thread. The distance to that place goes
down with every instruction until it is reached.
-/

import Htsynch.Kernel.Mwmon
import Htsynch.Synch.SpinLock
import Htsynch.Synch.SpinWait

namespace Htsynch

namespace LockPc

variable {free : Prop} [Decidable free]

/-- How far a thread is from taking a free lock, or from polling a taken one. -/
def turns (free : Prop) [Decidable free] : LockPc → ℕ
  | .attempt => if free then 0 else 1
  | .poll => if free then 1 else 0

theorem turns_le (pc : LockPc) : pc.turns free ≤ 1 := by
  cases pc with
  | attempt => rw [turns]; split <;> omega
  | poll => rw [turns]; split <;> omega

theorem turns_attempt_lt (hfree : free) : attempt.turns free < poll.turns free := by
  simp [turns, hfree]

theorem turns_poll_lt (htaken : ¬ free) : poll.turns free < attempt.turns free := by
  simp [turns, htaken]

end LockPc

namespace WaitPc

/-- How far a thread is from seeing that the value is there, or that it is not. -/
def turns (found : Prop) [Decidable found] : WaitPc → ℕ
  | .entry => if found then 0 else 1
  | .pause => if found then 2 else 0
  | .halted => if found then 1 else 0
  | .poll => 0

theorem turns_le {found : Prop} [Decidable found] (pc : WaitPc) : pc.turns found ≤ 2 := by
  cases pc with
  | entry => rw [turns]; split <;> omega
  | pause => rw [turns]; split <;> omega
  | halted => rw [turns]; split <;> omega
  | poll => rw [turns]; omega

end WaitPc

variable {pc pc' : WaitPc} {spinVar conditionVal : Word} [Decidable (spinVar = conditionVal)]

/-- A turn of the pausing loop. -/
theorem spinOnCondition_turns (h : spinOnCondition pc spinVar conditionVal = .goto pc') :
    pc'.turns (spinVar = conditionVal) < pc.turns (spinVar = conditionVal) ∨
      spinVar ≠ conditionVal ∧
        pc'.turns (spinVar = conditionVal) = pc.turns (spinVar = conditionVal) := by
  by_cases hfound : spinVar = conditionVal
  · left
    cases pc with
    | entry =>
        rw [spinOnCondition, if_pos hfound] at h
        cases h
    | pause =>
        obtain rfl : WaitPc.poll = pc' := WaitOutcome.goto.inj h
        simp [WaitPc.turns, hfound]
    | halted =>
        obtain rfl : WaitPc.poll = pc' := WaitOutcome.goto.inj h
        simp [WaitPc.turns, hfound]
    | poll =>
        rw [spinOnCondition, if_neg (not_not.mpr hfound)] at h
        cases h
  · cases pc with
    | entry =>
        rw [spinOnCondition, if_neg hfound] at h
        obtain rfl : WaitPc.pause = pc' := WaitOutcome.goto.inj h
        exact .inl (by simp [WaitPc.turns, hfound])
    | pause =>
        obtain rfl : WaitPc.poll = pc' := WaitOutcome.goto.inj h
        exact .inr ⟨hfound, by simp [WaitPc.turns, hfound]⟩
    | halted =>
        obtain rfl : WaitPc.poll = pc' := WaitOutcome.goto.inj h
        exact .inr ⟨hfound, by simp [WaitPc.turns, hfound]⟩
    | poll =>
        rw [spinOnCondition, if_pos hfound] at h
        obtain rfl : WaitPc.pause = pc' := WaitOutcome.goto.inj h
        exact .inr ⟨hfound, by simp [WaitPc.turns, hfound]⟩

/-- A turn of the halting loop whose operands survive the call. -/
theorem spinOnConditionCpuhalt_turns {code : Inlined} {stray : Word}
    (hkeeps : pc = .poll → code.Keeps conditionVal)
    (h : spinOnConditionCpuhalt code stray pc spinVar conditionVal = .goto pc') :
    pc'.turns (spinVar = conditionVal) < pc.turns (spinVar = conditionVal) ∨
      spinVar ≠ conditionVal ∧
        pc'.turns (spinVar = conditionVal) = pc.turns (spinVar = conditionVal) := by
  by_cases hfound : spinVar = conditionVal
  · left
    cases pc with
    | entry =>
        rw [spinOnConditionCpuhalt, if_pos hfound] at h
        cases h
    | pause =>
        obtain rfl : WaitPc.halted = pc' := WaitOutcome.goto.inj h
        simp [WaitPc.turns, hfound]
    | halted =>
        obtain rfl : WaitPc.poll = pc' := WaitOutcome.goto.inj h
        simp [WaitPc.turns, hfound]
    | poll =>
        rw [(hkeeps rfl).poll_eq, spinOnCondition, if_neg (not_not.mpr hfound)] at h
        cases h
  · cases pc with
    | entry =>
        rw [spinOnConditionCpuhalt, if_neg hfound] at h
        obtain rfl : WaitPc.pause = pc' := WaitOutcome.goto.inj h
        exact .inl (by simp [WaitPc.turns, hfound])
    | pause =>
        obtain rfl : WaitPc.halted = pc' := WaitOutcome.goto.inj h
        exact .inr ⟨hfound, by simp [WaitPc.turns, hfound]⟩
    | halted =>
        obtain rfl : WaitPc.poll = pc' := WaitOutcome.goto.inj h
        exact .inr ⟨hfound, by simp [WaitPc.turns, hfound]⟩
    | poll =>
        rw [(hkeeps rfl).poll_eq, spinOnCondition, if_pos hfound] at h
        obtain rfl : WaitPc.pause = pc' := WaitOutcome.goto.inj h
        exact .inr ⟨hfound, by simp [WaitPc.turns, hfound]⟩

namespace SleepPc

/-- How far a sleeper whose byte is notified is from the reset. -/
def turns : SleepPc → ℕ
  | .irqDisable => 4
  | .monitor => 3
  | .irqEnable => 2
  | .check => 1
  | .mwait => 2
  | .recheck => 1
  | .reset => 0

theorem turns_le (pc : SleepPc) : pc.turns ≤ 4 := by
  cases pc <;> decide

end SleepPc

/-- A step of a sleep call whose byte is notified. -/
theorem SleepMove.turns_lt {Cpu : Type} [DecidableEq Cpu] {p : Addr} {c : Cpu}
    {pc pc' : SleepPc} {h h' : Machine Cpu} {out : SleepOutcome}
    (hmove : SleepMove p c pc h h' out) (hout : out = .goto pc')
    (hmem : h.mem p = MWMON_NOTIFIED_VAL) : pc'.turns < pc.turns := by
  cases hmove with
  | disable hpc => cases hout; subst hpc; decide
  | arm hpc => cases hout; subst hpc; decide
  | enable hpc => cases hout; subst hpc; decide
  | seen hpc => cases hout; rcases hpc with rfl | rfl <;> decide
  | unseen _ hne => exact absurd hmem hne
  | wake hpc => cases hout; subst hpc; decide
  | again _ hne => exact absurd hmem hne
  | reset => cases hout

/-- Being woken brings a sleeper no further from the reset. -/
theorem Interrupt.turns_onSleeper (intr : Interrupt) (pc : SleepPc) :
    (intr.onSleeper pc).turns ≤ pc.turns := by
  rcases intr.onSleeper_cases pc with hsame | ⟨rfl, hwake⟩
  · rw [hsame]
  · rw [hwake]
    decide

end Htsynch
