/-
# Waking a halted waiter

A waiter compares in user space, enters `sys_cpu_halt` when the comparison fails, and
halts there until an interrupt arrives. A releaser stores the value waited for and sends
an interrupt to the waiter's processor.

The interrupt is an event. One that arrives after the comparison and before `hlt` is
serviced and gone, and nothing makes the waiter look at the variable again before it
halts: interrupts are on all the way, so that `sti` holds nothing back. One that ends the
halt is lost as well if the call has overwritten an operand and the waiter does not know
the value when it sees it. A run in which neither happens to the last interrupt never has
the waiter halted on a value that the variable holds with no interrupt to come.
-/

import Htsynch.Foundations.System
import Htsynch.Synch.SpinWait

namespace Htsynch

open Foundations

/-- Where a thread is in `sys_cpu_halt`. -/
inductive CpuHaltPc
  | sti
  | hlt
  /-- Halted: the next instruction is executed after an interrupt. -/
  | halted
  deriving DecidableEq

/-- The instructions of `sys_cpu_halt`. -/
def sysCpuHaltStep : CpuHaltPc → Option CpuHaltPc
  | .sti => some .hlt
  | .hlt => some .halted
  | .halted => none

/-- What the waiter is doing. -/
inductive HaltWaiter
  | outside
  /-- In the loop of `spin_on_condition_cpuhalt`. -/
  | spinning (code : Inlined) (conditionVal : Word) (pc : WaitPc)
  /-- In the system call that the loop makes. -/
  | inKernel (code : Inlined) (conditionVal : Word) (pc : CpuHaltPc)
  deriving DecidableEq

/-- Where an instruction of the loop leads: in place of being halted, into the kernel. -/
def WaitOutcome.haltWaiter (code : Inlined) (conditionVal : Word) : WaitOutcome → HaltWaiter
  | .goto .halted => .inKernel code conditionVal .sti
  | .goto pc => .spinning code conditionVal pc
  | .done => .outside

namespace HaltWaiter

/-- The waiter's next instruction. -/
def step (stray spinVar : Word) : HaltWaiter → Option HaltWaiter
  | outside => none
  | spinning code conditionVal pc =>
      some ((spinOnConditionCpuhalt code stray pc spinVar conditionVal).haltWaiter code
        conditionVal)
  | inKernel code conditionVal pc => (sysCpuHaltStep pc).map (inKernel code conditionVal)

/-- An interrupt on the waiter's processor: it ends a halt, and the call returns to the
comparison of the loop. Anywhere else it is serviced and leaves no trace. -/
def interrupted : HaltWaiter → HaltWaiter
  | inKernel code conditionVal .halted => spinning code conditionVal .poll
  | w => w

/-- What a waiter waits for that has seen its comparison fail and is not halted yet. -/
def aboutToHalt : HaltWaiter → Option Word
  | spinning _ conditionVal .pause => some conditionVal
  | inKernel _ conditionVal .sti => some conditionVal
  | inKernel _ conditionVal .hlt => some conditionVal
  | _ => none

/-- What a halted waiter waits for. -/
def halted : HaltWaiter → Option Word
  | inKernel _ conditionVal .halted => some conditionVal
  | _ => none

/-- The variable holds what the waiter waits for, and the comparison that it makes next does
not find it. -/
def Overlooks (stray spinVar : Word) : HaltWaiter → Prop
  | spinning code conditionVal .poll =>
      spinVar = conditionVal ∧ code.found stray spinVar ≠ code.sought conditionVal
  | _ => False

instance (stray spinVar : Word) : ∀ w, Decidable (Overlooks stray spinVar w) := by
  intro w
  unfold Overlooks
  split <;> infer_instance

end HaltWaiter

/-- What the releaser is doing. -/
inductive HaltReleaser
  | ready
  /-- It has stored the value and is about to send the interrupt. -/
  | send
  deriving DecidableEq

/-- The two threads, the variable, and the interrupts that are on their way. -/
structure HaltState where
  spinVar : Word
  inFlight : ℕ
  waiter : HaltWaiter
  releaser : HaltReleaser
  deriving DecidableEq

/-- What may happen next. -/
inductive HaltEvent
  /-- The waiter calls a copy of `spin_on_condition_cpuhalt`. -/
  | wait (code : Inlined) (conditionVal : Word)
  /-- The waiter stores to the variable between two waits. -/
  | store (v : Word)
  /-- The waiter executes an instruction of the wait. `stray` is what it finds if it looks
  where the address was lost. -/
  | step (stray : Word)
  /-- The releaser stores. -/
  | release (v : Word)
  | send
  /-- An interrupt reaches the waiter's processor, for itself and for those merged with
  it. -/
  | deliver (left : ℕ)
  deriving DecidableEq

/-- One step. -/
def haltNext (s : HaltState) : HaltEvent → Option HaltState
  | .wait code conditionVal =>
      if s.waiter = .outside then some { s with waiter := .spinning code conditionVal .entry }
      else none
  | .store v => if s.waiter = .outside then some { s with spinVar := v } else none
  | .step stray => (s.waiter.step stray s.spinVar).map fun w => { s with waiter := w }
  | .release v =>
      if s.releaser = .ready then some { s with spinVar := v, releaser := .send } else none
  | .send =>
      if s.releaser = .send then some { s with inFlight := s.inFlight + 1, releaser := .ready }
      else none
  | .deliver left =>
      if left < s.inFlight then
        some { s with inFlight := left, waiter := s.waiter.interrupted }
      else none

/-- Nobody waits, nobody releases, and the variable holds any value. -/
def haltInit (s : HaltState) : Prop :=
  s.inFlight = 0 ∧ s.waiter = .outside ∧ s.releaser = .ready

/-- Any number of waits and releases. -/
def haltSystem : System HaltState HaltEvent := .ofNext haltInit haltNext

/-- An interrupt is in flight, or its sender has stored and is about to send it. -/
def HaltState.WakeupToCome (s : HaltState) : Prop := 0 < s.inFlight ∨ s.releaser = .send

instance (s : HaltState) : Decidable s.WakeupToCome := inferInstanceAs (Decidable (_ ∨ _))

/-- The waiter is halted while the variable holds what it waits for, and no interrupt is
on its way. -/
def HaltState.Missed (s : HaltState) : Prop :=
  s.waiter.halted = some s.spinVar ∧ ¬ s.WakeupToCome

instance (s : HaltState) : Decidable s.Missed := inferInstanceAs (Decidable (_ ∧ _))

/-- The last interrupt arrives when the variable holds what the waiter waits for, but the
waiter has looked before and is not halted yet. -/
def HaltState.LosesWakeup (s : HaltState) (left : ℕ) : Prop :=
  s.waiter.aboutToHalt = some s.spinVar ∧ left = 0 ∧ s.releaser = .ready

instance (s : HaltState) (left : ℕ) : Decidable (s.LosesWakeup left) :=
  inferInstanceAs (Decidable (_ ∧ _ ∧ _))

/-- A waiter that has been woken does not see the value it has been woken for, and no other
interrupt is on its way. -/
def HaltState.Overlooks (s : HaltState) (stray : Word) : Prop :=
  s.waiter.Overlooks stray s.spinVar ∧ ¬ s.WakeupToCome

instance (s : HaltState) (stray : Word) : Decidable (s.Overlooks stray) :=
  inferInstanceAs (Decidable (_ ∧ _))

/-- The steps that lose no wake-up. -/
def KeepsWakeup (s : HaltState) : HaltEvent → Prop
  | .deliver left => ¬ s.LosesWakeup left
  | .step stray => ¬ s.Overlooks stray
  | _ => True

instance (s : HaltState) (e : HaltEvent) : Decidable (KeepsWakeup s e) := by
  cases e <;> unfold KeepsWakeup <;> infer_instance

/-- The steps of the system. -/
inductive HaltMove (s : HaltState) : HaltEvent → HaltState → Prop
  | wait (code : Inlined) (c : Word) (hout : s.waiter = .outside) :
      HaltMove s (.wait code c) { s with waiter := .spinning code c .entry }
  | store (v : Word) (hout : s.waiter = .outside) : HaltMove s (.store v) { s with spinVar := v }
  | step (stray : Word) (w : HaltWaiter) (hstep : s.waiter.step stray s.spinVar = some w) :
      HaltMove s (.step stray) { s with waiter := w }
  | release (v : Word) (hready : s.releaser = .ready) :
      HaltMove s (.release v) { s with spinVar := v, releaser := .send }
  | send (hsend : s.releaser = .send) :
      HaltMove s .send { s with inFlight := s.inFlight + 1, releaser := .ready }
  | deliver (left : ℕ) (hleft : left < s.inFlight) :
      HaltMove s (.deliver left)
        { s with inFlight := left, waiter := s.waiter.interrupted }

variable {s t : HaltState} {e : HaltEvent} {c v stray : Word} {code : Inlined}
  {w w' : HaltWaiter}

theorem haltNext_cases (hstep : haltSystem.step s e t) : HaltMove s e t := by
  replace hstep : haltNext s e = some t := hstep
  cases e with
  | step stray =>
      obtain ⟨w, hw, rfl⟩ := Option.map_eq_some_iff.mp hstep
      exact .step stray w hw
  | wait code c =>
      obtain ⟨hout, ht⟩ := Option.ite_none_right_eq_some.mp hstep
      obtain rfl := Option.some.inj ht
      exact .wait code c hout
  | store v =>
      obtain ⟨hout, ht⟩ := Option.ite_none_right_eq_some.mp hstep
      obtain rfl := Option.some.inj ht
      exact .store v hout
  | release v =>
      obtain ⟨hready, ht⟩ := Option.ite_none_right_eq_some.mp hstep
      obtain rfl := Option.some.inj ht
      exact .release v hready
  | send =>
      obtain ⟨hsend, ht⟩ := Option.ite_none_right_eq_some.mp hstep
      obtain rfl := Option.some.inj ht
      exact .send hsend
  | deliver left =>
      obtain ⟨hleft, ht⟩ := Option.ite_none_right_eq_some.mp hstep
      obtain rfl := Option.some.inj ht
      exact .deliver left hleft

/-- The waiter will not look at the variable before the next interrupt, and waits for
`c`. -/
def HaltWaiter.Committed (w : HaltWaiter) (c : Word) : Prop :=
  w.aboutToHalt = some c ∨ w.halted = some c

/-- A waiter commits itself by a comparison that fails. -/
theorem HaltWaiter.committed_step (hstep : w.step stray v = some w') (hw' : w'.Committed c) :
    w.Committed c ∨ v ≠ c ∨ w.Overlooks stray v := by
  cases w with
  | outside => cases hstep
  | spinning code d pc =>
      obtain rfl := Option.some.inj hstep
      cases pc with
      | entry =>
          right; left
          by_cases hv : v = d
          · simp [spinOnConditionCpuhalt, hv, WaitOutcome.haltWaiter, Committed, aboutToHalt,
              halted] at hw'
          · have hd : d = c := by
              simpa [spinOnConditionCpuhalt, hv, WaitOutcome.haltWaiter, Committed, aboutToHalt,
                halted] using hw'
            exact hd ▸ hv
      | pause =>
          have hd : d = c := by
            simpa [spinOnConditionCpuhalt, WaitOutcome.haltWaiter, Committed, aboutToHalt,
              halted] using hw'
          exact .inl (.inl (congrArg some hd))
      | halted =>
          simp [spinOnConditionCpuhalt, WaitOutcome.haltWaiter, Committed, aboutToHalt,
            halted] at hw'
      | poll =>
          right
          by_cases hfound : code.found stray v = code.sought d
          · simp [spinOnConditionCpuhalt, hfound, WaitOutcome.haltWaiter, Committed, aboutToHalt,
              halted] at hw'
          · have hd : d = c := by
              simpa [spinOnConditionCpuhalt, hfound, WaitOutcome.haltWaiter, Committed,
                aboutToHalt, halted] using hw'
            by_cases hv : v = c
            · exact .inr ⟨hv.trans hd.symm, hfound⟩
            · exact .inl hv
  | inKernel code d pc =>
      left
      obtain ⟨pc', hpc, rfl⟩ := Option.map_eq_some_iff.mp hstep
      cases pc with
      | sti =>
          obtain rfl := Option.some.inj hpc
          simpa [Committed, aboutToHalt, halted] using hw'
      | hlt =>
          obtain rfl := Option.some.inj hpc
          simpa [Committed, aboutToHalt, halted] using hw'
      | halted => cases hpc

/-- An interrupt frees a waiter that is halted, and leaves one that is about to. -/
theorem HaltWaiter.committed_interrupted (hw : w.interrupted.Committed c) :
    w.aboutToHalt = some c := by
  cases w with
  | outside => simp [interrupted, Committed, aboutToHalt, halted] at hw
  | spinning code d pc => simpa [interrupted, Committed, halted] using hw
  | inKernel code d pc =>
      cases pc with
      | halted => simp [interrupted, Committed, aboutToHalt, halted] at hw
      | _ => simpa [interrupted, Committed, halted] using hw

/-- A waiter committed to the value that the variable holds has an interrupt to come. -/
def Heeded (s : HaltState) : Prop := s.waiter.Committed s.spinVar → s.WakeupToCome

/-- Outside the loop nobody is committed. -/
theorem heeded_of_outside (hout : s.waiter = .outside) : Heeded s := by
  intro hcommitted
  rw [hout] at hcommitted
  simp [HaltWaiter.Committed, HaltWaiter.aboutToHalt, HaltWaiter.halted] at hcommitted

/-- A step that loses no wake-up keeps this. -/
theorem HaltMove.heeded (hmove : HaltMove s e t) (hkeeps : KeepsWakeup s e) (hs : Heeded s) :
    Heeded t := by
  cases hmove with
  | wait code c hout =>
      simp [Heeded, HaltWaiter.Committed, HaltWaiter.aboutToHalt, HaltWaiter.halted]
  | store v hout => exact heeded_of_outside (s := { s with spinVar := v }) hout
  | step stray w hstep =>
      intro hcommitted
      rcases HaltWaiter.committed_step hstep hcommitted with hbefore | hne | hoverlooks
      · exact hs hbefore
      · exact absurd rfl hne
      · exact not_not.mp fun hnone => hkeeps ⟨hoverlooks, hnone⟩
  | release v hready => exact fun _ => .inr rfl
  | send hsend => exact fun _ => .inl (Nat.succ_pos _)
  | deliver left hleft =>
      intro hcommitted
      have habout := HaltWaiter.committed_interrupted hcommitted
      by_contra hnone
      obtain ⟨hzero, hsend⟩ := not_or.mp hnone
      refine hkeeps ⟨habout, Nat.eq_zero_of_not_pos hzero, ?_⟩
      cases hreleaser : s.releaser with
      | ready => rfl
      | send => exact absurd hreleaser hsend

/-- No run misses a wake-up whose steps lose none. -/
theorem haltSystem_no_missed_wakeup (hreach : haltSystem.ReachableVia KeepsWakeup s) :
    ¬ s.Missed := by
  have hheeded : Heeded s := by
    refine hreach.invariant ?_ ?_
    · exact fun s hinit => heeded_of_outside hinit.2.1
    · exact fun s e t hs hkeeps hstep => (haltNext_cases hstep).heeded hkeeps hs
  rintro ⟨hhalted, hnone⟩
  exact hnone (hheeded (.inr hhalted))

/-! ## A wake-up that is lost is missed -/

/-- One instruction leads from `w` to `w'`, whatever memory holds. -/
def HaltWaiter.Blind (w w' : HaltWaiter) : Prop := ∀ stray v, w.step stray v = some w'

/-- A waiter that is about to halt does so without another look at the variable. -/
theorem HaltWaiter.halts (hw : w.aboutToHalt = some c) :
    ∃ w', Relation.ReflTransGen HaltWaiter.Blind w w' ∧ w'.halted = some c := by
  have hhlt (code : Inlined) :
      Relation.ReflTransGen HaltWaiter.Blind (.inKernel code c .hlt) (.inKernel code c .halted) :=
    .single fun _ _ => rfl
  have hsti (code : Inlined) :
      Relation.ReflTransGen HaltWaiter.Blind (.inKernel code c .sti) (.inKernel code c .halted) :=
    .head (fun _ _ => rfl) (hhlt code)
  cases w with
  | outside => cases hw
  | spinning code d pc =>
      cases pc with
      | pause =>
          obtain rfl := Option.some.inj hw
          exact ⟨_, .head (fun _ _ => rfl) (hsti code), rfl⟩
      | _ => cases hw
  | inKernel code d pc =>
      cases pc with
      | sti =>
          obtain rfl := Option.some.inj hw
          exact ⟨_, hsti code, rfl⟩
      | hlt =>
          obtain rfl := Option.some.inj hw
          exact ⟨_, hhlt code, rfl⟩
      | halted => cases hw

/-- Steps of the waiter alone. -/
theorem blindSteps (hpath : Relation.ReflTransGen HaltWaiter.Blind w w') :
    Relation.ReflTransGen (haltSystem.Next fun _ e => ∃ stray, e = .step stray)
      { s with waiter := w } { s with waiter := w' } := by
  refine hpath.lift (fun w => { s with waiter := w }) fun w w' hw => ?_
  refine ⟨.step 0, ⟨0, rfl⟩, ?_⟩
  exact Option.map_eq_some_iff.mpr ⟨w', hw 0 s.spinVar, rfl⟩

/-- A waiter that is about to halt on the value it waits for, with no interrupt to come, halts
and is missed. -/
theorem missed_of_aboutToHalt (habout : s.waiter.aboutToHalt = some s.spinVar)
    (hnone : ¬ s.WakeupToCome) :
    ∃ u, Relation.ReflTransGen (haltSystem.Next fun _ e => ∃ stray, e = .step stray) s u ∧
      u.Missed := by
  obtain ⟨w, hpath, hhalted⟩ := HaltWaiter.halts habout
  exact ⟨{ s with waiter := w }, blindSteps hpath, hhalted, hnone⟩

/-- Once a wake-up is lost, the waiter's own next steps lead to its being missed. -/
theorem missed_of_losesWakeup {left : ℕ} (hstep : haltSystem.step s (.deliver left) t)
    (hloses : s.LosesWakeup left) :
    ∃ u, Relation.ReflTransGen (haltSystem.Next fun _ e => ∃ stray, e = .step stray) t u ∧
      u.Missed := by
  obtain ⟨habout, rfl, hready⟩ := hloses
  cases haltNext_cases hstep with
  | deliver _ hleft =>
      have hsame : s.waiter.interrupted = s.waiter := by
        cases hw : s.waiter with
        | inKernel code d pc =>
            cases pc with
            | halted => simp [hw, HaltWaiter.aboutToHalt] at habout
            | _ => rfl
        | _ => rfl
      rw [hsame]
      refine missed_of_aboutToHalt habout ?_
      rintro (hpos | hsend)
      · exact absurd hpos (Nat.lt_irrefl 0)
      · rw [hready] at hsend
        cases hsend

/-- A waiter that overlooks the value it was woken for goes on to be missed, too. -/
theorem missed_of_overlooks (hstep : haltSystem.step s (.step stray) t)
    (hoverlooks : s.Overlooks stray) :
    ∃ u, Relation.ReflTransGen (haltSystem.Next fun _ e => ∃ stray, e = .step stray) t u ∧
      u.Missed := by
  obtain ⟨hlooks, hnone⟩ := hoverlooks
  cases haltNext_cases hstep with
  | step _ w hw =>
      refine missed_of_aboutToHalt ?_ hnone
      cases hwaiter : s.waiter with
      | outside => simp [hwaiter, HaltWaiter.Overlooks] at hlooks
      | inKernel code d pc => simp [hwaiter, HaltWaiter.Overlooks] at hlooks
      | spinning code d pc =>
          cases pc with
          | poll =>
              rw [hwaiter] at hlooks hw
              obtain rfl := Option.some.inj hw
              obtain ⟨hholds, hne⟩ := hlooks
              rw [spinOnConditionCpuhalt, if_pos hne]
              exact congrArg some hholds.symm
          | _ => simp [hwaiter, HaltWaiter.Overlooks] at hlooks

/-- From then on nothing happens until the releaser makes another release. -/
theorem HaltState.Missed.release (hmissed : s.Missed) (hstep : haltSystem.step s e t) :
    ∃ v, e = .release v := by
  obtain ⟨hhalted, hnone⟩ := hmissed
  obtain ⟨hzero, hready⟩ := not_or.mp hnone
  cases haltNext_cases hstep with
  | wait code c hout => simp [hout, HaltWaiter.halted] at hhalted
  | store v hout => simp [hout, HaltWaiter.halted] at hhalted
  | step stray w hw =>
      cases hwaiter : s.waiter with
      | outside => simp [hwaiter, HaltWaiter.halted] at hhalted
      | spinning code d pc => simp [hwaiter, HaltWaiter.halted] at hhalted
      | inKernel code d pc =>
          cases pc with
          | halted => simp [hwaiter, HaltWaiter.step, sysCpuHaltStep] at hw
          | _ => simp [hwaiter, HaltWaiter.halted] at hhalted
  | release v => exact ⟨v, rfl⟩
  | send hsend => exact absurd hsend hready
  | deliver left hleft => exact absurd (Nat.zero_lt_of_lt hleft) hzero

/-- The variable holds 0 and nobody has moved. -/
def haltStart : HaltState := ⟨0, 0, .outside, .ready⟩

/-- The waiter waits for 1, finds 0, and is interrupted before it enters the kernel. -/
def lostWakeup : List HaltEvent :=
  [.wait senseInRbx 1, .step 0, .release 1, .send, .deliver 0, .step 0, .step 0, .step 0]

/-- The waiter waits for 1 in `rax`, and is halted when the interrupt arrives. -/
def overlookedWakeup : List HaltEvent :=
  [.wait senseInRax 1, .step 0, .step 0, .step 0, .step 0, .release 1, .send, .deliver 0,
    .step 0, .step 0, .step 0, .step 0]

/-- The interrupt that follows the store is gone when the waiter halts; or the waiter, back
from its halt, compares the 1 with what the call has returned and halts again. -/
theorem halt_misses_wakeup :
    (haltSystem.Reachable (System.exec haltNext haltStart lostWakeup) ∧
      (System.exec haltNext haltStart lostWakeup).Missed) ∧
    haltSystem.Reachable (System.exec haltNext haltStart overlookedWakeup) ∧
      (System.exec haltNext haltStart overlookedWakeup).Missed :=
  ⟨⟨System.reachable_exec _ (.of_init ⟨rfl, rfl, rfl⟩), by decide⟩,
    System.reachable_exec _ (.of_init ⟨rfl, rfl, rfl⟩), by decide⟩

/-- The releaser is as quick, but the interrupt arrives after `hlt`. -/
theorem haltSystem_no_missed_wakeup_halted :
    let s := System.exec (System.guarded KeepsWakeup haltNext) haltStart
      [.wait senseInRbx 1, .step 0, .release 1, .send, .step 0, .step 0, .step 0]
    (s.waiter.halted = some 1 ∧ s.spinVar = 1 ∧ s.inFlight = 1) ∧ ¬ s.Missed :=
  ⟨by decide, haltSystem_no_missed_wakeup (System.reachableVia_exec _ (.of_init ⟨rfl, rfl, rfl⟩))⟩

end Htsynch
