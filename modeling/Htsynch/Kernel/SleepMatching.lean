/-
# No spurious return from the sleep system calls

For one thread and one byte, call a store of the notified value to the byte a post
and the last step of a sleep call of the thread on the byte a take. Between two
takes the byte must be notified again, because a take resets it and a sleeper
leaves its loop only after it has seen the byte notified. So the takes of a run
are matched with posts, in order and one to one, and a sleep never returns because
of an interrupt or of a store to another byte of the line.
-/

import Htsynch.Foundations.Runs
import Htsynch.Kernel.SleepSystem

namespace Htsynch

open Foundations

variable {ι : Type} [DecidableEq ι]

/-- The step stores the notified value at `a`. -/
def notifies (ptrs : Pointers) (a : Addr)
    (x : Config ι (Machine ι) Task × ι × TaskChoice) : Bool :=
  match x.2.2, x.1.threads x.2.1 with
  | .store b v, .idle => decide (b = a ∧ v = MWMON_NOTIFIED_VAL)
  | .kernelNotify, .idle => decide (ptrs.mwmonKernelMemory = a)
  | _, _ => false

/-- The step is the last one of a sleep call of thread `t` on `a`: the store that
resets the byte. -/
def completes (ptrs : Pointers) (t : ι) (a : Addr)
    (x : Config ι (Machine ι) Task × ι × TaskChoice) : Bool :=
  match x.1.threads t with
  | .asleep call .reset => decide (x.2 = (t, .step) ∧ call.target ptrs = a)
  | _ => false

/-- Thread `t` has left its loop and not yet reset the byte at `a`. -/
def Resetting (ptrs : Pointers) (t : ι) (a : Addr) (s : Config ι (Machine ι) Task) : Prop :=
  ∃ call, s.threads t = .asleep call .reset ∧ call.target ptrs = a

/-- What a completed sleep uses up: the byte is notified, or the thread has seen it
notified. -/
def Notified (ptrs : Pointers) (t : ι) (a : Addr) (s : Config ι (Machine ι) Task) : Prop :=
  s.shared.mem a = MWMON_NOTIFIED_VAL ∨ Resetting ptrs t a s

variable {ptrs : Pointers} {t who : ι} {a : Addr} {s : Config ι (Machine ι) Task}
  {choice : TaskChoice} {h : Machine ι} {own : Task}

theorem completes_iff : completes ptrs t a (s, who, choice) = true ↔
    Resetting ptrs t a s ∧ who = t ∧ choice = .step := by
  unfold completes Resetting
  constructor
  · intro hcompletes
    cases hthread : s.threads t with
    | idle => simp [hthread] at hcompletes
    | asleep call pc =>
        cases pc with
        | reset =>
            simp only [hthread, Prod.mk.injEq, decide_eq_true_eq] at hcompletes
            exact ⟨⟨call, rfl, hcompletes.2⟩, hcompletes.1⟩
        | _ => simp [hthread] at hcompletes
  · rintro ⟨⟨call, hthread, htarget⟩, rfl, rfl⟩
    simp [hthread, htarget]

/-- A step that makes the byte notified stores the notified value there. -/
theorem notifies_of_mem (hmove : TaskMove ptrs who s.shared (s.threads who) choice h own)
    (hold : s.shared.mem a ≠ MWMON_NOTIFIED_VAL) (hnew : h.mem a = MWMON_NOTIFIED_VAL) :
    notifies ptrs a (s, who, choice) = true := by
  have hsame : h.mem = s.shared.mem → False := fun heq => hold (by rw [← heq, hnew])
  have hstore : ∀ b v, h = s.shared.store who b v → b = a ∧ v = MWMON_NOTIFIED_VAL := by
    rintro b v rfl
    by_cases hab : a = b
    · subst b
      exact ⟨rfl, by simpa using hnew⟩
    · rw [Hardware.store_mem_of_ne hab] at hnew
      exact absurd hnew hold
  unfold notifies
  cases hthread : s.threads who with
  | idle =>
      rw [hthread] at hmove
      cases hmove with
      | sleep => exact (hsame rfl).elim
      | store b v => simpa [hthread] using hstore b v rfl
      | kernelNotify => simpa [hthread] using (hstore _ _ rfl).1
      | interruptIdle i => exact (hsame Interrupt.onMachine_mem).elim
  | asleep call pc =>
      rw [hthread] at hmove
      cases hmove with
      | interrupt i => exact (hsame Interrupt.onMachine_mem).elim
      | step call pc h' out hsleep =>
          cases hsleep with
          | reset => exact absurd (hstore _ _ rfl).2 original_ne_notified
          | disable => exact (hsame rfl).elim
          | arm => exact (hsame rfl).elim
          | enable => exact (hsame rfl).elim
          | seen => exact (hsame rfl).elim
          | unseen => exact (hsame rfl).elim
          | wake => exact (hsame rfl).elim
          | again => exact (hsame rfl).elim

/-- A thread goes on to the reset only after it has seen its byte notified. -/
theorem notified_of_resetting
    (hmove : TaskMove ptrs who s.shared (s.threads who) choice h own)
    (hnew : Resetting ptrs t a (s.move who h own)) : Notified ptrs t a s := by
  obtain ⟨call, hthread, htarget⟩ := hnew
  by_cases ht : t = who
  · subst who
    rw [Config.move_threads_self] at hthread
    subst own
    cases hold : s.threads t with
    | idle =>
        rw [hold] at hmove
        cases hmove
    | asleep call' pc =>
        rw [hold] at hmove
        generalize hown : Task.asleep call .reset = own at hmove
        cases hmove with
        | interrupt i =>
            obtain ⟨rfl, hpc⟩ := Task.asleep.inj hown
            rcases i.onSleeper_cases pc with hsame | ⟨-, hwake⟩
            · exact .inr ⟨call, by rw [hold, ← hsame, ← hpc], htarget⟩
            · rw [hwake] at hpc
              cases hpc
        | step call' pc h' out hsleep =>
            obtain ⟨hout, rfl⟩ := SleepOutcome.task_eq_asleep.mp hown.symm
            left
            rw [← htarget]
            exact hsleep.notified hout
  · rw [Config.move_threads_of_ne ht] at hthread
    exact .inr ⟨call, hthread, htarget⟩

/-- Only notifications let a thread complete a sleep, and each completed sleep uses
one up. -/
theorem sleepSystem_credit (ptrs : Pointers) (t : ι) (a : Addr) :
    System.Credit (sleepSystem ι ptrs) (Notified ptrs t a)
      (fun x => notifies ptrs a x = true) (fun x => completes ptrs t a x = true) where
  gain := by
    intro s label s' hstep hold hnew
    obtain ⟨h, own, hrun, rfl⟩ := interleave_step_iff.mp hstep
    have hmove := task_cases hrun
    rcases hnew with hmem | hresetting
    · exact notifies_of_mem hmove (fun heq => hold (.inl heq)) hmem
    · exact absurd (notified_of_resetting hmove hresetting) hold
  need := by
    intro s label s' _ htake
    exact .inr (completes_iff.mp htake).1
  spend := by
    intro s label s' hstep htake
    obtain ⟨⟨call, hthread, htarget⟩, hwho, hchoice⟩ := completes_iff.mp htake
    obtain ⟨h, own, hrun, rfl⟩ := interleave_step_iff.mp hstep
    have hmove := task_cases hrun
    rw [hwho, hchoice, hthread] at hmove
    generalize htask : Task.asleep call .reset = old at hmove
    cases hmove with
    | step call' pc h out hsleep =>
        obtain ⟨rfl, hpc⟩ := Task.asleep.inj htask
        obtain ⟨rfl, rfl⟩ := hsleep.of_reset hpc.symm
        rintro (hmem | ⟨call', hthread', -⟩)
        · rw [Config.move_shared, htarget, Hardware.store_mem_self] at hmem
          exact original_ne_notified hmem
        · rw [hwho, Config.move_threads_self] at hthread'
          cases hthread'

/-- The completed sleeps of a thread on a byte are matched with notifications of
the byte: each with an earlier one that comes after all previous completed sleeps,
so in order and one to one. They never outnumber the notifications. -/
theorem sleepSystem_matched (t : ι) {start : Config ι (Machine ι) Task}
    {steps : List (Config ι (Machine ι) Task × ι × TaskChoice)} (hinit : taskInit start)
    (hstart : start.shared.mem a ≠ MWMON_NOTIFIED_VAL)
    (hrun : (sleepSystem ι ptrs).Run start steps s) :
    (∃ f, Matches (fun x => notifies ptrs a x = true) (fun x => completes ptrs t a x = true)
        steps f ∧
      StrictMonoOn f (takePositions (fun x => completes ptrs t a x = true) steps) ∧
      Set.InjOn f (takePositions (fun x => completes ptrs t a x = true) steps)) ∧
    steps.countP (completes ptrs t a) ≤ steps.countP (notifies ptrs a) := by
  have hcredit := sleepSystem_credit ptrs t a
  have hnone : ¬ Notified ptrs t a start := by
    rintro (hmem | ⟨call, hthread, -⟩)
    · exact hstart hmem
    · rw [hinit t] at hthread
      cases hthread
  constructor
  · obtain ⟨f, hf⟩ := hcredit.exists_matches hnone hrun
    exact ⟨f, hf, hf.strictMonoOn, hf.injOn⟩
  · simpa using hcredit.countP_take_le hnone hrun

/-- Thread 0 is woken by an interrupt first, and completes its sleep after the
notification by thread 1. -/
theorem sleepSystem_matched_once :
    let steps := System.trace (task examplePointers).next sleepStart
      ([(0, .sleep .mmapSleep), (0, .step), (0, .step), (0, .step), (0, .step),
        (0, .interrupt ⟨true, true⟩), (0, .step), (1, .store 4096 MWMON_NOTIFIED_VAL),
        (0, .step), (0, .step), (0, .step), (0, .step), (0, .step)])
    (∃ f, Matches (fun x => notifies examplePointers 4096 x = true)
        (fun x => completes examplePointers 0 4096 x = true) steps f ∧
      StrictMonoOn f (takePositions (fun x => completes examplePointers 0 4096 x = true)
        steps) ∧
      Set.InjOn f (takePositions (fun x => completes examplePointers 0 4096 x = true)
        steps)) ∧
    steps.countP (completes examplePointers 0 4096) ≤
      steps.countP (notifies examplePointers 4096) :=
  have hinit : taskInit sleepStart := fun _ => rfl
  sleepSystem_matched 0 hinit original_ne_notified (System.run_trace _)

end Htsynch
