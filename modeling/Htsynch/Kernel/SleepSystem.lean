/-
# No missed wake-up in the sleep system calls

Any number of threads sleep on bytes of their choice, as often as they like. While
they are not asleep they may store any value anywhere, so notifications, stores to
other bytes of a monitored line and resets by hand are all among the runs, and so
are interrupts between any two steps.

Every sleeper keeps its watch from the moment it has armed its monitor. Hence no
thread is blocked in MWAIT while the byte it sleeps on is notified.
-/

import Htsynch.Foundations.Interleaving
import Htsynch.Kernel.Mwmon

namespace Htsynch

open Foundations

/-- What a thread is doing. -/
inductive Task
  | idle
  | asleep (call : SleepCall) (pc : SleepPc)
  deriving DecidableEq

/-- Where a step of a sleep call leaves the thread. -/
def SleepOutcome.task (call : SleepCall) : SleepOutcome → Task
  | .goto pc => .asleep call pc
  | .returned => .idle

theorem SleepOutcome.task_eq_asleep {call call' : SleepCall} {out : SleepOutcome}
    {pc : SleepPc} : out.task call = .asleep call' pc ↔ out = .goto pc ∧ call = call' := by
  cases out with
  | goto pc' => simp [SleepOutcome.task, and_comm]
  | returned => simp [SleepOutcome.task]

/-- What may happen to a thread next. -/
inductive TaskChoice
  | sleep (call : SleepCall)
  | store (a : Addr) (v : Byte)
  | kernelNotify
  | step
  | interrupt (i : Interrupt)
  deriving DecidableEq

variable {ι : Type} [DecidableEq ι]

/-- One step of a thread. -/
def task (ptrs : Pointers) : Program ι (Machine ι) Task TaskChoice
  | _, .sleep call, h, .idle => some (h, .asleep call .irqDisable)
  | c, .store a v, h, .idle => some (h.store c a v, .idle)
  | c, .kernelNotify, h, .idle => some (sysMwmonKernelNotify ptrs c h, .idle)
  | c, .step, h, .asleep call pc =>
      (call.run ptrs c pc h).map fun r => (r.1, r.2.task call)
  | c, .interrupt i, h, .idle => some (i.onMachine c h, .idle)
  | c, .interrupt i, h, .asleep call pc =>
      some (i.onMachine c h, .asleep call (i.onSleeper pc))
  | _, _, _, _ => none

/-- Nobody sleeps yet; memory and monitors are as they may be. -/
def taskInit (s : Config ι (Machine ι) Task) : Prop := ∀ i, s.threads i = .idle

/-- Any number of threads that sleep and notify. -/
def sleepSystem (ι : Type) [DecidableEq ι] (ptrs : Pointers) :
    System (Config ι (Machine ι) Task) (ι × TaskChoice) :=
  interleave taskInit (task ptrs)

/-- What one step of a thread can be. -/
inductive TaskMove (ptrs : Pointers) (c : ι) (h : Machine ι) :
    Task → TaskChoice → Machine ι → Task → Prop
  | sleep (call : SleepCall) :
      TaskMove ptrs c h .idle (.sleep call) h (.asleep call .irqDisable)
  | store (a : Addr) (v : Byte) : TaskMove ptrs c h .idle (.store a v) (h.store c a v) .idle
  | kernelNotify :
      TaskMove ptrs c h .idle .kernelNotify
        (h.store c ptrs.mwmonKernelMemory MWMON_NOTIFIED_VAL) .idle
  | step (call : SleepCall) (pc : SleepPc) (h' : Machine ι) (out : SleepOutcome)
      (hmove : SleepMove (call.target ptrs) c pc h h' out) :
      TaskMove ptrs c h (.asleep call pc) .step h' (out.task call)
  | interruptIdle (i : Interrupt) :
      TaskMove ptrs c h .idle (.interrupt i) (i.onMachine c h) .idle
  | interrupt (i : Interrupt) (call : SleepCall) (pc : SleepPc) :
      TaskMove ptrs c h (.asleep call pc) (.interrupt i) (i.onMachine c h)
        (.asleep call (i.onSleeper pc))

theorem task_cases {ptrs : Pointers} {c : ι} {choice : TaskChoice} {h h' : Machine ι}
    {t t' : Task} (hstep : task ptrs c choice h t = some (h', t')) :
    TaskMove ptrs c h t choice h' t' := by
  cases t with
  | idle =>
      cases choice with
      | sleep call =>
          simp only [task, Option.some.injEq, Prod.mk.injEq] at hstep
          obtain ⟨rfl, rfl⟩ := hstep
          exact .sleep call
      | store a v =>
          simp only [task, Option.some.injEq, Prod.mk.injEq] at hstep
          obtain ⟨rfl, rfl⟩ := hstep
          exact .store a v
      | kernelNotify =>
          simp only [task, Option.some.injEq, Prod.mk.injEq] at hstep
          obtain ⟨rfl, rfl⟩ := hstep
          exact .kernelNotify
      | step => simp [task] at hstep
      | interrupt i =>
          simp only [task, Option.some.injEq, Prod.mk.injEq] at hstep
          obtain ⟨rfl, rfl⟩ := hstep
          exact .interruptIdle i
  | asleep call pc =>
      cases choice with
      | step =>
          simp only [task, SleepCall.run_eq, Option.map_eq_some_iff, Prod.exists,
            Prod.mk.injEq] at hstep
          obtain ⟨h'', out, hrun, rfl, rfl⟩ := hstep
          exact .step call pc _ out (mwmonSleep_cases hrun)
      | interrupt i =>
          simp only [task, Option.some.injEq, Prod.mk.injEq] at hstep
          obtain ⟨rfl, rfl⟩ := hstep
          exact .interrupt i call pc
      | sleep => simp [task] at hstep
      | store => simp [task] at hstep
      | kernelNotify => simp [task] at hstep

variable {ptrs : Pointers} {s : Config ι (Machine ι) Task}

/-- Every sleeper keeps its watch. -/
def AllWatch (ptrs : Pointers) (s : Config ι (Machine ι) Task) : Prop :=
  ∀ i call pc, s.threads i = .asleep call pc →
    SleepWatch (call.target ptrs) i s.shared pc

/-- What one thread does keeps the watch of another. -/
theorem TaskMove.other {c d : ι} {h h' : Machine ι} {t t' : Task} {choice : TaskChoice}
    (hmove : TaskMove ptrs d h t choice h' t') (hne : c ≠ d) {p : Addr} {pc : SleepPc}
    (hwatch : SleepWatch p c h pc) : SleepWatch p c h' pc := by
  cases hmove with
  | sleep => exact hwatch
  | store => exact hwatch.store hne
  | kernelNotify => exact hwatch.store hne
  | step call pc' h' out hsleep => exact hwatch.other hne hsleep
  | interruptIdle => exact hwatch.interrupt
  | interrupt => exact hwatch.interrupt

/-- What a thread does keeps its own watch. -/
theorem TaskMove.own {c : ι} {h h' : Machine ι} {t t' : Task} {choice : TaskChoice}
    (hmove : TaskMove ptrs c h t choice h' t')
    (hwatch : ∀ call pc, t = .asleep call pc → SleepWatch (call.target ptrs) c h pc) :
    ∀ call pc, t' = .asleep call pc → SleepWatch (call.target ptrs) c h' pc := by
  intro call pc hasleep
  cases hmove with
  | sleep => cases hasleep; exact trivial
  | store => cases hasleep
  | kernelNotify => cases hasleep
  | interruptIdle => cases hasleep
  | interrupt =>
      cases hasleep
      exact (hwatch _ _ rfl).interrupt.onSleeper
  | step call' pc' h' out hsleep =>
      obtain ⟨hout, rfl⟩ := SleepOutcome.task_eq_asleep.mp hasleep
      exact (hwatch _ _ rfl).step hsleep hout

theorem allWatch_of_reachable (hreach : (sleepSystem ι ptrs).Reachable s) :
    AllWatch ptrs s := by
  apply interleave_invariant _ _ hreach
  · intro s hinit i call pc hasleep
    rw [hinit i] at hasleep
    cases hasleep
  · intro s who choice h' own hwatch hstep i
    have hmove := task_cases hstep
    by_cases hi : i = who
    · subst i
      rw [Config.move_threads_self]
      exact hmove.own (hwatch who)
    · rw [Config.move_threads_of_ne hi]
      exact fun call pc hasleep => hmove.other hi (hwatch i call pc hasleep)

/-- Thread `i` is blocked in MWAIT while the byte it sleeps on is notified. -/
def MissedWakeup (ptrs : Pointers) (s : Config ι (Machine ι) Task) (i : ι) : Prop :=
  ∃ call, s.threads i = .asleep call .mwait ∧ s.shared.Blocks i ∧
    s.shared.mem (call.target ptrs) = MWMON_NOTIFIED_VAL

/-- No thread ever misses a wake-up. -/
theorem sleepSystem_no_missed_wakeup (hreach : (sleepSystem ι ptrs).Reachable s) (i : ι) :
    ¬ MissedWakeup ptrs s i := by
  rintro ⟨call, hasleep, hblocks, hmem⟩
  have hwatch : s.shared.Watched i (call.target ptrs) MWMON_NOTIFIED_VAL :=
    allWatch_of_reachable hreach i call .mwait hasleep
  exact hwatch.not_blocks hmem hblocks

/-- Two idle threads on memory that holds the original value everywhere. -/
def sleepStart : Config (Fin 2) (Machine (Fin 2)) Task :=
  ⟨⟨fun _ => MWMON_ORIGINAL_VAL, fun _ => none⟩, fun _ => .idle⟩

/-- Thread 0 is blocked in MWAIT on the first region when thread 1 notifies it. -/
theorem sleepSystem_no_missed_wakeup_notified :
    ¬ MissedWakeup examplePointers (System.exec (task examplePointers).next sleepStart
      [(0, .sleep .mmapSleep), (0, .step), (0, .step), (0, .step), (0, .step),
        (1, .store 4096 MWMON_NOTIFIED_VAL)]) 0 :=
  sleepSystem_no_missed_wakeup (System.reachable_exec _ (.of_init fun _ => rfl)) 0

end Htsynch
