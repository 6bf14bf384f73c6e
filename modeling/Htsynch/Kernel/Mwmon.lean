/-
# The MONITOR/MWAIT sleep system calls

Four system calls run the same loop on four different bytes: arm the monitor, look
at the byte, wait, look again. The loop is left by either look, and the call ends
with a store that resets the byte. `local_irq_disable` and `local_irq_enable` are
steps of their own; the model lets interrupts through everywhere, which only adds
runs.

A thread is identified with the processor it runs on. Processors notice stores at
the granularity of monitored lines.
-/

import Htsynch.Foundations.Monitor
import Mathlib.Data.Nat.Notation
import Mathlib.Tactic.Common

namespace Htsynch

open Foundations

/-- A `char`. -/
abbrev Byte := BitVec 8

/-- A kernel address. -/
abbrev Addr := ℕ

def MWMON_MONITORED_MEM_BYTES : ℕ := 64
def MWMON_ORIGINAL_VAL : Byte := .ofNat 8 'a'.toNat
def MWMON_NOTIFIED_VAL : Byte := .ofNat 8 'b'.toNat

theorem original_ne_notified : MWMON_ORIGINAL_VAL ≠ MWMON_NOTIFIED_VAL := by decide

/-- Lines of the size that CPUID reports for the monitor. -/
instance : Lines Addr ℕ := ⟨fun a => a / MWMON_MONITORED_MEM_BYTES⟩

/-- The memory and the monitors of the processors. -/
abbrev Machine (Cpu : Type) := Hardware Cpu Addr ℕ Byte

/-- The pointers the kernel exports or keeps to itself. -/
structure Pointers where
  mwmonMmapArea : Addr
  mwmonMmapArea2 : Addr
  mwmonKernelMemory : Addr
  mwmonLintVarAddr : Addr
  deriving DecidableEq

/-- Four distinct lines for the four pointers. -/
def examplePointers : Pointers := ⟨4096, 4608, 8192, 4224⟩

/-- The two monitored regions. -/
inductive Region
  | first
  | second
  deriving DecidableEq

/-- The first byte of a region. -/
def Region.byte (ptrs : Pointers) : Region → Addr
  | .first => ptrs.mwmonMmapArea
  | .second => ptrs.mwmonMmapArea2

/-- Where a thread is inside a sleep call. -/
inductive SleepPc
  /-- `local_irq_disable()`. -/
  | irqDisable
  /-- `monitor(p, 0, 0)`. -/
  | monitor
  /-- `local_irq_enable()`. -/
  | irqEnable
  /-- `if (*p == MWMON_NOTIFIED_VAL) break`. -/
  | check
  /-- `mwait(0, 0)`. -/
  | mwait
  /-- `while (*p != MWMON_NOTIFIED_VAL)`. -/
  | recheck
  /-- `*p = MWMON_ORIGINAL_VAL`. -/
  | reset
  deriving DecidableEq

/-- What one step of a sleep call leads to. -/
inductive SleepOutcome
  | goto (pc : SleepPc)
  | returned
  deriving DecidableEq

section

variable {Cpu : Type} [DecidableEq Cpu]

/-- The loop of the sleep calls on the byte at `p`. MWAIT takes no step while the
monitor holds the processor. -/
def mwmonSleep (p : Addr) (c : Cpu) : SleepPc → Machine Cpu →
    Option (Machine Cpu × SleepOutcome)
  | .irqDisable, h => some (h, .goto .monitor)
  | .monitor, h => some (h.monitor c p, .goto .irqEnable)
  | .irqEnable, h => some (h, .goto .check)
  | .check, h => some (h, if h.mem p = MWMON_NOTIFIED_VAL then .goto .reset else .goto .mwait)
  | .mwait, h => if h.Blocks c then none else some (h, .goto .recheck)
  | .recheck, h =>
      some (h, if h.mem p ≠ MWMON_NOTIFIED_VAL then .goto .irqDisable else .goto .reset)
  | .reset, h => some (h.store c p MWMON_ORIGINAL_VAL, .returned)

/-- `sys_mwmon_mmap_sleep`. -/
def sysMwmonMmapSleep (ptrs : Pointers) : Cpu → SleepPc → Machine Cpu →
    Option (Machine Cpu × SleepOutcome) :=
  mwmonSleep ptrs.mwmonMmapArea

/-- `sys_mwmon_mmap_sleep2`. -/
def sysMwmonMmapSleep2 (ptrs : Pointers) : Cpu → SleepPc → Machine Cpu →
    Option (Machine Cpu × SleepOutcome) :=
  mwmonSleep ptrs.mwmonMmapArea2

/-- `sys_mwmon_user_sleep`. -/
def sysMwmonUserSleep (mwmonUserMemory : Addr) : Cpu → SleepPc → Machine Cpu →
    Option (Machine Cpu × SleepOutcome) :=
  mwmonSleep mwmonUserMemory

/-- `sys_mwmon_kernel_sleep`. -/
def sysMwmonKernelSleep (ptrs : Pointers) : Cpu → SleepPc → Machine Cpu →
    Option (Machine Cpu × SleepOutcome) :=
  mwmonSleep ptrs.mwmonKernelMemory

/-- `sys_mwmon_kernel_notify`. -/
def sysMwmonKernelNotify (ptrs : Pointers) (c : Cpu) (h : Machine Cpu) : Machine Cpu :=
  h.store c ptrs.mwmonKernelMemory MWMON_NOTIFIED_VAL

end

/-- The sleep calls a thread may make. -/
inductive SleepCall
  | mmapSleep
  | mmapSleep2
  | userSleep (mwmonUserMemory : Addr)
  | kernelSleep
  deriving DecidableEq

namespace SleepCall

variable {Cpu : Type} [DecidableEq Cpu]

/-- The function of each call. -/
def run (ptrs : Pointers) : SleepCall → Cpu → SleepPc → Machine Cpu →
    Option (Machine Cpu × SleepOutcome)
  | .mmapSleep => sysMwmonMmapSleep ptrs
  | .mmapSleep2 => sysMwmonMmapSleep2 ptrs
  | .userSleep p => sysMwmonUserSleep p
  | .kernelSleep => sysMwmonKernelSleep ptrs

/-- The byte each call sleeps on. -/
def target (ptrs : Pointers) : SleepCall → Addr
  | .mmapSleep => ptrs.mwmonMmapArea
  | .mmapSleep2 => ptrs.mwmonMmapArea2
  | .userSleep p => p
  | .kernelSleep => ptrs.mwmonKernelMemory

theorem run_eq (ptrs : Pointers) (call : SleepCall) :
    (call.run ptrs : Cpu → SleepPc → Machine Cpu → _) = mwmonSleep (call.target ptrs) := by
  cases call <;> rfl

end SleepCall

/-- An interrupt. It may disarm the monitor of the processor, and it may end an
MWAIT that is being executed. -/
structure Interrupt where
  disarms : Bool
  wakes : Bool
  deriving DecidableEq

namespace Interrupt

variable {Cpu : Type} [DecidableEq Cpu]

/-- What an interrupt does to the monitor of its processor. -/
def onMachine (i : Interrupt) (c : Cpu) (h : Machine Cpu) : Machine Cpu :=
  if i.disarms then h.disarm c else h

/-- What an interrupt does to a thread in a sleep call. -/
def onSleeper (i : Interrupt) (pc : SleepPc) : SleepPc :=
  if i.wakes ∧ pc = .mwait then .recheck else pc

@[simp]
theorem onMachine_mem {i : Interrupt} {c : Cpu} {h : Machine Cpu} :
    (i.onMachine c h).mem = h.mem := by
  unfold onMachine
  split <;> rfl

/-- An interrupt leads a sleeper nowhere but out of MWAIT. -/
theorem onSleeper_cases (i : Interrupt) (pc : SleepPc) :
    i.onSleeper pc = pc ∨ (pc = .mwait ∧ i.onSleeper pc = .recheck) := by
  unfold onSleeper
  by_cases hwake : i.wakes ∧ pc = .mwait
  · exact .inr ⟨hwake.2, if_pos hwake⟩
  · exact .inl (if_neg hwake)

end Interrupt

section

variable {Cpu : Type} [DecidableEq Cpu]

/-- What one step of a sleep call can be. -/
inductive SleepMove (p : Addr) (c : Cpu) (pc : SleepPc) (h : Machine Cpu) :
    Machine Cpu → SleepOutcome → Prop
  | disable (hpc : pc = .irqDisable) : SleepMove p c pc h h (.goto .monitor)
  | arm (hpc : pc = .monitor) : SleepMove p c pc h (h.monitor c p) (.goto .irqEnable)
  | enable (hpc : pc = .irqEnable) : SleepMove p c pc h h (.goto .check)
  | seen (hpc : pc = .check ∨ pc = .recheck) (hmem : h.mem p = MWMON_NOTIFIED_VAL) :
      SleepMove p c pc h h (.goto .reset)
  | unseen (hpc : pc = .check) (hmem : h.mem p ≠ MWMON_NOTIFIED_VAL) :
      SleepMove p c pc h h (.goto .mwait)
  | wake (hpc : pc = .mwait) (hfree : ¬ h.Blocks c) : SleepMove p c pc h h (.goto .recheck)
  | again (hpc : pc = .recheck) (hmem : h.mem p ≠ MWMON_NOTIFIED_VAL) :
      SleepMove p c pc h h (.goto .irqDisable)
  | reset (hpc : pc = .reset) :
      SleepMove p c pc h (h.store c p MWMON_ORIGINAL_VAL) .returned

/-- A sleep call goes on to the reset only after it has seen the byte notified. -/
theorem SleepMove.notified {p : Addr} {c : Cpu} {pc : SleepPc} {h h' : Machine Cpu}
    {out : SleepOutcome} (hmove : SleepMove p c pc h h' out) (hout : out = .goto .reset) :
    h.mem p = MWMON_NOTIFIED_VAL := by
  cases hmove with
  | seen _ hmem => exact hmem
  | _ => cases hout

/-- Until it returns a sleep call only reads the memory. -/
theorem SleepMove.mem_eq {p : Addr} {c : Cpu} {pc pc' : SleepPc} {h h' : Machine Cpu}
    {out : SleepOutcome} (hmove : SleepMove p c pc h h' out) (hout : out = .goto pc') :
    h'.mem = h.mem := by
  cases hmove with
  | reset => cases hout
  | _ => rfl

/-- The step that resets the byte is the last one of the call. -/
theorem SleepMove.of_reset {p : Addr} {c : Cpu} {pc : SleepPc} {h h' : Machine Cpu}
    {out : SleepOutcome} (hmove : SleepMove p c pc h h' out) (hpc : pc = .reset) :
    h' = h.store c p MWMON_ORIGINAL_VAL ∧ out = .returned := by
  cases hmove with
  | reset => exact ⟨rfl, rfl⟩
  | disable hpc' => simp [hpc] at hpc'
  | arm hpc' => simp [hpc] at hpc'
  | enable hpc' => simp [hpc] at hpc'
  | seen hpc' => simp [hpc] at hpc'
  | unseen hpc' => simp [hpc] at hpc'
  | wake hpc' => simp [hpc] at hpc'
  | again hpc' => simp [hpc] at hpc'

/-- A sleep call returns with the store that resets the byte. -/
theorem SleepMove.of_returned {p : Addr} {c : Cpu} {pc : SleepPc} {h h' : Machine Cpu}
    {out : SleepOutcome} (hmove : SleepMove p c pc h h' out) (hout : out = .returned) :
    pc = .reset ∧ h' = h.store c p MWMON_ORIGINAL_VAL := by
  cases hmove with
  | reset hpc => exact ⟨hpc, rfl⟩
  | _ => cases hout

theorem mwmonSleep_cases {p : Addr} {c : Cpu} {pc : SleepPc} {h h' : Machine Cpu}
    {out : SleepOutcome} (hstep : mwmonSleep p c pc h = some (h', out)) :
    SleepMove p c pc h h' out := by
  cases pc with
  | irqDisable =>
      simp only [mwmonSleep, Option.some.injEq, Prod.mk.injEq] at hstep
      obtain ⟨rfl, rfl⟩ := hstep
      exact .disable rfl
  | monitor =>
      simp only [mwmonSleep, Option.some.injEq, Prod.mk.injEq] at hstep
      obtain ⟨rfl, rfl⟩ := hstep
      exact .arm rfl
  | irqEnable =>
      simp only [mwmonSleep, Option.some.injEq, Prod.mk.injEq] at hstep
      obtain ⟨rfl, rfl⟩ := hstep
      exact .enable rfl
  | check =>
      by_cases hmem : h.mem p = MWMON_NOTIFIED_VAL
      · simp only [mwmonSleep, if_pos hmem, Option.some.injEq, Prod.mk.injEq] at hstep
        obtain ⟨rfl, rfl⟩ := hstep
        exact .seen (.inl rfl) hmem
      · simp only [mwmonSleep, if_neg hmem, Option.some.injEq, Prod.mk.injEq] at hstep
        obtain ⟨rfl, rfl⟩ := hstep
        exact .unseen rfl hmem
  | mwait =>
      simp only [mwmonSleep, Option.ite_none_left_eq_some, Option.some.injEq,
        Prod.mk.injEq] at hstep
      obtain ⟨hfree, rfl, rfl⟩ := hstep
      exact .wake rfl hfree
  | recheck =>
      by_cases hmem : h.mem p ≠ MWMON_NOTIFIED_VAL
      · simp only [mwmonSleep, if_pos hmem, Option.some.injEq, Prod.mk.injEq] at hstep
        obtain ⟨rfl, rfl⟩ := hstep
        exact .again rfl hmem
      · simp only [mwmonSleep, if_neg hmem, Option.some.injEq, Prod.mk.injEq] at hstep
        obtain ⟨rfl, rfl⟩ := hstep
        exact .seen (.inr rfl) (not_not.mp hmem)
  | reset =>
      simp only [mwmonSleep, Option.some.injEq, Prod.mk.injEq] at hstep
      obtain ⟨rfl, rfl⟩ := hstep
      exact .reset rfl

end

section

variable {Cpu : Type}

/-- What a thread in a sleep call knows of its monitor: after arming it is on the
line of the byte or nowhere, and after the check it is nowhere or the byte is not
notified. -/
def SleepWatch (p : Addr) (c : Cpu) (h : Machine Cpu) : SleepPc → Prop
  | .irqEnable => h.OnLine c p
  | .check => h.OnLine c p
  | .mwait => h.Watched c p MWMON_NOTIFIED_VAL
  | .irqDisable => True
  | .monitor => True
  | .recheck => True
  | .reset => True

namespace SleepWatch

variable {p : Addr} {c d : Cpu} {pc pc' : SleepPc} {h h' : Machine Cpu} {out : SleepOutcome}

/-- What keeps the line and the watch keeps the sleeper's knowledge. -/
theorem mono (hwatch : SleepWatch p c h pc) (hline : h.OnLine c p → h'.OnLine c p)
    (hkeep : h.Watched c p MWMON_NOTIFIED_VAL → h'.Watched c p MWMON_NOTIFIED_VAL) :
    SleepWatch p c h' pc := by
  cases pc with
  | irqEnable => exact hline hwatch
  | check => exact hline hwatch
  | mwait => exact hkeep hwatch
  | irqDisable => exact trivial
  | monitor => exact trivial
  | recheck => exact trivial
  | reset => exact trivial

/-- An interrupted sleeper goes on with what it knows. -/
theorem onSleeper (hwatch : SleepWatch p c h pc) {i : Interrupt} :
    SleepWatch p c h (i.onSleeper pc) := by
  rcases i.onSleeper_cases pc with hsame | ⟨-, hwake⟩
  · rwa [hsame]
  · rw [hwake]
    exact trivial

variable [DecidableEq Cpu]

/-- The sleeper's own steps keep its watch. -/
theorem step (hwatch : SleepWatch p c h pc) (hmove : SleepMove p c pc h h' out)
    (hout : out = .goto pc') : SleepWatch p c h' pc' := by
  cases hmove with
  | disable => cases hout; exact trivial
  | arm => cases hout; exact Hardware.onLine_monitor
  | enable hpc => cases hout; subst hpc; exact hwatch
  | seen => cases hout; exact trivial
  | unseen hpc hmem =>
      cases hout
      subst hpc
      exact Hardware.OnLine.watched hwatch hmem
  | wake => cases hout; exact trivial
  | again => cases hout; exact trivial
  | reset => cases hout

/-- Stores by other processors keep the watch. -/
theorem store (hwatch : SleepWatch p c h pc) (hne : c ≠ d) {a : Addr} {v : Byte} :
    SleepWatch p c (h.store d a v) pc :=
  hwatch.mono (fun hon => hon.store) (fun hw => hw.store hne)

/-- Disarming any monitor keeps the watch. -/
theorem disarm (hwatch : SleepWatch p c h pc) : SleepWatch p c (h.disarm d) pc :=
  hwatch.mono (fun hon => hon.disarm) (fun hw => hw.disarm)

/-- Arming another processor's monitor keeps the watch. -/
theorem monitor (hwatch : SleepWatch p c h pc) (hne : c ≠ d) {a : Addr} :
    SleepWatch p c (h.monitor d a) pc :=
  hwatch.mono (fun hon => hon.of_armed_eq (Hardware.monitor_armed_of_ne hne))
    (fun hw => hw.monitor hne)

theorem interrupt (hwatch : SleepWatch p c h pc) {i : Interrupt} :
    SleepWatch p c (i.onMachine d h) pc := by
  unfold Interrupt.onMachine
  split
  · exact hwatch.disarm
  · exact hwatch

/-- The steps of another sleeper keep the watch. -/
theorem other (hwatch : SleepWatch p c h pc) (hne : c ≠ d) {q : Addr}
    (hmove : SleepMove q d pc' h h' out) : SleepWatch p c h' pc := by
  cases hmove with
  | arm => exact hwatch.monitor hne
  | reset => exact hwatch.store hne
  | disable => exact hwatch
  | enable => exact hwatch
  | seen => exact hwatch
  | unseen => exact hwatch
  | wake => exact hwatch
  | again => exact hwatch

end SleepWatch

end

end Htsynch
