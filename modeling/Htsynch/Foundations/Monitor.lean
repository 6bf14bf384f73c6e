/-
# Memory with armed monitors

Several processors share a memory. A processor can arm its monitor on the line
of an address; a store by another processor to that line triggers the monitor,
and an interrupt may disarm it. A wait instruction holds a processor only while
its monitor is armed and not triggered, so both ways of ending that are recorded
as `none`. A processor's own stores do not trigger its own monitor.

The rule of the module is the one every arm-check-wait sequence rests on: if a
processor armed the line of an address and afterwards saw that the address does
not hold a value, then from there on, whatever the others store, either its
monitor is no longer armed or the address still does not hold that value.
-/

import Mathlib.Logic.Function.Basic

namespace Htsynch.Foundations

universe u v w x

/-- The granularity at which stores are noticed by monitors. -/
class Lines (Addr : Type u) (Line : outParam (Type v)) where
  /-- The line an address lies on. -/
  line : Addr → Line

/-- A memory and the monitor of each processor: the line it is armed on, or
`none` when it was never armed, was triggered, or was disarmed. -/
structure Hardware (Cpu : Type u) (Addr : Type v) (Line : Type w) (Val : Type x) where
  /-- The contents of the memory. -/
  mem : Addr → Val
  /-- The armed and untriggered monitors. -/
  armed : Cpu → Option Line

namespace Hardware

variable {Cpu : Type u} {Addr : Type v} {Line : Type w} {Val : Type x}
  {h : Hardware Cpu Addr Line Val} {c d : Cpu} {a b : Addr} {v v' : Val}

/-- A wait instruction holds `c` exactly while its monitor is armed. -/
def Blocks (h : Hardware Cpu Addr Line Val) (c : Cpu) : Prop :=
  h.armed c ≠ none

instance [DecidableEq Line] (h : Hardware Cpu Addr Line Val) (c : Cpu) :
    Decidable (h.Blocks c) :=
  inferInstanceAs (Decidable (_ ≠ _))

section Disarm

variable [DecidableEq Cpu]

/-- Disarm the monitor of `c`. -/
def disarm (h : Hardware Cpu Addr Line Val) (c : Cpu) : Hardware Cpu Addr Line Val :=
  { h with armed := Function.update h.armed c none }

@[simp]
theorem disarm_mem : (h.disarm c).mem = h.mem := rfl

@[simp]
theorem disarm_armed_self : (h.disarm c).armed c = none := by
  simp [disarm]

theorem disarm_armed_of_ne (hne : d ≠ c) : (h.disarm c).armed d = h.armed d := by
  simp [disarm, hne]

end Disarm

section Watch

variable [Lines Addr Line]

/-- If the monitor of `c` is armed at all, it is armed on the line of `a`. -/
def OnLine (h : Hardware Cpu Addr Line Val) (c : Cpu) (a : Addr) : Prop :=
  h.armed c = none ∨ h.armed c = some (Lines.line a)

/-- Either the monitor of `c` is not armed, or it is armed on the line of `a`
and `a` does not hold `v`. -/
def Watched (h : Hardware Cpu Addr Line Val) (c : Cpu) (a : Addr) (v : Val) : Prop :=
  h.armed c = none ∨ (h.armed c = some (Lines.line a) ∧ h.mem a ≠ v)

theorem OnLine.of_armed_eq {h' : Hardware Cpu Addr Line Val} (hon : h.OnLine c a)
    (harmed : h'.armed c = h.armed c) : h'.OnLine c a := by
  unfold OnLine
  rwa [harmed]

/-- Checking after arming starts the watch. -/
theorem OnLine.watched (hon : h.OnLine c a) (hcheck : h.mem a ≠ v) : h.Watched c a v :=
  hon.imp id fun harmed => ⟨harmed, hcheck⟩

/-- While a watched address holds the value its processor is not held. -/
theorem Watched.not_blocks (hwatch : h.Watched c a v) (hval : h.mem a = v) :
    ¬ h.Blocks c := by
  rcases hwatch with hnone | ⟨-, hne⟩
  · simpa [Blocks] using hnone
  · exact absurd hval hne

variable [DecidableEq Cpu]

/-- Arm the monitor of `c` on the line of `a`. -/
def monitor (h : Hardware Cpu Addr Line Val) (c : Cpu) (a : Addr) :
    Hardware Cpu Addr Line Val :=
  { h with armed := Function.update h.armed c (some (Lines.line a)) }

@[simp]
theorem monitor_mem : (h.monitor c a).mem = h.mem := rfl

@[simp]
theorem monitor_armed_self : (h.monitor c a).armed c = some (Lines.line a) := by
  simp [monitor]

theorem monitor_armed_of_ne (hne : d ≠ c) : (h.monitor c a).armed d = h.armed d := by
  simp [monitor, hne]

theorem onLine_monitor : (h.monitor c a).OnLine c a :=
  .inr monitor_armed_self

theorem OnLine.disarm (hon : h.OnLine c a) : (h.disarm d).OnLine c a := by
  by_cases hd : c = d
  · subst d
    exact .inl disarm_armed_self
  · exact hon.of_armed_eq (disarm_armed_of_ne hd)

theorem Watched.disarm (hwatch : h.Watched c a v) : (h.disarm d).Watched c a v := by
  by_cases hd : c = d
  · subst d
    exact .inl disarm_armed_self
  · unfold Watched
    rwa [disarm_armed_of_ne hd, disarm_mem]

theorem Watched.monitor (hwatch : h.Watched c a v) (hne : c ≠ d) :
    (h.monitor d b).Watched c a v := by
  unfold Watched
  rwa [monitor_armed_of_ne hne, monitor_mem]

end Watch

section Store

variable [DecidableEq Cpu] [DecidableEq Addr] [DecidableEq Line] [Lines Addr Line]

/-- Processor `c` stores `v` at `a`: the monitors of all other processors that
are armed on the line of `a` are triggered. -/
def store (h : Hardware Cpu Addr Line Val) (c : Cpu) (a : Addr) (v : Val) :
    Hardware Cpu Addr Line Val where
  mem := Function.update h.mem a v
  armed d := if d ≠ c ∧ h.armed d = some (Lines.line a) then none else h.armed d

@[simp]
theorem store_mem_self : (h.store c a v).mem a = v := by
  simp [store]

theorem store_mem_of_ne (hne : b ≠ a) : (h.store c a v).mem b = h.mem b := by
  simp [store, hne]

theorem store_armed_of_ne (hne : h.armed d ≠ some (Lines.line a)) :
    (h.store c a v).armed d = h.armed d := by
  simp [store, hne]

/-- A store by another processor triggers a monitor armed on its line. -/
theorem store_triggers (hne : d ≠ c) (harmed : h.armed d = some (Lines.line a)) :
    (h.store c a v).armed d = none := by
  simp [store, hne, harmed]

/-- A store never arms a monitor. -/
theorem store_armed_cases :
    (h.store c a v).armed d = none ∨ (h.store c a v).armed d = h.armed d := by
  by_cases hd : d ≠ c ∧ h.armed d = some (Lines.line a)
  · exact .inl (store_triggers hd.1 hd.2)
  · exact .inr (by simp only [store, if_neg hd])

theorem OnLine.store (hon : h.OnLine c a) : (h.store d b v).OnLine c a := by
  rcases store_armed_cases (h := h) (c := d) (a := b) (v := v) (d := c) with hnone | hsame
  · exact .inl hnone
  · exact hon.of_armed_eq hsame

/-- No store by another processor ends the watch: it either misses the address
or triggers the monitor. -/
theorem Watched.store (hwatch : h.Watched c a v) (hne : c ≠ d) :
    (h.store d b v').Watched c a v := by
  rcases hwatch with hnone | ⟨harmed, hval⟩
  · rw [Watched, store_armed_of_ne (by simp [hnone])]
    exact .inl hnone
  · by_cases hline : (Lines.line b : Line) = Lines.line a
    · exact .inl (store_triggers hne (by rw [harmed, hline]))
    · have hab : a ≠ b := fun hab => hline (by rw [hab])
      have hother : h.armed c ≠ some (Lines.line b) := by
        rw [harmed]
        exact fun hsome => hline (Option.some.inj hsome).symm
      right
      rw [store_armed_of_ne hother, store_mem_of_ne hab]
      exact ⟨harmed, hval⟩

end Store

end Hardware

end Htsynch.Foundations
