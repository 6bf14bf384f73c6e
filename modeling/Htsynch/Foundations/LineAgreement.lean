/-
# What a group of processors can see of a memory

A group of processors watches one line. Two machines agree for the group when the line
holds the same bytes in both and the monitors of the group are the same in both, armed on
that line or not at all. Only those processors count that go on to wait: the monitor of
one that does not is of no consequence until it is armed again.

What one of the group does in both machines keeps the agreement; so does what happens in
one of them away from the line and by processors outside the group.
-/

import Htsynch.Foundations.Monitor

namespace Htsynch.Foundations

universe u v w x y z

namespace Hardware

variable {κ : Type u} {Cpu : Type v} {Cpu' : Type w} {Addr : Type x} {Line : Type y}
  {Val : Type z} [Lines Addr Line]

/-- The two machines agree about a line for the members of a group that wait on it. -/
structure AgreesOn (cpu' : κ → Cpu') (cpu : κ → Cpu) (line : Line) (Waits : κ → Prop)
    (h' : Hardware Cpu' Addr Line Val) (h : Hardware Cpu Addr Line Val) : Prop where
  mem : ∀ a, Lines.line a = line → h'.mem a = h.mem a
  armed : ∀ i, Waits i → h'.armed (cpu' i) = h.armed (cpu i)
  onLine : ∀ i, Waits i → h.armed (cpu i) = none ∨ h.armed (cpu i) = some line

namespace AgreesOn

variable {cpu' : κ → Cpu'} {cpu : κ → Cpu} {line : Line} {Waits Waits' : κ → Prop}
  {h' : Hardware Cpu' Addr Line Val} {h : Hardware Cpu Addr Line Val} {i j : κ} {a : Addr}
  {v : Val} {d : Cpu}

theorem mono (hagree : AgreesOn cpu' cpu line Waits h' h) (hfewer : ∀ i, Waits' i → Waits i) :
    AgreesOn cpu' cpu line Waits' h' h :=
  ⟨hagree.mem, fun i hi => hagree.armed i (hfewer i hi), fun i hi => hagree.onLine i (hfewer i hi)⟩

theorem symm (hagree : AgreesOn cpu' cpu line Waits h' h) :
    AgreesOn cpu cpu' line Waits h h' := by
  constructor
  case mem => exact fun a ha => (hagree.mem a ha).symm
  case armed => exact fun i hi => (hagree.armed i hi).symm
  case onLine =>
    intro i hi
    rw [hagree.armed i hi]
    exact hagree.onLine i hi

/-- MWAIT holds a member in both machines or in neither. -/
theorem blocks_iff (hagree : AgreesOn cpu' cpu line Waits h' h) (hi : Waits i) :
    h'.Blocks (cpu' i) ↔ h.Blocks (cpu i) := by
  rw [Blocks, Blocks, hagree.armed i hi]

/-- Away from the line and the group's monitors anything may change. -/
theorem frame (hagree : AgreesOn cpu' cpu line Waits h' h)
    {g : Hardware Cpu Addr Line Val} (hmem : ∀ a, Lines.line a = line → g.mem a = h.mem a)
    (harmed : ∀ i, Waits i → g.armed (cpu i) = h.armed (cpu i)) :
    AgreesOn cpu' cpu line Waits h' g := by
  constructor
  case mem => exact fun a ha => (hagree.mem a ha).trans (hmem a ha).symm
  case armed => exact fun i hi => (hagree.armed i hi).trans (harmed i hi).symm
  case onLine =>
    intro i hi
    rw [harmed i hi]
    exact hagree.onLine i hi

/-- A store to another line. -/
theorem store_right [DecidableEq Cpu] [DecidableEq Addr] [DecidableEq Line]
    (hagree : AgreesOn cpu' cpu line Waits h' h) (ha : Lines.line a ≠ line) :
    AgreesOn cpu' cpu line Waits h' (h.store d a v) := by
  refine hagree.frame ?_ ?_
  · intro b hb
    exact store_mem_of_ne fun hab => ha (by rw [← hab, hb])
  · intro i hi
    refine store_armed_of_ne fun hsome => ?_
    rcases hagree.onLine i hi with hnone | honline
    · rw [hnone] at hsome
      cases hsome
    · rw [honline] at hsome
      exact ha (Option.some.inj hsome).symm

/-- A MONITOR outside the group. -/
theorem monitor_right [DecidableEq Cpu] (hagree : AgreesOn cpu' cpu line Waits h' h)
    (hd : ∀ i, cpu i ≠ d) : AgreesOn cpu' cpu line Waits h' (h.monitor d a) :=
  hagree.frame (fun _ _ => rfl) fun i _ => monitor_armed_of_ne (hd i)

/-- An interrupt outside the group. -/
theorem disarm_right [DecidableEq Cpu] (hagree : AgreesOn cpu' cpu line Waits h' h)
    (hd : ∀ i, cpu i ≠ d) : AgreesOn cpu' cpu line Waits h' (h.disarm d) :=
  hagree.frame (fun _ _ => rfl) fun i _ => disarm_armed_of_ne (hd i)

section Both

variable [DecidableEq Cpu] [DecidableEq Cpu']

/-- A member arms its monitor on the line, and begins to wait. -/
theorem monitor_both (hagree : AgreesOn cpu' cpu line Waits h' h) (hinj' : cpu'.Injective)
    (hinj : cpu.Injective) (ha : Lines.line a = line)
    (hwaits : ∀ j, Waits' j → j = i ∨ Waits j) :
    AgreesOn cpu' cpu line Waits' (h'.monitor (cpu' i) a) (h.monitor (cpu i) a) := by
  constructor
  case mem => exact hagree.mem
  case armed =>
    intro j hj
    by_cases hji : j = i
    · subst j
      rw [monitor_armed_self, monitor_armed_self]
    · rw [monitor_armed_of_ne (hinj'.ne hji), monitor_armed_of_ne (hinj.ne hji)]
      exact hagree.armed j ((hwaits j hj).resolve_left hji)
  case onLine =>
    intro j hj
    by_cases hji : j = i
    · subst j
      rw [monitor_armed_self, ha]
      exact .inr rfl
    · rw [monitor_armed_of_ne (hinj.ne hji)]
      exact hagree.onLine j ((hwaits j hj).resolve_left hji)

/-- A member is interrupted. -/
theorem disarm_both (hagree : AgreesOn cpu' cpu line Waits h' h) (hinj' : cpu'.Injective)
    (hinj : cpu.Injective) :
    AgreesOn cpu' cpu line Waits (h'.disarm (cpu' i)) (h.disarm (cpu i)) := by
  constructor
  case mem => exact hagree.mem
  case armed =>
    intro j hj
    by_cases hji : j = i
    · subst j
      rw [disarm_armed_self, disarm_armed_self]
    · rw [disarm_armed_of_ne (hinj'.ne hji), disarm_armed_of_ne (hinj.ne hji)]
      exact hagree.armed j hj
  case onLine =>
    intro j hj
    by_cases hji : j = i
    · subst j
      exact .inl disarm_armed_self
    · rw [disarm_armed_of_ne (hinj.ne hji)]
      exact hagree.onLine j hj

/-- A member stores. -/
theorem store_both [DecidableEq Addr] [DecidableEq Line]
    (hagree : AgreesOn cpu' cpu line Waits h' h) (hinj' : cpu'.Injective)
    (hinj : cpu.Injective) :
    AgreesOn cpu' cpu line Waits (h'.store (cpu' i) a v) (h.store (cpu i) a v) := by
  constructor
  case mem =>
    intro b hb
    by_cases hab : b = a
    · subst b
      rw [store_mem_self, store_mem_self]
    · rw [store_mem_of_ne hab, store_mem_of_ne hab]
      exact hagree.mem b hb
  case armed =>
    intro j hj
    have hself : cpu' j ≠ cpu' i ↔ cpu j ≠ cpu i := hinj'.ne_iff.trans hinj.ne_iff.symm
    have hon : h'.armed (cpu' j) = some (Lines.line a) ↔ h.armed (cpu j) = some (Lines.line a) := by
      rw [hagree.armed j hj]
    exact if_congr (and_congr hself hon) rfl (hagree.armed j hj)
  case onLine =>
    intro j hj
    rcases store_armed_cases (h := h) (c := cpu i) (a := a) (v := v) (d := cpu j) with
      hnone | hsame
    · exact .inl hnone
    · rw [hsame]
      exact hagree.onLine j hj

end Both

end AgreesOn

end Hardware

end Htsynch.Foundations
