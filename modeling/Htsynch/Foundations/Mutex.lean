/-
# What a lock is for

The abstract lock is held by one thread or by nobody. A thread may acquire it
while nobody holds it, and only its holder releases it. `Mutex.simulates` reduces
the refinement of this system to one local step of a lock program, given what it
means for a thread to hold the lock.
-/

import Htsynch.Foundations.Interleaving

namespace Htsynch.Foundations

universe u v w x

namespace Mutex

/-- What a thread can do with a lock. -/
inductive Action (ι : Type u)
  | acquire (who : ι)
  | release (who : ι)

/-- The abstract lock: its state is the holder, if there is one. -/
def system (ι : Type u) : System (Option ι) (Action ι) where
  init holder := holder = none
  step holder action holder' :=
    match action with
    | .acquire i => holder = none ∧ holder' = some i
    | .release i => holder = some i ∧ holder' = none

variable {ι : Type u} {Shared : Type v} {Local : Type w} {Choice : Type x}

/-- `holder` is the one thread whose local state says that it holds the lock. -/
def HeldBy (holds : Local → Prop) (threads : ι → Local) (holder : Option ι) : Prop :=
  ∀ i, holds (threads i) ↔ holder = some i

variable {holds : Local → Prop} {threads : ι → Local} {holder : Option ι} {who other : ι}
  {own : Local}

theorem HeldBy.unique (hheld : HeldBy holds threads holder) (hwho : holds (threads who))
    (hother : holds (threads other)) : who = other := by
  have hboth := ((hheld who).mp hwho).symm.trans ((hheld other).mp hother)
  exact Option.some.inj hboth

theorem HeldBy.eq_none_iff (hheld : HeldBy holds threads holder) :
    holder = none ↔ ∀ i, ¬ holds (threads i) := by
  constructor
  · rintro rfl i hi
    exact Option.some_ne_none i ((hheld i).mp hi).symm
  · intro hnone
    cases holder with
    | none => rfl
    | some i => exact absurd ((hheld i).mpr rfl) (hnone i)

variable [DecidableEq ι]

/-- A move that does not change whether the mover holds the lock. -/
theorem HeldBy.stay (hheld : HeldBy holds threads holder)
    (hstay : holds own ↔ holds (threads who)) :
    HeldBy holds (Function.update threads who own) holder := by
  intro i
  by_cases hi : i = who
  · subst i
    rw [Function.update_self, hstay]
    exact hheld who
  · rw [Function.update_of_ne hi]
    exact hheld i

/-- Acquiring a free lock. -/
theorem HeldBy.acquire (hheld : HeldBy holds threads none) (hown : holds own) :
    HeldBy holds (Function.update threads who own) (some who) := by
  intro i
  by_cases hi : i = who
  · subst i
    simpa using hown
  · have hfree : ¬ holds (threads i) := hheld.eq_none_iff.mp rfl i
    simp [hi, hfree, Ne.symm hi]

/-- Releasing a lock one holds. -/
theorem HeldBy.release (hheld : HeldBy holds threads holder) (hwho : holds (threads who))
    (hown : ¬ holds own) : HeldBy holds (Function.update threads who own) none := by
  intro i
  by_cases hi : i = who
  · subst i
    simpa using hown
  · have hfree : ¬ holds (threads i) := fun h => hi (hheld.unique h hwho)
    simp [hi, hfree]

/-- A local step seen as a step of the abstract lock or as none. -/
def Conforms (holds : Local → Prop) (threads : ι → Local) (who : ι) (own : Local) : Prop :=
  (holds own ↔ holds (threads who)) ∨
  ((∀ i, ¬ holds (threads i)) ∧ holds own) ∨
  (holds (threads who) ∧ ¬ holds own)

/-- A conforming step is a step of the abstract lock or none. -/
theorem Conforms.exists_step (hheld : HeldBy holds threads holder)
    (hconforms : Conforms holds threads who own) :
    ∃ holder', HeldBy holds (Function.update threads who own) holder' ∧
      (holder' = holder ∨ ∃ m, (system ι).step holder m holder') := by
  rcases hconforms with hstay | ⟨hfree, hown⟩ | ⟨hwho, hown⟩
  · exact ⟨holder, hheld.stay hstay, .inl rfl⟩
  · obtain rfl := hheld.eq_none_iff.mpr hfree
    exact ⟨some who, hheld.acquire hown, .inr ⟨.acquire who, rfl, rfl⟩⟩
  · exact ⟨none, hheld.release hwho hown, .inr ⟨.release who, (hheld who).mp hwho, rfl⟩⟩

/-- A program refines the abstract lock if some invariant makes all its local
steps conform. -/
theorem simulates {init : Config ι Shared Local → Prop}
    {program : Program ι Shared Local Choice}
    {allow : Config ι Shared Local → ι × Choice → Prop}
    {Inv : Config ι Shared Local → Prop}
    (hinit : ∀ s, init s → Inv s ∧ ∀ i, ¬ holds (s.threads i))
    (hstep : ∀ s holder who choice shared own, Inv s → HeldBy holds s.threads holder →
      allow s (who, choice) →
      program who choice s.shared (s.threads who) = some (shared, own) →
      Inv (s.move who shared own) ∧ Conforms holds s.threads who own) :
    System.Simulates (interleave init program) allow (system ι) (fun _ _ => True)
      (fun s holder => Inv s ∧ HeldBy holds s.threads holder) where
  init s hs := by
    obtain ⟨hInv, hfree⟩ := hinit s hs
    exact ⟨none, rfl, hInv, fun i => by simp [hfree i]⟩
  step s label t holder hR hallow hs := by
    obtain ⟨shared, own, hrun, rfl⟩ := interleave_step_iff.mp hs
    obtain ⟨hInv, hconforms⟩ :=
      hstep s holder label.1 label.2 shared own hR.1 hR.2 hallow hrun
    obtain ⟨holder', hheld, hmove⟩ := hconforms.exists_step hR.2
    exact ⟨holder', ⟨hInv, hheld⟩, hmove.imp id fun ⟨m, hm⟩ => ⟨m, trivial, hm⟩⟩

end Mutex

end Htsynch.Foundations
