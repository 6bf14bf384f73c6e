/-
# Parallel composition of local programs

Every thread runs a local program over a shared state. A step of the composed
system picks one thread and one of the choices open to it, runs one atomic step
of that thread's program, and leaves the local state of every other thread as
it was. The rules below say this once, so that what a program does is only ever
looked up in its own step function.
-/

import Htsynch.Foundations.System
import Mathlib.Logic.Function.Basic

namespace Htsynch.Foundations

universe u v w x

/-- A shared state with the local state of every thread. -/
structure Config (ι : Type u) (Shared : Type v) (Local : Type w) where
  /-- What all threads see. -/
  shared : Shared
  /-- What each thread keeps to itself. -/
  threads : ι → Local

namespace Config

variable {ι : Type u} {Shared : Type v} {Local : Type w} [DecidableEq ι]

/-- The configuration after thread `who` has moved. -/
def move (s : Config ι Shared Local) (who : ι) (shared : Shared) (own : Local) :
    Config ι Shared Local where
  shared := shared
  threads := Function.update s.threads who own

variable {s : Config ι Shared Local} {who other : ι} {shared : Shared} {own : Local}

@[simp]
theorem move_shared : (s.move who shared own).shared = shared := rfl

@[simp]
theorem move_threads_self : (s.move who shared own).threads who = own := by
  simp [move]

theorem move_threads_of_ne (h : other ≠ who) :
    (s.move who shared own).threads other = s.threads other := by
  simp [move, h]

/-- Moving nothing. -/
theorem move_eq_self : s.move who s.shared (s.threads who) = s := by
  simp [move]

theorem move_move {shared' : Shared} {own' : Local} :
    (s.move who shared own).move who shared' own' = s.move who shared' own' := by
  simp [move]

/-- What holds of the mover's new local state and of every other thread as it
was holds of any thread after the move. -/
@[elab_as_elim]
theorem move_cases {motive : Local → Prop} (j : ι) (self : j = who → motive own)
    (others : j ≠ who → motive (s.threads j)) :
    motive ((s.move who shared own).threads j) := by
  by_cases hj : j = who
  · subst j
    simpa using self rfl
  · rw [move_threads_of_ne hj]
    exact others hj

/-- A move that keeps a thread-local reading `f` of the mover keeps it of all. -/
theorem move_threads_eq_of_eq {β : Type x} {f : Local → β}
    (h : f own = f (s.threads who)) (j : ι) :
    f ((s.move who shared own).threads j) = f (s.threads j) := by
  by_cases hj : j = who
  · subst j
    simpa using h
  · rw [move_threads_of_ne hj]

/-- Thread `i` with local state `a`, thread `j` with `b`, and all others with `rest`. -/
def duo (shared : Shared) (rest : Local) (i j : ι) (a b : Local) : Config ι Shared Local where
  shared := shared
  threads := Function.update (Function.update (fun _ => rest) j b) i a

variable {shared' : Shared} {rest a b a' b' : Local} {i j : ι}

@[simp]
theorem duo_left : (duo shared rest i j a b).threads i = a := Function.update_self _ _ _

theorem duo_right (hne : i ≠ j) : (duo shared rest i j a b).threads j = b := by
  simp [duo, hne.symm]

theorem duo_other {k : ι} (hi : k ≠ i) (hj : k ≠ j) :
    (duo shared rest i j a b).threads k = rest := by
  simp [duo, hi, hj]

theorem duo_move_left :
    (duo shared rest i j a b).move i shared' a' = duo shared' rest i j a' b := by
  rw [move, duo, duo, Function.update_idem]

theorem duo_move_right (hne : i ≠ j) :
    (duo shared rest i j a b).move j shared' b' = duo shared' rest i j a b' := by
  rw [move, duo, duo, Function.update_comm hne, Function.update_idem]

end Config

section Interleave

variable {ι : Type u} {Shared : Type v} {Local : Type w} {Choice : Type x} [DecidableEq ι]

/-- A local program: one atomic step of a thread under a choice, on the shared
state and its own local state, or `none` when the choice is not open to it. -/
abbrev Program (ι : Type u) (Shared : Type v) (Local : Type w) (Choice : Type x) :=
  ι → Choice → Shared → Local → Option (Shared × Local)

/-- One step of the composed system. -/
def Program.next (program : Program ι Shared Local Choice)
    (s : Config ι Shared Local) (label : ι × Choice) : Option (Config ι Shared Local) :=
  (program label.1 label.2 s.shared (s.threads label.1)).map fun result =>
    s.move label.1 result.1 result.2

/-- All threads run the program, in any order. -/
def interleave (init : Config ι Shared Local → Prop)
    (program : Program ι Shared Local Choice) :
    System (Config ι Shared Local) (ι × Choice) :=
  .ofNext init program.next

variable {init : Config ι Shared Local → Prop} {program : Program ι Shared Local Choice}

section Duo

variable {shared shared' : Shared} {rest a b a' b' : Local} {i j : ι} {choice : Choice}

theorem Program.next_duo_left (hstep : program i choice shared a = some (shared', a')) :
    program.next (.duo shared rest i j a b) (i, choice) = some (.duo shared' rest i j a' b) := by
  have hrun : program i choice (Config.duo shared rest i j a b).shared
      ((Config.duo shared rest i j a b).threads i) = some (shared', a') := by
    rw [Config.duo_left]
    exact hstep
  rw [Program.next, hrun, Option.map_some, Config.duo_move_left]

theorem Program.next_duo_right (hne : i ≠ j)
    (hstep : program j choice shared b = some (shared', b')) :
    program.next (.duo shared rest i j a b) (j, choice) = some (.duo shared' rest i j a b') := by
  have hrun : program j choice (Config.duo shared rest i j a b).shared
      ((Config.duo shared rest i j a b).threads j) = some (shared', b') := by
    rw [Config.duo_right hne]
    exact hstep
  rw [Program.next, hrun, Option.map_some, Config.duo_move_right hne]

end Duo

/-- What a step of the composed system can be: one thread's own step. -/
theorem interleave_step_iff {s t : Config ι Shared Local} {label : ι × Choice} :
    (interleave init program).step s label t ↔
      ∃ shared own, program label.1 label.2 s.shared (s.threads label.1) =
        some (shared, own) ∧ t = s.move label.1 shared own := by
  simp only [interleave, System.ofNext, Program.next, Option.map_eq_some_iff, Prod.exists]
  constructor
  · rintro ⟨shared, own, hrun, rfl⟩
    exact ⟨shared, own, hrun, rfl⟩
  · rintro ⟨shared, own, hrun, rfl⟩
    exact ⟨shared, own, hrun, rfl⟩

/-- The steps of one thread under a list of choices. -/
def Program.solo (program : Program ι Shared Local Choice) (i : ι) :
    List Choice → Shared × Local → Option (Shared × Local)
  | [], own => some own
  | c :: cs, own => (program i c own.1 own.2).bind (program.solo i cs)

omit [DecidableEq ι] in
theorem Program.solo_append {i : ι} {choices choices' : List Choice}
    {own own' own'' : Shared × Local} (h : program.solo i choices own = some own')
    (h' : program.solo i choices' own' = some own'') :
    program.solo i (choices ++ choices') own = some own'' := by
  induction choices generalizing own with
  | nil =>
      obtain rfl := Option.some.inj h
      exact h'
  | cons c choices ih =>
      obtain ⟨next, hnext, hrest⟩ := Option.bind_eq_some_iff.mp h
      exact Option.bind_eq_some_iff.mpr ⟨next, hnext, ih hrest⟩

/-- One thread may run while the others do nothing. -/
theorem Program.reachable_solo {i : ι} : ∀ (choices : List Choice)
    {s : Config ι Shared Local}, (interleave init program).Reachable s → ∀ {shared own},
    program.solo i choices (s.shared, s.threads i) = some (shared, own) →
      (interleave init program).Reachable (s.move i shared own)
  | [], s, hreach, shared, own, h => by
      obtain ⟨rfl, rfl⟩ := Prod.mk.inj (Option.some.inj h)
      rwa [Config.move_eq_self]
  | c :: cs, s, hreach, shared, own, h => by
      obtain ⟨⟨sh, own'⟩, hrun, hrest⟩ := Option.bind_eq_some_iff.mp h
      have hnext := System.Reachable.step hreach
        (interleave_step_iff.mpr ⟨sh, own', hrun, rfl⟩ :
          (interleave init program).step s (i, c) (s.move i sh own'))
      have hlast : program.solo i cs ((s.move i sh own').shared, (s.move i sh own').threads i) =
          some (shared, own) := by
        rwa [Config.move_shared, Config.move_threads_self]
      have hall := Program.reachable_solo cs hnext hlast
      rwa [Config.move_move] at hall

/-- Invariants of the composed system are checked one local step at a time. -/
theorem interleave_invariant_via {allow : Config ι Shared Local → ι × Choice → Prop}
    {P : Config ι Shared Local → Prop} (hinit : ∀ s, init s → P s)
    (hstep : ∀ s who choice shared own, P s → allow s (who, choice) →
      program who choice s.shared (s.threads who) = some (shared, own) →
      P (s.move who shared own))
    {s : Config ι Shared Local} (hreach : (interleave init program).ReachableVia allow s) :
    P s := by
  refine System.ReachableVia.invariant hinit ?_ hreach
  intro s label t hP hallow hs
  obtain ⟨shared, own, hrun, rfl⟩ := interleave_step_iff.mp hs
  exact hstep s label.1 label.2 shared own hP hallow hrun

theorem interleave_invariant {P : Config ι Shared Local → Prop}
    (hinit : ∀ s, init s → P s)
    (hstep : ∀ s who choice shared own, P s →
      program who choice s.shared (s.threads who) = some (shared, own) →
      P (s.move who shared own))
    {s : Config ι Shared Local} (hreach : (interleave init program).Reachable s) : P s :=
  interleave_invariant_via hinit
    (fun s who choice shared own hP _ => hstep s who choice shared own hP) hreach

end Interleave

end Htsynch.Foundations
