/-
# Labelled transition systems

A system is an initial predicate with a labelled step relation. Reachability is
relative to a condition on the steps taken, so that one rule serves both the
states every run reaches and the states reached by runs that keep away from a
named step. The condition reads the source state and the label, never what the
step computes.

Executable systems come from a partial step function. `exec` replays a list of
labels through such a function and skips the labels that are not enabled, which
makes every replay reach a reachable state without a side condition.
-/

import Mathlib.Logic.Relation

namespace Htsynch.Foundations

universe u v w x

/-- A labelled transition system. -/
structure System (State : Type u) (Label : Type v) where
  /-- The states a run may start in. -/
  init : State → Prop
  /-- One atomic step under a label. -/
  step : State → Label → State → Prop

namespace System

variable {State : Type u} {Label : Type v} (S : System State Label)

/-- One step whose label is allowed in the state it starts from. -/
def Next (allow : State → Label → Prop) (source target : State) : Prop :=
  ∃ label, allow source label ∧ S.step source label target

/-- The states reached by runs all of whose steps are allowed. -/
def ReachableVia (allow : State → Label → Prop) (state : State) : Prop :=
  ∃ start, S.init start ∧ Relation.ReflTransGen (S.Next allow) start state

/-- The states reached by any run. -/
def Reachable (state : State) : Prop :=
  S.ReachableVia (fun _ _ => True) state

variable {S} {allow : State → Label → Prop} {state target : State} {label : Label}

theorem ReachableVia.of_init (hinit : S.init state) : S.ReachableVia allow state :=
  ⟨state, hinit, .refl⟩

theorem ReachableVia.step (hreach : S.ReachableVia allow state)
    (hallow : allow state label) (hstep : S.step state label target) :
    S.ReachableVia allow target := by
  obtain ⟨start, hinit, hpath⟩ := hreach
  exact ⟨start, hinit, hpath.tail ⟨label, hallow, hstep⟩⟩

/-- A predicate that holds initially and that every allowed step keeps holds in
every state reached by allowed steps. -/
theorem ReachableVia.invariant {P : State → Prop}
    (hinit : ∀ s, S.init s → P s)
    (hstep : ∀ s l t, P s → allow s l → S.step s l t → P t)
    (hreach : S.ReachableVia allow state) : P state := by
  obtain ⟨start, hstart, hpath⟩ := hreach
  induction hpath with
  | refl => exact hinit _ hstart
  | tail _ hnext ih =>
      obtain ⟨label, hallow, hs⟩ := hnext
      exact hstep _ label _ ih hallow hs

theorem Reachable.of_init (hinit : S.init state) : S.Reachable state :=
  ReachableVia.of_init hinit

theorem Reachable.step (hreach : S.Reachable state)
    (hstep : S.step state label target) : S.Reachable target :=
  ReachableVia.step hreach trivial hstep

/-- The unconditional invariant rule. -/
theorem Reachable.invariant {P : State → Prop}
    (hinit : ∀ s, S.init s → P s)
    (hstep : ∀ s l t, P s → S.step s l t → P t)
    (hreach : S.Reachable state) : P state :=
  ReachableVia.invariant hinit (fun s l t hP _ => hstep s l t hP) hreach

/-- Weakening the condition on the steps only adds states. -/
theorem ReachableVia.mono {allow' : State → Label → Prop} (hreach : S.ReachableVia allow state)
    (hweaker : ∀ s l, allow s l → allow' s l) : S.ReachableVia allow' state :=
  ReachableVia.invariant (fun _ => ReachableVia.of_init)
    (fun s l _ hs hallow hstep => hs.step (hweaker s l hallow) hstep) hreach

/-- Dropping the condition on the steps only adds states. -/
theorem ReachableVia.reachable (hreach : S.ReachableVia allow state) :
    S.Reachable state :=
  hreach.mono fun _ _ _ => trivial

variable {State' : Type w} {Label' : Type x}

/-- `R` relates every allowed concrete run to an allowed abstract run. A
concrete step that the abstract system does not see leaves the abstract state
where it is. -/
structure Simulates (C : System State Label) (allow : State → Label → Prop)
    (A : System State' Label') (allow' : State' → Label' → Prop)
    (R : State → State' → Prop) : Prop where
  /-- Every concrete start is related to an abstract start. -/
  init : ∀ s, C.init s → ∃ a, A.init a ∧ R s a
  /-- Every allowed concrete step is an allowed abstract step or none. -/
  step : ∀ s l t a, R s a → allow s l → C.step s l t →
    ∃ b, R t b ∧ (b = a ∨ ∃ m, allow' a m ∧ A.step a m b)

/-- Every continuation of a concrete run is matched by one of the abstract run. -/
theorem Simulates.path {C : System State Label} {A : System State' Label'}
    {allow' : State' → Label' → Prop} {R : State → State' → Prop} {s t : State} {a : State'}
    (hsim : Simulates C allow A allow' R) (hR : R s a)
    (hpath : Relation.ReflTransGen (C.Next allow) s t) :
    ∃ b, Relation.ReflTransGen (A.Next allow') a b ∧ R t b := by
  induction hpath with
  | refl => exact ⟨a, .refl, hR⟩
  | tail _ hnext ih =>
      obtain ⟨b, hb, hRb⟩ := ih
      obtain ⟨label, hallow, hs⟩ := hnext
      obtain ⟨b', hRb', rfl | ⟨m, hm, hstep⟩⟩ := hsim.step _ label _ b hRb hallow hs
      · exact ⟨b', hb, hRb'⟩
      · exact ⟨b', hb.tail ⟨m, hm, hstep⟩, hRb'⟩

/-- Every state a concrete run reaches is related to one the abstract system
reaches. -/
theorem Simulates.reachable {C : System State Label} {A : System State' Label'}
    {allow' : State' → Label' → Prop} {R : State → State' → Prop}
    (hsim : Simulates C allow A allow' R) (hreach : C.ReachableVia allow state) :
    ∃ a, A.ReachableVia allow' a ∧ R state a := by
  obtain ⟨start, hinit, hpath⟩ := hreach
  obtain ⟨a, ha, hR⟩ := hsim.init start hinit
  obtain ⟨b, hb, hRb⟩ := hsim.path hR hpath
  exact ⟨b, ⟨a, ha, hb⟩, hRb⟩

/-- The system of a partial step function: `none` means that the label is not
enabled. -/
def ofNext (init : State → Prop) (next : State → Label → Option State) :
    System State Label where
  init := init
  step s l t := next s l = some t

/-- Replay labels in order, skipping those that are not enabled. -/
def exec (next : State → Label → Option State) : State → List Label → State
  | s, [] => s
  | s, l :: ls => exec next ((next s l).getD s) ls

/-- The step function that refuses every label the condition excludes. -/
def guarded (allow : State → Label → Prop) [∀ s l, Decidable (allow s l)]
    (next : State → Label → Option State) (s : State) (l : Label) : Option State :=
  if allow s l then next s l else none

/-- A step function that nothing is excluded from. -/
theorem guarded_true (next : State → Label → Option State) :
    guarded (fun _ _ => True) next = next := by
  funext s l
  exact if_pos trivial

/-- A replay whose first label is enabled. -/
theorem exec_cons {next : State → Label → Option State} {s t : State} {l : Label}
    (h : next s l = some t) (ls : List Label) : exec next s (l :: ls) = exec next t ls := by
  rw [exec, h, Option.getD_some]

section Replay

variable {init : State → Prop} {next : State → Label → Option State}

/-- A replay through the guarded step function only takes allowed steps. -/
theorem reachableVia_exec [∀ s l, Decidable (allow s l)] :
    ∀ (labels : List Label) {s : State}, (ofNext init next).ReachableVia allow s →
      (ofNext init next).ReachableVia allow (exec (guarded allow next) s labels)
  | [], _, hs => hs
  | l :: ls, s, hs => by
      refine reachableVia_exec ls ?_
      cases hnext : guarded allow next s l with
      | none => simpa using hs
      | some t =>
          simp only [guarded, Option.ite_none_right_eq_some] at hnext
          exact hs.step hnext.1 hnext.2

theorem reachable_exec :
    ∀ (labels : List Label) {s : State}, (ofNext init next).Reachable s →
      (ofNext init next).Reachable (exec next s labels)
  | [], _, hs => hs
  | l :: ls, s, hs => by
      refine reachable_exec ls ?_
      cases hnext : next s l with
      | none => simpa using hs
      | some t =>
          have hstep : (ofNext init next).step s l t := hnext
          exact hs.step hstep

end Replay

end System

end Htsynch.Foundations
