/-
# What a barrier is for

The abstract barrier knows, for every thread, how often it has arrived and how
often it has left. A thread arrives when it has left as often as it arrived, and
leaves its k-th round only once every thread has arrived for the k-th time. A
barrier implementation is correct as a rendezvous when its runs are runs of this
system; `Rendezvous.simulates` reduces that to one local step of its program.
-/

import Htsynch.Foundations.Interleaving
import Mathlib.Data.Nat.Notation

namespace Htsynch.Foundations

universe u v w x

/-- Arrivals and departures of every thread so far. -/
structure Rendezvous (ι : Type u) where
  /-- How often each thread has arrived. -/
  arrived : ι → ℕ
  /-- How often each thread has left. -/
  left : ι → ℕ

namespace Rendezvous

variable {ι : Type u} [DecidableEq ι]

/-- What a thread can do at a barrier. -/
inductive Action (ι : Type u)
  | arrive (who : ι)
  | leave (who : ι)

/-- The abstract barrier. -/
def system (ι : Type u) [DecidableEq ι] : System (Rendezvous ι) (Action ι) where
  init s := (∀ i, s.arrived i = 0) ∧ ∀ i, s.left i = 0
  step s action t :=
    match action with
    | .arrive i => s.arrived i = s.left i ∧
        t = { s with arrived := Function.update s.arrived i (s.arrived i + 1) }
    | .leave i => (∀ j, s.left i < s.arrived j) ∧
        t = { s with left := Function.update s.left i (s.left i + 1) }

/-- No thread has left more often than any thread has arrived, and no thread is
more than one arrival ahead of its own departures. -/
structure Ordered (s : Rendezvous ι) : Prop where
  left_le_arrived : ∀ i j, s.left i ≤ s.arrived j
  arrived_le_left : ∀ i, s.arrived i ≤ s.left i + 1

theorem ordered_of_reachable {s : Rendezvous ι} (hreach : (system ι).Reachable s) :
    s.Ordered := by
  refine System.Reachable.invariant (P := Ordered) ?_ ?_ hreach
  · rintro s ⟨harrived, hleft⟩
    exact ⟨fun i j => by simp [harrived, hleft], fun i => by simp [harrived, hleft]⟩
  · rintro s (i | i) t ⟨hle, hgap⟩ ⟨hguard, rfl⟩
    · refine ⟨fun j k => ?_, fun j => ?_⟩
      · have := hle j k
        by_cases hk : k = i
        · subst k
          simp only [Function.update_self]
          omega
        · simpa [hk] using this
      · have := hgap j
        by_cases hj : j = i
        · subst j
          simp only [Function.update_self]
          omega
        · simpa [hj] using this
    · refine ⟨fun j k => ?_, fun j => ?_⟩
      · by_cases hj : j = i
        · subst j
          have := hguard k
          simp only [Function.update_self]
          omega
        · simpa [hj] using hle j k
      · have := hgap j
        by_cases hj : j = i
        · subst j
          simp only [Function.update_self]
          omega
        · simpa [hj] using this

variable {Shared : Type v} {Local : Type w} {Choice : Type x}

/-- A local step seen through the two counters: it moves neither, counts an
arrival, or counts a departure after everyone has arrived. -/
def Conforms (arrivals calls : Local → ℕ) (threads : ι → Local) (who : ι) (own : Local) :
    Prop :=
  (arrivals own = arrivals (threads who) ∧ calls own = calls (threads who)) ∨
  (arrivals (threads who) = calls (threads who) ∧
    arrivals own = arrivals (threads who) + 1 ∧ calls own = calls (threads who)) ∨
  (arrivals own = arrivals (threads who) ∧ calls own = calls (threads who) + 1 ∧
    ∀ j, calls (threads who) < arrivals (threads j))

/-- A configuration and an abstract state agree on both counters. -/
def Counts (arrivals calls : Local → ℕ) (s : Config ι Shared Local) (a : Rendezvous ι) :
    Prop :=
  ∀ i, a.arrived i = arrivals (s.threads i) ∧ a.left i = calls (s.threads i)

variable {arrivals calls : Local → ℕ}

/-- A conforming step is a step of the abstract barrier or none. -/
theorem Conforms.exists_step {s : Config ι Shared Local} {a : Rendezvous ι} {who : ι}
    {own : Local} (hconforms : Conforms arrivals calls s.threads who own)
    (shared : Shared) (hcounts : Counts arrivals calls s a) :
    ∃ b, Counts arrivals calls (s.move who shared own) b ∧
      (b = a ∨ ∃ m, (system ι).step a m b) := by
  rcases hconforms with ⟨harr, hcall⟩ | ⟨heq, harr, hcall⟩ | ⟨harr, hcall, hall⟩
  · refine ⟨a, fun j => ?_, .inl rfl⟩
    rw [Config.move_threads_eq_of_eq harr, Config.move_threads_eq_of_eq hcall]
    exact hcounts j
  · refine ⟨{ a with arrived := Function.update a.arrived who (a.arrived who + 1) }, ?_,
      .inr ⟨.arrive who, ?_, rfl⟩⟩
    · intro j
      rw [Config.move_threads_eq_of_eq hcall]
      refine ⟨?_, (hcounts j).2⟩
      by_cases hj : j = who
      · subst j
        simp [harr, (hcounts who).1]
      · simp [Config.move_threads_of_ne hj, hj, (hcounts j).1]
    · rw [(hcounts who).1, (hcounts who).2, heq]
  · refine ⟨{ a with left := Function.update a.left who (a.left who + 1) }, ?_,
      .inr ⟨.leave who, ?_, rfl⟩⟩
    · intro j
      rw [Config.move_threads_eq_of_eq harr]
      refine ⟨(hcounts j).1, ?_⟩
      by_cases hj : j = who
      · subst j
        simp [hcall, (hcounts who).2]
      · simp [Config.move_threads_of_ne hj, hj, (hcounts j).2]
    · intro j
      rw [(hcounts who).2, (hcounts j).1]
      exact hall j

/-- A program refines the abstract barrier if some invariant makes all its local
steps conform. -/
theorem simulates {init : Config ι Shared Local → Prop}
    {program : Program ι Shared Local Choice}
    {allow : Config ι Shared Local → ι × Choice → Prop}
    {Inv : Config ι Shared Local → Prop}
    (hinit : ∀ s, init s → Inv s ∧
      ∀ i, arrivals (s.threads i) = 0 ∧ calls (s.threads i) = 0)
    (hstep : ∀ s who choice shared own, Inv s → allow s (who, choice) →
      program who choice s.shared (s.threads who) = some (shared, own) →
      Inv (s.move who shared own) ∧ Conforms arrivals calls s.threads who own) :
    System.Simulates (interleave init program) allow (system ι) (fun _ _ => True)
      (fun s a => Inv s ∧ Counts arrivals calls s a) where
  init s hs := by
    obtain ⟨hInv, hzero⟩ := hinit s hs
    exact ⟨⟨fun _ => 0, fun _ => 0⟩, ⟨fun _ => rfl, fun _ => rfl⟩, hInv,
      fun i => ⟨(hzero i).1.symm, (hzero i).2.symm⟩⟩
  step s label t a hR hallow hs := by
    obtain ⟨shared, own, hrun, rfl⟩ := interleave_step_iff.mp hs
    obtain ⟨hInv, hconforms⟩ := hstep s label.1 label.2 shared own hR.1 hallow hrun
    obtain ⟨b, hcounts, hb⟩ := hconforms.exists_step shared hR.2
    exact ⟨b, ⟨hInv, hcounts⟩, hb.imp id fun ⟨m, hm⟩ => ⟨m, trivial, hm⟩⟩

end Rendezvous

end Htsynch.Foundations
