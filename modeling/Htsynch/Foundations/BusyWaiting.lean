/-
# Threads that wait in loops

A thread that waits goes round a loop and looks at the shared state. Most of its other
steps are taken once in a call, so they are work that is left; but how often it goes round
the loop is up to the others. While what the loops look at does not change, though, a
thread that need not wait leaves its loop after a few turns.

`Advances` says this of one step. Where every step of a program advances, and where some
thread with work left need not wait as long as there is one with work left, every fair run
of the program comes to an end.
-/

import Htsynch.Foundations.Fairness
import Htsynch.Foundations.Interleaving
import Mathlib.Algebra.Order.BigOperators.Group.Finset
import Mathlib.Data.Fintype.BigOperators

namespace Htsynch.Foundations

universe u v w x

variable {ι : Type u} {Shared : Type v} {Local : Type w} {Choice : Type x}

/-- The steps a thread owns: those under a choice that is its own. -/
def Owns (mine : Choice → Prop) (i : ι) (label : ι × Choice) : Prop :=
  label.1 = i ∧ mine label.2

/-- How the threads of a program wait. -/
structure Loops (ι : Type u) (Shared : Type v) (Local : Type w) where
  /-- The thread has work left. -/
  Active : Local → Prop
  /-- The thread waits for the others. -/
  Stuck : Shared → ι → Local → Prop
  /-- The work left. -/
  work : Local → ℕ
  /-- What is left of a loop while nothing that the loops look at changes. -/
  turns : Shared → Local → ℕ
  bound : ℕ
  turns_le : ∀ sh t, turns sh t ≤ bound

namespace Loops

variable (L : Loops ι Shared Local)

/-- What the loops of the other threads look at is as it was. -/
structure Unmoved (who : ι) (sh sh' : Shared) : Prop where
  turns_eq : ∀ t, L.turns sh' t = L.turns sh t
  stuck : ∀ j ≠ who, ∀ t, L.Stuck sh' j t → L.Stuck sh j t

/-- What a step may do: work, shorten a loop, go round one in vain, or, if it is none of
the thread's own, leave the thread no worse off. -/
inductive Advances (mine : Prop) (who : ι) (sh : Shared) (t : Local) (sh' : Shared)
    (t' : Local) : Prop
  | works (h : L.work t' < L.work t)
  | turns (hwork : L.work t' = L.work t) (hshared : L.Unmoved who sh sh')
      (h : L.turns sh t' < L.turns sh t)
  | waits (hwork : L.work t' = L.work t) (hshared : L.Unmoved who sh sh')
      (hturns : L.turns sh t' = L.turns sh t) (hstuck : L.Stuck sh who t)
  | passes (hother : ¬ mine) (hwork : L.work t' = L.work t) (hshared : L.Unmoved who sh sh')
      (hturns : L.turns sh t' ≤ L.turns sh t) (hactive : L.Active t → L.Active t')
      (hstuck : L.Stuck sh' who t' → L.Stuck sh who t)

variable {L}

theorem Unmoved.refl (who : ι) (sh : Shared) : L.Unmoved who sh sh :=
  ⟨fun _ => rfl, fun _ _ _ => id⟩

/-- A thread with work left that need not wait. -/
def Helps (L : Loops ι Shared Local) (s : Config ι Shared Local) (i : ι) : Prop :=
  L.Active (s.threads i) ∧ ¬ L.Stuck s.shared i (s.threads i)

/-- Another thread's step does not make a helper wait. -/
theorem Helps.other [DecidableEq ι] {s : Config ι Shared Local} {who i : ι} {sh : Shared}
    {own : Local} (hi : L.Helps s i) (hne : i ≠ who) (hshared : L.Unmoved who s.shared sh) :
    L.Helps (s.move who sh own) i := by
  have hsame : (s.move who sh own).threads i = s.threads i := Config.move_threads_of_ne hne
  refine ⟨hsame ▸ hi.1, fun hstuck => hi.2 ?_⟩
  rw [hsame] at hstuck
  exact hshared.stuck i hne _ hstuck

variable [Fintype ι]

/-- The work left to the threads, and below it what is left of their loops. -/
def rank (L : Loops ι Shared Local) (s : Config ι Shared Local) : ℕ :=
  (∑ i, L.work (s.threads i)) * (Fintype.card ι * L.bound + 1) +
    ∑ i, L.turns s.shared (s.threads i)

variable [DecidableEq ι] {s : Config ι Shared Local} {who i : ι} {sh : Shared} {own : Local}
  {mine : Prop}

/-- A sum over the threads changes as the member of the mover does. -/
theorem sum_move (f : Local → ℕ) (s : Config ι Shared Local) (who : ι) (sh : Shared)
    (own : Local) :
    (∑ i, f ((s.move who sh own).threads i)) + f (s.threads who) =
      (∑ i, f (s.threads i)) + f own := by
  have hsplit (g : ι → ℕ) : (∑ i, g i) = (∑ i ∈ Finset.univ.erase who, g i) + g who :=
    (Finset.sum_erase_add _ _ (Finset.mem_univ who)).symm
  have hothers : ∑ i ∈ Finset.univ.erase who, f ((s.move who sh own).threads i) =
      ∑ i ∈ Finset.univ.erase who, f (s.threads i) :=
    Finset.sum_congr rfl fun i hi => by
      rw [Config.move_threads_of_ne (Finset.ne_of_mem_erase hi)]
  rw [hsplit, hsplit fun i => f (s.threads i), hothers, Config.move_threads_self]
  omega

/-- Work that is done lowers the rank, whatever becomes of the loops. -/
theorem rank_lt_of_work (hwork : L.work own < L.work (s.threads who)) :
    L.rank (s.move who sh own) < L.rank s := by
  have hsum := sum_move L.work s who sh own
  have hturns : ∑ i, L.turns sh ((s.move who sh own).threads i) ≤
      Fintype.card ι * L.bound := by
    simpa using Finset.sum_le_card_nsmul Finset.univ
      (fun i => L.turns sh ((s.move who sh own).threads i)) L.bound
      (fun i _ => L.turns_le _ _)
  have hless : (∑ i, L.work ((s.move who sh own).threads i)) + 1 ≤
      ∑ i, L.work (s.threads i) := by omega
  have hmul := Nat.mul_le_mul_right (Fintype.card ι * L.bound + 1) hless
  rw [Nat.add_mul, Nat.one_mul] at hmul
  unfold rank
  rw [Config.move_shared]
  omega

/-- Without work the rank changes as the loop of the mover does. -/
theorem rank_move (hwork : L.work own = L.work (s.threads who))
    (hshared : L.Unmoved who s.shared sh) :
    L.rank (s.move who sh own) + L.turns s.shared (s.threads who) =
      L.rank s + L.turns s.shared own := by
  have hsum := sum_move L.work s who sh own
  have hturns := sum_move (L.turns s.shared) s who sh own
  have hsame : (∑ i, L.work ((s.move who sh own).threads i)) = ∑ i, L.work (s.threads i) := by
    omega
  unfold rank
  rw [hsame, Config.move_shared]
  simp only [hshared.turns_eq]
  omega

/-- So a shorter loop lowers the rank. -/
theorem rank_lt_of_turns (hwork : L.work own = L.work (s.threads who))
    (hshared : L.Unmoved who s.shared sh)
    (hturns : L.turns s.shared own < L.turns s.shared (s.threads who)) :
    L.rank (s.move who sh own) < L.rank s := by
  have hmove := rank_move hwork hshared
  omega

/-- No step that advances raises the rank. -/
theorem Advances.rank_le (h : L.Advances mine who s.shared (s.threads who) sh own) :
    L.rank (s.move who sh own) ≤ L.rank s := by
  cases h with
  | works hlt => exact (rank_lt_of_work hlt).le
  | turns hwork hshared hlt => exact (rank_lt_of_turns hwork hshared hlt).le
  | waits hwork hshared hturns _ =>
      have hmove := rank_move hwork hshared
      omega
  | passes _ hwork hshared hturns _ _ =>
      have hmove := rank_move hwork hshared
      omega

/-- A step that advances lowers the rank, or it leaves the rank and the helper alone. -/
theorem Advances.down (h : L.Advances mine who s.shared (s.threads who) sh own)
    (hi : L.Helps s i) :
    L.rank (s.move who sh own) < L.rank s ∨
      (i = who → ¬ mine) ∧ L.rank (s.move who sh own) = L.rank s ∧
        L.Helps (s.move who sh own) i := by
  cases h with
  | works hlt => exact .inl (rank_lt_of_work hlt)
  | turns hwork hshared hlt => exact .inl (rank_lt_of_turns hwork hshared hlt)
  | waits hwork hshared hturns hstuck =>
      have hmove := rank_move hwork hshared
      have hne : i ≠ who := by
        rintro rfl
        exact hi.2 hstuck
      exact .inr ⟨fun heq => absurd heq hne, by omega, hi.other hne hshared⟩
  | passes hother hwork hshared hturns hactive hstuck =>
      have hmove := rank_move hwork hshared
      rcases lt_or_eq_of_le hturns with hlt | heq
      · exact .inl (by omega)
      · refine .inr ⟨fun _ => hother, by omega, ?_⟩
        by_cases hwho : i = who
        · subst i
          refine ⟨by simpa using hactive hi.1, fun hwait => hi.2 (hstuck ?_)⟩
          simpa using hwait
        · exact hi.other hwho hshared

variable {mine : Choice → Prop} {init : Config ι Shared Local → Prop}
  {program : Program ι Shared Local Choice} {allow : Config ι Shared Local → ι × Choice → Prop}
  {Inv : Config ι Shared Local → Prop}

/-- A program whose steps all advance, and whose threads never all wait while one of them
has work left, makes progress. -/
theorem descent
    (hlive : ∀ s, Inv s → (∃ i, L.Active (s.threads i)) → ∃ i, L.Helps s i)
    (henabled : ∀ s i, Inv s → L.Helps s i →
      ∃ c, mine c ∧ (program i c s.shared (s.threads i)).isSome)
    (hstep : ∀ s who c sh own, Inv s → allow s (who, c) →
      program who c s.shared (s.threads who) = some (sh, own) →
      L.Advances (mine c) who s.shared (s.threads who) sh own) :
    System.Descent (interleave init program) allow (Owns mine) Inv
      (fun s => ∀ i, ¬ L.Active (s.threads i)) L.rank L.Helps where
  helper s hinv hgoal := hlive s hinv (not_forall_not.mp hgoal)
  able s i hinv hi := by
    obtain ⟨c, hmine, hsome⟩ := henabled s i hinv hi
    obtain ⟨⟨sh, own⟩, hrun⟩ := Option.isSome_iff_exists.mp hsome
    exact ⟨(i, c), s.move i sh own, ⟨rfl, hmine⟩, interleave_step_iff.mpr ⟨sh, own, hrun, rfl⟩⟩
  down := by
    rintro s i ⟨who, c⟩ t hinv hi hallow hnext
    obtain ⟨sh, own, hrun, rfl⟩ := interleave_step_iff.mp hnext
    refine ((hstep s who c sh own hinv hallow hrun).down hi).imp id ?_
    exact fun ⟨hmine, hrank, hnext⟩ => ⟨fun hown => hmine hown.1.symm hown.2, hrank, hnext⟩

end Loops

end Htsynch.Foundations
