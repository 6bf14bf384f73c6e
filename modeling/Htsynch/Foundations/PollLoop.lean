/-
# Loops that poll until they see what they wait for

A wait loop makes one poll after the other, and what a poll sees decides whether
it is the last. The abstract loop knows only which polls would end it; the poll
that does is the first of them, and the loop runs forever when there is none. A
deterministic machine that makes its polls through several steps of its own
respects the abstract loop, and then returns on the same poll.

Two loops fed with the same values are compared through their polls. Where one
ends only on polls that would end the other, they agree unless the other's first
hit is one the former lets pass.
-/

import Mathlib.Computability.StateTransition
import Mathlib.Data.Nat.Find

namespace Htsynch.Foundations

open StateTransition

universe u

section FirstHit

variable {hit wanted : ℕ → Prop} {j k : ℕ}

/-- Poll `k` is a hit, and no poll before it is. -/
def FirstHit (hit : ℕ → Prop) (k : ℕ) : Prop := hit k ∧ ∀ j < k, ¬ hit j

theorem FirstHit.unique (hj : FirstHit hit j) (hk : FirstHit hit k) : j = k := by
  rcases Nat.lt_trichotomy j k with hlt | heq | hgt
  · exact absurd hj.1 (hk.2 j hlt)
  · exact heq
  · exact absurd hk.1 (hj.2 k hgt)

/-- A poll that is a hit is preceded by the first one, or is it. -/
theorem exists_firstHit_le (hk : hit k) : ∃ j ≤ k, FirstHit hit j := by
  classical
  have hex : ∃ k, hit k := ⟨k, hk⟩
  exact ⟨Nat.find hex, Nat.find_min' hex hk, Nat.find_spec hex, fun _ => Nat.find_min hex⟩

/-- Where the first poll of either kind is of both, the first of the one kind is the first of
the other. -/
theorem FirstHit.other (hk : FirstHit hit k)
    (hboth : ∀ k, FirstHit (fun j => hit j ∨ wanted j) k → hit k ∧ wanted k) :
    FirstHit wanted k := by
  obtain ⟨j, hj, hfirst⟩ :=
    @exists_firstHit_le (fun j => hit j ∨ wanted j) k (.inl hk.1)
  obtain ⟨hhit, hwanted⟩ := hboth j hfirst
  have hmiss : ∀ i < j, ¬ hit i := fun i hi h => hfirst.2 i hi (.inl h)
  obtain rfl : j = k := FirstHit.unique ⟨hhit, hmiss⟩ hk
  exact ⟨hwanted, fun i hi h => hfirst.2 i hi (.inr h)⟩

/-- Two kinds of polls have the same first hit exactly when the first poll of either kind is
of both. -/
theorem firstHit_iff_iff :
    (∀ k, FirstHit hit k ↔ FirstHit wanted k) ↔
      ∀ k, FirstHit (fun j => hit j ∨ wanted j) k → hit k ∧ wanted k := by
  constructor
  · intro hsame k hk
    have hhit (h : hit k) : FirstHit hit k := ⟨h, fun j hj h => hk.2 j hj (.inl h)⟩
    have hwanted (h : wanted k) : FirstHit wanted k := ⟨h, fun j hj h => hk.2 j hj (.inr h)⟩
    rcases hk.1 with h | h
    · exact ⟨h, ((hsame k).mp (hhit h)).1⟩
    · exact ⟨((hsame k).mpr (hwanted h)).1, h⟩
  · intro hboth k
    refine ⟨fun hk => hk.other hboth, fun hk => hk.other fun j hj => ?_⟩
    have hswap : FirstHit (fun j => hit j ∨ wanted j) j :=
      ⟨hj.1.symm, fun i hi h => hj.2 i hi h.symm⟩
    exact (hboth j hswap).symm

theorem firstHit_congr (hsame : ∀ j, hit j ↔ wanted j) (k : ℕ) :
    FirstHit hit k ↔ FirstHit wanted k := by
  simp only [FirstHit, hsame]

end FirstHit

/-- Where a loop that polls is. -/
inductive Polling
  /-- About to make poll `k`. -/
  | about (k : ℕ)
  /-- Ended by poll `k`. -/
  | endedBy (k : ℕ)
  deriving DecidableEq

namespace Polling

variable (hit : ℕ → Prop) [DecidablePred hit] {k : ℕ}

/-- One poll. -/
def step : Polling → Option Polling
  | .about k => some (if hit k then .endedBy k else .about (k + 1))
  | .endedBy _ => none

variable {hit}

/-- Polls that are no hits lead on to the next one. -/
theorem reaches_about (hmiss : ∀ j < k, ¬ hit j) : Reaches (step hit) (.about 0) (.about k) := by
  induction k with
  | zero => exact .refl
  | succ k ih =>
      have hnext : step hit (.about k) = some (.about (k + 1)) := by
        simp [step, hmiss k (Nat.lt_succ_self k)]
      exact (ih fun j hj => hmiss j (Nat.lt_succ_of_lt hj)).tail hnext

/-- What the loop can be in: it has only missed so far, or its last poll was its
first hit. -/
theorem reaches_cases {state : Polling} (hreach : Reaches (step hit) (.about 0) state) :
    (∃ k, state = .about k ∧ ∀ j < k, ¬ hit j) ∨ ∃ k, state = .endedBy k ∧ FirstHit hit k := by
  induction hreach with
  | refl => exact .inl ⟨0, rfl, fun j hj => absurd hj (Nat.not_lt_zero j)⟩
  | tail _ hstep ih =>
      rcases ih with ⟨k, rfl, hmiss⟩ | ⟨k, rfl, -⟩
      · rw [step, Option.mem_some_iff] at hstep
        by_cases hk : hit k
        · rw [if_pos hk] at hstep
          exact .inr ⟨k, hstep.symm, hk, hmiss⟩
        · rw [if_neg hk] at hstep
          refine .inl ⟨k + 1, hstep.symm, fun j hj => ?_⟩
          rcases Nat.lt_succ_iff_lt_or_eq.mp hj with hlt | rfl
          · exact hmiss j hlt
          · exact hk
      · simp [step] at hstep

/-- The loop ends with its first hit. -/
theorem endedBy_mem_eval_iff :
    .endedBy k ∈ eval (step hit) (.about 0) ↔ FirstHit hit k := by
  rw [mem_eval]
  constructor
  · rintro ⟨hreach, -⟩
    rcases reaches_cases hreach with ⟨j, hj, -⟩ | ⟨j, hj, hfirst⟩
    · cases hj
    · cases hj
      exact hfirst
  · intro hk
    have hlast : step hit (.about k) = some (.endedBy k) := by simp [step, hk.1]
    exact ⟨(reaches_about hk.2).tail hlast, rfl⟩

end Polling

/-! ## Machines that respect the abstract loop -/

section Machine

variable {σ : Type u} {hit : ℕ → Prop} [DecidablePred hit] {f : σ → Option σ}
  {about endedBy : ℕ → σ → Prop} {start : σ} {k : ℕ}

/-- The states in which a machine is where the abstract loop is. -/
def Polling.At (about endedBy : ℕ → σ → Prop) : Polling → σ → Prop
  | .about k => about k
  | .endedBy k => endedBy k

/-- How a machine makes its polls: from the place of a poll it reaches the place
of the next one, or the end. -/
structure RepeatsPoll (hit : ℕ → Prop) (f : σ → Option σ) (about endedBy : ℕ → σ → Prop) :
    Prop where
  miss : ∀ k s, about k s → ¬ hit k → ∃ t, about (k + 1) t ∧ Reaches₁ f s t
  last : ∀ k s, about k s → hit k → ∃ t, endedBy k t ∧ Reaches₁ f s t
  stop : ∀ k s, endedBy k s → f s = none

theorem RepeatsPoll.respects (hpolls : RepeatsPoll hit f about endedBy) :
    Respects (Polling.step hit) f (Polling.At about endedBy) := by
  intro place s hat
  cases place with
  | about k =>
      by_cases hk : hit k
      · simpa [Polling.step, Polling.At, hk] using hpolls.last k s hat hk
      · simpa [Polling.step, Polling.At, hk] using hpolls.miss k s hat hk
  | endedBy k => exact hpolls.stop k s hat

/-- A machine that polls and counts its polls returns on its first hit, and returns
only so. -/
theorem RepeatsPoll.exists_mem_eval_iff (hpolls : RepeatsPoll hit f about endedBy)
    (hstart : about 0 start) {count : σ → ℕ} (hcount : ∀ k s, endedBy k s → count s = k + 1) :
    (∃ t ∈ eval f start, count t = k + 1) ↔ FirstHit hit k := by
  rw [← Polling.endedBy_mem_eval_iff]
  have hat : Polling.At about endedBy (.about 0) start := hstart
  constructor
  · rintro ⟨t, ht, hlast⟩
    obtain ⟨place, hplace, hmem⟩ := tr_eval_rev hpolls.respects hat ht
    cases place with
    | about j =>
        have hnone := (mem_eval.mp hmem).2
        simp [Polling.step] at hnone
    | endedBy j =>
        have hj : j = k := Nat.succ.inj ((hcount j t hplace).symm.trans hlast)
        exact hj ▸ hmem
  · intro hmem
    obtain ⟨t, hend, ht⟩ := tr_eval hpolls.respects hat hmem
    exact ⟨t, ht, hcount k t hend⟩

end Machine

end Htsynch.Foundations
