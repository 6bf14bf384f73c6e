/-
# Runs, and matching what is taken against what was posted

A run is kept as the list of its steps, each with the state it started from, so
that "earlier" and "later" are positions in a list. The result of this module
concerns two kinds of steps, posting and taking. Suppose a state predicate, the
credit, becomes true only through a posting step, and every taking step needs it
and uses it up. Then the taking steps of a run can be matched, in order and one
to one, with earlier posting steps, and each match falls after every previous
taking step.
-/

import Htsynch.Foundations.System
import Mathlib.Data.List.Basic
import Mathlib.Order.Monotone.Basic
import Mathlib.Data.Set.Function

namespace Htsynch.Foundations

universe u v

namespace System

variable {State : Type u} {Label : Type v}

/-- The steps of a run with the state each of them starts from. -/
inductive Run (S : System State Label) (start : State) :
    List (State × Label) → State → Prop
  | nil : Run S start [] start
  | snoc {steps : List (State × Label)} {s t : State} {l : Label} :
      Run S start steps s → S.step s l t → Run S start (steps ++ [(s, l)]) t

variable {S : System State Label} {start state : State} {steps : List (State × Label)}

theorem Run.reachable (hrun : S.Run start steps state) (hinit : S.init start) :
    S.Reachable state := by
  induction hrun with
  | nil => exact .of_init hinit
  | snoc _ hstep ih => exact ih.step hstep

/-- The steps that a replay takes. -/
def trace (next : State → Label → Option State) : State → List Label → List (State × Label)
  | _, [] => []
  | s, l :: ls =>
      match next s l with
      | none => trace next s ls
      | some t => (s, l) :: trace next t ls

/-- A replay goes on with a run. -/
theorem Run.replay {init : State → Prop} {next : State → Label → Option State} :
    ∀ (labels : List Label) {s : State} {steps : List (State × Label)},
      (ofNext init next).Run start steps s →
        (ofNext init next).Run start (steps ++ trace next s labels) (exec next s labels)
  | [], _, _, hrun => by simpa [trace, exec] using hrun
  | l :: ls, s, steps, hrun => by
      cases hnext : next s l with
      | none => simpa [trace, exec, hnext] using hrun.replay ls
      | some t =>
          have hstep : (ofNext init next).step s l t := hnext
          simpa [trace, exec, hnext] using (hrun.snoc hstep).replay ls

/-- A replay is a run. -/
theorem run_trace {init : State → Prop} {next : State → Label → Option State}
    (labels : List Label) :
    (ofNext init next).Run start (trace next start labels) (exec next start labels) := by
  have hnil : (ofNext init next).Run start [] start := .nil
  simpa using hnil.replay labels

end System

section Matching

variable {Step : Type u} {post take : Step → Prop} {steps : List Step} {f : ℕ → ℕ}

/-- `f` sends the position of every taking step to the position of an earlier
posting step that comes after all previous taking steps. -/
def Matches (post take : Step → Prop) (steps : List Step) (f : ℕ → ℕ) : Prop :=
  ∀ i x, steps[i]? = some x → take x →
    (∃ y, steps[f i]? = some y ∧ post y) ∧ f i < i ∧
      ∀ i' x', i' < i → steps[i']? = some x' → take x' → i' < f i

/-- Position `p` holds a posting step that comes after all taking steps. -/
def Pending (post take : Step → Prop) (steps : List Step) (p : ℕ) : Prop :=
  (∃ y, steps[p]? = some y ∧ post y) ∧
    ∀ i x, steps[i]? = some x → take x → i < p

/-- The positions of the taking steps. -/
def takePositions (take : Step → Prop) (steps : List Step) : Set ℕ :=
  { i | ∃ x, steps[i]? = some x ∧ take x }

/-- A matching keeps the order of the taking steps. -/
theorem Matches.strictMonoOn (hmatch : Matches post take steps f) :
    StrictMonoOn f (takePositions take steps) := by
  rintro i ⟨x, hx, htx⟩ j ⟨y, hy, hty⟩ hij
  have hi : f i < i := (hmatch i x hx htx).2.1
  have hj : i < f j := (hmatch j y hy hty).2.2 i x hij hx htx
  exact hi.trans hj

/-- No posting step is matched twice. -/
theorem Matches.injOn (hmatch : Matches post take steps f) :
    Set.InjOn f (takePositions take steps) :=
  hmatch.strictMonoOn.injOn

variable {last x : Step} {i p : ℕ}

theorem getElem?_snoc_of_some (h : steps[i]? = some x) :
    (steps ++ [last])[i]? = some x := by
  rwa [List.getElem?_append_left (List.getElem?_eq_some_iff.mp h).1]

theorem getElem?_snoc_cases (h : (steps ++ [last])[i]? = some x) :
    steps[i]? = some x ∨ (i = steps.length ∧ x = last) := by
  by_cases hi : i < steps.length
  · left
    rwa [List.getElem?_append_left hi] at h
  · right
    have hlen := (List.getElem?_eq_some_iff.mp h).1
    simp only [List.length_append, List.length_singleton] at hlen
    obtain rfl : i = steps.length := by omega
    simpa [eq_comm] using h

/-- A step that takes nothing extends a matching. -/
theorem Matches.snoc_other (hmatch : Matches post take steps f) (hlast : ¬ take last) :
    Matches post take (steps ++ [last]) f := by
  intro i x hx htx
  rcases getElem?_snoc_cases hx with hx | ⟨-, rfl⟩
  · obtain ⟨⟨y, hy, hpost⟩, hlt, hprev⟩ := hmatch i x hx htx
    refine ⟨⟨y, getElem?_snoc_of_some hy, hpost⟩, hlt, fun i' x' hi' hx' htx' => ?_⟩
    rcases getElem?_snoc_cases hx' with hx' | ⟨-, rfl⟩
    · exact hprev i' x' hi' hx' htx'
    · exact absurd htx' hlast
  · exact absurd htx hlast

/-- A taking step is matched with the pending posting step. -/
theorem Matches.snoc_take (hmatch : Matches post take steps f)
    (hp : Pending post take steps p) :
    Matches post take (steps ++ [last]) (Function.update f steps.length p) := by
  obtain ⟨⟨z, hz, hzpost⟩, hafter⟩ := hp
  intro i x hx htx
  rcases getElem?_snoc_cases hx with hx | ⟨rfl, rfl⟩
  · have hi := (List.getElem?_eq_some_iff.mp hx).1
    obtain ⟨⟨y, hy, hpost⟩, hlt, hprev⟩ := hmatch i x hx htx
    rw [Function.update_of_ne hi.ne]
    refine ⟨⟨y, getElem?_snoc_of_some hy, hpost⟩, hlt, fun i' x' hi' hx' htx' => ?_⟩
    rcases getElem?_snoc_cases hx' with hx' | ⟨rfl, -⟩
    · exact hprev i' x' hi' hx' htx'
    · exact absurd (hi'.trans hi) (lt_irrefl _)
  · rw [Function.update_self]
    refine ⟨⟨z, getElem?_snoc_of_some hz, hzpost⟩,
      (List.getElem?_eq_some_iff.mp hz).1, fun i' x' hi' hx' htx' => ?_⟩
    rcases getElem?_snoc_cases hx' with hx' | ⟨rfl, -⟩
    · exact hafter i' x' hx' htx'
    · exact absurd hi' (lt_irrefl _)

theorem Pending.snoc_other (hp : Pending post take steps p) (hlast : ¬ take last) :
    Pending post take (steps ++ [last]) p := by
  obtain ⟨⟨z, hz, hpost⟩, hafter⟩ := hp
  refine ⟨⟨z, getElem?_snoc_of_some hz, hpost⟩, fun i x hx htx => ?_⟩
  rcases getElem?_snoc_cases hx with hx | ⟨-, rfl⟩
  · exact hafter i x hx htx
  · exact absurd htx hlast

theorem pending_snoc_post (hpost : post last) (hlast : ¬ take last) :
    Pending post take (steps ++ [last]) steps.length := by
  refine ⟨⟨last, by simp, hpost⟩, fun i x hx htx => ?_⟩
  rcases getElem?_snoc_cases hx with hx | ⟨-, rfl⟩
  · exact (List.getElem?_eq_some_iff.mp hx).1
  · exact absurd htx hlast

end Matching

namespace System

variable {State : Type u} {Label : Type v} {S : System State Label}
  {start state : State} {steps : List (State × Label)}

/-- A state predicate that only posting steps establish and that every taking
step needs and uses up. -/
structure Credit (S : System State Label) (credit : State → Prop)
    (post take : State × Label → Prop) : Prop where
  /-- Only posting steps establish the credit. -/
  gain : ∀ s l t, S.step s l t → ¬ credit s → credit t → post (s, l)
  /-- A taking step starts with the credit. -/
  need : ∀ s l t, S.step s l t → take (s, l) → credit s
  /-- A taking step ends without it. -/
  spend : ∀ s l t, S.step s l t → take (s, l) → ¬ credit t

variable {credit : State → Prop} {post take : State × Label → Prop}

/-- Along a run the taking steps are matched with posting steps; while the credit
stands there is moreover a posting step after all taking steps so far. -/
theorem Credit.exists_matches_and_pending (hcredit : Credit S credit post take)
    (hstart : ¬ credit start) (hrun : S.Run start steps state) :
    (∃ f, Matches post take steps f) ∧
      (credit state → ∃ p, Pending post take steps p) := by
  induction hrun with
  | nil => exact ⟨⟨id, by simp [Matches]⟩, fun h => absurd h hstart⟩
  | @snoc steps s t l hrun hstep ih =>
      obtain ⟨⟨f, hf⟩, hpending⟩ := ih
      by_cases htake : take (s, l)
      · obtain ⟨p, hp⟩ := hpending (hcredit.need s l t hstep htake)
        exact ⟨⟨_, hf.snoc_take hp⟩, fun hct =>
          absurd hct (hcredit.spend s l t hstep htake)⟩
      · refine ⟨⟨f, hf.snoc_other htake⟩, fun hct => ?_⟩
        by_cases hcs : credit s
        · obtain ⟨p, hp⟩ := hpending hcs
          exact ⟨p, hp.snoc_other htake⟩
        · exact ⟨steps.length, pending_snoc_post (hcredit.gain s l t hstep hcs hct) htake⟩

/-- The taking steps of a run that starts without credit are matched, in order
and one to one, with earlier posting steps. -/
theorem Credit.exists_matches (hcredit : Credit S credit post take)
    (hstart : ¬ credit start) (hrun : S.Run start steps state) :
    ∃ f, Matches post take steps f :=
  (hcredit.exists_matches_and_pending hstart hrun).1

/-- A run never takes more often than it posts. -/
theorem Credit.countP_take_le [DecidablePred post] [DecidablePred take]
    (hcredit : Credit S credit post take) (hstart : ¬ credit start)
    (hrun : S.Run start steps state) :
    steps.countP (fun x => take x) ≤ steps.countP (fun x => post x) := by
  classical
  suffices h : steps.countP (fun x => take x) + (if credit state then 1 else 0) ≤
      steps.countP (fun x => post x) by omega
  induction hrun with
  | nil => simp [hstart]
  | @snoc steps s t l hrun hstep ih =>
      simp only [List.countP_append, List.countP_singleton, decide_eq_true_eq]
      by_cases htake : take (s, l)
      · have hcs := hcredit.need s l t hstep htake
        have hct := hcredit.spend s l t hstep htake
        simp only [hcs, hct, htake, if_true, if_false] at ih ⊢
        omega
      · by_cases hcs : credit s
        · simp only [hcs, htake, if_true, if_false] at ih ⊢
          split <;> omega
        · by_cases hct : credit t
          · have hpost := hcredit.gain s l t hstep hcs hct
            simp only [hcs, hct, htake, hpost, if_true, if_false] at ih ⊢
            omega
          · simp only [hcs, hct, htake, if_false] at ih ⊢
            omega

end System

end Htsynch.Foundations
