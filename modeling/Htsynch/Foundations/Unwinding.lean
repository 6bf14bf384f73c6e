/-
# Erasing steps from a run

A projection says which labels of a system are kept, and as what. A relation between the
states of two systems unwinds them along a projection if kept steps preserve it, taken on
both sides, and the other steps preserve it, taken on one side only. Then what is left of
a run when the other steps are erased is a run of the other system, and matching steps
start in related states and lead to related states.
-/

import Htsynch.Foundations.Runs
import Mathlib.Data.List.Forall2

namespace Htsynch.Foundations

universe u v w x

namespace System

variable {State : Type u} {Label : Type v} {State' : Type w} {Label' : Type x}
  {S : System State Label} {S' : System State' Label'} {proj : Label → Option Label'}
  {R : State' → State → Prop} {start state : State} {start' : State'}
  {steps : List (State × Label)}

/-- A step of a run continues a run. -/
theorem Run.of_mem (hrun : S.Run start steps state) {x : State × Label} (hx : x ∈ steps) :
    ∃ before t, S.Run start before x.1 ∧ S.step x.1 x.2 t := by
  induction hrun with
  | nil => cases hx
  | @snoc steps s t l hrun hstep ih =>
      rcases List.mem_append.mp hx with hx | hx
      · exact ih hx
      · obtain rfl := List.mem_singleton.mp hx
        exact ⟨steps, t, hrun, hstep⟩

/-- `R` survives kept steps on both sides and erased steps on one. -/
structure Unwinding (S : System State Label) (S' : System State' Label')
    (proj : Label → Option Label') (R : State' → State → Prop) : Prop where
  keep : ∀ {s' s t l l'}, R s' s → S.step s l t → proj l = some l' →
    ∃ t', S'.step s' l' t' ∧ R t' t
  erase : ∀ {s' s t l}, R s' s → S.step s l t → proj l = none → R s' t

/-- The steps that are not erased. -/
def kept (proj : Label → Option Label') (steps : List (State × Label)) :
    List (State × Label) :=
  steps.filter fun x => (proj x.2).isSome

/-- A step and its projection, in related states and leading to related states. -/
def Matched (S : System State Label) (S' : System State' Label')
    (proj : Label → Option Label') (R : State' → State → Prop) (x' : State' × Label')
    (x : State × Label) : Prop :=
  proj x.2 = some x'.2 ∧ R x'.1 x.1 ∧
    ∃ t' t, S'.step x'.1 x'.2 t' ∧ S.step x.1 x.2 t ∧ R t' t

theorem kept_snoc_of_some {s : State} {l : Label} {l' : Label'} (hl : proj l = some l') :
    kept proj (steps ++ [(s, l)]) = kept proj steps ++ [(s, l)] := by
  simp [kept, List.filter_append, hl]

theorem kept_snoc_of_none {s : State} {l : Label} (hl : proj l = none) :
    kept proj (steps ++ [(s, l)]) = kept proj steps := by
  simp [kept, List.filter_append, hl]

/-- The kept steps of a run are a run. -/
theorem Unwinding.run (hunwind : Unwinding S S' proj R) (hrun : S.Run start steps state)
    (hstart : R start' start) :
    ∃ steps' state', S'.Run start' steps' state' ∧
      List.Forall₂ (Matched S S' proj R) steps' (kept proj steps) ∧ R state' state := by
  induction hrun with
  | nil => exact ⟨[], start', .nil, .nil, hstart⟩
  | @snoc steps s t l hrun hstep ih =>
      obtain ⟨steps', s', hrun', hmatched, hs⟩ := ih
      cases hl : proj l with
      | none =>
          refine ⟨steps', s', hrun', ?_, hunwind.erase hs hstep hl⟩
          rwa [kept_snoc_of_none hl]
      | some l' =>
          obtain ⟨t', hstep', ht⟩ := hunwind.keep hs hstep hl
          refine ⟨steps' ++ [(s', l')], t', hrun'.snoc hstep', ?_, ht⟩
          rw [kept_snoc_of_some hl]
          exact List.rel_append hmatched
            (.cons ⟨hl, hs, t', t, hstep', hstep, ht⟩ .nil)

/-- The labels of the run that is left are the projections. -/
theorem labels_of_matched {steps' : List (State' × Label')}
    (hmatched : List.Forall₂ (Matched S S' proj R) steps' (kept proj steps)) :
    steps'.map Prod.snd = steps.filterMap fun x => proj x.2 := by
  induction steps generalizing steps' with
  | nil =>
      obtain rfl := List.forall₂_nil_right_iff.mp hmatched
      rfl
  | cons x steps ih =>
      cases hl : proj x.2 with
      | none =>
          have hkept : kept proj (x :: steps) = kept proj steps := by
            simp [kept, hl]
          rw [hkept] at hmatched
          simp only [List.filterMap_cons, hl]
          exact ih hmatched
      | some l' =>
          have hkept : kept proj (x :: steps) = x :: kept proj steps := by
            simp [kept, hl]
          rw [hkept] at hmatched
          obtain ⟨x', steps'', hx, hrest, rfl⟩ := List.forall₂_cons_right_iff.mp hmatched
          have hlabel : x'.2 = l' := Option.some.inj (hx.1.symm.trans hl)
          simp only [List.filterMap_cons, hl, List.map_cons, ih hrest, hlabel]

end System

end Htsynch.Foundations
