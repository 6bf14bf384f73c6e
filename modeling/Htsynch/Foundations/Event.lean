/-
# A one-slot event

An event remembers that it was posted, not how often. Posting it while it is
pending loses the earlier post; taking it clears it. The account below holds in
every run: what was posted is what was taken, what was lost and what is pending.
A run that never posts while the event is pending loses nothing, and one that
lost a post can never take as often as it posted.
-/

import Htsynch.Foundations.System
import Mathlib.Data.Nat.Notation

namespace Htsynch.Foundations

/-- A one-slot event with the numbers of its posts, takes and lost posts. -/
structure Event where
  /-- Whether a post waits to be taken. -/
  pending : Bool
  /-- How often the event was posted. -/
  posted : ℕ
  /-- How often it was taken. -/
  taken : ℕ
  /-- How many posts were overwritten by later ones. -/
  lost : ℕ

namespace Event

/-- What can be done with an event. -/
inductive Action
  | post
  | take

/-- The event as a system. -/
def system : System Event Action where
  init e := e = ⟨false, 0, 0, 0⟩
  step e action e' :=
    match action with
    | .post => e' = ⟨true, e.posted + 1, e.taken, e.lost + e.pending.toNat⟩
    | .take => e.pending = true ∧ e' = ⟨false, e.posted, e.taken + 1, e.lost⟩

/-- No post is made while another is pending. -/
def NoOverrun (e : Event) (action : Action) : Prop :=
  action = .post → e.pending = false

variable {e : Event}

/-- Every post is taken, lost or pending. -/
theorem posted_eq (hreach : system.Reachable e) :
    e.posted = e.taken + e.lost + e.pending.toNat := by
  refine System.Reachable.invariant
    (P := fun e => e.posted = e.taken + e.lost + e.pending.toNat) ?_ ?_ hreach
  · rintro _ rfl
    rfl
  · rintro e (_ | _) e' haccount hstep
    · subst hstep
      simp only [Bool.toNat_true]
      omega
    · obtain ⟨hpending, rfl⟩ := hstep
      simp only [hpending, Bool.toNat_true, Bool.toNat_false] at haccount ⊢
      omega

/-- Without overruns nothing is lost. -/
theorem lost_eq_zero (hreach : system.ReachableVia NoOverrun e) : e.lost = 0 := by
  refine System.ReachableVia.invariant (P := fun e => e.lost = 0) ?_ ?_ hreach
  · rintro _ rfl
    rfl
  · rintro e (_ | _) e' hlost hallow hstep
    · subst hstep
      simp [hlost, hallow rfl]
    · obtain ⟨-, rfl⟩ := hstep
      exact hlost

/-- Without overruns an event that is not pending was taken as often as posted. -/
theorem taken_eq_posted (hreach : system.ReachableVia NoOverrun e)
    (hpending : e.pending = false) : e.taken = e.posted := by
  have haccount := posted_eq hreach.reachable
  have hlost := lost_eq_zero hreach
  simp only [hpending, Bool.toNat_false] at haccount
  omega

/-- A lost post stays lost. -/
theorem lost_pos_of_path {e' : Event} (hlost : 0 < e.lost)
    (hpath : Relation.ReflTransGen (system.Next fun _ _ => True) e e') : 0 < e'.lost := by
  induction hpath with
  | refl => exact hlost
  | tail _ hnext ih =>
      obtain ⟨action, -, hstep⟩ := hnext
      cases action with
      | post =>
          obtain rfl := hstep
          exact Nat.lt_of_lt_of_le ih (Nat.le_add_right _ _)
      | take =>
          obtain ⟨-, rfl⟩ := hstep
          exact ih

/-- A lost post is never made good: the takes stay behind the posts. -/
theorem taken_lt_posted (hreach : system.Reachable e) (hlost : 0 < e.lost) :
    e.taken < e.posted := by
  have haccount := posted_eq hreach
  omega

end Event

end Htsynch.Foundations
