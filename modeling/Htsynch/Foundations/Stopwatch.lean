/-
# Adding up the time between starts and stops

A stopwatch is cleared, started and stopped with readings of a clock. Each stop adds the
time since the last start to the total, whether or not there was another stop in between,
and clearing forgets the total, but not the start.

Two stopwatches that differ in nothing but their start show the same totals as long as no
stop comes before the next start, and no longer.
-/

import Mathlib.Algebra.BigOperators.Group.List.Defs
import Mathlib.Algebra.Group.Basic

namespace Htsynch.Foundations

variable {T : Type}

/-- What is done with a stopwatch, and what the clock reads. -/
inductive TimerOp (T : Type)
  | clear
  | start (now : T)
  | stop (now : T)
  deriving DecidableEq

/-- A stopwatch. -/
structure Stopwatch (T : Type) where
  start : T
  total : T
  /-- How often it was stopped. -/
  laps : ℕ

/-- No stop comes before the first start. -/
def StartsFirst : List (TimerOp T) → Prop
  | [] => True
  | .clear :: ops => StartsFirst ops
  | .start _ :: _ => True
  | .stop _ :: _ => False

instance decidableStartsFirst : DecidablePred (StartsFirst (T := T))
  | [] => .isTrue trivial
  | .clear :: ops => decidableStartsFirst ops
  | .start _ :: _ => .isTrue trivial
  | .stop _ :: _ => .isFalse id

namespace Stopwatch

section Run

variable [Zero T] [Add T] [Sub T]

def step (s : Stopwatch T) : TimerOp T → Stopwatch T
  | .clear => { s with total := 0, laps := 0 }
  | .start now => { s with start := now }
  | .stop now => { s with total := s.total + (now - s.start), laps := s.laps + 1 }

def run (s : Stopwatch T) (ops : List (TimerOp T)) : Stopwatch T := ops.foldl step s

/-- The times between the stops and the last start before each, of a stopwatch that was
started at `start`. -/
def spans (start : T) : List (TimerOp T) → List T
  | [] => []
  | .clear :: ops => spans start ops
  | .start now :: ops => spans now ops
  | .stop now :: ops => (now - start) :: spans start ops

/-- The totals are the same after each operation. -/
def AgreeAlong (s s' : Stopwatch T) (ops : List (TimerOp T)) : Prop :=
  ∀ done, done <+: ops → (s.run done).total = (s'.run done).total

variable {s s' : Stopwatch T} {ops : List (TimerOp T)}

/-- The number of stops does not depend on the readings. -/
theorem laps_run (hlaps : s.laps = s'.laps) : (s.run ops).laps = (s'.run ops).laps := by
  induction ops generalizing s s' with
  | nil => exact hlaps
  | cons op ops ih =>
      cases op with
      | clear => exact ih rfl
      | start => exact ih hlaps
      | stop => exact ih (congrArg (· + 1) hlaps)

theorem agreeAlong_cons {op : TimerOp T} :
    AgreeAlong s s' (op :: ops) ↔
      s.total = s'.total ∧ AgreeAlong (s.step op) (s'.step op) ops := by
  constructor
  · intro hagree
    refine ⟨hagree [] List.nil_prefix, fun done hdone => ?_⟩
    exact hagree (op :: done) (List.cons_prefix_cons.mpr ⟨rfl, hdone⟩)
  · rintro ⟨htotal, hagree⟩ done hdone
    rcases List.prefix_cons_iff.mp hdone with rfl | ⟨rest, rfl, hrest⟩
    · exact htotal
    · exact hagree rest hrest

end Run

section Group

variable [AddGroup T] {s s' : Stopwatch T} {ops : List (TimerOp T)}

/-- The total is the sum of the times that were measured. -/
theorem total_run (hclear : .clear ∉ ops) :
    (s.run ops).total = s.total + (spans s.start ops).sum := by
  induction ops generalizing s with
  | nil => exact (add_zero _).symm
  | cons op ops ih =>
      obtain ⟨hop, hops⟩ := not_or.mp fun h => hclear (List.mem_cons.mpr h)
      cases op with
      | clear => exact absurd rfl hop
      | start now => exact ih hops
      | stop now =>
          have hrest := ih (s := s.step (.stop now)) hops
          rw [spans, List.sum_cons, ← add_assoc]
          exact hrest

/-- From a cleared stopwatch on it is nothing but that sum. -/
theorem total_run_cleared {start : T} (hclear : .clear ∉ ops) :
    (run ⟨start, 0, 0⟩ ops).total = (spans start ops).sum := by
  rw [total_run hclear, zero_add]

/-- Only a stop before the first start tells two starts apart. -/
theorem agreeAlong_iff (htotal : s.total = s'.total) :
    AgreeAlong s s' ops ↔ s.start = s'.start ∨ StartsFirst ops := by
  induction ops generalizing s s' with
  | nil =>
      refine iff_of_true (fun done hdone => ?_) (.inr trivial)
      rw [List.prefix_nil.mp hdone]
      exact htotal
  | cons op ops ih =>
      rw [agreeAlong_cons, and_iff_right htotal]
      cases op with
      | clear => exact ih rfl
      | start now =>
          refine iff_of_true ((ih ?_).mpr (.inl rfl)) (.inr trivial)
          exact htotal
      | stop now =>
          constructor
          · intro hagree
            have hstop : s.total + (now - s.start) = s'.total + (now - s'.start) :=
              hagree [] List.nil_prefix
            rw [htotal, add_right_inj, sub_right_inj] at hstop
            exact .inl hstop
          · rintro (hstart | hnever)
            · refine (ih ?_).mpr (.inl hstart)
              show s.total + (now - s.start) = s'.total + (now - s'.start)
              rw [htotal, hstart]
            · exact hnever.elim

end Group

end Stopwatch

end Htsynch.Foundations
