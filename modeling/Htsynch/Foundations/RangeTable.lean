/-
# Tables of ranges of numbers

A table hands out ranges of numbers. A range is taken only when it shares no number with
the ranges in the table, and it is given back by its first number and its length, by
whoever names them.

Giving back what was just taken restores the table. Giving back what was not taken
changes nothing only when no range with that first number and that length is there.
-/

import Mathlib.Data.Finset.Filter
import Mathlib.Data.Finset.Insert
import Mathlib.Data.Set.Pairwise.Basic

namespace Htsynch.Foundations

/-- The numbers from `first` on, with a label. -/
structure Range (ω : Type*) where
  first : ℕ
  count : ℕ
  label : ω
  count_pos : 0 < count
  deriving DecidableEq

namespace Range

variable {ω : Type*} {r r' : Range ω}

/-- One range ends before the other begins. -/
def Apart (r r' : Range ω) : Prop :=
  r.first + r.count ≤ r'.first ∨ r'.first + r'.count ≤ r.first

instance (r r' : Range ω) : Decidable (r.Apart r') := inferInstanceAs (Decidable (_ ∨ _))

@[symm]
theorem Apart.symm (hapart : r.Apart r') : r'.Apart r := Or.symm hapart

/-- The range has that first number and that length. -/
def At (r : Range ω) (first count : ℕ) : Prop := r.first = first ∧ r.count = count

instance (r : Range ω) (first count : ℕ) : Decidable (r.At first count) :=
  inferInstanceAs (Decidable (_ ∧ _))

theorem at_self (r : Range ω) : r.At r.first r.count := ⟨rfl, rfl⟩

/-- Ranges at the same place share their numbers. -/
theorem Apart.not_at (hapart : r.Apart r') : ¬ r'.At r.first r.count := by
  rintro ⟨hfirst, hcount⟩
  have hpos := r.count_pos
  rw [Apart, hfirst, hcount] at hapart
  omega

theorem not_apart_self (r : Range ω) : ¬ r.Apart r := fun hapart => hapart.not_at r.at_self

end Range

/-- Ranges that share no number. -/
@[ext]
structure RangeTable (ω : Type*) where
  ranges : Finset (Range ω)
  apart : (ranges : Set (Range ω)).Pairwise Range.Apart

namespace RangeTable

variable {ω : Type*}

/-- No range was taken yet. -/
def empty : RangeTable ω := ⟨∅, by simp⟩

/-- There is room for the range. -/
def Free (t : RangeTable ω) (r : Range ω) : Prop := ∀ r' ∈ t.ranges, r.Apart r'

instance (t : RangeTable ω) (r : Range ω) : Decidable (t.Free r) :=
  inferInstanceAs (Decidable (∀ r' ∈ t.ranges, r.Apart r'))

/-- A range with that first number and that length was taken. -/
def TakenAt (t : RangeTable ω) (first count : ℕ) : Prop := ∃ r ∈ t.ranges, r.At first count

instance (t : RangeTable ω) (first count : ℕ) : Decidable (t.TakenAt first count) :=
  inferInstanceAs (Decidable (∃ r ∈ t.ranges, r.At first count))

/-- Take a range for which there is room. -/
def insert [DecidableEq ω] (t : RangeTable ω) (r : Range ω) (hfree : t.Free r) :
    RangeTable ω where
  ranges := Insert.insert r t.ranges
  apart := by
    rw [Finset.coe_insert]
    exact t.apart.insert fun r' hr' _ => ⟨hfree r' hr', (hfree r' hr').symm⟩

/-- Take a range, if there is room for it. -/
def register [DecidableEq ω] (t : RangeTable ω) (r : Range ω) : Option (RangeTable ω) :=
  if hfree : t.Free r then some (t.insert r hfree) else none

/-- Give back the range with that first number and that length. -/
def unregister (t : RangeTable ω) (first count : ℕ) : RangeTable ω where
  ranges := t.ranges.filter fun r => ¬ r.At first count
  apart := t.apart.mono (Finset.coe_subset.mpr (Finset.filter_subset _ _))

variable {t : RangeTable ω} {r r' : Range ω} {first count : ℕ}

@[simp]
theorem mem_unregister :
    r ∈ (t.unregister first count).ranges ↔ r ∈ t.ranges ∧ ¬ r.At first count :=
  Finset.mem_filter

/-- Only an exact match is removed. -/
theorem unregister_eq_self_iff : t.unregister first count = t ↔ ¬ t.TakenAt first count := by
  constructor
  · rintro hsame ⟨r, hr, hat⟩
    rw [← hsame] at hr
    exact (mem_unregister.mp hr).2 hat
  · intro hnone
    apply RangeTable.ext
    exact Finset.filter_true_of_mem fun r hr hat => hnone ⟨r, hr, hat⟩

variable [DecidableEq ω]

@[simp]
theorem mem_insert {hfree : t.Free r} :
    r' ∈ (t.insert r hfree).ranges ↔ r' = r ∨ r' ∈ t.ranges :=
  Finset.mem_insert

theorem register_of_free (hfree : t.Free r) : t.register r = some (t.insert r hfree) :=
  dif_pos hfree

theorem register_of_not_free (hfull : ¬ t.Free r) : t.register r = none := dif_neg hfull

/-- Two ranges that share a number are not taken both. -/
theorem not_free_insert {hfree : t.Free r} (hoverlap : ¬ r'.Apart r) :
    ¬ (t.insert r hfree).Free r' := fun hfree' =>
  hoverlap (hfree' r (mem_insert.mpr (.inl rfl)))

/-- A range that was taken is new in the table. -/
theorem insert_ne (hfree : t.Free r) : t.insert r hfree ≠ t := by
  intro hsame
  have hr : r ∈ (t.insert r hfree).ranges := mem_insert.mpr (.inl rfl)
  rw [hsame] at hr
  exact r.not_apart_self (hfree r hr)

/-- Giving back what was just taken restores the table. -/
theorem unregister_insert (hfree : t.Free r) :
    (t.insert r hfree).unregister r.first r.count = t := by
  apply RangeTable.ext
  ext r'
  rw [mem_unregister, mem_insert]
  constructor
  · rintro ⟨rfl | hr', hat⟩
    · exact absurd r'.at_self hat
    · exact hr'
  · intro hr'
    exact ⟨.inr hr', (hfree r' hr').not_at⟩

end RangeTable

end Htsynch.Foundations
