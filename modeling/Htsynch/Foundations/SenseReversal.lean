/-
# Sense reversal

In a sense-reversing barrier every thread carries a private sense, flips it when
it enters a call and waits until a shared flag shows it. The flag shows
`sense round` while `round` rounds are complete, so one bit tells a thread whether
its own round is: it can be at most one round ahead of the flag.

Nothing is assumed about the senses but that consecutive ones differ, and nothing
about the program but which of its places lie in a call and which of those lie
after the arrival.
-/

import Mathlib.Data.Nat.Notation
import Mathlib.Tactic.Common

namespace Htsynch.Foundations

universe u v

/-- How the places of a barrier program lie in a call. -/
class CallSite (Pc : Type u) where
  /-- The thread has flipped its sense and not returned since. -/
  inCall : Pc → Bool
  /-- The thread has arrived in its current call. -/
  counted : Pc → Bool

/-- A thread at a sense-reversing barrier. -/
structure SenseThread (Pc : Type u) (σ : Type v) where
  pc : Pc
  lsense : σ
  /-- How often the thread has arrived. -/
  arrivals : ℕ
  /-- How many calls have returned. -/
  calls : ℕ
  deriving DecidableEq

namespace SenseThread

variable {Pc : Type u} {σ : Type v} (t : SenseThread Pc σ) (pc : Pc)

/-- Enter a call with a flipped sense. -/
def enter (lsense : σ) : SenseThread Pc σ := { t with pc := pc, lsense := lsense }

/-- Go on to another place in the call. -/
def goto : SenseThread Pc σ := { t with pc := pc }

/-- Arrive. -/
def arrive : SenseThread Pc σ := { t with pc := pc, arrivals := t.arrivals + 1 }

/-- Return from the call. -/
def ret : SenseThread Pc σ := { t with pc := pc, calls := t.calls + 1 }

variable {t pc} {lsense : σ}

@[simp] theorem enter_pc : (t.enter pc lsense).pc = pc := rfl
@[simp] theorem enter_lsense : (t.enter pc lsense).lsense = lsense := rfl
@[simp] theorem enter_arrivals : (t.enter pc lsense).arrivals = t.arrivals := rfl
@[simp] theorem enter_calls : (t.enter pc lsense).calls = t.calls := rfl
@[simp] theorem goto_pc : (t.goto pc).pc = pc := rfl
@[simp] theorem goto_lsense : (t.goto pc).lsense = t.lsense := rfl
@[simp] theorem goto_arrivals : (t.goto pc).arrivals = t.arrivals := rfl
@[simp] theorem goto_calls : (t.goto pc).calls = t.calls := rfl
@[simp] theorem arrive_pc : (t.arrive pc).pc = pc := rfl
@[simp] theorem arrive_lsense : (t.arrive pc).lsense = t.lsense := rfl
@[simp] theorem arrive_arrivals : (t.arrive pc).arrivals = t.arrivals + 1 := rfl
@[simp] theorem arrive_calls : (t.arrive pc).calls = t.calls := rfl
@[simp] theorem ret_pc : (t.ret pc).pc = pc := rfl
@[simp] theorem ret_lsense : (t.ret pc).lsense = t.lsense := rfl
@[simp] theorem ret_arrivals : (t.ret pc).arrivals = t.arrivals := rfl
@[simp] theorem ret_calls : (t.ret pc).calls = t.calls + 1 := rfl

variable {sense : ℕ → σ} {round rounds : ℕ}

/-- The thread has arrived in the round in progress. -/
def Arrived (round : ℕ) (t : SenseThread Pc σ) : Prop := t.arrivals = round + 1

instance : DecidablePred (@Arrived Pc σ round) :=
  fun t => inferInstanceAs (Decidable (t.arrivals = _))

variable [CallSite Pc]

/-- What a thread's own state says while `round` rounds are complete. -/
structure Ok (sense : ℕ → σ) (round : ℕ) (t : SenseThread Pc σ) : Prop where
  round_le : round ≤ t.arrivals
  arrivals_le : t.arrivals ≤ round + 1
  calls_le : t.calls ≤ round
  arrivals_eq : t.arrivals = t.calls + (CallSite.counted t.pc).toNat
  lsense_eq : t.lsense = sense (t.calls + (CallSite.inCall t.pc).toNat)

namespace Ok

theorem enter (h : t.Ok sense round) (pc : Pc) (hout : CallSite.inCall t.pc = false)
    (hcounted : CallSite.counted t.pc = CallSite.counted pc)
    (hin : CallSite.inCall pc = true)
    (hflip : ∀ r, t.lsense = sense r → lsense = sense (r + 1)) :
    (t.enter pc lsense).Ok sense round where
  round_le := h.round_le
  arrivals_le := h.arrivals_le
  calls_le := h.calls_le
  arrivals_eq := by simpa [hcounted] using h.arrivals_eq
  lsense_eq := by
    have hold := h.lsense_eq
    rw [hout] at hold
    rw [enter_lsense, enter_pc, enter_calls, hin]
    exact hflip _ hold

theorem goto (h : t.Ok sense round) (pc : Pc)
    (hin : CallSite.inCall t.pc = CallSite.inCall pc)
    (hcounted : CallSite.counted t.pc = CallSite.counted pc) :
    (t.goto pc).Ok sense round where
  round_le := h.round_le
  arrivals_le := h.arrivals_le
  calls_le := h.calls_le
  arrivals_eq := by simpa [hcounted] using h.arrivals_eq
  lsense_eq := by simpa [hin] using h.lsense_eq

/-- A thread that has not arrived in its call has not arrived in the round. -/
theorem arrivals_eq_of_not_counted (h : t.Ok sense round)
    (hcounted : CallSite.counted t.pc = false) : t.arrivals = round ∧ t.calls = round := by
  have harr := h.arrivals_eq
  have hcalls := h.calls_le
  have hround := h.round_le
  simp only [hcounted, Bool.toNat_false] at harr
  omega

theorem arrive (h : t.Ok sense round) (pc : Pc)
    (hin : CallSite.inCall t.pc = CallSite.inCall pc)
    (hcounted : CallSite.counted t.pc = false) (hnew : CallSite.counted pc = true) :
    (t.arrive pc).Ok sense round ∧ ¬ t.Arrived round ∧ (t.arrive pc).Arrived round := by
  obtain ⟨harr, hcalls⟩ := h.arrivals_eq_of_not_counted hcounted
  refine ⟨⟨?_, ?_, h.calls_le, ?_, ?_⟩, ?_, ?_⟩
  · simp [harr]
  · simp [harr]
  · simp [hnew, harr, hcalls]
  · simpa [hin] using h.lsense_eq
  · simp [Arrived, harr]
  · simp [Arrived, harr]

/-- A thread that has arrived in a complete round has not returned from it. -/
theorem calls_lt (h : t.Ok sense round) (hcounted : CallSite.counted t.pc = true)
    (hround : t.arrivals ≤ round) : t.calls < round := by
  have harr := h.arrivals_eq
  simp only [hcounted, Bool.toNat_true] at harr
  omega

theorem ret (h : t.Ok sense round) (pc : Pc) (hin : CallSite.inCall t.pc = true)
    (hcounted : CallSite.counted t.pc = true) (hround : t.arrivals ≤ round)
    (hout : CallSite.inCall pc = false) (hnew : CallSite.counted pc = false) :
    (t.ret pc).Ok sense round := by
  have harr := h.arrivals_eq
  have hlsense := h.lsense_eq
  rw [hcounted] at harr
  rw [hin] at hlsense
  refine ⟨h.round_le, h.arrivals_le, h.calls_lt hcounted hround, ?_, ?_⟩
  · simpa [hnew] using harr
  · simpa [hout] using hlsense

/-- When the round completes, everyone who has arrived is in the next one. -/
theorem succ (h : t.Ok sense round) (harrived : t.Arrived round) :
    t.Ok sense (round + 1) ∧ ¬ t.Arrived (round + 1) := by
  have hround : t.arrivals = round + 1 := harrived
  refine ⟨⟨by omega, by omega, ?_, h.arrivals_eq, h.lsense_eq⟩, ?_⟩
  · exact Nat.le_succ_of_le h.calls_le
  · unfold Arrived
    omega

/-- The sense of a thread in a call is that of its own round. -/
theorem lsense_eq_of_counted (h : t.Ok sense round) (hin : CallSite.inCall t.pc = true)
    (hcounted : CallSite.counted t.pc = true) : t.lsense = sense t.arrivals := by
  have harr := h.arrivals_eq
  have hlsense := h.lsense_eq
  rw [hcounted] at harr
  rw [hin, ← harr] at hlsense
  exact hlsense

/-- A thread whose sense is published has arrived in a complete round. -/
theorem arrivals_le_of_published (h : t.Ok sense round)
    (hsense : ∀ r, sense (r + 1) ≠ sense r) (hin : CallSite.inCall t.pc = true)
    (hcounted : CallSite.counted t.pc = true) (hflag : sense round = t.lsense) :
    t.arrivals ≤ round := by
  rw [h.lsense_eq_of_counted hin hcounted] at hflag
  by_contra hlate
  have hnext : t.arrivals = round + 1 := by
    have := h.arrivals_le
    omega
  rw [hnext] at hflag
  exact hsense round hflag.symm

/-- A thread whose sense is not published has arrived in the round in progress. -/
theorem arrived_of_unpublished (h : t.Ok sense round) (hin : CallSite.inCall t.pc = true)
    (hcounted : CallSite.counted t.pc = true) (hflag : sense round ≠ t.lsense) :
    t.Arrived round := by
  rw [h.lsense_eq_of_counted hin hcounted] at hflag
  have hne : t.arrivals ≠ round := fun heq => hflag (by rw [heq])
  have hlow := h.round_le
  have hhigh := h.arrivals_le
  unfold Arrived
  omega

/-- A thread that has arrived in the round in progress and has calls left shows
that the round is one of those to be made. -/
theorem round_lt (h : t.Ok sense round) (harrived : t.Arrived round)
    (hcalls : t.calls < rounds) : round < rounds := by
  have hround : t.arrivals = round + 1 := harrived
  have harr := h.arrivals_eq
  have hle := Bool.toNat_le (CallSite.counted t.pc)
  omega

end Ok

/-- The thread makes `rounds` calls and no more. -/
structure Within (rounds : ℕ) (t : SenseThread Pc σ) : Prop where
  calls_le : t.calls ≤ rounds
  calls_lt : CallSite.inCall t.pc = true → t.calls < rounds

namespace Within

theorem goto (h : t.Within rounds) (pc : Pc) (hin : CallSite.inCall t.pc = true) :
    (t.goto pc).Within rounds :=
  ⟨h.calls_le, fun _ => h.calls_lt hin⟩

theorem arrive (h : t.Within rounds) (pc : Pc) (hin : CallSite.inCall t.pc = true) :
    (t.arrive pc).Within rounds :=
  ⟨h.calls_le, fun _ => h.calls_lt hin⟩

theorem ret (h : t.Within rounds) (pc : Pc) (hin : CallSite.inCall t.pc = true)
    (hout : CallSite.inCall pc = false) : (t.ret pc).Within rounds :=
  ⟨h.calls_lt hin, fun hnew => absurd hnew (by simp [hout])⟩

end Within

section

omit [CallSite Pc]

variable {left : Pc → ℕ} {top : ℕ} {t' : SenseThread Pc σ}

/-- What is left of `rounds` calls, where `left` is what is left of one. -/
def work (left : Pc → ℕ) (top rounds : ℕ) (t : SenseThread Pc σ) : ℕ :=
  (rounds - t.calls) * (top + 1) + left t.pc

/-- Going on within a call. -/
theorem work_lt (hcalls : t'.calls = t.calls) (h : left t'.pc < left t.pc) :
    t'.work left top rounds < t.work left top rounds := by
  unfold work
  rw [hcalls]
  omega

theorem work_eq (hcalls : t'.calls = t.calls) (h : left t'.pc = left t.pc) :
    t'.work left top rounds = t.work left top rounds := by
  unfold work
  rw [hcalls, h]

/-- Returning: the next call is as long as any. -/
theorem work_ret_lt (hcalls : t.calls < rounds) (htop : left pc ≤ top) :
    (t.ret pc).work left top rounds < t.work left top rounds := by
  have hsucc : rounds - t.calls = (rounds - (t.calls + 1)) + 1 := by omega
  unfold work
  rw [ret_calls, ret_pc, hsucc, Nat.add_mul, Nat.one_mul]
  omega

end

end SenseThread

end Htsynch.Foundations
