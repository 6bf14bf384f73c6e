/-
# The spin locks of synch.h

The three acquisition loops share one lock word: `1` when the lock is free, and
zero or less when it is taken. Each loop is an attempt, which is a single locked
instruction, and a poll, which is a plain comparison against memory. They differ
in how the attempt decides that it has won: by the sign flag, by the zero flag,
or by the value exchanged out of memory.

`LockWord` is what the word says about the lock. Its two parts are the whole
interface that users of the lock need: an attempt wins exactly when the lock is
free, and a loser moves the word by at most one step below the number of threads
already polling.
-/

import Htsynch.Foundations.Census
import Htsynch.X86

namespace Htsynch

open Foundations

def SPIN_LOCK_UNLOCKED : Word := 1
def SPIN_LOCK_LOCKED : Word := 0

/-- `spin_lock_init`. -/
def spinLockInit : Word := SPIN_LOCK_UNLOCKED

/-- `spin_unlock`: `movl $1,%0`. -/
def spinUnlock (_spinVar : Word) : Word := 1

/-- Where a thread is inside an acquisition loop. -/
inductive LockPc
  /-- Label `1:`, about to execute the locked instruction. -/
  | attempt
  /-- The spin loop, about to compare the lock word. -/
  | poll
  deriving DecidableEq

/-- What one instruction of an acquisition loop leads to. -/
inductive LockOutcome
  | goto (pc : LockPc)
  | acquired
  deriving DecidableEq

/-- `spin_lock`: the sign flag of the decrement decides. -/
def spinLock : LockPc → Word → Word × LockOutcome
  | .attempt, spinVar =>
      let d := decl spinVar
      (d.result, if d.sf then .goto .poll else .acquired)
  | .poll, spinVar =>
      (spinVar, if spinVar.toInt ≤ 0 then .goto .poll else .goto .attempt)

/-- `spin_lock_fast`: the zero flag of the decrement decides. -/
def spinLockFast : LockPc → Word → Word × LockOutcome
  | .attempt, spinVar =>
      let d := decl spinVar
      (d.result, if d.zf then .acquired else .goto .poll)
  | .poll, spinVar =>
      (spinVar, if 0 < spinVar.toInt then .goto .attempt else .goto .poll)

/-- `spin_lock_cas`: the value exchanged out of memory decides. -/
def spinLockCas : LockPc → Word → Word × LockOutcome
  | .attempt, spinVar =>
      (SPIN_LOCK_LOCKED, if spinVar = 1 then .acquired else .goto .poll)
  | .poll, spinVar =>
      (spinVar, if spinVar = 1 then .goto .attempt else .goto .poll)

/-- The acquisition loops a thread may choose from. -/
inductive LockVariant
  | pause
  | fast
  | cas
  deriving DecidableEq

/-- One instruction of the chosen loop. -/
def LockVariant.run : LockVariant → LockPc → Word → Word × LockOutcome
  | .pause => spinLock
  | .fast => spinLockFast
  | .cas => spinLockCas

/-- A free lock holds `1`. A taken lock holds a value between minus the number
of threads that may have decremented it since it was taken and zero. -/
structure LockWord (held : Prop) (waiting : ℕ) (spinVar : Word) : Prop where
  eq_one_of_free : ¬ held → spinVar = 1
  le_zero_of_held : held → spinVar.toInt ≤ 0
  neg_waiting_le_of_held : held → -(waiting : ℤ) ≤ spinVar.toInt

namespace LockWord

variable {held : Prop} {waiting waiting' : ℕ} {spinVar : Word} {v : LockVariant}

/-- The word alone tells whether the lock is held. -/
theorem eq_one_iff (h : LockWord held waiting spinVar) : spinVar = 1 ↔ ¬ held := by
  refine ⟨?_, h.eq_one_of_free⟩
  rintro rfl hheld
  exact absurd (h.le_zero_of_held hheld) (by decide)

/-- More pollers only widen the bound. -/
theorem mono (h : LockWord held waiting spinVar) (hle : waiting ≤ waiting') :
    LockWord held waiting' spinVar where
  eq_one_of_free := h.eq_one_of_free
  le_zero_of_held := h.le_zero_of_held
  neg_waiting_le_of_held hheld := by
    have := h.neg_waiting_le_of_held hheld
    omega

/-- A free lock stays free whoever polls. -/
theorem of_free (h : LockWord held waiting spinVar) (hfree : ¬ held) :
    LockWord held waiting' spinVar where
  eq_one_of_free := h.eq_one_of_free
  le_zero_of_held hheld := absurd hheld hfree
  neg_waiting_le_of_held hheld := absurd hheld hfree

/-- The state of the lock may be described in other words. -/
theorem congr {held' : Prop} (h : LockWord held waiting spinVar) (hiff : held' ↔ held) :
    LockWord held' waiting spinVar :=
  propext hiff ▸ h

theorem init : LockWord False waiting spinLockInit :=
  ⟨fun _ => rfl, False.elim, False.elim⟩

/-- The releasing store frees the lock. -/
theorem unlock (spinVar : Word) : LockWord False waiting (spinUnlock spinVar) :=
  ⟨fun _ => rfl, False.elim, False.elim⟩

/-- An attempt on a free lock wins, whichever loop makes it. -/
theorem attempt_free (h : LockWord held waiting spinVar) (hfree : ¬ held) :
    (v.run .attempt spinVar).2 = .acquired ∧
      LockWord True waiting (v.run .attempt spinVar).1 := by
  have hone := h.eq_one_of_free hfree
  subst hone
  refine ⟨by cases v <;> decide, fun hnot => absurd trivial hnot, fun _ => ?_, fun _ => ?_⟩
  · cases v <;> decide
  · have hzero : (v.run .attempt 1).1.toInt = 0 := by cases v <;> decide
    omega

/-- An attempt on a taken lock loses and lowers the word by at most one step,
with no wrap-around while fewer than `2 ^ 31` threads poll. -/
theorem attempt_held (h : LockWord held waiting spinVar) (hheld : held)
    (hbound : waiting < 2 ^ 31) :
    (v.run .attempt spinVar).2 = .goto .poll ∧
      LockWord held (waiting + 1) (v.run .attempt spinVar).1 := by
  have hle := h.le_zero_of_held hheld
  have hge := h.neg_waiting_le_of_held hheld
  have hne : spinVar ≠ 1 := fun hone => h.eq_one_iff.mp hone hheld
  have hdec : (decl spinVar).result.toInt = spinVar.toInt - 1 :=
    decl_result_toInt (by omega)
  have hres : (v.run .attempt spinVar).1.toInt = spinVar.toInt - 1 ∨
      (v.run .attempt spinVar).1.toInt = 0 := by
    cases v with
    | pause => exact .inl hdec
    | fast => exact .inl hdec
    | cas => exact .inr (show SPIN_LOCK_LOCKED.toInt = 0 by decide)
  refine ⟨?_, fun hnot => absurd hheld hnot, fun _ => by omega, fun _ => by omega⟩
  cases v with
  | pause =>
      have hsf : (decl spinVar).sf = true := decl_sf_eq_true_iff.mpr (by omega)
      simp only [LockVariant.run, spinLock, hsf, if_true]
  | fast =>
      have hzf : ¬ (decl spinVar).zf = true := fun hz => hne (decl_zf_eq_true_iff.mp hz)
      simp only [LockVariant.run, spinLockFast, if_neg hzf]
  | cas => simp only [LockVariant.run, spinLockCas, if_neg hne]

/-- A poll only reads the word, and leads back to an attempt exactly when it
finds the lock free. -/
theorem poll (h : LockWord held waiting spinVar) :
    (v.run .poll spinVar).1 = spinVar ∧
      ((held ∧ (v.run .poll spinVar).2 = .goto .poll) ∨
        (¬ held ∧ (v.run .poll spinVar).2 = .goto .attempt)) := by
  refine ⟨by cases v <;> rfl, ?_⟩
  by_cases hheld : held
  · left
    have hle := h.le_zero_of_held hheld
    have hne : spinVar ≠ 1 := fun hone => h.eq_one_iff.mp hone hheld
    refine ⟨hheld, ?_⟩
    cases v with
    | pause => simp only [LockVariant.run, spinLock, if_pos hle]
    | fast => simp only [LockVariant.run, spinLockFast, if_neg (Int.not_lt.mpr hle)]
    | cas => simp only [LockVariant.run, spinLockCas, if_neg hne]
  · right
    obtain rfl := h.eq_one_of_free hheld
    refine ⟨hheld, ?_⟩
    cases v <;> decide

/-- A winning attempt has found the lock free. -/
theorem free_of_acquired (h : LockWord held waiting spinVar) (hbound : waiting < 2 ^ 31)
    (hout : (v.run .attempt spinVar).2 = .acquired) : ¬ held := by
  intro hheld
  rw [(h.attempt_held hheld hbound).1] at hout
  cases hout

/-- A losing attempt has found the lock held. -/
theorem held_of_goto (h : LockWord held waiting spinVar) {pc : LockPc}
    (hout : (v.run .attempt spinVar).2 = .goto pc) : held := by
  by_contra hfree
  rw [(h.attempt_free hfree).1] at hout
  cases hout

section Pollers

variable {ι Local : Type} [Fintype ι] [DecidableEq ι] {polls : Local → Prop}
  [DecidablePred polls] {threads : ι → Local} {who : ι} {own : Local}

/-- A move that does not change whether the mover polls. -/
theorem stay (h : LockWord held (census polls threads) spinVar)
    (hstay : polls own ↔ polls (threads who)) :
    LockWord held (census polls (Function.update threads who own)) spinVar := by
  rwa [census_update_stay hstay]

/-- A losing attempt makes its thread a poller. -/
theorem lose (h : LockWord held (census polls threads) spinVar) (hheld : held)
    (hbound : census polls threads < 2 ^ 31) (hold : ¬ polls (threads who))
    (hnew : polls own) :
    LockWord held (census polls (Function.update threads who own))
      (v.run .attempt spinVar).1 := by
  rw [census_update_enter hold hnew]
  exact (h.attempt_held hheld hbound).2

/-- A winning attempt takes the lock. -/
theorem win (h : LockWord held (census polls threads) spinVar) (hfree : ¬ held)
    (hold : ¬ polls (threads who)) (hnew : ¬ polls own) :
    LockWord True (census polls (Function.update threads who own))
      (v.run .attempt spinVar).1 := by
  rw [census_update_stay (iff_of_false hnew hold)]
  exact (h.attempt_free hfree).2

/-- A poll ends only on a free lock. -/
theorem spin (h : LockWord held (census polls threads) spinVar) {pc : LockPc}
    (hold : polls (threads who)) (hnew : polls own ↔ pc = .poll)
    (hout : (v.run .poll spinVar).2 = .goto pc) :
    LockWord held (census polls (Function.update threads who own)) spinVar := by
  rcases (h.poll (v := v)).2 with ⟨-, hgoto⟩ | ⟨hfree, -⟩
  · rw [hgoto] at hout
    cases hout
    exact h.stay (iff_of_true (hnew.mpr rfl) hold)
  · exact h.of_free hfree

end Pollers

end LockWord

end Htsynch
