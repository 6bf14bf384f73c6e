/-
# Mutual exclusion for the spin locks of synch.h

Any number of threads up to `2 ^ 31` take one lock variable again and again. Each
acquisition freely chooses one of the three loops, and the holder releases with
`spin_unlock`. The composed system refines the abstract lock; the relation that
carries the proof adds what the lock word says about holder and pollers.
-/

import Htsynch.Foundations.Census
import Htsynch.Foundations.Mutex
import Htsynch.Synch.SpinLock

namespace Htsynch

open Foundations

/-- A thread that takes the lock, holds it and releases it, over and over. -/
inductive LockUser
  | outside
  | locking (v : LockVariant) (pc : LockPc)
  | critical
  deriving DecidableEq

namespace LockUser

/-- Between acquisition and release. -/
def Holds (t : LockUser) : Prop := t = .critical

/-- In the spin loop of an acquisition. -/
def Polls (t : LockUser) : Prop := ∃ v, t = .locking v .poll

instance : DecidablePred Holds := fun t => inferInstanceAs (Decidable (t = _))

instance : DecidablePred Polls := fun t =>
  match t with
  | .locking v .poll => isTrue ⟨v, rfl⟩
  | .locking _ .attempt => isFalse (by rintro ⟨_, h⟩; cases h)
  | .outside => isFalse (by rintro ⟨_, h⟩; cases h)
  | .critical => isFalse (by rintro ⟨_, h⟩; cases h)

theorem Holds.not_polls {t : LockUser} (hholds : t.Holds) : ¬ t.Polls := by
  rintro ⟨v, hpolls⟩
  rw [hholds] at hpolls
  cases hpolls

end LockUser

/-- What a thread may do next: begin an acquisition, or go on with what it does. -/
inductive LockChoice
  | acquire (v : LockVariant)
  | step
  deriving DecidableEq

section

variable {n : ℕ}

/-- One step of a lock user on the lock word. -/
def lockUser : Program (Fin n) Word LockUser LockChoice
  | _, .acquire v, spinVar, .outside => some (spinVar, .locking v .attempt)
  | _, .step, spinVar, .locking v pc =>
      let r := v.run pc spinVar
      match r.2 with
      | .goto pc' => some (r.1, .locking v pc')
      | .acquired => some (r.1, .critical)
  | _, .step, spinVar, .critical => some (spinUnlock spinVar, .outside)
  | _, _, _, _ => none

/-- Nobody has started and the lock is initialised. -/
def lockInit (s : Config (Fin n) Word LockUser) : Prop :=
  s.shared = spinLockInit ∧ ∀ i, s.threads i = .outside

/-- `n` threads on one lock variable. -/
def lockSystem (n : ℕ) : System (Config (Fin n) Word LockUser) (Fin n × LockChoice) :=
  interleave lockInit lockUser

/-- Some thread is between acquisition and release. -/
def Held (threads : Fin n → LockUser) : Prop := ∃ i, (threads i).Holds

/-- The lock word against the holder and the number of pollers. -/
def LockInv (s : Config (Fin n) Word LockUser) : Prop :=
  LockWord (Held s.threads) (census LockUser.Polls s.threads) s.shared

variable {s : Config (Fin n) Word LockUser} {who : Fin n} {own : LockUser}
  {holder : Option (Fin n)} {spinVar : Word}

theorem held_update_of_stay (hstay : own.Holds ↔ (s.threads who).Holds) :
    Held (Function.update s.threads who own) ↔ Held s.threads := by
  unfold Held
  constructor
  · rintro ⟨i, hi⟩
    by_cases hw : i = who
    · subst i
      exact ⟨who, hstay.mp (by simpa using hi)⟩
    · exact ⟨i, by simpa [hw] using hi⟩
  · rintro ⟨i, hi⟩
    by_cases hw : i = who
    · subst i
      exact ⟨who, by simpa using hstay.mpr hi⟩
    · exact ⟨i, by simpa [hw] using hi⟩

/-- Threads that neither hold nor poll leave room below the bound. -/
theorem census_polls_lt (hheld : Held s.threads) :
    census LockUser.Polls s.threads < n := by
  obtain ⟨i, hi⟩ := hheld
  simpa using census_lt_card (p := LockUser.Polls) (i := i) hi.not_polls

/-- A move between two places that are neither holding nor polling. -/
theorem LockInv.idle (h : LockInv s) (hold : ¬ (s.threads who).Holds)
    (hnew : ¬ own.Holds) (hpold : ¬ (s.threads who).Polls) (hpnew : ¬ own.Polls) :
    LockInv (s.move who s.shared own) :=
  (LockWord.stay h (iff_of_false hpnew hpold)).congr
    (held_update_of_stay (iff_of_false hnew hold))

/-- The attempt of a thread that is not the holder. -/
theorem LockInv.attempt (h : LockInv s) (hn : n ≤ 2 ^ 31) {v : LockVariant}
    (hwho : s.threads who = .locking v .attempt) :
    (Held s.threads ∧ (v.run .attempt s.shared).2 = .goto .poll ∧
      LockInv (s.move who (v.run .attempt s.shared).1 (.locking v .poll))) ∨
    (¬ Held s.threads ∧ (v.run .attempt s.shared).2 = .acquired ∧
      LockInv (s.move who (v.run .attempt s.shared).1 .critical)) := by
  have hnot : ¬ (s.threads who).Holds := by simp [LockUser.Holds, hwho]
  have hpnot : ¬ (s.threads who).Polls := by simp [LockUser.Polls, hwho]
  by_cases hheld : Held s.threads
  · left
    have hbound : census LockUser.Polls s.threads < 2 ^ 31 :=
      (census_polls_lt hheld).trans_le hn
    refine ⟨hheld, (LockWord.attempt_held h hheld hbound).1, ?_⟩
    exact (LockWord.lose h hheld hbound hpnot ⟨v, rfl⟩).congr
      (held_update_of_stay (iff_of_false (by simp [LockUser.Holds]) hnot))
  · right
    refine ⟨hheld, (LockWord.attempt_free h hheld).1, ?_⟩
    refine (LockWord.win h hheld hpnot (by simp [LockUser.Polls])).congr
      (iff_of_true ⟨who, ?_⟩ trivial)
    simp [LockUser.Holds]

/-- A poll leaves the word alone and ends the spin loop only on a free lock. -/
theorem LockInv.poll (h : LockInv s) {v : LockVariant}
    (hwho : s.threads who = .locking v .poll) :
    (v.run .poll s.shared).1 = s.shared ∧
      ∃ pc, (v.run .poll s.shared).2 = .goto pc ∧
        LockInv (s.move who s.shared (.locking v pc)) := by
  have hnot : ¬ (s.threads who).Holds := by simp [LockUser.Holds, hwho]
  have hpolls : (s.threads who).Polls := ⟨v, hwho⟩
  obtain ⟨hread, hout⟩ := LockWord.poll (v := v) h
  have hgoto : ∃ pc, (v.run .poll s.shared).2 = .goto pc := by
    rcases hout with ⟨-, hgoto⟩ | ⟨-, hgoto⟩
    · exact ⟨_, hgoto⟩
    · exact ⟨_, hgoto⟩
  obtain ⟨pc, hpc⟩ := hgoto
  have hiff : (LockUser.locking v pc).Polls ↔ pc = .poll := by
    simp [LockUser.Polls]
  refine ⟨hread, pc, hpc, ?_⟩
  exact (LockWord.spin h hpolls hiff hpc).congr
    (held_update_of_stay (iff_of_false (by simp [LockUser.Holds]) hnot))

/-- The holder's store frees the lock. -/
theorem LockInv.release (hheld : Mutex.HeldBy LockUser.Holds s.threads holder)
    (hwho : s.threads who = .critical) :
    LockInv (s.move who (spinUnlock s.shared) .outside) := by
  have hfree : ¬ Held (Function.update s.threads who .outside) := by
    have hnobody := hheld.release hwho (by simp [LockUser.Holds] : ¬ LockUser.outside.Holds)
    rintro ⟨i, hi⟩
    exact hnobody.eq_none_iff.mp rfl i hi
  exact (LockWord.unlock s.shared).congr (iff_of_false hfree not_false)

/-- Every step keeps the lock word in line with its users and is a step of the
abstract lock or none. -/
theorem lockUser_step (hn : n ≤ 2 ^ 31) {choice : LockChoice} (hInv : LockInv s)
    (hheld : Mutex.HeldBy LockUser.Holds s.threads holder)
    (hstep : lockUser who choice s.shared (s.threads who) = some (spinVar, own)) :
    LockInv (s.move who spinVar own) ∧
      Mutex.Conforms LockUser.Holds s.threads who own := by
  cases hwho : s.threads who with
  | outside =>
      cases choice with
      | acquire v =>
          simp only [lockUser, hwho, Option.some.injEq, Prod.mk.injEq] at hstep
          obtain ⟨rfl, rfl⟩ := hstep
          refine ⟨hInv.idle ?_ ?_ ?_ ?_, .inl (iff_of_false ?_ ?_)⟩ <;>
            simp [LockUser.Holds, LockUser.Polls, hwho]
      | step => simp [lockUser, hwho] at hstep
  | locking v pc =>
      cases choice with
      | acquire v' => simp [lockUser, hwho] at hstep
      | step =>
          cases pc with
          | attempt =>
              rcases hInv.attempt hn hwho with ⟨-, hout, hnext⟩ | ⟨hfree, hout, hnext⟩
              · simp only [lockUser, hwho, hout, Option.some.injEq, Prod.mk.injEq] at hstep
                obtain ⟨rfl, rfl⟩ := hstep
                exact ⟨hnext, .inl (iff_of_false (by simp [LockUser.Holds])
                  (by simp [LockUser.Holds, hwho]))⟩
              · simp only [lockUser, hwho, hout, Option.some.injEq, Prod.mk.injEq] at hstep
                obtain ⟨rfl, rfl⟩ := hstep
                exact ⟨hnext, .inr (.inl ⟨not_exists.mp hfree, rfl⟩)⟩
          | poll =>
              obtain ⟨hread, pc, hout, hnext⟩ := hInv.poll hwho
              simp only [lockUser, hwho, hout, hread, Option.some.injEq,
                Prod.mk.injEq] at hstep
              obtain ⟨rfl, rfl⟩ := hstep
              exact ⟨hnext, .inl (iff_of_false (by simp [LockUser.Holds])
                (by simp [LockUser.Holds, hwho]))⟩
  | critical =>
      cases choice with
      | acquire v => simp [lockUser, hwho] at hstep
      | step =>
          simp only [lockUser, hwho, Option.some.injEq, Prod.mk.injEq] at hstep
          obtain ⟨rfl, rfl⟩ := hstep
          exact ⟨LockInv.release hheld hwho, .inr (.inr ⟨hwho, by simp [LockUser.Holds]⟩)⟩

/-- The three loops together refine the abstract lock. -/
theorem lockSystem_simulates_mutex (hn : n ≤ 2 ^ 31) :
    System.Simulates (lockSystem n) (fun _ _ => True) (Mutex.system (Fin n))
      (fun _ _ => True)
      (fun s holder => LockInv s ∧ Mutex.HeldBy LockUser.Holds s.threads holder) := by
  refine Mutex.simulates ?_ ?_
  · rintro s ⟨hshared, hthreads⟩
    have hnobody : ∀ i, ¬ (s.threads i).Holds := by simp [hthreads, LockUser.Holds]
    refine ⟨?_, hnobody⟩
    unfold LockInv
    rw [hshared]
    exact LockWord.init.congr (iff_of_false (not_exists.mpr hnobody) not_false)
  · intro s holder who choice spinVar own hInv hheld _ hstep
    exact lockUser_step hn hInv hheld hstep

/-- What the locks promise in a state. -/
structure LockCorrect (s : Config (Fin n) Word LockUser) : Prop where
  /-- At most one thread is between acquisition and release. -/
  exclusive : ∀ i j, (s.threads i).Holds → (s.threads j).Holds → i = j
  /-- The word is `1` exactly when no thread holds the lock. -/
  eq_one_iff : s.shared = 1 ↔ ∀ i, ¬ (s.threads i).Holds
  /-- While the lock is held the signed word lies between `1 - n` and `0`. -/
  bounds : ∀ i, (s.threads i).Holds → 1 - (n : ℤ) ≤ s.shared.toInt ∧ s.shared.toInt ≤ 0
  /-- A decrement executed now does not wrap. -/
  no_wrap : (decl s.shared).result.toInt = s.shared.toInt - 1
  /-- After a release executed now any loop acquires at its first attempt. -/
  acquirable : ∀ v : LockVariant, (v.run .attempt (spinUnlock s.shared)).2 = .acquired

/-- The spin locks of `synch.h` exclude each other in every reachable state,
however the loops are mixed, and the lock word stays within its bounds. -/
theorem lockSystem_correct (hn : n ≤ 2 ^ 31) (hreach : (lockSystem n).Reachable s) :
    LockCorrect s := by
  obtain ⟨holder, -, hInv, hheld⟩ := (lockSystem_simulates_mutex hn).reachable hreach
  have hword : LockWord (Held s.threads) (census LockUser.Polls s.threads) s.shared := hInv
  have hbounds : ∀ i, (s.threads i).Holds →
      1 - (n : ℤ) ≤ s.shared.toInt ∧ s.shared.toInt ≤ 0 := by
    intro i hi
    have hsome : Held s.threads := ⟨i, hi⟩
    have hlt := census_polls_lt hsome
    have hle := hword.le_zero_of_held hsome
    have hge := hword.neg_waiting_le_of_held hsome
    omega
  refine ⟨fun i j => hheld.unique, ?_, hbounds, ?_, fun v => ?_⟩
  · rw [hword.eq_one_iff, Held, not_exists]
  · refine decl_result_toInt ?_
    by_cases hsome : Held s.threads
    · obtain ⟨i, hi⟩ := hsome
      have := (hbounds i hi).1
      omega
    · rw [hword.eq_one_of_free hsome]
      decide
  · have hfree : LockWord False 0 (spinUnlock s.shared) := LockWord.unlock s.shared
    exact (hfree.attempt_free not_false).1

/-- The configuration before anyone has started. -/
def lockStart (n : ℕ) : Config (Fin n) Word LockUser := ⟨spinLockInit, fun _ => .outside⟩

theorem lockStart_reachable : (lockSystem n).Reachable (lockStart n) :=
  .of_init ⟨rfl, fun _ => rfl⟩

/-- Thread 0 holds the lock through `spin_lock`, thread 1 has lost an attempt of
`spin_lock_fast` and polls. -/
theorem lockSystem_correct_contended :
    let s := System.exec lockUser.next (lockStart 2)
      [(0, .acquire .pause), (0, .step), (1, .acquire .fast), (1, .step)]
    ((s.threads 0).Holds ∧ s.threads 1 = .locking .fast .poll ∧ s.shared.toInt = -1) ∧
      LockCorrect s :=
  ⟨by decide, lockSystem_correct (by decide) (System.reachable_exec _ lockStart_reachable)⟩

end

end Htsynch
