/-
# The spin locks of both files

`spin.c` has two locks of its own: one that exchanges a one into the word, and `_v2`, which
decrements it as `spin_lock` of `synch.h` does. Both act on the lower half of a `long`.
Together with the three loops of `synch.h` they are locks of one kind: an attempt wins
exactly on a free lock, a poll leads back to an attempt exactly on a free lock, and the
releasing store frees the lock.

A file is given by its operations, with what the proofs use of them. Any number of threads
that the word has room for take the lock, hold it and release it, over and over.
-/

import Htsynch.Foundations.Mutex
import Htsynch.Spin.SpinBarrier
import Htsynch.Synch.SpinLockExclusion

namespace Htsynch

open Foundations

namespace Spin

/-- `spin_lock_v2`: the sign flag of the decrement decides. -/
def spinLockV2 : LockPc → Quad → Quad × LockOutcome
  | .attempt, spinVar =>
      let d := decl spinVar.low
      (spinVar.storeLow d.result, if d.sf then .goto .poll else .acquired)
  | .poll, spinVar =>
      (spinVar, if spinVar.low.toInt ≤ 0 then .goto .poll else .goto .attempt)

/-- `spin_unlock_v2`: `movl $1, %0`. -/
def spinUnlockV2 (spinVar : Quad) : Quad := spinVar.storeLow 1

/-- `#define spin_init_v2 spin_unlock_v2`. -/
def spinInitV2 : Quad → Quad := spinUnlockV2

/-- The loop does on the lower half what `spin_lock` of `synch.h` does on its word. -/
theorem spinLockV2_eq (pc : LockPc) (spinVar : Quad) :
    (spinLockV2 pc spinVar).1.low = (Htsynch.spinLock pc spinVar.low).1 ∧
      (spinLockV2 pc spinVar).2 = (Htsynch.spinLock pc spinVar.low).2 := by
  cases pc with
  | attempt => exact ⟨Quad.low_storeLow, rfl⟩
  | poll => exact ⟨rfl, rfl⟩

end Spin

/-- What the users of a lock use of its file: `V` are its acquisition loops. -/
structure LockFile (V W : Type) where
  run : V → LockPc → W → W × LockOutcome
  unlock : W → W
  /-- What `spin_init` may have left. -/
  init : W → Prop
  /-- The word has room for so many pollers. -/
  Room : ℕ → Prop
  /-- What the word says while so many threads poll it. -/
  Says : Prop → ℕ → W → Prop
  says_init : ∀ {w}, init w → Says False 0 w
  says_unlock : ∀ k w, Says False k (unlock w)
  /-- An attempt wins exactly on a free lock. -/
  attempt : ∀ {held k w} v, Says held k w → (held → Room k) →
    ¬ held ∧ (run v .attempt w).2 = .acquired ∧ Says True k (run v .attempt w).1 ∨
      held ∧ (run v .attempt w).2 = .goto .poll ∧ Says held (k + 1) (run v .attempt w).1
  /-- A poll only reads, and leads back to an attempt exactly on a free lock. -/
  poll : ∀ {held k w} v, Says held k w → (run v .poll w).1 = w ∧
    (held ∧ (run v .poll w).2 = .goto .poll ∨
      ¬ held ∧ (run v .poll w).2 = .goto .attempt ∧ ∀ k', Says held k' w)

/-- The three loops of `synch.h`. -/
def synchLock : LockFile LockVariant Word where
  run := LockVariant.run
  unlock := spinUnlock
  init w := w = spinLockInit
  Room k := k < 2 ^ 31
  Says := LockWord
  says_init := by
    rintro w rfl
    exact LockWord.init
  says_unlock _ w := LockWord.unlock w
  attempt {held _ _} v h hroom := by
    by_cases hheld : held
    · exact .inr ⟨hheld, h.attempt_held hheld (hroom hheld)⟩
    · exact .inl ⟨hheld, h.attempt_free hheld⟩
  poll v h := by
    obtain ⟨hread, hout⟩ := h.poll (v := v)
    refine ⟨hread, hout.imp id fun ⟨hfree, hgoto⟩ => ⟨hfree, hgoto, fun _ => ?_⟩⟩
    exact h.of_free hfree

/-- The exchanging lock of `spin.c`. -/
def xchgLock : LockFile Unit Quad where
  run _ := Spin.spinLock
  unlock := Spin.spinUnlock
  init w := ∃ w₀, w = Spin.spinInit w₀
  Room _ := True
  Says held _ w := w.low = 0 ↔ ¬ held
  says_init := by
    rintro w ⟨w₀, rfl⟩
    exact iff_of_true Quad.low_storeLow id
  says_unlock _ _ := iff_of_true Quad.low_storeLow id
  attempt {held _ w} _ h _ := by
    have htaken : (Spin.spinLock .attempt w).1.low ≠ 0 := by
      rw [Spin.spinLock, Quad.low_storeLow]
      decide
    by_cases hheld : held
    · have hlow : w.low ≠ 0 := fun hzero => h.mp hzero hheld
      exact .inr ⟨hheld, if_pos hlow, iff_of_false htaken (not_not.mpr hheld)⟩
    · have hlow : ¬ w.low ≠ 0 := not_not.mpr (h.mpr hheld)
      exact .inl ⟨hheld, if_neg hlow, iff_of_false htaken (not_not.mpr trivial)⟩
  poll {held _ w} _ h := by
    refine ⟨rfl, ?_⟩
    by_cases hheld : held
    · have hlow : w.low ≠ 0 := fun hzero => h.mp hzero hheld
      exact .inl ⟨hheld, if_pos hlow⟩
    · have hlow : ¬ w.low ≠ 0 := not_not.mpr (h.mpr hheld)
      exact .inr ⟨hheld, if_neg hlow, fun _ => h⟩

/-- The decrementing lock of `spin.c`. -/
def v2Lock : LockFile Unit Quad where
  run _ := Spin.spinLockV2
  unlock := Spin.spinUnlockV2
  init w := ∃ w₀, w = Spin.spinInitV2 w₀
  Room k := k < 2 ^ 31
  Says held k w := LockWord held k w.low
  says_init := by
    rintro w ⟨w₀, rfl⟩
    rw [Spin.spinInitV2, Spin.spinUnlockV2, Quad.low_storeLow]
    exact LockWord.init
  says_unlock _ w := by
    rw [Spin.spinUnlockV2, Quad.low_storeLow]
    exact LockWord.unlock w.low
  attempt {held _ w} _ h hroom := by
    obtain ⟨hword, hout⟩ := Spin.spinLockV2_eq .attempt w
    rw [hword, hout]
    by_cases hheld : held
    · exact .inr ⟨hheld, h.attempt_held (v := .pause) hheld (hroom hheld)⟩
    · exact .inl ⟨hheld, h.attempt_free (v := .pause) hheld⟩
  poll {held _ w} _ h := by
    obtain ⟨-, hout⟩ := Spin.spinLockV2_eq .poll w
    rw [hout]
    refine ⟨rfl, (h.poll (v := .pause)).2.imp id fun ⟨hfree, hgoto⟩ => ?_⟩
    exact ⟨hfree, hgoto, fun _ => h.of_free hfree⟩

/-- The locks. -/
inductive LockKind
  | synch
  | xchg
  | v2
  deriving DecidableEq

namespace LockKind

/-- The acquisition loops of each lock. -/
def Loop : LockKind → Type
  | synch => LockVariant
  | xchg => Unit
  | v2 => Unit

/-- The word of each lock. -/
def Cell : LockKind → Type
  | synch => Word
  | xchg => Quad
  | v2 => Quad

/-- The operations of each lock. -/
def file : (kind : LockKind) → LockFile kind.Loop kind.Cell
  | synch => synchLock
  | xchg => xchgLock
  | v2 => v2Lock

end LockKind

/-- A thread that takes the lock, holds it and releases it, over and over. -/
inductive FileUser (V : Type)
  | outside
  | locking (v : V) (pc : LockPc)
  | critical
  deriving DecidableEq

/-- What a thread may do next: begin an acquisition, or go on with what it does. -/
inductive FileChoice (V : Type)
  | acquire (v : V)
  | step
  deriving DecidableEq

namespace FileUser

variable {V : Type}

/-- Between acquisition and release. -/
def Holds (t : FileUser V) : Prop := t = .critical

/-- In the spin loop of an acquisition. -/
def Polls (t : FileUser V) : Prop := ∃ v, t = .locking v .poll

/-- Begun to acquire, and not got the lock yet. -/
def Tries (t : FileUser V) : Prop := ∃ v pc, t = .locking v pc

instance : DecidablePred (@Holds V) := fun t =>
  match t with
  | .critical => isTrue rfl
  | .outside => isFalse nofun
  | .locking _ _ => isFalse nofun

instance : DecidablePred (@Polls V) := fun t =>
  match t with
  | .locking v .poll => isTrue ⟨v, rfl⟩
  | .locking _ .attempt => isFalse (by rintro ⟨_, h⟩; cases h)
  | .outside => isFalse (by rintro ⟨_, h⟩; cases h)
  | .critical => isFalse (by rintro ⟨_, h⟩; cases h)

instance : DecidablePred (@Tries V) := fun t =>
  match t with
  | .locking v pc => isTrue ⟨v, pc, rfl⟩
  | .outside => isFalse (by rintro ⟨_, _, h⟩; cases h)
  | .critical => isFalse (by rintro ⟨_, _, h⟩; cases h)

end FileUser

variable {V W : Type} {F : LockFile V W} {n : ℕ}

/-- One step of a user of the lock. -/
def fileUser (F : LockFile V W) : Program (Fin n) W (FileUser V) (FileChoice V)
  | _, .acquire v, w, .outside => some (w, .locking v .attempt)
  | _, .step, w, .locking v pc =>
      let r := F.run v pc w
      match r.2 with
      | .goto pc' => some (r.1, .locking v pc')
      | .acquired => some (r.1, .critical)
  | _, .step, w, .critical => some (F.unlock w, .outside)
  | _, _, _, _ => none

/-- Nobody has started and the lock is initialised. -/
def fileInit (F : LockFile V W) (s : Config (Fin n) W (FileUser V)) : Prop :=
  F.init s.shared ∧ ∀ i, s.threads i = .outside

/-- `n` threads on one lock. -/
def fileSystem (F : LockFile V W) (n : ℕ) :
    System (Config (Fin n) W (FileUser V)) (Fin n × FileChoice V) :=
  interleave (fileInit F) (fileUser F)

/-- A user of `synch.h` seen as a user of its file. -/
def LockUser.toFile : LockUser → FileUser LockVariant
  | .outside => .outside
  | .locking v pc => .locking v pc
  | .critical => .critical

def LockChoice.toFile : LockChoice → FileChoice LockVariant
  | .acquire v => .acquire v
  | .step => .step

/-- The users of the locks of `synch.h` are the users of their file. -/
theorem lockUser_toFile (who : Fin n) (choice : LockChoice) (w : Word) (t : LockUser) :
    (lockUser who choice w t).map (Prod.map id LockUser.toFile) =
      fileUser synchLock who choice.toFile w t.toFile := by
  cases t with
  | outside => cases choice <;> rfl
  | critical => cases choice <;> rfl
  | locking v pc =>
      cases choice with
      | acquire v' => rfl
      | step =>
          simp only [lockUser, fileUser, LockChoice.toFile, LockUser.toFile, synchLock]
          cases (v.run pc w).2 <;> rfl

/-- One step of a user of the lock. -/
inductive FileMove (F : LockFile V W) (w : W) (t : FileUser V) :
    FileChoice V → W → FileUser V → Prop
  | acquire (v : V) (ht : t = .outside) : FileMove F w t (.acquire v) w (.locking v .attempt)
  | turn (v : V) (pc pc' : LockPc) (ht : t = .locking v pc)
      (hout : (F.run v pc w).2 = .goto pc') :
      FileMove F w t .step (F.run v pc w).1 (.locking v pc')
  | win (v : V) (pc : LockPc) (ht : t = .locking v pc) (hout : (F.run v pc w).2 = .acquired) :
      FileMove F w t .step (F.run v pc w).1 .critical
  | release (ht : t = .critical) : FileMove F w t .step (F.unlock w) .outside

theorem fileUser_cases {who : Fin n} {choice : FileChoice V} {w w' : W} {t t' : FileUser V}
    (hstep : fileUser F who choice w t = some (w', t')) : FileMove F w t choice w' t' := by
  cases t with
  | outside =>
      cases choice with
      | step => simp [fileUser] at hstep
      | acquire v =>
          simp only [fileUser, Option.some.injEq, Prod.mk.injEq] at hstep
          obtain ⟨rfl, rfl⟩ := hstep
          exact .acquire v rfl
  | critical =>
      cases choice with
      | acquire v => simp [fileUser] at hstep
      | step =>
          simp only [fileUser, Option.some.injEq, Prod.mk.injEq] at hstep
          obtain ⟨rfl, rfl⟩ := hstep
          exact .release rfl
  | locking v pc =>
      cases choice with
      | acquire v' => simp [fileUser] at hstep
      | step =>
          cases hout : (F.run v pc w).2 with
          | goto pc' =>
              simp only [fileUser, hout, Option.some.injEq, Prod.mk.injEq] at hstep
              obtain ⟨rfl, rfl⟩ := hstep
              exact .turn v pc pc' rfl hout
          | acquired =>
              simp only [fileUser, hout, Option.some.injEq, Prod.mk.injEq] at hstep
              obtain ⟨rfl, rfl⟩ := hstep
              exact .win v pc rfl hout

/-! ## Mutual exclusion -/

variable {s : Config (Fin n) W (FileUser V)} {who i : Fin n} {own : FileUser V}
  {holder : Option (Fin n)} {w : W}

/-- The word against the holder and the pollers. -/
def FileInv (F : LockFile V W) (holder : Option (Fin n))
    (s : Config (Fin n) W (FileUser V)) : Prop :=
  F.Says (holder ≠ none) (census FileUser.Polls s.threads) s.shared ∧
    Mutex.HeldBy FileUser.Holds s.threads holder

/-- The word has room for all threads but one. -/
def LockFile.Fits (F : LockFile V W) (n : ℕ) : Prop := ∀ k < n, F.Room k

theorem FileInv.room (h : FileInv F holder s) (hfits : F.Fits n) (hheld : holder ≠ none) :
    F.Room (census FileUser.Polls s.threads) := by
  obtain ⟨i, rfl⟩ := Option.ne_none_iff_exists'.mp hheld
  have hi : s.threads i = .critical := (h.2 i).mpr rfl
  refine hfits _ ?_
  simpa using census_lt_card (p := FileUser.Polls) (i := i) (by simp [FileUser.Polls, hi])

/-- Every step keeps the word in line with its users and is a step of the abstract lock or
none. -/
theorem FileInv.step (h : FileInv F holder s) (hfits : F.Fits n) {choice : FileChoice V}
    (hmove : FileMove F s.shared (s.threads who) choice w own) :
    ∃ holder', FileInv F holder' (s.move who w own) ∧
      (holder' = holder ∨ ∃ m, (Mutex.system (Fin n)).step holder m holder') := by
  obtain ⟨hcell, hheld⟩ := h
  cases hmove with
  | acquire v ht =>
      refine ⟨holder, ⟨?_, hheld.stay (by simp [FileUser.Holds, ht])⟩, .inl rfl⟩
      rw [Config.move, census_update_stay (by simp [FileUser.Polls, ht])]
      exact hcell
  | turn v pc pc' ht hout =>
      have hstay : Mutex.HeldBy FileUser.Holds (Function.update s.threads who
          (.locking v pc')) holder := hheld.stay (by simp [FileUser.Holds, ht])
      cases pc with
      | attempt =>
          have hpolls : ¬ FileUser.Polls (s.threads who) := by simp [FileUser.Polls, ht]
          rcases F.attempt v hcell (FileInv.room ⟨hcell, hheld⟩ hfits) with
            ⟨-, hwin, -⟩ | ⟨-, hlose, hnext⟩
          · rw [hwin] at hout
            cases hout
          · rw [hlose] at hout
            cases hout
            refine ⟨holder, ⟨?_, hstay⟩, .inl rfl⟩
            rw [Config.move, census_update_enter hpolls ⟨v, rfl⟩]
            exact hnext
      | poll =>
          have hpolls : FileUser.Polls (s.threads who) := ⟨v, ht⟩
          obtain ⟨hread, hcases⟩ := F.poll v hcell
          rw [hread]
          refine ⟨holder, ⟨?_, hstay⟩, .inl rfl⟩
          rcases hcases with ⟨-, hgoto⟩ | ⟨-, hgoto, hany⟩
          · rw [hgoto] at hout
            cases hout
            rw [Config.move, census_update_stay (iff_of_true ⟨v, rfl⟩ hpolls)]
            exact hcell
          · exact hany _
  | win v pc ht hout =>
      cases pc with
      | attempt =>
          rcases F.attempt v hcell (FileInv.room ⟨hcell, hheld⟩ hfits) with
            ⟨hfree, -, hnext⟩ | ⟨-, hlose, -⟩
          · obtain rfl := not_not.mp hfree
            refine ⟨some who, ⟨?_, hheld.acquire rfl⟩, .inr ⟨.acquire who, rfl, rfl⟩⟩
            rw [Config.move, census_update_stay (by simp [FileUser.Polls, ht])]
            simpa using hnext
          · rw [hlose] at hout
            cases hout
      | poll =>
          rcases (F.poll v hcell).2 with ⟨-, hgoto⟩ | ⟨-, hgoto, -⟩
          · rw [hgoto] at hout
            cases hout
          · rw [hgoto] at hout
            cases hout
  | release ht =>
      have hwho := (hheld who).mp ht
      refine ⟨none, ⟨?_, hheld.release ht (by simp [FileUser.Holds])⟩,
        .inr ⟨.release who, hwho, rfl⟩⟩
      rw [Config.move, census_update_stay (by simp [FileUser.Polls, ht])]
      simpa using F.says_unlock _ s.shared

/-- The users of a lock refine the abstract lock. -/
theorem fileSystem_simulates_mutex (hfits : F.Fits n) :
    System.Simulates (fileSystem F n) (fun _ _ => True) (Mutex.system (Fin n))
      (fun _ _ => True) (fun s holder => FileInv F holder s) where
  init s hinit := by
    have hnobody : ∀ i, ¬ (s.threads i).Polls := by simp [hinit.2, FileUser.Polls]
    refine ⟨none, rfl, ?_, fun i => by simp [hinit.2 i, FileUser.Holds]⟩
    rw [census_eq_zero_iff.mpr hnobody]
    simpa using F.says_init hinit.1
  step s label t holder h _ hstep := by
    obtain ⟨w, own, hrun, rfl⟩ := interleave_step_iff.mp hstep
    obtain ⟨holder', hnext, hmove⟩ := h.step hfits (fileUser_cases hrun)
    exact ⟨holder', hnext, hmove.imp id fun ⟨m, hm⟩ => ⟨m, trivial, hm⟩⟩

theorem fileInv_of_reachable (hfits : F.Fits n) (hreach : (fileSystem F n).Reachable s) :
    ∃ holder, FileInv F holder s :=
  have ⟨holder, _, h⟩ := (fileSystem_simulates_mutex hfits).reachable hreach
  ⟨holder, h⟩

/-- The lock is held by one thread at a time, an attempt takes it exactly when nobody holds
it, and after a release it can be taken at the first attempt. -/
structure FileCorrect (F : LockFile V W) (s : Config (Fin n) W (FileUser V)) : Prop where
  exclusive : ∀ i j, (s.threads i).Holds → (s.threads j).Holds → i = j
  attempt_iff : ∀ v, (F.run v .attempt s.shared).2 = .acquired ↔ ∀ i, ¬ (s.threads i).Holds
  acquirable : ∀ v, (F.run v .attempt (F.unlock s.shared)).2 = .acquired

theorem FileInv.correct (h : FileInv F holder s) (hfits : F.Fits n) : FileCorrect F s := by
  refine ⟨fun i j => h.2.unique, fun v => ?_, fun v => ?_⟩
  · rw [← h.2.eq_none_iff]
    rcases F.attempt v h.1 (h.room hfits) with ⟨hfree, hout, -⟩ | ⟨hheld, hout, -⟩
    · exact iff_of_true hout (not_not.mp hfree)
    · rw [hout]
      exact iff_of_false nofun hheld
  · rcases F.attempt v (F.says_unlock 0 s.shared) False.elim with ⟨-, hout, -⟩ | ⟨hheld, -⟩
    · exact hout
    · exact hheld.elim

/-- The exchanging lock of `spin.c` excludes any number of threads from each other. Its
decrementing lock and the locks of `synch.h`, however their loops are mixed, exclude up to
`2 ^ 31` of them. -/
theorem spinLocks_exclude {kind : LockKind} (hfits : kind.file.Fits n)
    {s : Config (Fin n) kind.Cell (FileUser kind.Loop)}
    (hreach : (fileSystem kind.file n).Reachable s) : FileCorrect kind.file s := by
  obtain ⟨holder, h⟩ := fileInv_of_reachable hfits hreach
  exact h.correct hfits

/-- Three threads, of which two poll while the third holds the lock. -/
def contended : List (Fin 3 × FileChoice Unit) :=
  [(2, .acquire ()), (2, .step), (0, .acquire ()), (1, .acquire ()), (0, .step), (1, .step),
    (0, .step)]

theorem xchg_fits (n : ℕ) : LockKind.xchg.file.Fits n := fun _ _ => trivial

theorem synch_fits (hn : n ≤ 2 ^ 31) : LockKind.synch.file.Fits n := fun _ hk => hk.trans_le hn

theorem v2_fits (hn : n ≤ 2 ^ 31) : LockKind.v2.file.Fits n := fun _ hk => hk.trans_le hn

/-- Nobody has started, and the lock is initialised. -/
def v2Start (n : ℕ) : Config (Fin n) Quad (FileUser Unit) where
  shared := Spin.spinInitV2 0
  threads _ := .outside

theorem v2Start_reachable : (fileSystem LockKind.v2.file n).Reachable (v2Start n) :=
  .of_init ⟨⟨0, rfl⟩, fun _ => rfl⟩

theorem spinLocks_exclude_contended :
    FileCorrect v2Lock (System.exec (fileUser v2Lock).next (v2Start 3) contended) :=
  @spinLocks_exclude 3 .v2 (v2_fits (by decide)) _ (System.reachable_exec _ v2Start_reachable)

end Htsynch
