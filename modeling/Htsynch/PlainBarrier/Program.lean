/-
# The barrier without a sense

`synch.h` and `spin.c` have the same `spin_barrier`, each over its own lock, its own
`spin_barrier_t` and its own initialization. The first to arrive clears the flag and the
arrival is counted under the lock; but the count is compared after the unlock, and who
finds it full resets it and sets the flag outside the critical section.

A file is given by its operations, with what the proofs use of them. Every load and every
store is one atomic step.
-/

import Htsynch.Spin.SpinBarrier
import Htsynch.Synch.LsenseBarrier

namespace Htsynch

open Foundations

/-- What the fields of a `spin_barrier_t` hold; the flag as a 64-bit value. -/
structure BarrierView where
  flag : Quad
  count : Word
  total : Word

/-- What `spin_barrier` uses of its file. -/
structure BarrierFile (B : Type) where
  /-- What `spin_barrier_init` may have left for so many threads. -/
  init : Word → B → Prop
  lock : LockPc → B → B × LockOutcome
  unlock : B → B
  setFlag : Word → B → B
  setCount : Word → B → B
  /-- `spin_on_condition(&(sb->release_flag), 1)`. -/
  waitFlag : WaitPc → B → WaitOutcome
  view : B → BarrierView
  /-- The lock is free. -/
  Free : B → Prop
  /-- What the lock says while so many threads poll it. -/
  Says : Prop → ℕ → B → Prop
  view_lock : ∀ pc b, view (lock pc b).1 = view b
  view_unlock : ∀ b, view (unlock b) = view b
  view_setFlag : ∀ v b, view (setFlag v b) = { view b with flag := v.signExtend 64 }
  view_setCount : ∀ c b, view (setCount c b) = { view b with count := c }
  waitFlag_eq : ∀ pc b, waitFlag pc b = spinOnCondition pc (view b).flag.low 1
  view_init : ∀ {w b}, init w b →
    ((view b).flag = 0 ∨ (view b).flag = 1) ∧ (view b).count = 0 ∧ (view b).total = w
  says_init : ∀ {w b}, init w b → Says False 0 b
  says_setFlag : ∀ {held k b} v, Says held k b → Says held k (setFlag v b)
  says_setCount : ∀ {held k b} c, Says held k b → Says held k (setCount c b)
  says_unlock : ∀ k b, Says False k (unlock b)
  free_iff : ∀ {held k b}, Says held k b → (Free b ↔ ¬ held)
  /-- An attempt wins exactly on a free lock. -/
  attempt : ∀ {held k b}, Says held k b → k < 2 ^ 31 →
    ¬ held ∧ (lock .attempt b).2 = .acquired ∧ Says True k (lock .attempt b).1 ∨
      held ∧ (lock .attempt b).2 = .goto .poll ∧ Says held (k + 1) (lock .attempt b).1
  /-- A poll only reads, and leads back to an attempt exactly on a free lock. -/
  poll : ∀ {held k b}, Says held k b → (lock .poll b).1 = b ∧
    (held ∧ (lock .poll b).2 = .goto .poll ∨
      ¬ held ∧ (lock .poll b).2 = .goto .attempt ∧ ∀ k', Says held k' b)

/-- Where a thread is inside the barrier. -/
inductive PlainPc
  /-- Between two calls. -/
  | outside
  /-- In the acquisition loop of the lock. -/
  | lock (pc : LockPc)
  /-- `if (current_count == 0)`. -/
  | test
  /-- `release_flag = 0`. -/
  | clear
  /-- `current_count++`: the load. -/
  | load
  /-- `current_count++`: the store of the incremented value. -/
  | store (count : Word)
  | unlock
  /-- The comparison of `current_count` after the unlock. -/
  | read
  /-- `current_count = 0`. -/
  | reset
  /-- `release_flag = 1`. -/
  | release
  /-- In `spin_on_condition`. -/
  | wait (pc : WaitPc)
  deriving DecidableEq

namespace PlainPc

/-- The thread has called the barrier and not returned since. -/
def inCall : PlainPc → Bool
  | outside => false
  | _ => true

/-- The thread has stored the incremented count of its current call. -/
def counted : PlainPc → Bool
  | outside => false
  | lock _ => false
  | test => false
  | clear => false
  | load => false
  | store _ => false
  | _ => true

/-- The thread holds the lock. -/
def critical : PlainPc → Bool
  | outside => false
  | lock _ => false
  | read => false
  | reset => false
  | release => false
  | wait _ => false
  | _ => true

/-- The thread is past the test of the count and has not stored to it yet. -/
def updating : PlainPc → Bool
  | clear => true
  | load => true
  | store _ => true
  | _ => false

/-- The thread is past the place where the flag is cleared, and has not stored to the
count yet. -/
def counting : PlainPc → Bool
  | load => true
  | store _ => true
  | _ => false

/-- The thread has counted itself and not compared the count with the total yet, or found
it full and not reset it yet. -/
def finishing : PlainPc → Bool
  | unlock => true
  | read => true
  | reset => true
  | _ => false

end PlainPc

instance : CallSite PlainPc := ⟨PlainPc.inCall, PlainPc.counted⟩

/-- A thread at the barrier; it has no sense, and arrives with the store of the
incremented count. -/
abbrev PlainThread := SenseThread PlainPc Unit

/-- A thread that has not called the barrier yet. -/
def PlainThread.start : PlainThread := ⟨.outside, (), 0, 0⟩

variable {ι B : Type}

/-- `spin_barrier` over the operations of a file, called `rounds` times. -/
def plainBarrier (F : BarrierFile B) (rounds : ℕ) : Program ι B PlainThread Unit
  | _, _, b, t =>
    match t.pc with
    | .outside => if t.calls < rounds then some (b, t.goto (.lock .attempt)) else none
    | .lock pc =>
        let r := F.lock pc b
        match r.2 with
        | .goto pc' => some (r.1, t.goto (.lock pc'))
        | .acquired => some (r.1, t.goto .test)
    | .test => some (b, t.goto (if (F.view b).count = 0 then .clear else .load))
    | .clear => some (F.setFlag 0 b, t.goto .load)
    | .load => some (b, t.goto (.store ((F.view b).count + 1)))
    | .store count => some (F.setCount count b, t.arrive .unlock)
    | .unlock => some (F.unlock b, t.goto .read)
    | .read =>
        some (b, t.goto (if (F.view b).count = (F.view b).total then .reset else .wait .entry))
    | .reset => some (F.setCount 0 b, t.goto .release)
    | .release => some (F.setFlag 1 b, t.ret .outside)
    | .wait pc =>
        match F.waitFlag pc b with
        | .goto pc' => some (b, t.goto (.wait pc'))
        | .done => some (b, t.ret .outside)

/-- The operations of `synch.h`. -/
def synchBarrier : BarrierFile SpinBarrier where
  init nthreads sb := sb = spinBarrierInit nthreads
  lock pc sb := ({ sb with lock := (spinLockFast pc sb.lock).1 }, (spinLockFast pc sb.lock).2)
  unlock sb := { sb with lock := spinUnlock sb.lock }
  setFlag v sb := { sb with releaseFlag := v }
  setCount c sb := { sb with currentCount := c }
  waitFlag pc sb := spinOnCondition pc sb.releaseFlag 1
  view sb := ⟨sb.releaseFlag.signExtend 64, sb.currentCount, sb.nthreads⟩
  Free sb := sb.lock = SPIN_LOCK_UNLOCKED
  Says held k sb := LockWord held k sb.lock
  view_lock _ _ := rfl
  view_unlock _ := rfl
  view_setFlag _ _ := rfl
  view_setCount _ _ := rfl
  waitFlag_eq pc sb := by rw [Quad.low_signExtend]
  view_init := by
    rintro w _ rfl
    exact ⟨.inr (by decide : (1 : Word).signExtend 64 = 1), rfl, rfl⟩
  says_init := by
    rintro w _ rfl
    exact LockWord.init
  says_setFlag _ h := h
  says_setCount _ h := h
  says_unlock _ sb := LockWord.unlock sb.lock
  free_iff h := h.eq_one_iff
  attempt {held} _ _ h hbound := by
    by_cases hheld : held
    · obtain ⟨hout, hsays⟩ := h.attempt_held (v := .fast) hheld hbound
      exact .inr ⟨hheld, hout, hsays⟩
    · obtain ⟨hout, hsays⟩ := h.attempt_free (v := .fast) hheld
      exact .inl ⟨hheld, hout, hsays⟩
  poll {_ _ sb} h := by
    obtain ⟨hword, hout⟩ := h.poll (v := .fast)
    refine ⟨congrArg (fun w => ({ sb with lock := w } : SpinBarrier)) hword, hout.imp id ?_⟩
    rintro ⟨hfree, hgoto⟩
    exact ⟨hfree, hgoto, fun _ => h.of_free hfree⟩

/-- The operations of `spin.c`. -/
def spinBarrier : BarrierFile Spin.SpinBarrier where
  init total sb := ∃ sb₀, sb = Spin.spinBarrierInit sb₀ total
  lock pc sb := ({ sb with lock := (Spin.spinLock pc sb.lock).1 }, (Spin.spinLock pc sb.lock).2)
  unlock sb := { sb with lock := Spin.spinUnlock sb.lock }
  setFlag v sb := { sb with releaseFlag := v.signExtend 64 }
  setCount c sb := { sb with currentCount := c }
  waitFlag pc sb := Spin.spinOnCondition pc sb.releaseFlag 1
  view sb := ⟨sb.releaseFlag, sb.currentCount, sb.total⟩
  Free sb := sb.lock.low = 0
  Says held _ sb := sb.lock.low = 0 ↔ ¬ held
  view_lock _ _ := rfl
  view_unlock _ := rfl
  view_setFlag _ _ := rfl
  view_setCount _ _ := rfl
  waitFlag_eq _ _ := rfl
  view_init := by
    rintro w _ ⟨sb₀, rfl⟩
    exact ⟨.inl rfl, rfl, rfl⟩
  says_init := by
    rintro w _ ⟨sb₀, rfl⟩
    exact iff_of_true Quad.low_storeLow id
  says_setFlag _ h := h
  says_setCount _ h := h
  says_unlock _ _ := iff_of_true Quad.low_storeLow id
  free_iff h := h
  attempt {held _ sb} h _ := by
    have htaken : (Spin.spinLock .attempt sb.lock).1.low ≠ 0 := by
      rw [Spin.spinLock, Quad.low_storeLow]
      decide
    by_cases hheld : held
    · have hlow : sb.lock.low ≠ 0 := fun hzero => h.mp hzero hheld
      exact .inr ⟨hheld, if_pos hlow, iff_of_false htaken (not_not.mpr hheld)⟩
    · have hlow : ¬ sb.lock.low ≠ 0 := not_not.mpr (h.mpr hheld)
      exact .inl ⟨hheld, if_neg hlow, iff_of_false htaken (not_not.mpr trivial)⟩
  poll {held _ sb} h := by
    refine ⟨rfl, ?_⟩
    by_cases hheld : held
    · have hlow : sb.lock.low ≠ 0 := fun hzero => h.mp hzero hheld
      exact .inl ⟨hheld, if_pos hlow⟩
    · have hlow : ¬ sb.lock.low ≠ 0 := not_not.mpr (h.mpr hheld)
      exact .inr ⟨hheld, if_neg hlow, fun _ => h⟩

/-- The files that have the barrier. -/
inductive PlainFile
  | synchH
  | spinC
  deriving DecidableEq

/-- The `spin_barrier_t` of each file. -/
def PlainFile.Barrier : PlainFile → Type
  | synchH => SpinBarrier
  | spinC => Spin.SpinBarrier

/-- The operations of each file. -/
def PlainFile.ops : (file : PlainFile) → BarrierFile file.Barrier
  | synchH => synchBarrier
  | spinC => spinBarrier

/-- The barrier is initialised and nobody has called yet. -/
def plainInitial (F : BarrierFile B) (n : ThreadCount) (s : Config (Fin n.val) B PlainThread) :
    Prop :=
  F.init n.word s.shared ∧ ∀ i, s.threads i = .start

/-- `n` threads that each call the barrier `rounds` times. -/
def plainSystem (F : BarrierFile B) (n : ThreadCount) (rounds : ℕ) :
    System (Config (Fin n.val) B PlainThread) (Fin n.val × Unit) :=
  interleave (plainInitial F n) (plainBarrier F rounds)

/-- One step of a thread in the barrier. -/
inductive PlainMove (F : BarrierFile B) (rounds : ℕ) (b : B) (t : PlainThread) :
    B → PlainThread → Prop
  | enter (hpc : t.pc = .outside) (hcalls : t.calls < rounds) :
      PlainMove F rounds b t b (t.goto (.lock .attempt))
  | spin (pc pc' : LockPc) (hpc : t.pc = .lock pc) (hout : (F.lock pc b).2 = .goto pc') :
      PlainMove F rounds b t (F.lock pc b).1 (t.goto (.lock pc'))
  | acquire (pc : LockPc) (hpc : t.pc = .lock pc) (hout : (F.lock pc b).2 = .acquired) :
      PlainMove F rounds b t (F.lock pc b).1 (t.goto .test)
  | first (hpc : t.pc = .test) (hcount : (F.view b).count = 0) :
      PlainMove F rounds b t b (t.goto .clear)
  | later (hpc : t.pc = .test) (hcount : (F.view b).count ≠ 0) :
      PlainMove F rounds b t b (t.goto .load)
  | clear (hpc : t.pc = .clear) : PlainMove F rounds b t (F.setFlag 0 b) (t.goto .load)
  | load (hpc : t.pc = .load) :
      PlainMove F rounds b t b (t.goto (.store ((F.view b).count + 1)))
  | store (count : Word) (hpc : t.pc = .store count) :
      PlainMove F rounds b t (F.setCount count b) (t.arrive .unlock)
  | unlock (hpc : t.pc = .unlock) : PlainMove F rounds b t (F.unlock b) (t.goto .read)
  | full (hpc : t.pc = .read) (hcount : (F.view b).count = (F.view b).total) :
      PlainMove F rounds b t b (t.goto .reset)
  | short (hpc : t.pc = .read) (hcount : (F.view b).count ≠ (F.view b).total) :
      PlainMove F rounds b t b (t.goto (.wait .entry))
  | reset (hpc : t.pc = .reset) : PlainMove F rounds b t (F.setCount 0 b) (t.goto .release)
  | release (hpc : t.pc = .release) : PlainMove F rounds b t (F.setFlag 1 b) (t.ret .outside)
  | poll (pc pc' : WaitPc) (hpc : t.pc = .wait pc) :
      PlainMove F rounds b t b (t.goto (.wait pc'))
  | leave (pc : WaitPc) (hpc : t.pc = .wait pc) (hflag : (F.view b).flag.low = 1) :
      PlainMove F rounds b t b (t.ret .outside)

theorem plainBarrier_cases {F : BarrierFile B} {who : ι} {rounds : ℕ} {b b' : B}
    {t t' : PlainThread} (hstep : plainBarrier F rounds who () b t = some (b', t')) :
    PlainMove F rounds b t b' t' := by
  cases hpc : t.pc with
  | outside =>
      simp only [plainBarrier, hpc, Option.ite_none_right_eq_some, Option.some.injEq,
        Prod.mk.injEq] at hstep
      obtain ⟨hcalls, rfl, rfl⟩ := hstep
      exact .enter hpc hcalls
  | lock pc =>
      cases hout : (F.lock pc b).2 with
      | goto pc' =>
          simp only [plainBarrier, hpc, hout, Option.some.injEq, Prod.mk.injEq] at hstep
          obtain ⟨rfl, rfl⟩ := hstep
          exact .spin pc pc' hpc hout
      | acquired =>
          simp only [plainBarrier, hpc, hout, Option.some.injEq, Prod.mk.injEq] at hstep
          obtain ⟨rfl, rfl⟩ := hstep
          exact .acquire pc hpc hout
  | test =>
      simp only [plainBarrier, hpc, Option.some.injEq, Prod.mk.injEq] at hstep
      obtain ⟨rfl, rfl⟩ := hstep
      by_cases hcount : (F.view b).count = 0
      · rw [if_pos hcount]
        exact .first hpc hcount
      · rw [if_neg hcount]
        exact .later hpc hcount
  | clear =>
      simp only [plainBarrier, hpc, Option.some.injEq, Prod.mk.injEq] at hstep
      obtain ⟨rfl, rfl⟩ := hstep
      exact .clear hpc
  | load =>
      simp only [plainBarrier, hpc, Option.some.injEq, Prod.mk.injEq] at hstep
      obtain ⟨rfl, rfl⟩ := hstep
      exact .load hpc
  | store count =>
      simp only [plainBarrier, hpc, Option.some.injEq, Prod.mk.injEq] at hstep
      obtain ⟨rfl, rfl⟩ := hstep
      exact .store count hpc
  | unlock =>
      simp only [plainBarrier, hpc, Option.some.injEq, Prod.mk.injEq] at hstep
      obtain ⟨rfl, rfl⟩ := hstep
      exact .unlock hpc
  | read =>
      simp only [plainBarrier, hpc, Option.some.injEq, Prod.mk.injEq] at hstep
      obtain ⟨rfl, rfl⟩ := hstep
      by_cases hcount : (F.view b).count = (F.view b).total
      · rw [if_pos hcount]
        exact .full hpc hcount
      · rw [if_neg hcount]
        exact .short hpc hcount
  | reset =>
      simp only [plainBarrier, hpc, Option.some.injEq, Prod.mk.injEq] at hstep
      obtain ⟨rfl, rfl⟩ := hstep
      exact .reset hpc
  | release =>
      simp only [plainBarrier, hpc, Option.some.injEq, Prod.mk.injEq] at hstep
      obtain ⟨rfl, rfl⟩ := hstep
      exact .release hpc
  | wait pc =>
      cases hwait : F.waitFlag pc b with
      | goto pc' =>
          simp only [plainBarrier, hpc, hwait, Option.some.injEq, Prod.mk.injEq] at hstep
          obtain ⟨rfl, rfl⟩ := hstep
          exact .poll pc pc' hpc
      | done =>
          simp only [plainBarrier, hpc, hwait, Option.some.injEq, Prod.mk.injEq] at hstep
          obtain ⟨rfl, rfl⟩ := hstep
          rw [F.waitFlag_eq] at hwait
          exact .leave pc hpc (spinOnCondition_eq_done hwait)

end Htsynch
