/-
# The lock-protected sense-reversing barrier of spin.c and spin.h

The barrier exists as a function and as a macro with the same instructions. The
arrival is counted and the round released inside a critical section that an
`xchgl` lock protects, and then every thread, the releasing one included, waits
for its sense.

`lock` and `release_flag` are 64-bit `long`s. The lock instructions and the
comparison in the wait loop see their lower halves only, while the compiler's
store to `release_flag` extends the sense. Every load and every store is one
atomic step.
-/

import Htsynch.Foundations.Interleaving
import Htsynch.Foundations.SenseReversal
import Htsynch.Synch.SpinLock
import Htsynch.Synch.SpinWait
import Htsynch.Threads

namespace Htsynch.Spin

open Foundations

/-- `spin_lock`: `xchgl` in a one; the lock is taken if a zero came out. -/
def spinLock : LockPc → Quad → Quad × LockOutcome
  | .attempt, spinVar =>
      (spinVar.storeLow 1, if spinVar.low ≠ 0 then .goto .poll else .acquired)
  | .poll, spinVar =>
      (spinVar, if spinVar.low ≠ 0 then .goto .poll else .goto .attempt)

/-- `spin_unlock`: `movl $0, %0`. -/
def spinUnlock (spinVar : Quad) : Quad := spinVar.storeLow 0

/-- `#define spin_init spin_unlock`. -/
def spinInit : Quad → Quad := spinUnlock

/-- `spin_on_condition`: the loop of `synch.h` with a 32-bit comparison. -/
def spinOnCondition (pc : WaitPc) (spinVar : Quad) (conditionVal : Word) : WaitOutcome :=
  Htsynch.spinOnCondition pc spinVar.low conditionVal

/-- `spin_barrier_t`. -/
structure SpinBarrier where
  lock : Quad
  releaseFlag : Quad
  currentCount : Word
  total : Word
  deriving DecidableEq

/-- `spin_barrier_init`. The upper half of the lock stays as it is found. -/
def spinBarrierInit (sb : SpinBarrier) (total : Word) : SpinBarrier where
  lock := spinInit sb.lock
  releaseFlag := 0
  currentCount := 0
  total := total

/-- `spin_barrier_init_lsense`. -/
def spinBarrierInitLsense : Word := 0

/-- Where a thread is inside the barrier. -/
inductive SpinPc
  /-- Between two calls. -/
  | outside
  /-- In `spin_lock`. -/
  | lock (pc : LockPc)
  /-- `current_count++`: the load. -/
  | load
  /-- `current_count++`: the store of the incremented value. -/
  | store (count : Word)
  /-- `if (current_count == total)`. -/
  | read
  /-- `current_count = 0`. -/
  | reset
  /-- `release_flag = *lsense`. -/
  | release
  /-- `spin_unlock`. -/
  | unlock
  /-- In `spin_on_condition`. -/
  | wait (pc : WaitPc)
  deriving DecidableEq

namespace SpinPc

/-- The thread has flipped its sense and not returned since. -/
def inCall : SpinPc → Bool
  | .outside => false
  | _ => true

/-- The thread has stored the incremented count of its current call. -/
def counted : SpinPc → Bool
  | .outside => false
  | .lock _ => false
  | .load => false
  | .store _ => false
  | _ => true

/-- The thread holds the lock. -/
def critical : SpinPc → Bool
  | .outside => false
  | .lock _ => false
  | .wait _ => false
  | _ => true

end SpinPc

instance : CallSite SpinPc := ⟨SpinPc.inCall, SpinPc.counted⟩

/-- A thread at the barrier; it arrives with the store of the incremented count. -/
abbrev SpinThread := SenseThread SpinPc Word

/-- A thread that has not called the barrier yet. -/
def SpinThread.start : SpinThread := ⟨.outside, spinBarrierInitLsense, 0, 0⟩

section

variable {ι : Type}

/-- One atomic step of a thread that calls the barrier `rounds` times. -/
def lsenseBarrier (rounds : ℕ) : Program ι SpinBarrier SpinThread Unit
  | _, _, sb, t =>
    match t.pc with
    | .outside =>
        if t.calls < rounds then some (sb, t.enter (.lock .attempt) (~~~t.lsense)) else none
    | .lock pc =>
        let r := spinLock pc sb.lock
        match r.2 with
        | .goto pc' => some ({ sb with lock := r.1 }, t.goto (.lock pc'))
        | .acquired => some ({ sb with lock := r.1 }, t.goto .load)
    | .load => some (sb, t.goto (.store (sb.currentCount + 1)))
    | .store count => some ({ sb with currentCount := count }, t.arrive .read)
    | .read =>
        if sb.currentCount = sb.total then some (sb, t.goto .reset)
        else some (sb, t.goto .unlock)
    | .reset => some ({ sb with currentCount := 0 }, t.goto .release)
    | .release => some ({ sb with releaseFlag := t.lsense.signExtend 64 }, t.goto .unlock)
    | .unlock => some ({ sb with lock := spinUnlock sb.lock }, t.goto (.wait .entry))
    | .wait pc =>
        match spinOnCondition pc sb.releaseFlag t.lsense with
        | .goto pc' => some (sb, t.goto (.wait pc'))
        | .done => some (sb, t.ret .outside)

/-- The function `spin_barrier_lsense`, called `rounds` times. -/
def spinBarrierLsense (rounds : ℕ) : Program ι SpinBarrier SpinThread Unit :=
  lsenseBarrier rounds

/-- The macro `SPIN_BARRIER_LSENSE`, run `rounds` times. -/
def SPIN_BARRIER_LSENSE (rounds : ℕ) : Program ι SpinBarrier SpinThread Unit :=
  lsenseBarrier rounds

/-- The two forms of the barrier. -/
inductive SpinForm
  | called
  | inlined
  deriving DecidableEq

/-- What each form stands for. -/
def SpinForm.program : SpinForm → ℕ → Program ι SpinBarrier SpinThread Unit
  | .called => spinBarrierLsense
  | .inlined => SPIN_BARRIER_LSENSE

theorem SpinForm.program_eq (form : SpinForm) (rounds : ℕ) :
    (form.program rounds : Program ι SpinBarrier SpinThread Unit) = lsenseBarrier rounds := by
  cases form <;> rfl

end

/-- The barrier and all senses are initialised, and nobody has called yet. -/
def spinInitial (n : ThreadCount) (s : Config (Fin n.val) SpinBarrier SpinThread) : Prop :=
  (∃ sb, s.shared = spinBarrierInit sb n.word) ∧ ∀ i, s.threads i = .start

/-- `n` threads that each call the barrier `rounds` times. -/
def spinSystem (form : SpinForm) (n : ThreadCount) (rounds : ℕ) :
    System (Config (Fin n.val) SpinBarrier SpinThread) (Fin n.val × Unit) :=
  interleave (spinInitial n) (form.program rounds)

/-- One step of a thread in the barrier. -/
inductive SpinMove (rounds : ℕ) (sb : SpinBarrier) (t : SpinThread) :
    SpinBarrier → SpinThread → Prop
  | enter (hpc : t.pc = .outside) (hcalls : t.calls < rounds) :
      SpinMove rounds sb t sb (t.enter (.lock .attempt) (~~~t.lsense))
  | lose (hpc : t.pc = .lock .attempt) (htaken : sb.lock.low ≠ 0) :
      SpinMove rounds sb t { sb with lock := sb.lock.storeLow 1 } (t.goto (.lock .poll))
  | win (hpc : t.pc = .lock .attempt) (hfree : sb.lock.low = 0) :
      SpinMove rounds sb t { sb with lock := sb.lock.storeLow 1 } (t.goto .load)
  | spin (pc : LockPc) (hpc : t.pc = .lock .poll) :
      SpinMove rounds sb t sb (t.goto (.lock pc))
  | load (hpc : t.pc = .load) :
      SpinMove rounds sb t sb (t.goto (.store (sb.currentCount + 1)))
  | store (count : Word) (hpc : t.pc = .store count) :
      SpinMove rounds sb t { sb with currentCount := count } (t.arrive .read)
  | full (hpc : t.pc = .read) (hcount : sb.currentCount = sb.total) :
      SpinMove rounds sb t sb (t.goto .reset)
  | short (hpc : t.pc = .read) (hcount : sb.currentCount ≠ sb.total) :
      SpinMove rounds sb t sb (t.goto .unlock)
  | reset (hpc : t.pc = .reset) :
      SpinMove rounds sb t { sb with currentCount := 0 } (t.goto .release)
  | publish (hpc : t.pc = .release) :
      SpinMove rounds sb t { sb with releaseFlag := t.lsense.signExtend 64 } (t.goto .unlock)
  | unlock (hpc : t.pc = .unlock) :
      SpinMove rounds sb t { sb with lock := spinUnlock sb.lock } (t.goto (.wait .entry))
  | poll (pc pc' : WaitPc) (hpc : t.pc = .wait pc) :
      SpinMove rounds sb t sb (t.goto (.wait pc'))
  | leave (pc : WaitPc) (hpc : t.pc = .wait pc) (hflag : sb.releaseFlag.low = t.lsense) :
      SpinMove rounds sb t sb (t.ret .outside)

theorem lsenseBarrier_cases {ι : Type} {who : ι} {rounds : ℕ} {sb sb' : SpinBarrier}
    {t t' : SpinThread} (hstep : lsenseBarrier rounds who () sb t = some (sb', t')) :
    SpinMove rounds sb t sb' t' := by
  cases hpc : t.pc with
  | outside =>
      simp only [lsenseBarrier, hpc, Option.ite_none_right_eq_some, Option.some.injEq,
        Prod.mk.injEq] at hstep
      obtain ⟨hcalls, rfl, rfl⟩ := hstep
      exact .enter hpc hcalls
  | lock pc =>
      cases pc with
      | attempt =>
          by_cases htaken : sb.lock.low ≠ 0
          · simp only [lsenseBarrier, hpc, spinLock, if_pos htaken, Option.some.injEq,
              Prod.mk.injEq] at hstep
            obtain ⟨rfl, rfl⟩ := hstep
            exact .lose hpc htaken
          · simp only [lsenseBarrier, hpc, spinLock, if_neg htaken, Option.some.injEq,
              Prod.mk.injEq] at hstep
            obtain ⟨rfl, rfl⟩ := hstep
            exact .win hpc (not_not.mp htaken)
      | poll =>
          by_cases htaken : sb.lock.low ≠ 0
          · simp only [lsenseBarrier, hpc, spinLock, if_pos htaken, Option.some.injEq,
              Prod.mk.injEq] at hstep
            obtain ⟨rfl, rfl⟩ := hstep
            exact .spin .poll hpc
          · simp only [lsenseBarrier, hpc, spinLock, if_neg htaken, Option.some.injEq,
              Prod.mk.injEq] at hstep
            obtain ⟨rfl, rfl⟩ := hstep
            exact .spin .attempt hpc
  | load =>
      simp only [lsenseBarrier, hpc, Option.some.injEq, Prod.mk.injEq] at hstep
      obtain ⟨rfl, rfl⟩ := hstep
      exact .load hpc
  | store count =>
      simp only [lsenseBarrier, hpc, Option.some.injEq, Prod.mk.injEq] at hstep
      obtain ⟨rfl, rfl⟩ := hstep
      exact .store count hpc
  | read =>
      by_cases hcount : sb.currentCount = sb.total
      · simp only [lsenseBarrier, hpc, if_pos hcount, Option.some.injEq,
          Prod.mk.injEq] at hstep
        obtain ⟨rfl, rfl⟩ := hstep
        exact .full hpc hcount
      · simp only [lsenseBarrier, hpc, if_neg hcount, Option.some.injEq,
          Prod.mk.injEq] at hstep
        obtain ⟨rfl, rfl⟩ := hstep
        exact .short hpc hcount
  | reset =>
      simp only [lsenseBarrier, hpc, Option.some.injEq, Prod.mk.injEq] at hstep
      obtain ⟨rfl, rfl⟩ := hstep
      exact .reset hpc
  | release =>
      simp only [lsenseBarrier, hpc, Option.some.injEq, Prod.mk.injEq] at hstep
      obtain ⟨rfl, rfl⟩ := hstep
      exact .publish hpc
  | unlock =>
      simp only [lsenseBarrier, hpc, Option.some.injEq, Prod.mk.injEq] at hstep
      obtain ⟨rfl, rfl⟩ := hstep
      exact .unlock hpc
  | wait pc =>
      cases hwait : spinOnCondition pc sb.releaseFlag t.lsense with
      | goto pc' =>
          simp only [lsenseBarrier, hpc, hwait, Option.some.injEq, Prod.mk.injEq] at hstep
          obtain ⟨rfl, rfl⟩ := hstep
          exact .poll pc pc' hpc
      | done =>
          simp only [lsenseBarrier, hpc, hwait, Option.some.injEq, Prod.mk.injEq] at hstep
          obtain ⟨rfl, rfl⟩ := hstep
          exact .leave pc hpc (spinOnCondition_eq_done hwait)

end Htsynch.Spin
