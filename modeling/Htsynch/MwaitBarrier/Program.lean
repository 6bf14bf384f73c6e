/-
# The MWAIT barrier

The last thread to arrive does not release the lock it counted its arrival under.
It notifies the monitored byte and keeps the lock for the whole round; the threads
leave by decrementing the count, and whoever brings it to zero releases the lock.
The others release the lock after counting themselves and sleep on the byte.

The two functions differ in the region they use. Every load, every store and every
locked instruction is one atomic step. `init_count` is copied on entry. The lists of
results of `atomic_dec_and_test`, the arrivals and the calls only keep account of
what a thread has done.
-/

import Htsynch.Foundations.Interleaving
import Htsynch.Kernel.Mwmon
import Htsynch.Synch.SpinLock
import Htsynch.Threads

namespace Htsynch

open Foundations

/-- `mwait_barrier_t`. -/
structure MwaitBarrier where
  lock : Word
  left : Word
  gathered : Word
  initCount : Word
  currEvent : Word
  deriving DecidableEq

/-- `mwait_barrier_init`. -/
def mwaitBarrierInit (b : MwaitBarrier) (nthreads : Word) : MwaitBarrier :=
  { b with left := nthreads, gathered := 0, initCount := nthreads, lock := spinLockInit }

/-- `atomic_dec_and_test`: the new value, and whether it is zero. -/
def atomicDecAndTest (v : Word) : Word × Bool := ((decl v).result, (decl v).zf)

/-- The sleep call that goes with a region. -/
def Region.sleepCall : Region → SleepCall
  | .first => .mmapSleep
  | .second => .mmapSleep2

theorem Region.sleepCall_target (ptrs : Pointers) (r : Region) :
    r.sleepCall.target ptrs = r.byte ptrs := by
  cases r <;> rfl

/-- Where a thread is inside the barrier. -/
inductive BarrierPc
  /-- Between two calls. -/
  | outside
  /-- In `spin_lock_fast`. -/
  | lock (pc : LockPc)
  /-- `++barrier->gathered`: the load. -/
  | load
  /-- `++barrier->gathered`: the store of the incremented value. -/
  | store (gathered : Word)
  /-- `if (barrier->gathered == init_count)`. -/
  | test
  /-- `*mmapped_device_memory = MWMON_NOTIFIED_VAL`. -/
  | notify
  /-- `spin_unlock_fast` before suspending. -/
  | unlock
  /-- In `fast_mwmon_mmap_sleep`. -/
  | sleep (pc : SleepPc)
  /-- `atomic_dec_and_test(&barrier->gathered)`. -/
  | dec
  /-- `spin_unlock_fast` of the last thread. -/
  | unlockLast
  deriving DecidableEq

namespace BarrierPc

/-- The thread has stored the incremented count of its current call. -/
def counted : BarrierPc → Bool
  | .test => true
  | .notify => true
  | .unlock => true
  | .sleep _ => true
  | .dec => true
  | .unlockLast => true
  | _ => false

/-- The thread has decremented the count in its current call. -/
def tested : BarrierPc → Bool
  | .unlockLast => true
  | _ => false

/-- The thread holds the lock on its own behalf. -/
def critical : BarrierPc → Bool
  | .load => true
  | .store _ => true
  | .test => true
  | .notify => true
  | .unlock => true
  | _ => false

/-- The thread is in the sleep call. -/
def asleep : BarrierPc → Bool
  | .sleep _ => true
  | _ => false

end BarrierPc

/-- A thread at the barrier. -/
structure BarrierThread where
  pc : BarrierPc
  /-- The local copy of `init_count`. -/
  initCount : Word
  /-- How often the thread has incremented `gathered`. -/
  arrivals : ℕ
  /-- How many calls have returned. -/
  calls : ℕ
  /-- What `atomic_dec_and_test` has returned, call by call. -/
  results : List Bool
  deriving DecidableEq

namespace BarrierThread

/-- A thread that has not called the barrier yet. -/
def start : BarrierThread := ⟨.outside, 0, 0, 0, []⟩

/-- Enter the call. -/
def enter (t : BarrierThread) (initCount : Word) : BarrierThread :=
  { t with pc := .lock .attempt, initCount := initCount }

/-- Go on to another place in the call. -/
def goto (t : BarrierThread) (pc : BarrierPc) : BarrierThread := { t with pc := pc }

/-- The incremented count is stored. -/
def arrive (t : BarrierThread) : BarrierThread :=
  { t with pc := .test, arrivals := t.arrivals + 1 }

/-- `atomic_dec_and_test` has returned false. -/
def leave (t : BarrierThread) : BarrierThread :=
  { t with pc := .outside, calls := t.calls + 1, results := t.results ++ [false] }

/-- `atomic_dec_and_test` has returned true. -/
def leaveLast (t : BarrierThread) : BarrierThread :=
  { t with pc := .unlockLast, results := t.results ++ [true] }

/-- Return from the call. -/
def ret (t : BarrierThread) : BarrierThread :=
  { t with pc := .outside, calls := t.calls + 1 }

variable {t : BarrierThread}

@[simp]
theorem enter_pc {initCount : Word} : (t.enter initCount).pc = .lock .attempt := rfl

@[simp]
theorem goto_pc {pc : BarrierPc} : (t.goto pc).pc = pc := rfl

@[simp]
theorem arrive_pc : t.arrive.pc = .test := rfl

@[simp]
theorem leave_pc : t.leave.pc = .outside := rfl

@[simp]
theorem leaveLast_pc : t.leaveLast.pc = .unlockLast := rfl

@[simp]
theorem ret_pc : t.ret.pc = .outside := rfl

end BarrierThread

/-- What the threads share. -/
structure BarrierShared (ι : Type) where
  barrier : MwaitBarrier
  machine : Machine ι

section

variable {ι : Type} [DecidableEq ι]

/-- One atomic step of a thread that calls the barrier of a region `rounds` times,
or an interrupt. -/
def barrierCall (r : Region) (ptrs : Pointers) (rounds : ℕ) :
    Program ι (BarrierShared ι) BarrierThread (Option Interrupt)
  | c, some i, sh, t =>
      let machine := i.onMachine c sh.machine
      match t.pc with
      | .sleep pc => some ({ sh with machine := machine }, t.goto (.sleep (i.onSleeper pc)))
      | _ => some ({ sh with machine := machine }, t)
  | c, none, sh, t =>
      let b := sh.barrier
      match t.pc with
      | .outside => if t.calls < rounds then some (sh, t.enter b.initCount) else none
      | .lock pc =>
          let a := spinLockFast pc b.lock
          match a.2 with
          | .goto pc' => some ({ sh with barrier := { b with lock := a.1 } }, t.goto (.lock pc'))
          | .acquired => some ({ sh with barrier := { b with lock := a.1 } }, t.goto .load)
      | .load => some (sh, t.goto (.store (b.gathered + 1)))
      | .store gathered =>
          some ({ sh with barrier := { b with gathered := gathered } }, t.arrive)
      | .test =>
          if b.gathered = t.initCount then some (sh, t.goto .notify)
          else some (sh, t.goto .unlock)
      | .notify =>
          some ({ sh with machine := sh.machine.store c (r.byte ptrs) MWMON_NOTIFIED_VAL },
            t.goto .dec)
      | .unlock =>
          some ({ sh with barrier := { b with lock := spinUnlock b.lock } },
            t.goto (.sleep .irqDisable))
      | .sleep pc =>
          (r.sleepCall.run ptrs c pc sh.machine).map fun a =>
            match a.2 with
            | .goto pc' => ({ sh with machine := a.1 }, t.goto (.sleep pc'))
            | .returned => ({ sh with machine := a.1 }, t.goto .dec)
      | .dec =>
          let d := atomicDecAndTest b.gathered
          if d.2 then some ({ sh with barrier := { b with gathered := d.1 } }, t.leaveLast)
          else some ({ sh with barrier := { b with gathered := d.1 } }, t.leave)
      | .unlockLast =>
          some ({ sh with barrier := { b with lock := spinUnlock b.lock } }, t.ret)

/-- `mwait_barrier`, called `rounds` times. -/
def mwaitBarrier (ptrs : Pointers) (rounds : ℕ) :
    Program ι (BarrierShared ι) BarrierThread (Option Interrupt) :=
  barrierCall .first ptrs rounds

/-- `mwait_barrier2`, called `rounds` times. -/
def mwaitBarrier2 (ptrs : Pointers) (rounds : ℕ) :
    Program ι (BarrierShared ι) BarrierThread (Option Interrupt) :=
  barrierCall .second ptrs rounds

/-- The barrier function of each region. -/
def Region.barrier : Region → Pointers → ℕ →
    Program ι (BarrierShared ι) BarrierThread (Option Interrupt)
  | .first => mwaitBarrier
  | .second => mwaitBarrier2

theorem Region.barrier_eq (r : Region) (ptrs : Pointers) (rounds : ℕ) :
    (r.barrier ptrs rounds : Program ι (BarrierShared ι) BarrierThread (Option Interrupt)) =
      barrierCall r ptrs rounds := by
  cases r <;> rfl

end

/-- The barrier is initialised, the monitored byte is at its original value, and
nobody has called yet. -/
def barrierInit (r : Region) (ptrs : Pointers) (n : ThreadCount)
    (s : Config (Fin n.val) (BarrierShared (Fin n.val)) BarrierThread) : Prop :=
  (∃ b, s.shared.barrier = mwaitBarrierInit b n.word) ∧
    s.shared.machine.mem (r.byte ptrs) = MWMON_ORIGINAL_VAL ∧
    ∀ i, s.threads i = .start

/-- `n` threads that each call the barrier of a region `rounds` times. -/
def barrierSystem (r : Region) (ptrs : Pointers) (n : ThreadCount) (rounds : ℕ) :
    System (Config (Fin n.val) (BarrierShared (Fin n.val)) BarrierThread)
      (Fin n.val × Option Interrupt) :=
  interleave (barrierInit r ptrs n) (r.barrier ptrs rounds)

/-- The configuration before the first call. -/
def barrierStart (n : ThreadCount) :
    Config (Fin n.val) (BarrierShared (Fin n.val)) BarrierThread :=
  ⟨⟨mwaitBarrierInit ⟨0, 0, 0, 0, 0⟩ n.word, ⟨fun _ => MWMON_ORIGINAL_VAL, fun _ => none⟩⟩,
    fun _ => .start⟩

theorem barrierStart_init {r : Region} {ptrs : Pointers} {n : ThreadCount} :
    barrierInit r ptrs n (barrierStart n) :=
  ⟨⟨_, rfl⟩, rfl, fun _ => rfl⟩

/-- One step of a thread in the barrier of the byte at `p`. -/
inductive BarrierMove {ι : Type} [DecidableEq ι] (p : Addr) (rounds : ℕ) (c : ι)
    (sh : BarrierShared ι) (t : BarrierThread) : BarrierShared ι → BarrierThread → Prop
  | interrupt (i : Interrupt) (pc : BarrierPc)
      (hpc : pc = t.pc ∨ ∃ spc, t.pc = .sleep spc ∧ pc = .sleep (i.onSleeper spc)) :
      BarrierMove p rounds c sh t { sh with machine := i.onMachine c sh.machine } (t.goto pc)
  | enter (hpc : t.pc = .outside) (hcalls : t.calls < rounds) :
      BarrierMove p rounds c sh t sh (t.enter sh.barrier.initCount)
  | lose (hpc : t.pc = .lock .attempt)
      (hout : (LockVariant.fast.run .attempt sh.barrier.lock).2 = .goto .poll) :
      BarrierMove p rounds c sh t
        { sh with barrier := { sh.barrier with
          lock := (LockVariant.fast.run .attempt sh.barrier.lock).1 } } (t.goto (.lock .poll))
  | win (hpc : t.pc = .lock .attempt)
      (hout : (LockVariant.fast.run .attempt sh.barrier.lock).2 = .acquired) :
      BarrierMove p rounds c sh t
        { sh with barrier := { sh.barrier with
          lock := (LockVariant.fast.run .attempt sh.barrier.lock).1 } } (t.goto .load)
  | spin (pc : LockPc) (hpc : t.pc = .lock .poll)
      (hout : (LockVariant.fast.run .poll sh.barrier.lock).2 = .goto pc) :
      BarrierMove p rounds c sh t sh (t.goto (.lock pc))
  | load (hpc : t.pc = .load) :
      BarrierMove p rounds c sh t sh (t.goto (.store (sh.barrier.gathered + 1)))
  | store (gathered : Word) (hpc : t.pc = .store gathered) :
      BarrierMove p rounds c sh t
        { sh with barrier := { sh.barrier with gathered := gathered } } t.arrive
  | full (hpc : t.pc = .test) (hcount : sh.barrier.gathered = t.initCount) :
      BarrierMove p rounds c sh t sh (t.goto .notify)
  | short (hpc : t.pc = .test) (hcount : sh.barrier.gathered ≠ t.initCount) :
      BarrierMove p rounds c sh t sh (t.goto .unlock)
  | notify (hpc : t.pc = .notify) :
      BarrierMove p rounds c sh t
        { sh with machine := sh.machine.store c p MWMON_NOTIFIED_VAL } (t.goto .dec)
  | unlock (hpc : t.pc = .unlock) :
      BarrierMove p rounds c sh t
        { sh with barrier := { sh.barrier with lock := spinUnlock sh.barrier.lock } }
        (t.goto (.sleep .irqDisable))
  | sleep (pc pc' : SleepPc) (machine : Machine ι) (hpc : t.pc = .sleep pc)
      (hmove : SleepMove p c pc sh.machine machine (.goto pc')) :
      BarrierMove p rounds c sh t { sh with machine := machine } (t.goto (.sleep pc'))
  | wake (hpc : t.pc = .sleep .reset) :
      BarrierMove p rounds c sh t
        { sh with machine := sh.machine.store c p MWMON_ORIGINAL_VAL } (t.goto .dec)
  | leave (hpc : t.pc = .dec) (hrest : sh.barrier.gathered ≠ 1) :
      BarrierMove p rounds c sh t
        { sh with barrier := { sh.barrier with gathered := sh.barrier.gathered - 1 } } t.leave
  | leaveLast (hpc : t.pc = .dec) (hlast : sh.barrier.gathered = 1) :
      BarrierMove p rounds c sh t
        { sh with barrier := { sh.barrier with gathered := sh.barrier.gathered - 1 } }
        t.leaveLast
  | unlockLast (hpc : t.pc = .unlockLast) :
      BarrierMove p rounds c sh t
        { sh with barrier := { sh.barrier with lock := spinUnlock sh.barrier.lock } } t.ret

theorem barrierCall_interrupt {ι : Type} [DecidableEq ι] {r : Region} {ptrs : Pointers}
    {rounds : ℕ} {c : ι} {i : Interrupt} {sh sh' : BarrierShared ι} {t t' : BarrierThread}
    (hstep : barrierCall r ptrs rounds c (some i) sh t = some (sh', t')) :
    BarrierMove (r.byte ptrs) rounds c sh t sh' t' := by
  cases hpc : t.pc with
  | sleep pc =>
      simp only [barrierCall, hpc, Option.some.injEq, Prod.mk.injEq] at hstep
      obtain ⟨rfl, rfl⟩ := hstep
      exact .interrupt i _ (.inr ⟨pc, hpc, rfl⟩)
  | _ =>
      simp only [barrierCall, hpc, Option.some.injEq, Prod.mk.injEq] at hstep
      obtain ⟨rfl, rfl⟩ := hstep
      exact .interrupt i t.pc (.inl rfl)

theorem barrierCall_cases {ι : Type} [DecidableEq ι] {r : Region} {ptrs : Pointers}
    {rounds : ℕ} {c : ι} {choice : Option Interrupt} {sh sh' : BarrierShared ι}
    {t t' : BarrierThread} (hstep : barrierCall r ptrs rounds c choice sh t = some (sh', t')) :
    BarrierMove (r.byte ptrs) rounds c sh t sh' t' := by
  cases choice with
  | some i => exact barrierCall_interrupt hstep
  | none =>
  cases hpc : t.pc with
  | outside =>
      simp only [barrierCall, hpc, Option.ite_none_right_eq_some, Option.some.injEq,
        Prod.mk.injEq] at hstep
      obtain ⟨hcalls, rfl, rfl⟩ := hstep
      exact .enter hpc hcalls
  | lock pc =>
      cases pc with
      | attempt =>
          cases hout : (spinLockFast .attempt sh.barrier.lock).2 with
          | goto pc' =>
              have hpoll : pc' = .poll := by
                simp only [spinLockFast] at hout
                split at hout
                · cases hout
                · exact (LockOutcome.goto.inj hout).symm
              subst hpoll
              simp only [barrierCall, hpc, hout, Option.some.injEq, Prod.mk.injEq] at hstep
              obtain ⟨rfl, rfl⟩ := hstep
              exact .lose hpc hout
          | acquired =>
              simp only [barrierCall, hpc, hout, Option.some.injEq, Prod.mk.injEq] at hstep
              obtain ⟨rfl, rfl⟩ := hstep
              exact .win hpc hout
      | poll =>
          cases hout : (spinLockFast .poll sh.barrier.lock).2 with
          | goto pc' =>
              simp only [barrierCall, hpc, hout, Option.some.injEq, Prod.mk.injEq] at hstep
              obtain ⟨rfl, rfl⟩ := hstep
              exact .spin pc' hpc hout
          | acquired =>
              simp only [spinLockFast] at hout
              split at hout <;> cases hout
  | load =>
      simp only [barrierCall, hpc, Option.some.injEq, Prod.mk.injEq] at hstep
      obtain ⟨rfl, rfl⟩ := hstep
      exact .load hpc
  | store gathered =>
      simp only [barrierCall, hpc, Option.some.injEq, Prod.mk.injEq] at hstep
      obtain ⟨rfl, rfl⟩ := hstep
      exact .store gathered hpc
  | test =>
      by_cases hcount : sh.barrier.gathered = t.initCount
      · simp only [barrierCall, hpc, if_pos hcount, Option.some.injEq, Prod.mk.injEq] at hstep
        obtain ⟨rfl, rfl⟩ := hstep
        exact .full hpc hcount
      · simp only [barrierCall, hpc, if_neg hcount, Option.some.injEq, Prod.mk.injEq] at hstep
        obtain ⟨rfl, rfl⟩ := hstep
        exact .short hpc hcount
  | notify =>
      simp only [barrierCall, hpc, Option.some.injEq, Prod.mk.injEq] at hstep
      obtain ⟨rfl, rfl⟩ := hstep
      exact .notify hpc
  | unlock =>
      simp only [barrierCall, hpc, Option.some.injEq, Prod.mk.injEq] at hstep
      obtain ⟨rfl, rfl⟩ := hstep
      exact .unlock hpc
  | sleep pc =>
      simp only [barrierCall, hpc, SleepCall.run_eq, Region.sleepCall_target,
        Option.map_eq_some_iff, Prod.exists] at hstep
      obtain ⟨machine, out, hrun, hout⟩ := hstep
      have hmove := mwmonSleep_cases hrun
      cases out with
      | goto pc' =>
          obtain ⟨rfl, rfl⟩ := Prod.mk.inj hout
          exact .sleep pc pc' machine hpc hmove
      | returned =>
          obtain ⟨rfl, rfl⟩ := Prod.mk.inj hout
          obtain ⟨rfl, rfl⟩ := hmove.of_returned rfl
          exact .wake hpc
  | dec =>
      by_cases hlast : sh.barrier.gathered = 1
      · have hzf : (atomicDecAndTest sh.barrier.gathered).2 = true := decl_zf_eq_true_iff.mpr hlast
        simp only [barrierCall, hpc, if_pos hzf, Option.some.injEq, Prod.mk.injEq] at hstep
        obtain ⟨rfl, rfl⟩ := hstep
        exact .leaveLast hpc hlast
      · have hzf : ¬ (atomicDecAndTest sh.barrier.gathered).2 = true :=
          fun hz => hlast (decl_zf_eq_true_iff.mp hz)
        simp only [barrierCall, hpc, if_neg hzf, Option.some.injEq, Prod.mk.injEq] at hstep
        obtain ⟨rfl, rfl⟩ := hstep
        exact .leave hpc hlast
  | unlockLast =>
      simp only [barrierCall, hpc, Option.some.injEq, Prod.mk.injEq] at hstep
      obtain ⟨rfl, rfl⟩ := hstep
      exact .unlockLast hpc

end Htsynch
