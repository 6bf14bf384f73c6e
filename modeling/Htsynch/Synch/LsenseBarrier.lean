/-
# The sense-reversing barrier of synch.h

Three functions share one protocol: flip the thread's own sense, count the
arrival with a locked `incl`, read the count again, and either reset it and
publish the sense or wait until the sense is published. They differ in the wait
loop, and one of them sends wake-up interrupts after publishing.

Every access to the barrier is one atomic step. The sense is private to its
thread, so it is flipped in the step that enters the call. It is what the wait loop
receives as its condition, and a copy of the halting loop may keep it in the register
that `sys_cpu_halt` returns its result in.
-/

import Htsynch.Foundations.Interleaving
import Htsynch.Foundations.SenseReversal
import Htsynch.Synch.SpinLock
import Htsynch.Synch.SpinWait
import Htsynch.Threads

namespace Htsynch

open Foundations

/-- `spin_barrier_t`. -/
structure SpinBarrier where
  lock : Word
  releaseFlag : Word
  currentCount : Word
  nthreads : Word
  deriving DecidableEq

/-- `spin_barrier_init`. -/
def spinBarrierInit (nthreads : Word) : SpinBarrier where
  lock := spinLockInit
  releaseFlag := 1
  currentCount := 0
  nthreads := nthreads

/-- `spin_barrier_init_lsense`. -/
def spinBarrierInitLsense : Word := 1

/-- Where a thread is inside the barrier. -/
inductive LsensePc
  /-- Between two calls. -/
  | outside
  /-- `lock; incl current_count`. -/
  | arrive
  /-- `if (current_count == nthreads)`. -/
  | read
  /-- `current_count = 0`. -/
  | reset
  /-- `release_flag = *lsense`. -/
  | release
  /-- `ioctl(cpuctrl_fd, CPUCTRL_IOC_WAKEUP_ALLBUTSELF, 0)`. -/
  | ioctl
  /-- In the wait loop on `release_flag`. -/
  | wait (pc : WaitPc)
  deriving DecidableEq

/-- The thread has flipped its sense and not returned since. -/
def LsensePc.inCall : LsensePc → Bool
  | .outside => false
  | _ => true

/-- The thread has executed the `incl` of its current call. -/
def LsensePc.counted : LsensePc → Bool
  | .outside => false
  | .arrive => false
  | _ => true

instance : CallSite LsensePc := ⟨LsensePc.inCall, LsensePc.counted⟩

/-- The wait loop is in the call that follows its `pause`, or back from it. -/
def LsensePc.called : LsensePc → Bool
  | .wait .halted => true
  | .wait .poll => true
  | _ => false

/-- A thread at the barrier; its arrivals are its `incl`s. -/
abbrev LsenseThread := SenseThread LsensePc Word

/-- A thread that has not called the barrier yet. -/
def LsenseThread.start : LsenseThread := ⟨.outside, spinBarrierInitLsense, 0, 0⟩

/-- `!(*lsense)`. -/
def lnot (lsense : Word) : Word := if lsense = 0 then 1 else 0

/-- The three barrier functions. -/
inductive LsenseVariant
  | pause
  | cpuhalt
  | cpuhaltSendIPI
  deriving DecidableEq

/-- The function halts in its wait loop. -/
def LsenseVariant.halts : LsenseVariant → Bool
  | .pause => false
  | .cpuhalt => true
  | .cpuhaltSendIPI => true

/-- The wait loop of each function. -/
def LsenseVariant.waitLoop (v : LsenseVariant) (code : Inlined) (stray : Word) :
    WaitPc → Word → Word → WaitOutcome :=
  match v with
  | .pause => spinOnCondition
  | .cpuhalt => spinOnConditionCpuhalt code stray
  | .cpuhaltSendIPI => spinOnConditionCpuhalt code stray

/-- What follows the store to `release_flag`. -/
def LsenseVariant.released (v : LsenseVariant) (t : LsenseThread) : LsenseThread :=
  match v with
  | .pause => t.ret .outside
  | .cpuhalt => t.ret .outside
  | .cpuhaltSendIPI => t.goto .ioctl

section

variable {ι : Type} (code : ι → ℕ → Inlined) (rounds : ℕ)

/-- One atomic step of a thread that calls the barrier `rounds` times. Its call number `k`
runs the copy `code who k` of the wait loop, if that halts; the choice is the word that a
copy finds which looks where the address was lost. A halted waiter may wake at any time, so
the wake-up interrupts leave no trace in the state. -/
def lsenseBarrier (v : LsenseVariant) : Program ι SpinBarrier LsenseThread Word
  | who, stray, sb, t =>
    match t.pc with
    | .outside => if t.calls < rounds then some (sb, t.enter .arrive (lnot t.lsense)) else none
    | .arrive => some ({ sb with currentCount := incl sb.currentCount }, t.arrive .read)
    | .read =>
        if sb.currentCount = sb.nthreads then some (sb, t.goto .reset)
        else some (sb, t.goto (.wait .entry))
    | .reset => some ({ sb with currentCount := 0 }, t.goto .release)
    | .release => some ({ sb with releaseFlag := t.lsense }, v.released t)
    | .ioctl => some (sb, t.ret .outside)
    | .wait pc =>
        match v.waitLoop (code who t.calls) stray pc sb.releaseFlag t.lsense with
        | .goto pc' => some (sb, t.goto (.wait pc'))
        | .done => some (sb, t.ret .outside)

/-- `spin_barrier_lsense`, called `rounds` times. -/
def spinBarrierLsense : Program ι SpinBarrier LsenseThread Word :=
  lsenseBarrier code rounds .pause

/-- `spin_barrier_lsense_cpuhalt`, called `rounds` times. -/
def spinBarrierLsenseCpuhalt : Program ι SpinBarrier LsenseThread Word :=
  lsenseBarrier code rounds .cpuhalt

/-- `spin_barrier_lsense_cpuhalt_sendIPI`, called `rounds` times. -/
def spinBarrierLsenseCpuhaltSendIPI : Program ι SpinBarrier LsenseThread Word :=
  lsenseBarrier code rounds .cpuhaltSendIPI

/-- The function each variant stands for. -/
def LsenseVariant.program : LsenseVariant → Program ι SpinBarrier LsenseThread Word
  | .pause => spinBarrierLsense code rounds
  | .cpuhalt => spinBarrierLsenseCpuhalt code rounds
  | .cpuhaltSendIPI => spinBarrierLsenseCpuhaltSendIPI code rounds

theorem LsenseVariant.program_eq (v : LsenseVariant) :
    v.program code rounds = lsenseBarrier code rounds v := by
  cases v <;> rfl

end

/-- Should the thread's next step be a comparison after the call, it finds what it is left to
seek only if the flag shows the thread's sense. -/
def LsenseVariant.LeavesOnSense (v : LsenseVariant) (code : Inlined) (stray flag : Word)
    (t : LsenseThread) : Prop :=
  v.halts = true → t.pc = .wait .poll → code.found stray flag = code.sought t.lsense →
    flag = t.lsense

instance (v : LsenseVariant) (code : Inlined) (stray flag : Word) (t : LsenseThread) :
    Decidable (v.LeavesOnSense code stray flag t) :=
  inferInstanceAs (Decidable (_ → _))

/-- A copy that keeps its operands leaves on the sense. -/
theorem LsenseVariant.LeavesOnSense.of_keeps {v : LsenseVariant} {code : Inlined}
    {stray flag : Word} {t : LsenseThread}
    (hkeeps : v.halts = true → t.pc = .wait .poll → code.Keeps t.lsense) :
    v.LeavesOnSense code stray flag t := by
  intro hhalts hpc hfound
  rwa [(hkeeps hhalts hpc).found_eq, (hkeeps hhalts hpc).sought_eq] at hfound

/-- What one step of a thread in the barrier can be, if it leaves the wait loop only on its
sense. -/
inductive LsenseMove (v : LsenseVariant) (rounds : ℕ) (sb : SpinBarrier)
    (t : LsenseThread) : SpinBarrier → LsenseThread → Prop
  | enter (hpc : t.pc = .outside) (hcalls : t.calls < rounds) :
      LsenseMove v rounds sb t sb (t.enter .arrive (lnot t.lsense))
  | arrive (hpc : t.pc = .arrive) :
      LsenseMove v rounds sb t { sb with currentCount := incl sb.currentCount }
        (t.arrive .read)
  | full (hpc : t.pc = .read) (hcount : sb.currentCount = sb.nthreads) :
      LsenseMove v rounds sb t sb (t.goto .reset)
  | short (hpc : t.pc = .read) (hcount : sb.currentCount ≠ sb.nthreads) :
      LsenseMove v rounds sb t sb (t.goto (.wait .entry))
  | reset (hpc : t.pc = .reset) :
      LsenseMove v rounds sb t { sb with currentCount := 0 } (t.goto .release)
  | publish (hpc : t.pc = .release) :
      LsenseMove v rounds sb t { sb with releaseFlag := t.lsense } (v.released t)
  | woken (hpc : t.pc = .ioctl) : LsenseMove v rounds sb t sb (t.ret .outside)
  | poll (pc pc' : WaitPc) (hpc : t.pc = .wait pc)
      (hcalled : (LsensePc.wait pc').called = true → pc = .pause ∨ pc = .halted) :
      LsenseMove v rounds sb t sb (t.goto (.wait pc'))
  | leave (pc : WaitPc) (hpc : t.pc = .wait pc) (hflag : sb.releaseFlag = t.lsense) :
      LsenseMove v rounds sb t sb (t.ret .outside)

theorem LsenseMove.of_release {v : LsenseVariant} {rounds : ℕ} {sb sb' : SpinBarrier}
    {t t' : LsenseThread} (hmove : LsenseMove v rounds sb t sb' t')
    (hpc : t.pc = .release) :
    sb' = { sb with releaseFlag := t.lsense } ∧ t' = v.released t := by
  cases hmove with
  | publish => exact ⟨rfl, rfl⟩
  | enter hpc' => simp [hpc] at hpc'
  | arrive hpc' => simp [hpc] at hpc'
  | full hpc' => simp [hpc] at hpc'
  | short hpc' => simp [hpc] at hpc'
  | reset hpc' => simp [hpc] at hpc'
  | woken hpc' => simp [hpc] at hpc'
  | poll pc pc' hpc' => simp [hpc] at hpc'
  | leave pc hpc' => simp [hpc] at hpc'

theorem LsenseVariant.LeavesOnSense.flag_eq {v : LsenseVariant} {code : Inlined}
    {stray flag : Word} {t : LsenseThread} {pc : WaitPc} (h : v.LeavesOnSense code stray flag t)
    (hpc : t.pc = .wait pc) (hdone : v.waitLoop code stray pc flag t.lsense = .done) :
    flag = t.lsense := by
  cases v with
  | pause => exact spinOnCondition_eq_done hdone
  | cpuhalt | cpuhaltSendIPI =>
      rcases spinOnConditionCpuhalt_eq_done hdone with hflag | ⟨rfl, hfound⟩
      · exact hflag
      · exact h rfl hpc hfound

/-- Only the `pause` leads into the call. -/
theorem LsenseVariant.called_of_goto {v : LsenseVariant} {code : Inlined} {stray flag lsense : Word}
    {pc pc' : WaitPc} (hgoto : v.waitLoop code stray pc flag lsense = .goto pc')
    (hcalled : (LsensePc.wait pc').called = true) : pc = .pause ∨ pc = .halted := by
  have hnext : pc' ≠ .pause := by
    rintro rfl
    cases hcalled
  cases pc with
  | pause => exact .inl rfl
  | halted => exact .inr rfl
  | entry | poll =>
      cases v <;> simp only [waitLoop, spinOnCondition, spinOnConditionCpuhalt] at hgoto <;>
        split at hgoto <;> cases hgoto <;> exact absurd rfl hnext

theorem lsenseBarrier_cases {ι : Type} {who : ι} {v : LsenseVariant} {code : ι → ℕ → Inlined}
    {rounds : ℕ} {stray : Word} {sb sb' : SpinBarrier} {t t' : LsenseThread}
    (hleaves : v.LeavesOnSense (code who t.calls) stray sb.releaseFlag t)
    (hstep : lsenseBarrier code rounds v who stray sb t = some (sb', t')) :
    LsenseMove v rounds sb t sb' t' := by
  cases hpc : t.pc with
  | outside =>
      simp only [lsenseBarrier, hpc, Option.ite_none_right_eq_some, Option.some.injEq,
        Prod.mk.injEq] at hstep
      obtain ⟨hcalls, rfl, rfl⟩ := hstep
      exact .enter hpc hcalls
  | arrive =>
      simp only [lsenseBarrier, hpc, Option.some.injEq, Prod.mk.injEq] at hstep
      obtain ⟨rfl, rfl⟩ := hstep
      exact .arrive hpc
  | read =>
      by_cases hcount : sb.currentCount = sb.nthreads
      · simp only [lsenseBarrier, hpc, if_pos hcount, Option.some.injEq,
          Prod.mk.injEq] at hstep
        obtain ⟨rfl, rfl⟩ := hstep
        exact .full hpc hcount
      · simp only [lsenseBarrier, hpc, if_neg hcount, Option.some.injEq,
          Prod.mk.injEq] at hstep
        obtain ⟨rfl, rfl⟩ := hstep
        exact .short hpc hcount
  | reset =>
      simp only [lsenseBarrier, hpc, Option.some.injEq, Prod.mk.injEq] at hstep
      obtain ⟨rfl, rfl⟩ := hstep
      exact .reset hpc
  | release =>
      simp only [lsenseBarrier, hpc, Option.some.injEq, Prod.mk.injEq] at hstep
      obtain ⟨rfl, rfl⟩ := hstep
      exact .publish hpc
  | ioctl =>
      simp only [lsenseBarrier, hpc, Option.some.injEq, Prod.mk.injEq] at hstep
      obtain ⟨rfl, rfl⟩ := hstep
      exact .woken hpc
  | wait pc =>
      cases hwait : v.waitLoop (code who t.calls) stray pc sb.releaseFlag t.lsense with
      | goto pc' =>
          simp only [lsenseBarrier, hpc, hwait, Option.some.injEq, Prod.mk.injEq] at hstep
          obtain ⟨rfl, rfl⟩ := hstep
          exact .poll pc pc' hpc (LsenseVariant.called_of_goto hwait)
      | done =>
          simp only [lsenseBarrier, hpc, hwait, Option.some.injEq, Prod.mk.injEq] at hstep
          obtain ⟨rfl, rfl⟩ := hstep
          exact .leave pc hpc (hleaves.flag_eq hpc hwait)

/-- The barrier and all senses are initialised, and nobody has called yet. -/
def lsenseInit (n : ThreadCount) (s : Config (Fin n.val) SpinBarrier LsenseThread) : Prop :=
  s.shared = spinBarrierInit n.word ∧ ∀ i, s.threads i = .start

/-- `n` threads that each call the barrier `rounds` times. -/
def lsenseSystem (v : LsenseVariant) (n : ThreadCount) (code : Fin n.val → ℕ → Inlined)
    (rounds : ℕ) : System (Config (Fin n.val) SpinBarrier LsenseThread) (Fin n.val × Word) :=
  interleave (lsenseInit n) (v.program code rounds)

/-- The configuration before the first call. -/
def lsenseStart (n : ThreadCount) : Config (Fin n.val) SpinBarrier LsenseThread :=
  ⟨spinBarrierInit n.word, fun _ => .start⟩

theorem lsenseStart_init {n : ThreadCount} : lsenseInit n (lsenseStart n) :=
  ⟨rfl, fun _ => rfl⟩

end Htsynch
