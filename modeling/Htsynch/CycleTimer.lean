/-
# The cycle timers of the two builds

`btimer_rdtsc32.h` keeps each reading of the time-stamp counter, and the total of the
times measured, in two 32-bit words, and adds and subtracts them with the carry flag.
`btimer_rdtsc64.h` keeps them in one 64-bit word. Both show one stopwatch over the
64-bit numbers, the one in two words and the other in one.

`TIMER_CLEAR` leaves the start as it was. So the two agree after `TIMER_CLEAR` when their
starts did, or else up to the first `TIMER_STOP` that comes before a `TIMER_START`.
-/

import Htsynch.Foundations.Stopwatch
import Htsynch.X86

namespace Htsynch

open Foundations

/-- The instruction: the lower half of the counter in `eax`, the upper in `edx`. -/
def rdtscInsn (tsc : Quad) : Word × Word := (tsc.setWidth 32, (tsc >>> 32).setWidth 32)

/-- The number in two words. -/
def quad (x : Limbs 32) : Quad := x.value

/-- `struct timer_s` of `btimer_rdtsc32.h`. -/
structure Timer32 where
  start : Limbs 32
  stop : Limbs 32
  total : Limbs 32
  loops : Word
  deriving DecidableEq

/-- The operands of the asm block in `TIMER_STOP`, `%0` to `%5`. -/
inductive StopOperand
  | total0
  | total1
  | start0
  | start1
  | stop0
  | stop1
  deriving DecidableEq

/-- The registers of the operands, and the carry flag. -/
structure StopRegs where
  reg : StopOperand → Word
  cf : Bool

def StopRegs.exec (r : StopRegs) (insn : CarryInsn) (src dst : StopOperand) : StopRegs :=
  let out := insn.exec (r.reg dst) (r.reg src) r.cf
  ⟨Function.update r.reg dst out.result, out.cf⟩

/-- The asm block of `TIMER_STOP`. -/
def stopAsm (r : StopRegs) : StopRegs :=
  (((r.exec .subl .start0 .stop0).exec .sbbl .start1 .stop1).exec .addl .stop0 .total0).exec
    .adcl .stop1 .total1

namespace Timer32

/-- `rdtsc(x)`. -/
def rdtsc (tsc : Quad) : Limbs 32 := ⟨(rdtscInsn tsc).1, (rdtscInsn tsc).2⟩

/-- `TIMER_CLEAR`. -/
def timerClear (t : Timer32) : Timer32 := { t with loops := 0, total := ⟨0, 0⟩ }

/-- `TIMER_START`. -/
def timerStart (tsc : Quad) (t : Timer32) : Timer32 := { t with start := rdtsc tsc }

/-- The operands in their registers. The first instruction sets the carry flag without
reading it. -/
def stopRegs (t : Timer32) : StopRegs where
  reg
    | .total0 => t.total.lo
    | .total1 => t.total.hi
    | .start0 => t.start.lo
    | .start1 => t.start.hi
    | .stop0 => t.stop.lo
    | .stop1 => t.stop.hi
  cf := false

/-- `TIMER_STOP`. Of the registers only those of the total are stored back. -/
def timerStop (tsc : Quad) (t : Timer32) : Timer32 :=
  let t := { t with stop := rdtsc tsc }
  let r := stopAsm t.stopRegs
  { t with total := ⟨r.reg .total0, r.reg .total1⟩, loops := t.loops + 1 }

def step (t : Timer32) : TimerOp Quad → Timer32
  | .clear => t.timerClear
  | .start tsc => t.timerStart tsc
  | .stop tsc => t.timerStop tsc

def run (t : Timer32) (ops : List (TimerOp Quad)) : Timer32 := ops.foldl step t

end Timer32

/-! ## The 64-bit timer -/

/-- `struct timer_s` of `btimer_rdtsc64.h`. -/
structure Timer64 where
  start : Quad
  stop : Quad
  total : Quad
  loops : Quad
  deriving DecidableEq

namespace Timer64

/-- `rdtsc(x)`: the instruction clears the upper halves of the registers. -/
def rdtsc (tsc : Quad) : Quad :=
  let x : Quad := (rdtscInsn tsc).1.setWidth 64
  let hi : Quad := (rdtscInsn tsc).2.setWidth 64
  x ||| hi <<< 32

/-- `TIMER_CLEAR`. -/
def timerClear (t : Timer64) : Timer64 := { t with loops := 0, total := 0 }

/-- `TIMER_START`. -/
def timerStart (tsc : Quad) (t : Timer64) : Timer64 := { t with start := rdtsc tsc }

/-- `TIMER_STOP`. -/
def timerStop (tsc : Quad) (t : Timer64) : Timer64 :=
  let t := { t with stop := rdtsc tsc }
  { t with total := t.total + (t.stop - t.start), loops := t.loops + 1 }

def step (t : Timer64) : TimerOp Quad → Timer64
  | .clear => t.timerClear
  | .start tsc => t.timerStart tsc
  | .stop tsc => t.timerStop tsc

def run (t : Timer64) (ops : List (TimerOp Quad)) : Timer64 := ops.foldl step t

end Timer64

/-- The timers show the same total, and have counted the same number of stops as far as
32 bits go. -/
structure InStep (t : Timer32) (t' : Timer64) : Prop where
  total : t.total.hi.toNat * 2 ^ 32 + t.total.lo.toNat = t'.total.toNat
  loops : t.loops.toNat = t'.loops.toNat % 2 ^ 32

/-- The asm block adds the difference in two words. -/
theorem Timer32.timerStop_total (tsc : Quad) (t : Timer32) :
    (t.timerStop tsc).total = t.total + (rdtsc tsc - t.start) := rfl

theorem Timer32.quad_rdtsc (tsc : Quad) : quad (rdtsc tsc) = tsc :=
  Limbs.value_split (w := 32) tsc

theorem Timer64.rdtsc_eq (tsc : Quad) : rdtsc tsc = tsc := by
  apply BitVec.eq_of_getLsbD_eq
  intro i hi
  by_cases hlow : i < 32
  · simp [rdtsc, rdtscInsn, hlow, hi]
  · have hhigh : i - 32 < 32 := by omega
    have hback : 32 + (i - 32) = i := by omega
    simp [rdtsc, rdtscInsn, hlow, hhigh, hi, hback]

/-! ## The stopwatch they show -/

/-- The timer shows the stopwatch, as far as 32 bits can count its laps. -/
structure Timer32.Shows (t : Timer32) (s : Stopwatch Quad) : Prop where
  start : quad t.start = s.start
  total : quad t.total = s.total
  loops : t.loops = BitVec.ofNat 32 s.laps

/-- The timer shows the stopwatch, as far as 64 bits can count its laps. -/
structure Timer64.Shows (t : Timer64) (s : Stopwatch Quad) : Prop where
  start : t.start = s.start
  total : t.total = s.total
  loops : t.loops = BitVec.ofNat 64 s.laps

theorem Timer32.Shows.step {t : Timer32} {s : Stopwatch Quad} (h : t.Shows s)
    (op : TimerOp Quad) : (t.step op).Shows (s.step op) := by
  cases op with
  | clear => exact ⟨h.start, Limbs.value_zero, rfl⟩
  | start tsc => exact ⟨quad_rdtsc tsc, h.total, h.loops⟩
  | stop tsc =>
      constructor
      case start => exact h.start
      case total =>
        calc quad (t.timerStop tsc).total
            = quad t.total + quad (rdtsc tsc - t.start) := by
              rw [timerStop_total]
              exact Limbs.value_add _ _
          _ = quad t.total + (quad (rdtsc tsc) - quad t.start) :=
              congrArg (quad t.total + ·) (Limbs.value_sub _ _)
          _ = s.total + (tsc - s.start) := by rw [quad_rdtsc, h.start, h.total]
      case loops =>
        show t.loops + 1 = BitVec.ofNat 32 (s.laps + 1)
        rw [h.loops, BitVec.ofNat_add]
        rfl

theorem Timer64.Shows.step {t : Timer64} {s : Stopwatch Quad} (h : t.Shows s)
    (op : TimerOp Quad) : (t.step op).Shows (s.step op) := by
  cases op with
  | clear => exact ⟨h.start, rfl, rfl⟩
  | start tsc => exact ⟨rdtsc_eq tsc, h.total, h.loops⟩
  | stop tsc =>
      constructor
      case start => exact h.start
      case total =>
        show t.total + (rdtsc tsc - t.start) = s.total + (tsc - s.start)
        rw [rdtsc_eq, h.start, h.total]
      case loops =>
        show t.loops + 1 = BitVec.ofNat 64 (s.laps + 1)
        rw [h.loops, BitVec.ofNat_add]
        rfl

theorem Timer32.Shows.run {t : Timer32} {s : Stopwatch Quad} (h : t.Shows s)
    (ops : List (TimerOp Quad)) : (t.run ops).Shows (s.run ops) :=
  List.foldl_rel h fun op _ _ _ hshows => hshows.step op

theorem Timer64.Shows.run {t : Timer64} {s : Stopwatch Quad} (h : t.Shows s)
    (ops : List (TimerOp Quad)) : (t.run ops).Shows (s.run ops) :=
  List.foldl_rel h fun op _ _ _ hshows => hshows.step op

/-- Cleared, a timer shows a stopwatch with its start. -/
theorem Timer32.shows_clear (t : Timer32) : (t.step .clear).Shows ⟨quad t.start, 0, 0⟩ :=
  ⟨rfl, Limbs.value_zero, rfl⟩

theorem Timer64.shows_clear (t : Timer64) : (t.step .clear).Shows ⟨t.start, 0, 0⟩ :=
  ⟨rfl, rfl, rfl⟩

/-- Timers that show stopwatches with the same laps are in step when the totals are the
same. -/
theorem inStep_iff {t : Timer32} {t' : Timer64} {s s' : Stopwatch Quad} (h : t.Shows s)
    (h' : t'.Shows s') (hlaps : s.laps = s'.laps) : InStep t t' ↔ s.total = s'.total := by
  have htotal : t.total.hi.toNat * 2 ^ 32 + t.total.lo.toNat = s.total.toNat := by
    rw [← h.total]
    exact (Limbs.value_toNat t.total).symm
  have hloops : t.loops.toNat = t'.loops.toNat % 2 ^ 32 := by
    rw [h.loops, h'.loops, hlaps, BitVec.toNat_ofNat, BitVec.toNat_ofNat,
      Nat.mod_mod_of_dvd _ (Nat.pow_dvd_pow 2 (by decide))]
  constructor
  · intro hstep
    apply BitVec.eq_of_toNat_eq
    rw [← htotal, ← h'.total]
    exact hstep.total
  · intro hsame
    refine ⟨?_, hloops⟩
    rw [htotal, h'.total, hsame]

/-- After `TIMER_CLEAR` the timers stay in step, whatever the readings, exactly if their
starts were the same before or no `TIMER_STOP` comes before the first `TIMER_START`. -/
theorem timers_in_step_iff (t : Timer32) (t' : Timer64) (ops : List (TimerOp Quad)) :
    (∀ done, done <+: ops → InStep (t.run (.clear :: done)) (t'.run (.clear :: done))) ↔
      quad t.start = t'.start ∨ StartsFirst ops := by
  have hagree : Stopwatch.AgreeAlong ⟨quad t.start, 0, 0⟩ ⟨t'.start, 0, 0⟩ ops ↔
      quad t.start = t'.start ∨ StartsFirst ops := Stopwatch.agreeAlong_iff rfl
  rw [← hagree]
  refine forall₂_congr fun done _ => ?_
  exact inStep_iff (t.shows_clear.run done) (t'.shows_clear.run done) (Stopwatch.laps_run rfl)

/-- With starts that nobody has set, and that differ, the timers disagree at a stop that
comes first. -/
theorem timers_differ_unstarted :
    ¬ InStep (Timer32.run ⟨⟨0, 0⟩, ⟨0, 0⟩, ⟨0, 0⟩, 0⟩ [.clear, .stop 5])
      (Timer64.run ⟨1, 0, 0, 0⟩ [.clear, .stop 5]) := by
  intro hstep
  exact absurd hstep.total (by decide)

/-- Each total is the sum of the times measured since the timer was cleared. -/
theorem timer32_total (t : Timer32) {ops : List (TimerOp Quad)} (hclear : .clear ∉ ops) :
    quad (t.run (.clear :: ops)).total = (Stopwatch.spans (quad t.start) ops).sum := by
  have hshows := t.shows_clear.run ops
  exact hshows.total.trans (Stopwatch.total_run_cleared hclear)

theorem timer64_total (t : Timer64) {ops : List (TimerOp Quad)} (hclear : .clear ∉ ops) :
    (t.run (.clear :: ops)).total = (Stopwatch.spans t.start ops).sum := by
  have hshows := t.shows_clear.run ops
  exact hshows.total.trans (Stopwatch.total_run_cleared hclear)

end Htsynch
