/-
# Single steps of `sys_mwmon_mmap_spin_while_greater`

Of its two ends only one needs the long: once the long is not below the condition, the
call is at most seven instructions from its reset, if MWAIT does not hold the processor.
What other processors do meanwhile does not disturb a sleeper's watch.
-/

import Htsynch.Kernel.SpinWhileGreater

namespace Htsynch

open Foundations

section

variable {ι : Type} [DecidableEq ι] {version : KernelVersion} {ptrs : Pointers}
  {cond : BitVec 64} {c d : ι} {place : SpinPlace} {next : Option SpinPlace} {h h' : Machine ι}

/-- One step of the call, with what it does to the machine. -/
inductive SpinRun (version : KernelVersion) (ptrs : Pointers) (cond : BitVec 64) (c : ι)
    (h : Machine ι) : SpinPlace → Machine ι → Option SpinPlace → Prop
  | enough (hread : cond.toInt ≤ (readLong h.mem ptrs.mwmonLintVarAddr).toInt) :
      SpinRun version ptrs cond c h (.shared .test) h (some (.shared .reset))
  | below (hread : (readLong h.mem ptrs.mwmonLintVarAddr).toInt < cond.toInt) :
      SpinRun version ptrs cond c h (.shared .test) h (some (.shared .irqDisable))
  | disable :
      SpinRun version ptrs cond c h (.shared .irqDisable) h (some (.shared .monitor))
  | arm :
      SpinRun version ptrs cond c h (.shared .monitor) (h.monitor c ptrs.mwmonMmapArea)
        (some (.shared .irqEnable))
  | enable (place' : SpinPlace)
      (hplace' : version = .onepackageonly ∧ place' = .check ∨ place' = .shared .mwait) :
      SpinRun version ptrs cond c h (.shared .irqEnable) h (some place')
  | broken (hversion : version = .onepackageonly)
      (hbyte : h.mem ptrs.mwmonMmapArea = MWMON_NOTIFIED_VAL) :
      SpinRun version ptrs cond c h .check h (some (.shared .reset))
  | pass (hbyte : h.mem ptrs.mwmonMmapArea ≠ MWMON_NOTIFIED_VAL) :
      SpinRun version ptrs cond c h .check h (some (.shared .mwait))
  | wake (hfree : ¬ h.Blocks c) :
      SpinRun version ptrs cond c h (.shared .mwait) h (some (.shared .test))
  | leave :
      SpinRun version ptrs cond c h (.shared .reset)
        (h.store c ptrs.mwmonMmapArea MWMON_ORIGINAL_VAL) none

/-- The places that both kernels have, but for the one where they go apart. -/
theorem spinRun_of_shared {pc : SpinWhilePc} {next : Option SpinWhilePc}
    (hpc : version = .onepackageonly → pc ≠ .irqEnable)
    (hrun : sysMwmonMmapSpinWhileGreater ptrs cond c pc h = some (h', next)) :
    SpinRun version ptrs cond c h (.shared pc) h' (next.map .shared) := by
  cases pc with
  | test =>
      simp only [sysMwmonMmapSpinWhileGreater, BitVec.slt_eq_decide, decide_eq_true_eq,
        Option.some.injEq, Prod.mk.injEq] at hrun
      obtain ⟨rfl, rfl⟩ := hrun
      by_cases hread : (readLong h.mem ptrs.mwmonLintVarAddr).toInt < cond.toInt
      · rw [if_pos hread]
        exact .below hread
      · rw [if_neg hread]
        exact .enough (not_lt.mp hread)
  | irqDisable =>
      simp only [sysMwmonMmapSpinWhileGreater, Option.some.injEq, Prod.mk.injEq] at hrun
      obtain ⟨rfl, rfl⟩ := hrun
      exact .disable
  | monitor =>
      simp only [sysMwmonMmapSpinWhileGreater, Option.some.injEq, Prod.mk.injEq] at hrun
      obtain ⟨rfl, rfl⟩ := hrun
      exact .arm
  | irqEnable =>
      simp only [sysMwmonMmapSpinWhileGreater, Option.some.injEq, Prod.mk.injEq] at hrun
      obtain ⟨rfl, rfl⟩ := hrun
      exact .enable _ (.inr rfl)
  | mwait =>
      simp only [sysMwmonMmapSpinWhileGreater, Option.ite_none_left_eq_some, Option.some.injEq,
        Prod.mk.injEq] at hrun
      obtain ⟨hfree, rfl, rfl⟩ := hrun
      exact .wake hfree
  | reset =>
      simp only [sysMwmonMmapSpinWhileGreater, Option.some.injEq, Prod.mk.injEq] at hrun
      obtain ⟨rfl, rfl⟩ := hrun
      exact .leave

theorem spinWhileGreater_run
    (hrun : version.spinWhileGreater ptrs cond c place h = some (h', next)) :
    SpinRun version ptrs cond c h place h' next := by
  cases version with
  | twopackages =>
      cases place with
      | check => simp [KernelVersion.spinWhileGreater] at hrun
      | shared pc =>
          simp only [KernelVersion.spinWhileGreater, Option.map_eq_some_iff, Prod.exists,
            Prod.mk.injEq] at hrun
          obtain ⟨_, next', hrun, rfl, rfl⟩ := hrun
          exact spinRun_of_shared (fun hversion => KernelVersion.noConfusion hversion) hrun
  | onepackageonly =>
      cases place with
      | check =>
          simp only [KernelVersion.spinWhileGreater, sysMwmonMmapSpinWhileGreaterOnepackageonly,
            Option.some.injEq, Prod.mk.injEq] at hrun
          obtain ⟨rfl, rfl⟩ := hrun
          by_cases hbyte : h.mem ptrs.mwmonMmapArea = MWMON_NOTIFIED_VAL
          · rw [if_pos hbyte]
            exact .broken rfl hbyte
          · rw [if_neg hbyte]
            exact .pass hbyte
      | shared pc =>
          by_cases hpc : pc = .irqEnable
          · subst hpc
            simp only [KernelVersion.spinWhileGreater,
              sysMwmonMmapSpinWhileGreaterOnepackageonly, Option.some.injEq,
              Prod.mk.injEq] at hrun
            obtain ⟨rfl, rfl⟩ := hrun
            exact .enable _ (.inl ⟨rfl, rfl⟩)
          · have hshared : sysMwmonMmapSpinWhileGreaterOnepackageonly ptrs cond c (.shared pc) h =
                (sysMwmonMmapSpinWhileGreater ptrs cond c pc h).map fun r =>
                  (r.1, r.2.map .shared) := by
              cases pc with
              | irqEnable => exact absurd rfl hpc
              | _ => rfl
            simp only [KernelVersion.spinWhileGreater, hshared, Option.map_eq_some_iff,
              Prod.exists, Prod.mk.injEq] at hrun
            obtain ⟨_, next', hrun, rfl, rfl⟩ := hrun
            exact spinRun_of_shared (fun _ => hpc) hrun

/-- Until it returns the call only reads the memory. -/
theorem SpinRun.mem_eq {place' : SpinPlace} (hrun : SpinRun version ptrs cond c h place h' next)
    (hnext : next = some place') : h'.mem = h.mem := by
  cases hrun with
  | leave => cases hnext
  | _ => rfl

theorem SpinRun.ne_reset {place' : SpinPlace}
    (hrun : SpinRun version ptrs cond c h place h' next) (hnext : next = some place') :
    place ≠ .shared .reset := by
  cases hrun with
  | leave => cases hnext
  | _ => simp

/-- It returns with the store that resets the byte. -/
theorem SpinRun.of_returned (hrun : SpinRun version ptrs cond c h place h' next)
    (hnext : next = none) :
    place = .shared .reset ∧ h' = h.store c ptrs.mwmonMmapArea MWMON_ORIGINAL_VAL := by
  cases hrun with
  | leave => exact ⟨rfl, rfl⟩
  | _ => cases hnext

/-- It arms no monitor but its own. -/
theorem SpinRun.blocks (hrun : SpinRun version ptrs cond c h place h' next) (hne : d ≠ c)
    (hheld : h'.Blocks d) : h.Blocks d := by
  cases hrun with
  | arm => rwa [Hardware.Blocks, Hardware.monitor_armed_of_ne hne] at hheld
  | leave =>
      rcases h.store_armed_cases (c := c) (a := ptrs.mwmonMmapArea) (v := MWMON_ORIGINAL_VAL)
        (d := d) with hnone | hsame
      · exact absurd hnone hheld
      · rwa [Hardware.Blocks, hsame] at hheld
  | _ => exact hheld

theorem SleepMove.ne_reset {p : Addr} {pc pc' : SleepPc} {out : SleepOutcome}
    (hmove : SleepMove p c pc h h' out) (hout : out = .goto pc') : pc ≠ .reset := by
  rintro rfl
  cases hmove with
  | seen hpc => rcases hpc with hpc | hpc <;> cases hpc
  | reset => cases hout
  | disable hpc => cases hpc
  | arm hpc => cases hpc
  | enable hpc => cases hpc
  | unseen hpc => cases hpc
  | wake hpc => cases hpc
  | again hpc => cases hpc

/-- One step of a thread in a call. -/
inductive CallRun (version : KernelVersion) (ptrs : Pointers) (c : ι) (h : Machine ι)
    (t : SpinThread) : Machine ι → SpinThread → Prop
  | sleeps (call : SleepCall) (pc pc' : SleepPc) (h' : Machine ι)
      (hactivity : t.activity = .asleep call pc)
      (hmove : SleepMove (call.target ptrs) c pc h h' (.goto pc')) :
      CallRun version ptrs c h t h' { t with activity := .asleep call pc' }
  | awakes (call : SleepCall) (hactivity : t.activity = .asleep call .reset) :
      CallRun version ptrs c h t (h.store c (call.target ptrs) MWMON_ORIGINAL_VAL)
        { t with activity := .user }
  | spins (cond : BitVec 64) (place place' : SpinPlace) (reads : List (BitVec 64))
      (h' : Machine ι) (hactivity : t.activity = .spinning cond place reads)
      (hrun : SpinRun version ptrs cond c h place h' (some place')) :
      CallRun version ptrs c h t h'
        { t with activity := .spinning cond place' (readsAfter ptrs h.mem place reads) }
  | returns (cond : BitVec 64) (reads : List (BitVec 64))
      (hactivity : t.activity = .spinning cond (.shared .reset) reads) :
      CallRun version ptrs c h t (h.store c ptrs.mwmonMmapArea MWMON_ORIGINAL_VAL)
        ⟨.user, t.returns ++ [⟨cond, reads⟩]⟩

theorem callRun_of_step {t t' : SpinThread}
    (hstep : spinThread version ptrs c .step h t = some (h', t')) :
    CallRun version ptrs c h t h' t' := by
  cases hactivity : t.activity with
  | user => simp [spinThread, hactivity] at hstep
  | asleep call pc =>
      simp only [spinThread, hactivity, SleepCall.run_eq, Option.map_eq_some_iff,
        Prod.exists] at hstep
      obtain ⟨machine, out, hrun, hout⟩ := hstep
      have hmove := mwmonSleep_cases hrun
      cases out with
      | goto pc' =>
          obtain ⟨rfl, rfl⟩ := Prod.mk.inj hout
          exact .sleeps call pc pc' machine hactivity hmove
      | returned =>
          obtain ⟨rfl, rfl⟩ := Prod.mk.inj hout
          obtain ⟨rfl, rfl⟩ := hmove.of_returned rfl
          exact .awakes call hactivity
  | spinning cond place reads =>
      simp only [spinThread, hactivity, Option.map_eq_some_iff, Prod.exists] at hstep
      obtain ⟨machine, next, hrun, hnext⟩ := hstep
      have hspin := spinWhileGreater_run hrun
      cases next with
      | some place' =>
          obtain ⟨rfl, rfl⟩ := Prod.mk.inj hnext
          exact .spins cond place place' reads machine hactivity hspin
      | none =>
          obtain ⟨rfl, rfl⟩ := Prod.mk.inj hnext
          obtain ⟨rfl, rfl⟩ := hspin.of_returned rfl
          exact .returns cond reads hactivity

/-- An interrupt leads a thread nowhere but out of MWAIT. -/
theorem Interrupt.onSpinActivity_cases (i : Interrupt) (activity : SpinActivity) :
    i.onSpinActivity activity = activity ∨
      (∃ call, activity = .asleep call .mwait ∧
        i.onSpinActivity activity = .asleep call .recheck) ∨
      ∃ cond reads, i.wakes = true ∧ activity = .spinning cond (.shared .mwait) reads ∧
        i.onSpinActivity activity = .spinning cond (.shared .test) reads := by
  cases activity with
  | user => exact .inl rfl
  | asleep call pc =>
      rcases i.onSleeper_cases pc with hsame | ⟨rfl, hwake⟩
      · exact .inl (congrArg (SpinActivity.asleep call) hsame)
      · exact .inr (.inl ⟨call, rfl, congrArg (SpinActivity.asleep call) hwake⟩)
  | spinning cond place reads =>
      cases place with
      | check => exact .inl rfl
      | shared pc =>
          cases pc with
          | mwait =>
              rw [onSpinActivity]
              cases i.wakes with
              | true => exact .inr (.inr ⟨cond, reads, rfl, rfl, rfl⟩)
              | false => exact .inl rfl
          | _ => exact .inl rfl

/-- How far a thread is from the reset when the long is not below its condition. -/
def SpinPlace.turns : SpinPlace → ℕ
  | .shared .irqDisable => 6
  | .shared .monitor => 5
  | .shared .irqEnable => 4
  | .check => 3
  | .shared .mwait => 2
  | .shared .test => 1
  | .shared .reset => 0

theorem SpinPlace.turns_le (place : SpinPlace) : place.turns ≤ 6 := by
  cases place with
  | check => decide
  | shared pc => cases pc <;> decide

theorem SpinRun.turns_lt {place' : SpinPlace}
    (hrun : SpinRun version ptrs cond c h place h' next) (hnext : next = some place')
    (hread : cond.toInt ≤ (readLong h.mem ptrs.mwmonLintVarAddr).toInt) :
    place'.turns < place.turns := by
  cases hrun with
  | enough => cases hnext; decide
  | below hbelow => exact absurd hread (not_le.mpr hbelow)
  | disable => cases hnext; decide
  | arm => cases hnext; decide
  | enable place' hplace' =>
      cases hnext
      rcases hplace' with ⟨-, rfl⟩ | rfl <;> decide
  | broken => cases hnext; decide
  | pass => cases hnext; decide
  | wake => cases hnext; decide
  | leave => cases hnext

/-- The places the call has on a kernel. -/
def SpinPlace.On (version : KernelVersion) (place : SpinPlace) : Prop :=
  place = .check → version = .onepackageonly

theorem SpinRun.on (hrun : SpinRun version ptrs cond c h place h' next) {place' : SpinPlace}
    (hnext : next = some place') : place'.On version := by
  cases hrun with
  | enable place' hplace' =>
      cases hnext
      rintro rfl
      rcases hplace' with ⟨hversion, -⟩ | hplace'
      · exact hversion
      · cases hplace'
  | leave => cases hnext
  | _ =>
      cases hnext
      rintro ⟨⟩

/-- A thread in the call can go on if MWAIT does not hold it. -/
theorem spinWhileGreater_isSome (hon : place.On version)
    (hfree : place = .shared .mwait → ¬ h.Blocks c) :
    (version.spinWhileGreater ptrs cond c place h).isSome := by
  cases version with
  | twopackages =>
      cases place with
      | check => exact absurd (hon rfl) (by decide)
      | shared pc =>
          simp only [KernelVersion.spinWhileGreater, Option.isSome_map]
          cases pc with
          | mwait => simp [sysMwmonMmapSpinWhileGreater, hfree rfl]
          | _ => rfl
  | onepackageonly =>
      cases place with
      | check => rfl
      | shared pc =>
          cases pc with
          | mwait =>
              simp [KernelVersion.spinWhileGreater, sysMwmonMmapSpinWhileGreaterOnepackageonly,
                sysMwmonMmapSpinWhileGreater, hfree rfl]
          | _ => rfl

/-- A store of a long by another processor keeps the watch. -/
theorem SleepWatch.storeLong {p a : Addr} {v : BitVec 64} {pc : SleepPc}
    (hwatch : SleepWatch p c h pc) (hne : c ≠ d) : SleepWatch p c (storeLong d a v h) pc := by
  have hbytes (n : ℕ) : SleepWatch p c
      ((List.range n).foldl (fun h i => h.store d (a + i) (longByte v i)) h) pc := by
    induction n with
    | zero => exact hwatch
    | succ n ih =>
        rw [List.range_succ, List.foldl_append]
        exact ih.store hne
  exact hbytes 8

/-- The long is read as it was when the memory has changed elsewhere. -/
theorem readLong_congr {mem mem' : Addr → Byte} {a : Addr}
    (hsame : ∀ i < 8, mem' (a + i) = mem (a + i)) : readLong mem' a = readLong mem a := by
  have hzero : mem' a = mem a := hsame 0 (by decide)
  simp only [readLong, hzero, hsame 7 (by decide), hsame 6 (by decide), hsame 5 (by decide),
    hsame 4 (by decide), hsame 3 (by decide), hsame 2 (by decide), hsame 1 (by decide)]

end

end Htsynch
