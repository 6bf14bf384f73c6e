/-
# What `sys_mwmon_mmap_spin_while_greater` waits for

The call spins while the shared long is smaller than its argument. Two kernels have
it, and they differ in one step: between arming the monitor and MWAIT the
onepackageonly kernel looks at the notification byte and leaves the loop when it is
notified, while the twopackages kernel has that check commented out. A call that
leaves through the check has not seen its condition.

Threads store what they like where they like, the long in one piece, make the other
sleep calls and are interrupted anywhere. Every thread records what its tests have
read, call by call.
-/

import Htsynch.Foundations.PollLoop
import Htsynch.Kernel.KmemMapper

namespace Htsynch

open Foundations StateTransition

/-- Byte `i` of a `long int`. -/
def longByte (v : BitVec 64) (i : ℕ) : Byte := v.extractLsb' (8 * i) 8

/-- Memory after a store of a `long int`. -/
def writeLong (mem : Addr → Byte) (a : Addr) (v : BitVec 64) : Addr → Byte :=
  fun b => if a ≤ b ∧ b < a + 8 then longByte v (b - a) else mem b

/-- A load finds the long that was stored. -/
@[simp]
theorem readLong_writeLong {mem : Addr → Byte} {a : Addr} {v : BitVec 64} :
    readLong (writeLong mem a v) a = v := by
  have hbyte : ∀ i < 8, writeLong mem a v (a + i) = longByte v i := by
    intro i hi
    simp [writeLong, hi]
  have hzero : writeLong mem a v a = longByte v 0 := hbyte 0 (by decide)
  simp only [readLong, hzero, hbyte 7 (by decide), hbyte 6 (by decide), hbyte 5 (by decide),
    hbyte 4 (by decide), hbyte 3 (by decide), hbyte 2 (by decide), hbyte 1 (by decide)]
  apply BitVec.eq_of_getLsbD_eq
  intro i hi
  simp only [longByte, BitVec.getLsbD_append, BitVec.getLsbD_extractLsb']
  grind

section

variable {ι : Type} [DecidableEq ι]

/-- A store of a `long int`, byte by byte but in one step. -/
def storeLong (c : ι) (a : Addr) (v : BitVec 64) (h : Machine ι) : Machine ι :=
  (List.range 8).foldl (fun h i => h.store c (a + i) (longByte v i)) h

theorem storeBytes_mem {c : ι} {a : Addr} {v : BitVec 64} {h : Machine ι} (n : ℕ) :
    ((List.range n).foldl (fun h i => h.store c (a + i) (longByte v i)) h).mem =
      fun b => if a ≤ b ∧ b < a + n then longByte v (b - a) else h.mem b := by
  induction n with
  | zero =>
      funext b
      simp
  | succ n ih =>
      funext b
      rw [List.range_succ, List.foldl_append]
      by_cases hb : b = a + n
      · subst hb
        simp
      · have hiff : b < a + (n + 1) ↔ b < a + n :=
          Nat.lt_succ_iff_lt_or_eq.trans (or_iff_left hb)
        simp [Hardware.store_mem_of_ne hb, ih, hiff]

/-- The store is the store of the long. -/
theorem storeLong_mem {c : ι} {a : Addr} {v : BitVec 64} {h : Machine ι} :
    (storeLong c a v h).mem = writeLong h.mem a v :=
  storeBytes_mem 8

end

/-! ## The two kernels -/

/-- The kernels of 2.6.13.1. -/
inductive KernelVersion
  | onepackageonly
  | twopackages
  deriving DecidableEq

/-- Where a thread is in the call: at a place both kernels have, or at the check of
the onepackageonly kernel. -/
inductive SpinPlace
  | shared (pc : SpinWhilePc)
  /-- `if (*mwmon_mmap_area == MWMON_NOTIFIED_VAL) break`. -/
  | check
  deriving DecidableEq

section

variable {ι : Type} [DecidableEq ι]

/-- `sys_mwmon_mmap_spin_while_greater` of the onepackageonly kernel: the loop of the
twopackages kernel with a check between `local_irq_enable` and MWAIT. -/
def sysMwmonMmapSpinWhileGreaterOnepackageonly (ptrs : Pointers) (localCondition : BitVec 64)
    (c : ι) : SpinPlace → Machine ι → Option (Machine ι × Option SpinPlace)
  | .shared .irqEnable, h => some (h, some .check)
  | .check, h =>
      some (h, if h.mem ptrs.mwmonMmapArea = MWMON_NOTIFIED_VAL then some (.shared .reset)
        else some (.shared .mwait))
  | .shared pc, h =>
      (sysMwmonMmapSpinWhileGreater ptrs localCondition c pc h).map fun r =>
        (r.1, r.2.map .shared)

/-- The call of each kernel. -/
def KernelVersion.spinWhileGreater (version : KernelVersion) (ptrs : Pointers)
    (localCondition : BitVec 64) (c : ι) :
    SpinPlace → Machine ι → Option (Machine ι × Option SpinPlace) :=
  match version with
  | .onepackageonly => sysMwmonMmapSpinWhileGreaterOnepackageonly ptrs localCondition c
  | .twopackages => fun place h =>
      match place with
      | .shared pc =>
          (sysMwmonMmapSpinWhileGreater ptrs localCondition c pc h).map fun r =>
            (r.1, r.2.map .shared)
      | .check => none

end

/-- A call that has returned, with everything its tests have read. -/
structure SpinReturn where
  localCondition : BitVec 64
  reads : List (BitVec 64)
  deriving DecidableEq

/-- The last value read satisfied the condition, and no value before it did. -/
def SpinReturn.Met (r : SpinReturn) : Prop :=
  ∃ before last, r.reads = before ++ [last] ∧ r.localCondition.toInt ≤ last.toInt ∧
    ∀ v ∈ before, v.toInt < r.localCondition.toInt

/-- The tests have read the first values of a sequence. -/
def SpinReturn.FedBy (r : SpinReturn) (seen : ℕ → BitVec 64) : Prop :=
  r.reads = (List.range r.reads.length).map seen

/-- What a thread is doing. -/
inductive SpinActivity
  | user
  | asleep (call : SleepCall) (pc : SleepPc)
  | spinning (localCondition : BitVec 64) (place : SpinPlace) (reads : List (BitVec 64))
  deriving DecidableEq

/-- A thread, with the calls that have returned to it. -/
structure SpinThread where
  activity : SpinActivity
  returns : List SpinReturn
  deriving DecidableEq

/-- What may happen to a thread next. -/
inductive SpinChoice
  | store (a : Addr) (v : Byte)
  | storeLong (a : Addr) (v : BitVec 64)
  | kernelNotify
  | sleep (call : SleepCall)
  | spinWhileGreater (localCondition : BitVec 64)
  | step
  | interrupt (i : Interrupt)
  deriving DecidableEq

/-- What an interrupt does to a thread. -/
def Interrupt.onSpinActivity (i : Interrupt) : SpinActivity → SpinActivity
  | .asleep call pc => .asleep call (i.onSleeper pc)
  | .spinning cond (.shared .mwait) reads =>
      .spinning cond (.shared (if i.wakes then .test else .mwait)) reads
  | p => p

/-- What a test adds to the values read so far. -/
def readsAfter (ptrs : Pointers) (mem : Addr → Byte) (place : SpinPlace)
    (reads : List (BitVec 64)) : List (BitVec 64) :=
  if place = .shared .test then reads ++ [readLong mem ptrs.mwmonLintVarAddr] else reads

section

variable {ι : Type} [DecidableEq ι]

/-- One step of a thread. -/
def spinThread (version : KernelVersion) (ptrs : Pointers) :
    Program ι (Machine ι) SpinThread SpinChoice
  | c, .interrupt i, h, t =>
      some (i.onMachine c h, { t with activity := i.onSpinActivity t.activity })
  | c, choice, h, t =>
    match choice, t.activity with
    | .store a v, .user => some (h.store c a v, t)
    | .storeLong a v, .user => some (storeLong c a v h, t)
    | .kernelNotify, .user => some (sysMwmonKernelNotify ptrs c h, t)
    | .sleep call, .user => some (h, { t with activity := .asleep call .irqDisable })
    | .spinWhileGreater cond, .user =>
        some (h, { t with activity := .spinning cond (.shared .test) [] })
    | .step, .asleep call pc =>
        (call.run ptrs c pc h).map fun r =>
          match r.2 with
          | .goto pc' => (r.1, { t with activity := .asleep call pc' })
          | .returned => (r.1, { t with activity := .user })
    | .step, .spinning cond place reads =>
        (version.spinWhileGreater ptrs cond c place h).map fun r =>
          let reads' := readsAfter ptrs h.mem place reads
          match r.2 with
          | some place' => (r.1, { t with activity := .spinning cond place' reads' })
          | none => (r.1, { t with activity := .user, returns := t.returns ++ [⟨cond, reads'⟩] })
    | _, _ => none

/-- Nobody has entered a call yet. -/
def spinThreadInit (s : Config ι (Machine ι) SpinThread) : Prop :=
  ∀ i, s.threads i = ⟨.user, []⟩

/-- Any number of threads on one kernel. -/
def spinThreadSystem (ι : Type) [DecidableEq ι] (version : KernelVersion) (ptrs : Pointers) :
    System (Config ι (Machine ι) SpinThread) (ι × SpinChoice) :=
  interleave spinThreadInit (spinThread version ptrs)

/-- Every call that has returned has seen its condition, and no earlier than with its
last test. -/
def ReturnsOnCondition (s : Config ι (Machine ι) SpinThread) : Prop :=
  ∀ i, ∀ r ∈ (s.threads i).returns, r.Met

/-- What calls with one condition that are fed with one sequence have in common. -/
structure SamePoll (s s' : Config ι (Machine ι) SpinThread) : Prop where
  /-- If both have returned, they did on the same poll. -/
  returned : ∀ i, ∀ r ∈ (s.threads i).returns, ∀ i', ∀ r' ∈ (s'.threads i').returns,
    r.localCondition = r'.localCondition → ∀ seen, r.FedBy seen → r'.FedBy seen →
      r.reads.length = r'.reads.length
  /-- If one is still in its loop, it has not made the poll the other returned on. -/
  spinning : ∀ i, ∀ r ∈ (s.threads i).returns, ∀ i' place reads,
    (s'.threads i').activity = .spinning r.localCondition place reads →
      place ≠ .shared .reset → ∀ seen, r.FedBy seen →
        (⟨r.localCondition, reads⟩ : SpinReturn).FedBy seen → reads.length < r.reads.length

/-- The thread is at the check of the onepackageonly kernel. -/
def SpinActivity.atCheck : SpinActivity → Bool
  | .spinning _ .check _ => true
  | _ => false

/-- The step is not a check of the onepackageonly kernel that finds the byte notified. -/
def ChecksUnnotified (version : KernelVersion) (ptrs : Pointers)
    (s : Config ι (Machine ι) SpinThread) (label : ι × SpinChoice) : Prop :=
  version = .onepackageonly → label.2 = .step → (s.threads label.1).activity.atCheck = true →
    s.shared.mem ptrs.mwmonMmapArea ≠ MWMON_NOTIFIED_VAL

instance (version : KernelVersion) (ptrs : Pointers) (s : Config ι (Machine ι) SpinThread)
    (label : ι × SpinChoice) : Decidable (ChecksUnnotified version ptrs s label) :=
  inferInstanceAs (Decidable (_ → _ → _ → _))

/-- One step of the call, by what it decides. -/
inductive SpinStep (ptrs : Pointers) (localCondition : BitVec 64) (mem : Addr → Byte) :
    SpinPlace → Option SpinPlace → Prop
  | enough (hread : localCondition.toInt ≤ (readLong mem ptrs.mwmonLintVarAddr).toInt) :
      SpinStep ptrs localCondition mem (.shared .test) (some (.shared .reset))
  | below (hread : (readLong mem ptrs.mwmonLintVarAddr).toInt < localCondition.toInt) :
      SpinStep ptrs localCondition mem (.shared .test) (some (.shared .irqDisable))
  | leave : SpinStep ptrs localCondition mem (.shared .reset) none
  | broken (hbyte : mem ptrs.mwmonMmapArea = MWMON_NOTIFIED_VAL) :
      SpinStep ptrs localCondition mem .check (some (.shared .reset))
  | pass (place place' : SpinPlace) (htest : place ≠ .shared .test)
      (hreset : place ≠ .shared .reset) (hreset' : place' ≠ .shared .reset) :
      SpinStep ptrs localCondition mem place (some place')

variable {ptrs : Pointers} {version : KernelVersion} {cond : BitVec 64} {c : ι}
  {place : SpinPlace} {next : Option SpinPlace} {h h' : Machine ι}

/-- The places both kernels have. -/
theorem sysMwmonMmapSpinWhileGreater_cases {pc : SpinWhilePc} {next : Option SpinWhilePc}
    (hrun : sysMwmonMmapSpinWhileGreater ptrs cond c pc h = some (h', next)) :
    SpinStep ptrs cond h.mem (.shared pc) (next.map .shared) := by
  cases pc with
  | test =>
      simp only [sysMwmonMmapSpinWhileGreater, BitVec.slt_eq_decide, decide_eq_true_eq,
        Option.some.injEq, Prod.mk.injEq] at hrun
      by_cases hread : (readLong h.mem ptrs.mwmonLintVarAddr).toInt < cond.toInt
      · rw [if_pos hread] at hrun
        rw [← hrun.2]
        exact .below hread
      · rw [if_neg hread] at hrun
        rw [← hrun.2]
        exact .enough (Int.not_lt.mp hread)
  | mwait =>
      simp only [sysMwmonMmapSpinWhileGreater, Option.ite_none_left_eq_some,
        Option.some.injEq, Prod.mk.injEq] at hrun
      rw [← hrun.2.2]
      exact .pass _ _ (by simp) (by simp) (by simp)
  | reset =>
      simp only [sysMwmonMmapSpinWhileGreater, Option.some.injEq, Prod.mk.injEq] at hrun
      rw [← hrun.2]
      exact .leave
  | _ =>
      simp only [sysMwmonMmapSpinWhileGreater, Option.some.injEq, Prod.mk.injEq] at hrun
      rw [← hrun.2]
      exact .pass _ _ (by simp) (by simp) (by simp)

theorem sysMwmonMmapSpinWhileGreaterOnepackageonly_cases
    (hrun : sysMwmonMmapSpinWhileGreaterOnepackageonly ptrs cond c place h = some (h', next)) :
    SpinStep ptrs cond h.mem place next := by
  cases place with
  | check =>
      simp only [sysMwmonMmapSpinWhileGreaterOnepackageonly, Option.some.injEq,
        Prod.mk.injEq] at hrun
      by_cases hbyte : h.mem ptrs.mwmonMmapArea = MWMON_NOTIFIED_VAL
      · rw [if_pos hbyte] at hrun
        rw [← hrun.2]
        exact .broken hbyte
      · rw [if_neg hbyte] at hrun
        rw [← hrun.2]
        exact .pass _ _ (by simp) (by simp) (by simp)
  | shared pc =>
      cases pc with
      | irqEnable =>
          simp only [sysMwmonMmapSpinWhileGreaterOnepackageonly, Option.some.injEq,
            Prod.mk.injEq] at hrun
          rw [← hrun.2]
          exact .pass _ _ (by simp) (by simp) (by simp)
      | _ =>
          simp only [sysMwmonMmapSpinWhileGreaterOnepackageonly, Option.map_eq_some_iff,
            Prod.exists, Prod.mk.injEq] at hrun
          obtain ⟨_, next', hrun, -, rfl⟩ := hrun
          exact sysMwmonMmapSpinWhileGreater_cases hrun

theorem spinWhileGreater_cases
    (hrun : version.spinWhileGreater ptrs cond c place h = some (h', next)) :
    SpinStep ptrs cond h.mem place next := by
  cases version with
  | onepackageonly => exact sysMwmonMmapSpinWhileGreaterOnepackageonly_cases hrun
  | twopackages =>
      cases place with
      | check => simp [KernelVersion.spinWhileGreater] at hrun
      | shared pc =>
          simp only [KernelVersion.spinWhileGreater, Option.map_eq_some_iff, Prod.exists,
            Prod.mk.injEq] at hrun
          obtain ⟨_, next', hrun, -, rfl⟩ := hrun
          exact sysMwmonMmapSpinWhileGreater_cases hrun

/-! ## What the reads of a call say -/

/-- What a thread knows from its tests: none has been passed, except on the way out,
where the last one has. -/
def SpinActivity.Ok : SpinActivity → Prop
  | .spinning cond (.shared .reset) reads => (⟨cond, reads⟩ : SpinReturn).Met
  | .spinning cond _ reads => ∀ v ∈ reads, v.toInt < cond.toInt
  | _ => True

theorem SpinActivity.ok_of_below {reads : List (BitVec 64)} (hplace : place ≠ .shared .reset)
    (hbelow : ∀ v ∈ reads, v.toInt < cond.toInt) : (spinning cond place reads).Ok := by
  cases place with
  | check => exact hbelow
  | shared pc =>
      cases pc with
      | reset => exact absurd rfl hplace
      | _ => exact hbelow

theorem SpinActivity.Ok.below {reads : List (BitVec 64)} (hok : (spinning cond place reads).Ok)
    (hplace : place ≠ .shared .reset) : ∀ v ∈ reads, v.toInt < cond.toInt := by
  cases place with
  | check => exact hok
  | shared pc =>
      cases pc with
      | reset => exact absurd rfl hplace
      | _ => exact hok

theorem SpinActivity.Ok.interrupt {t : SpinActivity} {i : Interrupt} (hok : t.Ok) :
    (i.onSpinActivity t).Ok := by
  cases t with
  | spinning cond place reads =>
      by_cases hplace : place = .shared .mwait
      · subst hplace
        have hbelow := hok.below (by simp)
        refine ok_of_below ?_ hbelow
        cases i.wakes <;> simp
      · have hsame :
            i.onSpinActivity (.spinning cond place reads) = .spinning cond place reads := by
          cases place with
          | check => rfl
          | shared pc =>
              cases pc with
              | mwait => exact absurd rfl hplace
              | _ => rfl
        rwa [hsame]
  | _ => exact trivial

/-- A step of the call keeps what its reads say, and so does its return. -/
theorem SpinStep.keeps {mem : Addr → Byte} {reads : List (BitVec 64)}
    (hstep : SpinStep ptrs cond mem place next) (hok : (SpinActivity.spinning cond place reads).Ok)
    (hcheck : place = .check → mem ptrs.mwmonMmapArea ≠ MWMON_NOTIFIED_VAL) :
    match next with
    | some place' => (SpinActivity.spinning cond place' (readsAfter ptrs mem place reads)).Ok
    | none => (⟨cond, readsAfter ptrs mem place reads⟩ : SpinReturn).Met := by
  cases hstep with
  | enough hread => exact ⟨reads, _, rfl, hread, hok⟩
  | below hread =>
      intro v hv
      rcases List.mem_append.mp hv with hv | hv
      · exact hok v hv
      · rwa [List.mem_singleton.mp hv]
  | leave => exact hok
  | broken hbyte => exact absurd hbyte (hcheck rfl)
  | pass place place' htest hreset hreset' =>
      rw [readsAfter, if_neg htest]
      exact SpinActivity.ok_of_below hreset' (hok.below hreset)

/-- What a thread knows, and what it has been told. -/
structure SpinThread.Ok (t : SpinThread) : Prop where
  activity : t.activity.Ok
  returns : ∀ r ∈ t.returns, r.Met

variable {t t' : SpinThread} {choice : SpinChoice}

/-- A step of the call appends the read of its test, and a return is recorded with its
reads. -/
theorem SpinThread.Ok.spinning (hok : t.Ok) {reads : List (BitVec 64)}
    (hactivity : t.activity = .spinning cond place reads)
    (hstep : spinThread version ptrs c .step h t = some (h', t'))
    (hcheck : version = .onepackageonly → place = .check →
      h.mem ptrs.mwmonMmapArea ≠ MWMON_NOTIFIED_VAL) : t'.Ok := by
  simp only [spinThread, hactivity, Option.map_eq_some_iff, Prod.exists] at hstep
  obtain ⟨_, next, hrun, hnext⟩ := hstep
  have hknown := hok.activity
  rw [hactivity] at hknown
  have hunnotified : place = .check → h.mem ptrs.mwmonMmapArea ≠ MWMON_NOTIFIED_VAL := by
    rintro rfl
    cases version with
    | onepackageonly => exact hcheck rfl rfl
    | twopackages => simp [KernelVersion.spinWhileGreater] at hrun
  have hkeeps := (spinWhileGreater_cases hrun).keeps hknown hunnotified
  cases next with
  | some place' =>
      rw [← (Prod.mk.inj hnext).2]
      exact ⟨hkeeps, hok.returns⟩
  | none =>
      rw [← (Prod.mk.inj hnext).2]
      refine ⟨trivial, fun r hr => ?_⟩
      rcases List.mem_append.mp hr with hr | hr
      · exact hok.returns r hr
      · rw [List.mem_singleton.mp hr]
        exact hkeeps

/-- A thread's step keeps what it knows, unless it leaves through a check. -/
theorem SpinThread.Ok.step (hok : t.Ok)
    (hstep : spinThread version ptrs c choice h t = some (h', t'))
    (hcheck : version = .onepackageonly → choice = .step → t.activity.atCheck = true →
      h.mem ptrs.mwmonMmapArea ≠ MWMON_NOTIFIED_VAL) : t'.Ok := by
  cases choice with
  | interrupt i =>
      simp only [spinThread, Option.some.injEq, Prod.mk.injEq] at hstep
      rw [← hstep.2]
      exact ⟨hok.activity.interrupt, hok.returns⟩
  | step =>
      cases hactivity : t.activity with
      | user => simp [spinThread, hactivity] at hstep
      | asleep call pc =>
          simp only [spinThread, hactivity, Option.map_eq_some_iff, Prod.exists] at hstep
          obtain ⟨_, out, -, hout⟩ := hstep
          cases out with
          | goto pc' =>
              rw [← (Prod.mk.inj hout).2]
              exact ⟨trivial, hok.returns⟩
          | returned =>
              rw [← (Prod.mk.inj hout).2]
              exact ⟨trivial, hok.returns⟩
      | spinning cond place reads =>
          exact hok.spinning hactivity hstep fun hversion hplace =>
            hcheck hversion rfl (by rw [hactivity, hplace]; rfl)
  | _ =>
      cases hactivity : t.activity with
      | user =>
          simp only [spinThread, hactivity, Option.some.injEq, Prod.mk.injEq] at hstep
          rw [← hstep.2]
          refine ⟨?_, hok.returns⟩
          first
            | exact hok.activity
            | exact trivial
            | exact fun v hv => absurd hv List.not_mem_nil
      | _ => simp [spinThread, hactivity] at hstep

variable {s s' : Config ι (Machine ι) SpinThread}

/-- In runs whose checks find the byte not notified, every thread knows what its tests
have read. -/
theorem spinThread_ok
    (hreach : (spinThreadSystem ι version ptrs).ReachableVia (ChecksUnnotified version ptrs) s)
    (i : ι) :
    (s.threads i).Ok := by
  refine interleave_invariant_via (P := fun s => ∀ i, (s.threads i).Ok) ?_ ?_ hreach i
  · intro s hinit i
    rw [hinit i]
    exact ⟨trivial, fun r hr => absurd hr List.not_mem_nil⟩
  · intro s who choice h' own hall hallow hstep j
    refine Config.move_cases (motive := SpinThread.Ok) j (fun _ => ?_) (fun _ => hall j)
    exact (hall who).step hstep hallow

/-- The twopackages kernel has no check, so that all its runs are such runs. -/
theorem twopackages_ok (hreach : (spinThreadSystem ι .twopackages ptrs).Reachable s) (i : ι) :
    (s.threads i).Ok :=
  spinThread_ok (hreach.mono fun _ _ _ h => KernelVersion.noConfusion h) i

/-- A call fed with a sequence ends with the first hit of the sequence. -/
theorem SpinReturn.Met.firstHit {r : SpinReturn} (hmet : r.Met) {seen : ℕ → BitVec 64}
    (hfed : r.FedBy seen) :
    ∃ k, r.reads.length = k + 1 ∧
      FirstHit (fun k => r.localCondition.toInt ≤ (seen k).toInt) k := by
  obtain ⟨before, last, hreads, hlast, hbefore⟩ := hmet
  have hlen : r.reads.length = before.length + 1 := by rw [hreads, List.length_append]; rfl
  rw [SpinReturn.FedBy, hlen, List.range_succ, List.map_append, hreads] at hfed
  obtain ⟨hinitial, hlastEq⟩ := List.append_inj hfed (by simp)
  have hseen : last = seen before.length := by simpa using hlastEq
  subst hseen
  refine ⟨before.length, hlen, hlast, fun j hj hhit => ?_⟩
  have hmem : seen j ∈ before := by
    rw [hinitial]
    exact List.mem_map_of_mem (List.mem_range.mpr hj)
  have := hbefore _ hmem
  omega

omit [DecidableEq ι] in
/-- Calls that know what they have read agree on the poll. -/
theorem samePoll_of_ok (hok : ∀ i, (s.threads i).Ok) (hok' : ∀ i, (s'.threads i).Ok) :
    SamePoll s s' where
  returned i r hr i' r' hr' hcond seen hfed hfed' := by
    obtain ⟨k, hlen, hfirst⟩ := ((hok i).returns r hr).firstHit hfed
    obtain ⟨k', hlen', hfirst'⟩ := ((hok' i').returns r' hr').firstHit hfed'
    rw [← hcond] at hfirst'
    rw [hlen, hlen', hfirst.unique hfirst']
  spinning i r hr i' place reads hactivity hplace seen hfed hfed' := by
    obtain ⟨k, hlen, hfirst⟩ := ((hok i).returns r hr).firstHit hfed
    have hknown := (hok' i').activity
    rw [hactivity] at hknown
    by_contra hlate
    have hmem : seen k ∈ reads := by
      have hreads : reads = (List.range reads.length).map seen := hfed'
      rw [hreads]
      exact List.mem_map_of_mem (List.mem_range.mpr (by omega))
    have hbelow := hknown.below hplace _ hmem
    have hhit := hfirst.1
    omega

/-- Both kernels return from the call on its condition only, and on the same poll when
they are fed with one sequence, in all runs in which no check of the onepackageonly
kernel finds the byte notified. -/
theorem spinWhileGreater_returns {ptrs' : Pointers}
    (hreach : (spinThreadSystem ι .onepackageonly ptrs).ReachableVia
      (ChecksUnnotified .onepackageonly ptrs) s)
    (hreach' : (spinThreadSystem ι .twopackages ptrs').Reachable s') :
    ReturnsOnCondition s ∧ ReturnsOnCondition s' ∧ SamePoll s s' ∧ SamePoll s' s :=
  have hok := spinThread_ok hreach
  have hok' := twopackages_ok hreach'
  ⟨fun i => (hok i).returns, fun i => (hok' i).returns, samePoll_of_ok hok hok',
    samePoll_of_ok hok' hok⟩

/-- A check that finds the byte notified makes the call return below its condition. -/
theorem check_notified_returns_below {reads : List (BitVec 64)} (hok : t.Ok)
    (hactivity : t.activity = .spinning cond .check reads)
    (hbyte : h.mem ptrs.mwmonMmapArea = MWMON_NOTIFIED_VAL) :
    ∃ h' t₁ t₂, spinThread .onepackageonly ptrs c .step h t = some (h, t₁) ∧
      spinThread .onepackageonly ptrs c .step h t₁ = some (h', t₂) ∧
      t₂.returns = t.returns ++ [⟨cond, reads⟩] ∧ ¬ (⟨cond, reads⟩ : SpinReturn).Met := by
  have hbelow := hok.activity
  rw [hactivity] at hbelow
  refine ⟨h.store c ptrs.mwmonMmapArea MWMON_ORIGINAL_VAL,
    { t with activity := .spinning cond (.shared .reset) reads },
    { t with activity := .user, returns := t.returns ++ [⟨cond, reads⟩] }, ?_, rfl, rfl, ?_⟩
  · simp [spinThread, hactivity, KernelVersion.spinWhileGreater,
      sysMwmonMmapSpinWhileGreaterOnepackageonly, hbyte, readsAfter]
  · rintro ⟨before, last, hreads, hlast, -⟩
    have hlt := hbelow last (by simp [show reads = before ++ [last] from hreads])
    exact absurd hlast (Int.not_le.mpr hlt)

/-- Two threads in user space, and the original value everywhere. -/
def spinThreadStart : Config (Fin 2) (Machine (Fin 2)) SpinThread :=
  ⟨⟨fun _ => MWMON_ORIGINAL_VAL, fun _ => none⟩, fun _ => ⟨.user, []⟩⟩

end

theorem spinThreadStart_reachable {version : KernelVersion} {ptrs : Pointers}
    {allow : Config (Fin 2) (Machine (Fin 2)) SpinThread → Fin 2 × SpinChoice → Prop} :
    (spinThreadSystem (Fin 2) version ptrs).ReachableVia allow spinThreadStart :=
  .of_init fun _ => rfl

/-- The long is 0 when thread 0 tests it against 1; it goes around once and is woken by
an interrupt, and thread 1 stores 2 before the next test. -/
def spinTwice (version : KernelVersion) : List (Fin 2 × SpinChoice) :=
  [(thread1, .storeLong 4224 0), (thread0, .spinWhileGreater 1)] ++
    List.replicate (if version = .onepackageonly then 5 else 4) (thread0, .step) ++
    [(thread0, .interrupt ⟨true, true⟩), (thread1, .storeLong 4224 2), (thread0, .step),
      (thread0, .step)]

theorem spinWhileGreater_returns_twice :
    let s := System.exec (System.guarded (ChecksUnnotified .onepackageonly examplePointers)
      (spinThread .onepackageonly examplePointers).next) spinThreadStart (spinTwice .onepackageonly)
    let s' := System.exec (spinThread .twopackages examplePointers).next spinThreadStart
      (spinTwice .twopackages)
    ReturnsOnCondition s ∧ ReturnsOnCondition s' ∧ SamePoll s s' ∧ SamePoll s' s :=
  spinWhileGreater_returns (System.reachableVia_exec _ spinThreadStart_reachable)
    (System.reachable_exec _ spinThreadStart_reachable)

/-- The long stays 0, and the byte is notified before the check. -/
def spinBroken : Config (Fin 2) (Machine (Fin 2)) SpinThread :=
  System.exec (spinThread .onepackageonly examplePointers).next spinThreadStart
    ([(thread1, .storeLong 4224 0), (thread0, .spinWhileGreater 1)] ++
      List.replicate 4 (thread0, .step) ++
      [(thread1, .store 4096 MWMON_NOTIFIED_VAL), (thread0, .step), (thread0, .step)])

/-- The call of the onepackageonly kernel returns although its only test has read a
smaller value. -/
theorem spinWhileGreater_returns_below :
    (spinThreadSystem (Fin 2) .onepackageonly examplePointers).Reachable spinBroken ∧
      (spinBroken.threads 0).returns = [⟨1, [0]⟩] ∧ ¬ ReturnsOnCondition spinBroken := by
  have hreturns : (spinBroken.threads 0).returns = [⟨1, [0]⟩] := by decide
  refine ⟨System.reachable_exec _ spinThreadStart_reachable, hreturns, fun hmet => ?_⟩
  obtain ⟨before, last, hreads, hlast, -⟩ := hmet 0 ⟨1, [0]⟩ (by rw [hreturns]; simp)
  have hzero : last = 0 := by
    have := congrArg List.getLast? hreads
    simpa using this.symm
  rw [hzero] at hlast
  exact absurd hlast (by decide)

end Htsynch
