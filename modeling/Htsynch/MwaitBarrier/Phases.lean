/-
# The two phases of a round of the MWAIT barrier

While the threads gather, the lock is held by whoever is counting itself, and the
count is the number of threads that have arrived. The last arrival does not release
the lock, so a full round can only be followed by the notification, and with it the
round turns: nobody can enter the critical section any more, and the count becomes
the number of threads that have still to leave. The one that leaves last releases
the lock, by which time everyone who slept has reset the byte.

More than two threads are no danger to this: a sleeper that misses the
notification because another one has already reset the byte only keeps the round
from ending.
-/

import Htsynch.Foundations.Mutex
import Htsynch.MwaitBarrier.Accounting

namespace Htsynch

open Foundations

namespace BarrierPc

/-- The thread has notified the byte, or has seen it notified. -/
def notified : BarrierPc → Bool
  | .sleep .reset => true
  | .dec => true
  | .unlockLast => true
  | _ => false

/-- The thread is between its arrival and the notification of a full round. -/
def closing : BarrierPc → Bool
  | .test => true
  | .notify => true
  | _ => false

theorem closing_critical {pc : BarrierPc} (hclosing : pc.closing = true) :
    pc.critical = true := by
  cases pc with
  | test => rfl
  | notify => rfl
  | _ => cases hclosing

theorem counted_of_notified {pc : BarrierPc} (hnotified : pc.notified = true) :
    pc.counted = true := by
  cases pc with
  | sleep spc => rfl
  | dec => rfl
  | unlockLast => rfl
  | _ => cases hnotified

theorem counted_of_asleep {pc : BarrierPc} (hasleep : pc.asleep = true) :
    pc.counted = true := by
  cases pc with
  | sleep spc => rfl
  | _ => cases hasleep

/-- A thread that has arrived and neither holds the lock nor has been notified sleeps. -/
theorem asleep_of_counted {pc : BarrierPc} (hcounted : pc.counted = true)
    (hcritical : pc.critical = false) (hnotified : pc.notified = false) :
    pc.asleep = true := by
  cases pc with
  | sleep spc => rfl
  | outside => cases hcounted
  | lock spc => cases hcounted
  | load => cases hcounted
  | store gathered => cases hcounted
  | test => cases hcritical
  | notify => cases hcritical
  | unlock => cases hcritical
  | dec => cases hnotified
  | unlockLast => cases hnotified

/-- A sleeper has seen the notification once it is about to reset the byte. -/
theorem notified_sleep_eq_false {spc : SleepPc} (hspc : spc ≠ .reset) :
    (BarrierPc.sleep spc).notified = false := by
  cases spc with
  | reset => exact absurd rfl hspc
  | _ => rfl

/-- An interrupt does not make a sleeper see a notification. -/
theorem notified_onSleeper {i : Interrupt} {spc : SleepPc}
    (hnotified : (BarrierPc.sleep spc).notified = false) :
    (BarrierPc.sleep (i.onSleeper spc)).notified = false := by
  rcases i.onSleeper_cases spc with hsame | ⟨-, hwake⟩
  · rwa [hsame]
  · rw [hwake]
    rfl

end BarrierPc

namespace BarrierThread

/-- The thread holds the lock on its own behalf. -/
def Critical (t : BarrierThread) : Prop := t.pc.critical = true

/-- The thread has brought the count to zero and not released the lock yet. -/
def Last (t : BarrierThread) : Prop := t.pc = .unlockLast

/-- The thread has arrived once more than there are complete rounds. -/
def Arrived (round : ℕ) (t : BarrierThread) : Prop := t.arrivals = round + 1

/-- The thread has not left the round in progress. -/
def Staying (round : ℕ) (t : BarrierThread) : Prop := t.results.length = round

/-- The thread is not in the sleep call. -/
def Awake (t : BarrierThread) : Prop := t.pc.asleep = false

variable {round : ℕ}

instance : DecidablePred (Arrived round) := fun t =>
  inferInstanceAs (Decidable (t.arrivals = round + 1))

instance : DecidablePred (Staying round) := fun t =>
  inferInstanceAs (Decidable (t.results.length = round))

instance : DecidablePred Awake := fun t => inferInstanceAs (Decidable (t.pc.asleep = false))

end BarrierThread

open BarrierThread

variable {n : ThreadCount} {rounds round : ℕ} {p : Addr}
  {s : Config (Fin n.val) (BarrierShared (Fin n.val)) BarrierThread} {who : Fin n.val}
  {sh : BarrierShared (Fin n.val)} {own : BarrierThread} {holder last : Option (Fin n.val)}

/-- Threads arrive, and `holder` is counting itself. -/
structure Gathering (p : Addr) (n : ThreadCount) (round : ℕ) (holder : Option (Fin n.val))
    (s : Config (Fin n.val) (BarrierShared (Fin n.val)) BarrierThread) : Prop where
  calls_eq : ∀ i, (s.threads i).calls = round
  unnotified : ∀ i, (s.threads i).pc.notified = false
  held : Mutex.HeldBy Critical s.threads holder
  byte_eq : s.shared.machine.mem p = MWMON_ORIGINAL_VAL
  gathered_eq : s.shared.barrier.gathered.toNat = census (Arrived round) s.threads
  loaded : ∀ i g, (s.threads i).pc = .store g → g = s.shared.barrier.gathered + 1
  full : ∀ i, (s.threads i).pc = .notify → census (Arrived round) s.threads = n.val
  /-- When everyone has arrived somebody is about to notice. -/
  room : (∃ i, (s.threads i).pc.closing = true) ∨ census (Arrived round) s.threads < n.val

/-- Threads leave, and `last` has brought the count to zero. -/
structure Leaving (p : Addr) (n : ThreadCount) (round : ℕ) (last : Option (Fin n.val))
    (s : Config (Fin n.val) (BarrierShared (Fin n.val)) BarrierThread) : Prop where
  arrivals_eq : ∀ i, (s.threads i).arrivals = round + 1
  uncritical : ∀ i, (s.threads i).pc.critical = false
  result_iff : ∀ i, (s.threads i).results[round]? = some true ↔ (s.threads i).Last
  held : Mutex.HeldBy Last s.threads last
  gathered_eq : s.shared.barrier.gathered.toNat = census (Staying round) s.threads
  gathered_eq_zero_iff : s.shared.barrier.gathered = 0 ↔ last ≠ none
  awake_pos : 0 < census Awake s.threads
  /-- The byte stays notified until the first sleeper wakes. -/
  byte_cases : (s.shared.machine.mem p = MWMON_NOTIFIED_VAL ∧ census Awake s.threads < n.val) ∨
    (s.shared.machine.mem p = MWMON_ORIGINAL_VAL ∧ 1 < census Awake s.threads)

namespace Gathering

/-- The thread's place inside the critical section is not known to the others. -/
theorem keep (h : Gathering p n round holder s) {holder' : Option (Fin n.val)}
    (hheld : Mutex.HeldBy Critical (Function.update s.threads who own) holder')
    (hcalls : own.calls = (s.threads who).calls)
    (harr : own.arrivals = (s.threads who).arrivals) (hnot : own.pc.notified = false)
    (hbyte : sh.machine.mem p = s.shared.machine.mem p)
    (hgathered : sh.barrier.gathered = s.shared.barrier.gathered)
    (hloaded : ∀ g, own.pc = .store g → g = s.shared.barrier.gathered + 1)
    (hfull : own.pc = .notify → census (Arrived round) s.threads = n.val)
    (hroom : (s.threads who).pc.closing = true →
      own.pc.closing = true ∨ census (Arrived round) s.threads < n.val) :
    Gathering p n round holder' (s.move who sh own) := by
  have hsame : census (Arrived round) (s.move who sh own).threads =
      census (Arrived round) s.threads := by
    apply census_update_stay
    unfold Arrived
    rw [harr]
  constructor
  case calls_eq =>
    exact fun i => Config.move_cases i (fun _ => hcalls.trans (h.calls_eq who))
      (fun _ => h.calls_eq i)
  case unnotified =>
    exact fun i => Config.move_cases i (fun _ => hnot) (fun _ => h.unnotified i)
  case held => exact hheld
  case byte_eq => exact hbyte.trans h.byte_eq
  case gathered_eq =>
    rw [hsame, ← h.gathered_eq]
    exact congrArg BitVec.toNat hgathered
  case loaded =>
    intro i
    rw [Config.move_shared, hgathered]
    exact Config.move_cases i (fun _ => hloaded) (fun _ => h.loaded i)
  case full =>
    intro i
    rw [hsame]
    exact Config.move_cases i (fun _ => hfull) (fun _ => h.full i)
  case room =>
    rw [hsame]
    rcases h.room with ⟨i, hi⟩ | hroom'
    · by_cases hwho : i = who
      · subst i
        refine (hroom hi).imp (fun hown => ⟨who, ?_⟩) id
        rwa [Config.move_threads_self]
      · refine .inl ⟨i, ?_⟩
        rwa [Config.move_threads_of_ne hwho]
    · exact .inr hroom'

/-- A move outside the critical section. -/
theorem idle (h : Gathering p n round holder s) (hold : (s.threads who).pc.critical = false)
    (hnew : own.pc.critical = false) (hcalls : own.calls = (s.threads who).calls)
    (harr : own.arrivals = (s.threads who).arrivals) (hnot : own.pc.notified = false)
    (hbyte : sh.machine.mem p = s.shared.machine.mem p)
    (hgathered : sh.barrier.gathered = s.shared.barrier.gathered) :
    Gathering p n round holder (s.move who sh own) := by
  have hfalse : ∀ {pc : BarrierPc}, pc.critical = false → ¬ pc.critical = true :=
    fun hpc => Bool.eq_false_iff.mp hpc
  apply h.keep _ hcalls harr hnot hbyte hgathered
  · intro g hstore
    rw [hstore] at hnew
    cases hnew
  · intro hnotify
    rw [hnotify] at hnew
    cases hnew
  · exact fun hclosing => absurd (BarrierPc.closing_critical hclosing) (hfalse hold)
  · exact h.held.stay (iff_of_false (hfalse hnew) (hfalse hold))

/-- The count is stored: the number of threads that have arrived grows with it. -/
theorem arrive (h : Gathering p n round holder s) (hok : (s.threads who).Ok n rounds)
    {gathered : Word} (hpc : (s.threads who).pc = .store gathered) :
    Gathering p n round holder (s.move who
      { s.shared with barrier := { s.shared.barrier with gathered := gathered } }
      (s.threads who).arrive) := by
  have hcrit : (s.threads who).Critical := by
    unfold Critical
    rw [hpc]
    rfl
  have harr : (s.threads who).arrivals = round := by
    have harr := hok.arrivals_eq
    rw [hpc, h.calls_eq who] at harr
    exact harr
  have hout : ¬ (s.threads who).Arrived round := by
    unfold Arrived
    omega
  have hin : (s.threads who).arrive.Arrived round := congrArg (· + 1) harr
  have hroom : census (Arrived round) s.threads < n.val := by
    simpa using census_lt_card hout
  have hcensus : census (Arrived round) (Function.update s.threads who (s.threads who).arrive) =
      census (Arrived round) s.threads + 1 := census_update_enter hout hin
  have hothers : ∀ i, i ≠ who → ¬ (s.threads i).Critical :=
    fun i hi hcrit' => hi (h.held.unique hcrit' hcrit)
  constructor
  case calls_eq =>
    exact fun i => Config.move_cases i (fun _ => h.calls_eq who) (fun _ => h.calls_eq i)
  case unnotified =>
    exact fun i => Config.move_cases i (fun _ => rfl) (fun _ => h.unnotified i)
  case held => exact h.held.stay (iff_of_true rfl hcrit)
  case byte_eq => exact h.byte_eq
  case gathered_eq =>
    show gathered.toNat = census (Arrived round) (Function.update s.threads who _)
    have hint := n.isInt
    have heq := h.gathered_eq
    rw [hcensus, h.loaded who gathered hpc, ← heq]
    exact incl_toNat (by omega)
  case loaded =>
    intro i g
    refine Config.move_cases i (fun _ hstore => ?_) (fun hi hstore => ?_)
    · cases hstore
    · refine absurd ?_ (hothers i hi)
      rw [Critical, hstore]
      rfl
  case full =>
    intro i
    refine Config.move_cases i (fun _ hnotify => ?_) (fun hi hnotify => ?_)
    · cases hnotify
    · refine absurd ?_ (hothers i hi)
      rw [Critical, hnotify]
      rfl
  case room =>
    refine .inl ⟨who, ?_⟩
    rw [Config.move_threads_self]
    rfl

/-- A thread at the test is the one that notices a full round. -/
theorem census_eq_of_test (h : Gathering p n round holder s)
    (hok : (s.threads who).Ok n rounds) (hpc : (s.threads who).pc = .test)
    (hcount : s.shared.barrier.gathered = (s.threads who).initCount) :
    census (Arrived round) s.threads = n.val := by
  rw [← h.gathered_eq, hcount, hok.initCount_eq (by simp [hpc]), ThreadCount.toNat_word]

theorem census_lt_of_test (h : Gathering p n round holder s)
    (hok : (s.threads who).Ok n rounds) (hpc : (s.threads who).pc = .test)
    (hcount : s.shared.barrier.gathered ≠ (s.threads who).initCount) :
    census (Arrived round) s.threads < n.val := by
  have hle : census (Arrived round) s.threads ≤ n.val :=
    census_le_card.trans_eq (Fintype.card_fin _)
  rw [hok.initCount_eq (by simp [hpc]), ne_eq, ThreadCount.eq_word_iff, h.gathered_eq] at hcount
  exact lt_of_le_of_ne hle hcount

theorem not_last (h : Gathering p n round holder s) (i : Fin n.val) : ¬ (s.threads i).Last := by
  intro hlast
  have hnot := h.unnotified i
  rw [hlast] at hnot
  cases hnot

/-- Nobody has left the round in progress. -/
theorem staying (h : Gathering p n round holder s) {i : Fin n.val}
    (hok : (s.threads i).Ok n rounds) : (s.threads i).Staying round := by
  have htested : (s.threads i).pc.tested = false := by
    cases hi : (s.threads i).pc with
    | unlockLast => exact absurd hi (h.not_last i)
    | _ => rfl
  unfold Staying
  rw [hok.results_length, h.calls_eq i, htested]
  rfl

theorem counted_of_arrived (h : Gathering p n round holder s) {i : Fin n.val}
    (hok : (s.threads i).Ok n rounds) (harrived : (s.threads i).Arrived round) :
    (s.threads i).pc.counted = true := by
  have harr : (s.threads i).arrivals = round + 1 := harrived
  rw [hok.arrivals_eq, h.calls_eq i] at harr
  cases hcounted : (s.threads i).pc.counted with
  | true => rfl
  | false =>
      rw [hcounted] at harr
      exact absurd harr (Nat.succ_ne_self round).symm

/-- The notifier finds everyone arrived. -/
theorem all_arrived (h : Gathering p n round holder s) (hpc : (s.threads who).pc = .notify)
    (i : Fin n.val) : (s.threads i).Arrived round := by
  have hfull : census (Arrived round) s.threads = Fintype.card (Fin n.val) := by
    rw [h.full who hpc, Fintype.card_fin]
  exact census_eq_card_iff.mp hfull i

/-- While a thread is in the critical section no other one is. -/
theorem not_critical_of_ne (h : Gathering p n round holder s)
    (hcrit : (s.threads who).Critical) {i : Fin n.val} (hi : i ≠ who) :
    (s.threads i).pc.critical = false := by
  rw [Bool.eq_false_iff]
  exact fun hcrit' => hi (h.held.unique hcrit' hcrit)

/-- The notification turns the round: everyone has arrived and everyone but the
notifier sleeps. -/
theorem notify (h : Gathering p n round holder s) (hn : 2 ≤ n.val)
    (hok : ∀ i, (s.threads i).Ok n rounds) (hpc : (s.threads who).pc = .notify) :
    Leaving p n round none (s.move who
      { s.shared with machine := s.shared.machine.store who p MWMON_NOTIFIED_VAL }
      ((s.threads who).goto .dec)) := by
  have hcrit : (s.threads who).Critical := by
    unfold Critical
    rw [hpc]
    rfl
  have hall := h.all_arrived hpc
  have hasleep : ∀ i, i ≠ who → (s.threads i).pc.asleep = true := fun i hi =>
    BarrierPc.asleep_of_counted (h.counted_of_arrived (hok i) (hall i))
      (h.not_critical_of_ne hcrit hi) (h.unnotified i)
  have hstaying : ∀ i, (s.threads i).Staying round := fun i => h.staying (hok i)
  have hresult : ∀ i, ¬ (s.threads i).results[round]? = some true := by
    intro i hsome
    rw [List.getElem?_eq_none (hstaying i).le] at hsome
    cases hsome
  have hcount : s.shared.barrier.gathered.toNat = n.val := by
    rw [h.gathered_eq, h.full who hpc]
  constructor
  case arrivals_eq => exact fun i => Config.move_cases i (fun _ => hall who) (fun _ => hall i)
  case uncritical =>
    exact fun i => Config.move_cases i (fun _ => rfl) (fun hi => h.not_critical_of_ne hcrit hi)
  case result_iff =>
    exact fun i => Config.move_cases i (fun _ => iff_of_false (hresult who) nofun)
      (fun _ => iff_of_false (hresult i) (h.not_last i))
  case held =>
    exact fun i => Config.move_cases i (fun _ => iff_of_false nofun nofun)
      (fun _ => iff_of_false (h.not_last i) nofun)
  case gathered_eq =>
    have hsame : census (Staying round) (Function.update s.threads who
        ((s.threads who).goto .dec)) = census (Staying round) s.threads :=
      census_update_stay Iff.rfl
    show s.shared.barrier.gathered.toNat = census (Staying round) (Function.update _ _ _)
    rw [hsame, census_eq_card_iff.mpr hstaying, hcount, Fintype.card_fin]
  case gathered_eq_zero_iff =>
    refine iff_of_false (fun hzero => ?_) (not_not.mpr rfl)
    have hzero' : s.shared.barrier.gathered = 0 := hzero
    rw [hzero'] at hcount
    exact absurd hcount n.pos.ne
  case awake_pos =>
    refine census_pos_iff.mpr ⟨who, ?_⟩
    rw [Config.move_threads_self]
    exact rfl
  case byte_cases =>
    refine .inl ⟨Hardware.store_mem_self, ?_⟩
    have hother : ∃ i, i ≠ who := by
      have hnontrivial : Nontrivial (Fin n.val) := Fin.nontrivial_iff_two_le.mpr hn
      exact exists_ne who
    obtain ⟨i, hi⟩ := hother
    have hdown : ¬ ((s.move who { s.shared with
        machine := s.shared.machine.store who p MWMON_NOTIFIED_VAL }
        ((s.threads who).goto .dec)).threads i).Awake := by
      rw [Config.move_threads_of_ne hi, Awake, hasleep i hi]
      exact Bool.noConfusion
    simpa using census_lt_card hdown

end Gathering

namespace Leaving

/-- A move that neither leaves the round nor ends a sleep. -/
theorem keep (h : Leaving p n round last s)
    (harr : own.arrivals = (s.threads who).arrivals) (hcrit : own.pc.critical = false)
    (hresults : own.results = (s.threads who).results)
    (hlast : own.Last ↔ (s.threads who).Last) (hawake : own.Awake ↔ (s.threads who).Awake)
    (hbyte : sh.machine.mem p = s.shared.machine.mem p)
    (hgathered : sh.barrier.gathered = s.shared.barrier.gathered) :
    Leaving p n round last (s.move who sh own) := by
  have hstaying : census (Staying round) (s.move who sh own).threads =
      census (Staying round) s.threads := by
    apply census_update_stay
    unfold Staying
    rw [hresults]
  have hsame : census Awake (s.move who sh own).threads = census Awake s.threads :=
    census_update_stay hawake
  constructor
  case arrivals_eq =>
    exact fun i => Config.move_cases i (fun _ => harr.trans (h.arrivals_eq who))
      (fun _ => h.arrivals_eq i)
  case uncritical =>
    exact fun i => Config.move_cases i (fun _ => hcrit) (fun _ => h.uncritical i)
  case result_iff =>
    intro i
    refine Config.move_cases i (fun _ => ?_) (fun _ => h.result_iff i)
    rw [hresults]
    exact (h.result_iff who).trans hlast.symm
  case held => exact h.held.stay hlast
  case gathered_eq =>
    rw [hstaying, ← h.gathered_eq]
    exact congrArg BitVec.toNat hgathered
  case gathered_eq_zero_iff =>
    rw [Config.move_shared, hgathered]
    exact h.gathered_eq_zero_iff
  case awake_pos =>
    rw [hsame]
    exact h.awake_pos
  case byte_cases =>
    rw [hsame, Config.move_shared, hbyte]
    exact h.byte_cases

/-- A sleeper that has seen the notification resets the byte; it is not the first
one to be awake. -/
theorem wake (h : Leaving p n round last s) (hpc : (s.threads who).pc = .sleep .reset) :
    Leaving p n round last (s.move who
      { s.shared with machine := s.shared.machine.store who p MWMON_ORIGINAL_VAL }
      ((s.threads who).goto .dec)) := by
  have hold : ¬ (s.threads who).Last := by
    unfold Last
    rw [hpc]
    nofun
  have hdown : ¬ (s.threads who).Awake := by
    unfold Awake
    rw [hpc]
    nofun
  have hstaying : census (Staying round) (Function.update s.threads who
      ((s.threads who).goto .dec)) = census (Staying round) s.threads :=
    census_update_stay Iff.rfl
  have hawake : census Awake (Function.update s.threads who ((s.threads who).goto .dec)) =
      census Awake s.threads + 1 := census_update_enter hdown rfl
  constructor
  case arrivals_eq =>
    exact fun i => Config.move_cases i (fun _ => h.arrivals_eq who) (fun _ => h.arrivals_eq i)
  case uncritical =>
    exact fun i => Config.move_cases i (fun _ => rfl) (fun _ => h.uncritical i)
  case result_iff =>
    exact fun i => Config.move_cases i
      (fun _ => (h.result_iff who).trans (iff_of_false hold nofun)) (fun _ => h.result_iff i)
  case held => exact h.held.stay (iff_of_false nofun hold)
  case gathered_eq => exact h.gathered_eq.trans hstaying.symm
  case gathered_eq_zero_iff => exact h.gathered_eq_zero_iff
  case awake_pos =>
    rw [Config.move, hawake]
    exact Nat.succ_pos _
  case byte_cases =>
    refine .inr ⟨Hardware.store_mem_self, ?_⟩
    rw [Config.move, hawake]
    exact Nat.succ_lt_succ h.awake_pos

/-- A thread about to decrement the count is in its call for the round. -/
theorem staying_of_dec (h : Leaving p n round last s) (hok : (s.threads who).Ok n rounds)
    (hpc : (s.threads who).pc = .dec) : (s.threads who).Staying round := by
  have harr := hok.arrivals_eq
  have hlen := hok.results_length
  rw [hpc, h.arrivals_eq who] at harr
  rw [hpc] at hlen
  exact hlen.trans (Nat.succ.inj harr).symm

/-- The decrement, whatever it returns. -/
theorem decrement (h : Leaving p n round last s) (own : BarrierThread) (result : Bool)
    {last' : Option (Fin n.val)} (hok : (s.threads who).Ok n rounds)
    (hpc : (s.threads who).pc = .dec)
    (harr : own.arrivals = (s.threads who).arrivals) (hcrit : own.pc.critical = false)
    (hresults : own.results = (s.threads who).results ++ [result])
    (hresult : result = true ↔ own.Last) (hawake : own.Awake)
    (hheld : Mutex.HeldBy Last (Function.update s.threads who own) last')
    (hzero : s.shared.barrier.gathered - 1 = 0 ↔ last' ≠ none) :
    Leaving p n round last' (s.move who
      { s.shared with
        barrier := { s.shared.barrier with gathered := s.shared.barrier.gathered - 1 } } own) := by
  have hstay := h.staying_of_dec hok hpc
  have hlen : (s.threads who).results.length = round := hstay
  have hgone : ¬ own.Staying round := by
    unfold Staying
    rw [hresults, List.length_append, hlen]
    exact Nat.succ_ne_self round
  have hstaying := census_update_leave hstay hgone
  have hup : (s.threads who).Awake := by
    unfold Awake
    rw [hpc]
    rfl
  have hsame : census Awake (Function.update s.threads who own) = census Awake s.threads :=
    census_update_stay (iff_of_true hawake hup)
  constructor
  case arrivals_eq =>
    exact fun i => Config.move_cases i (fun _ => harr.trans (h.arrivals_eq who))
      (fun _ => h.arrivals_eq i)
  case uncritical =>
    exact fun i => Config.move_cases i (fun _ => hcrit) (fun _ => h.uncritical i)
  case result_iff =>
    intro i
    refine Config.move_cases i (fun _ => ?_) (fun _ => h.result_iff i)
    rw [hresults, ← hlen, List.getElem?_concat_length, Option.some.injEq]
    exact hresult
  case held => exact hheld
  case gathered_eq =>
    show (s.shared.barrier.gathered - 1).toNat = census (Staying round) (Function.update _ _ _)
    have heq := h.gathered_eq
    have hdec : (s.shared.barrier.gathered - 1).toNat = s.shared.barrier.gathered.toNat - 1 :=
      decl_result_toNat (by omega)
    omega
  case gathered_eq_zero_iff => exact hzero
  case awake_pos =>
    rw [Config.move, hsame]
    exact h.awake_pos
  case byte_cases =>
    rw [Config.move, hsame]
    exact h.byte_cases

/-- While somebody has still to decrement the count nobody has brought it to zero. -/
theorem last_eq_none (h : Leaving p n round last s) (hok : (s.threads who).Ok n rounds)
    (hpc : (s.threads who).pc = .dec) : last = none := by
  by_contra hlast
  have hzero := h.gathered_eq_zero_iff.mpr hlast
  have heq := h.gathered_eq
  have hpos : 0 < census (Staying round) s.threads :=
    census_pos_iff.mpr ⟨who, h.staying_of_dec hok hpc⟩
  rw [hzero] at heq
  exact absurd heq hpos.ne

theorem leave (h : Leaving p n round last s) (hok : (s.threads who).Ok n rounds)
    (hpc : (s.threads who).pc = .dec) (hrest : s.shared.barrier.gathered ≠ 1) :
    Leaving p n round last (s.move who
      { s.shared with
        barrier := { s.shared.barrier with gathered := s.shared.barrier.gathered - 1 } }
      (s.threads who).leave) := by
  have hold : ¬ (s.threads who).Last := by
    unfold Last
    rw [hpc]
    nofun
  obtain rfl := h.last_eq_none hok hpc
  apply h.decrement (s.threads who).leave false hok hpc rfl rfl rfl
  · exact iff_of_false nofun nofun
  · exact rfl
  · exact h.held.stay (iff_of_false nofun hold)
  · refine iff_of_false (fun hzero => hrest ?_) (not_not.mpr rfl)
    bv_omega

theorem leaveLast (h : Leaving p n round last s) (hok : (s.threads who).Ok n rounds)
    (hpc : (s.threads who).pc = .dec) (hlast : s.shared.barrier.gathered = 1) :
    Leaving p n round (some who) (s.move who
      { s.shared with
        barrier := { s.shared.barrier with gathered := s.shared.barrier.gathered - 1 } }
      (s.threads who).leaveLast) := by
  obtain rfl := h.last_eq_none hok hpc
  apply h.decrement (s.threads who).leaveLast true hok hpc rfl rfl rfl
  · exact iff_of_true rfl rfl
  · exact rfl
  · exact h.held.acquire rfl
  · rw [hlast]
    exact iff_of_true rfl (Option.some_ne_none who)

/-- Somebody has still to leave, or the last thread has still to release the lock. -/
theorem last_or_staying (h : Leaving p n round last s) :
    (∃ l, last = some l ∧ (s.threads l).Last) ∨ ∃ i, (s.threads i).Staying round := by
  by_cases hstay : ∃ i, (s.threads i).Staying round
  · exact .inr hstay
  · have hgone : census (Staying round) s.threads = 0 :=
      census_eq_zero_iff.mpr (not_exists.mp hstay)
    have hzero : s.shared.barrier.gathered = 0 := by
      apply BitVec.eq_of_toNat_eq
      rw [h.gathered_eq, hgone]
      rfl
    obtain ⟨l, hl⟩ := Option.ne_none_iff_exists'.mp (h.gathered_eq_zero_iff.mp hzero)
    exact .inl ⟨l, hl, (h.held l).mpr hl⟩

/-- A thread that has still to leave is in its call. -/
theorem counted_of_staying (h : Leaving p n round last s) {i : Fin n.val}
    (hok : (s.threads i).Ok n rounds) (hstay : (s.threads i).Staying round) :
    (s.threads i).pc.counted = true := by
  have harr := hok.arrivals_eq
  have hlen := hok.results_length
  have hround : (s.threads i).results.length = round := hstay
  rw [h.arrivals_eq i] at harr
  cases hcounted : (s.threads i).pc.counted with
  | true => rfl
  | false =>
      rw [hcounted, Bool.toNat_false] at harr
      omega

/-- Once the count is zero everyone but the last thread has left. -/
theorem returned (h : Leaving p n round last s) (hzero : s.shared.barrier.gathered = 0)
    {i : Fin n.val} (hok : (s.threads i).Ok n rounds) (hi : ¬ (s.threads i).Last) :
    (s.threads i).calls = round + 1 ∧ (s.threads i).pc.counted = false := by
  have hgone : ¬ (s.threads i).Staying round := by
    refine census_eq_zero_iff.mp ?_ i
    rw [← h.gathered_eq, hzero]
    rfl
  have htested : (s.threads i).pc.tested = false := by
    cases hpc : (s.threads i).pc with
    | unlockLast => exact absurd hpc hi
    | _ => rfl
  have harr := hok.arrivals_eq
  have hlen := hok.results_length
  unfold Staying at hgone
  rw [h.arrivals_eq i] at harr
  rw [htested] at hlen
  cases hcounted : (s.threads i).pc.counted with
  | true =>
      rw [hcounted] at harr
      exact absurd (hlen.trans (Nat.succ.inj harr).symm) hgone
  | false =>
      rw [hcounted] at harr
      exact ⟨harr.symm, rfl⟩

theorem gathered_eq_zero_of_last (h : Leaving p n round last s)
    (hlast : (s.threads who).Last) : s.shared.barrier.gathered = 0 := by
  apply h.gathered_eq_zero_iff.mpr
  rw [(h.held who).mp hlast]
  exact Option.some_ne_none who

theorem returned_of_ne (h : Leaving p n round last s) (hlast : (s.threads who).Last)
    {i : Fin n.val} (hok : (s.threads i).Ok n rounds) (hi : i ≠ who) :
    (s.threads i).calls = round + 1 ∧ (s.threads i).pc.counted = false := by
  apply h.returned (h.gathered_eq_zero_of_last hlast) hok
  exact fun hother => hi (h.held.unique hother hlast)

/-- By the time the last thread releases the lock nobody sleeps, so the byte is reset. -/
theorem byte_eq_of_last (h : Leaving p n round last s) (hok : ∀ i, (s.threads i).Ok n rounds)
    (hlast : (s.threads who).Last) : s.shared.machine.mem p = MWMON_ORIGINAL_VAL := by
  have hall : ∀ i, (s.threads i).Awake := by
    intro i
    by_cases hi : i = who
    · subst i
      rw [Awake, hlast]
      rfl
    · rw [Awake, Bool.eq_false_iff]
      intro hasleep
      have hcounted := BarrierPc.counted_of_asleep hasleep
      rw [(h.returned_of_ne hlast (hok i) hi).2] at hcounted
      cases hcounted
  rcases h.byte_cases with ⟨-, hlt⟩ | ⟨hbyte, -⟩
  · rw [census_eq_card_iff.mpr hall, Fintype.card_fin] at hlt
    exact absurd hlt (lt_irrefl _)
  · exact hbyte

/-- The release turns the round: everyone has left and nobody has arrived for the
next one. -/
theorem unlockLast (h : Leaving p n round last s) (hok : ∀ i, (s.threads i).Ok n rounds)
    (hlast : (s.threads who).Last)
    (hgathered : sh.barrier.gathered = s.shared.barrier.gathered)
    (hbyte : sh.machine.mem p = s.shared.machine.mem p) :
    Gathering p n (round + 1) none (s.move who sh (s.threads who).ret) := by
  have hcalls : (s.threads who).calls = round := by
    have harr := (hok who).arrivals_eq
    rw [hlast, h.arrivals_eq who] at harr
    exact (Nat.succ.inj harr).symm
  have huncritical : ∀ i, ((s.move who sh (s.threads who).ret).threads i).pc.critical = false :=
    fun i => Config.move_cases i (fun _ => rfl) (fun _ => h.uncritical i)
  have hnobody : census (Arrived (round + 1)) (s.move who sh (s.threads who).ret).threads = 0 := by
    apply census_eq_zero_iff.mpr
    intro i
    have harr : ((s.move who sh (s.threads who).ret).threads i).arrivals = round + 1 :=
      Config.move_cases i (fun _ => h.arrivals_eq who) (fun _ => h.arrivals_eq i)
    rw [Arrived, harr]
    exact (Nat.succ_ne_self _).symm
  constructor
  case calls_eq =>
    exact fun i => Config.move_cases i (fun _ => congrArg (· + 1) hcalls)
      (fun hi => (h.returned_of_ne hlast (hok i) hi).1)
  case unnotified =>
    intro i
    refine Config.move_cases i (fun _ => rfl) (fun hi => ?_)
    rw [Bool.eq_false_iff]
    intro hnotified
    have hcounted := BarrierPc.counted_of_notified hnotified
    rw [(h.returned_of_ne hlast (hok i) hi).2] at hcounted
    cases hcounted
  case held =>
    exact fun i => iff_of_false (Bool.eq_false_iff.mp (huncritical i))
      (Option.some_ne_none i).symm
  case byte_eq => exact hbyte.trans (h.byte_eq_of_last hok hlast)
  case gathered_eq =>
    rw [hnobody, Config.move_shared, hgathered, h.gathered_eq_zero_of_last hlast]
    rfl
  case loaded =>
    intro i g hstore
    have hcrit := huncritical i
    rw [hstore] at hcrit
    cases hcrit
  case full =>
    intro i hnotify
    have hcrit := huncritical i
    rw [hnotify] at hcrit
    cases hcrit
  case room =>
    rw [hnobody]
    exact .inr n.pos

end Leaving

end Htsynch
