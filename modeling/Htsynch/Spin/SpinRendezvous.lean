/-
# The lock-protected barrier is a reusable barrier

While `round` rounds are complete, the holder of the lock and its place in the
critical section determine the count: it is the number of threads that have
arrived in the round in progress, except between the reset and the publication of
the sense, where everyone has arrived and the count is already zero. Without a
holder somebody has still to arrive. So waiters are never left alone with an
unpublished sense and a free lock.
-/

import Htsynch.Foundations.Census
import Htsynch.Foundations.Mutex
import Htsynch.Foundations.Rendezvous
import Htsynch.Spin.SpinBarrier

namespace Htsynch.Spin

open Foundations

/-- The sense that is published when `round` rounds are complete. -/
def sense (round : ℕ) : Word := if round % 2 = 0 then 0 else ~~~0

theorem not_sense (round : ℕ) : ~~~(sense round) = sense (round + 1) := by
  unfold sense
  rcases Nat.mod_two_eq_zero_or_one round with h | h
  · have hsucc : (round + 1) % 2 = 1 := by omega
    simp [h, hsucc]
  · have hsucc : (round + 1) % 2 = 0 := by omega
    simp [h, hsucc]

theorem sense_succ_ne (round : ℕ) : sense (round + 1) ≠ sense round := by
  unfold sense
  rcases Nat.mod_two_eq_zero_or_one round with h | h
  · have hsucc : (round + 1) % 2 = 1 := by omega
    simp only [h, hsucc]
    decide
  · have hsucc : (round + 1) % 2 = 0 := by omega
    simp only [h, hsucc]
    decide

/-- The thread holds the lock. -/
def Critical (t : SpinThread) : Prop := t.pc.critical = true

instance : DecidablePred Critical := fun t => inferInstanceAs (Decidable (t.pc.critical = true))

/-- What the count says while `arrived` of `n` threads have arrived in the round in
progress and the holder of the lock, if there is one, is at the given place. -/
def Stage (n arrived : ℕ) (count : Word) : Option SpinPc → Prop
  | none => count.toNat = arrived ∧ arrived < n
  | some .load => count.toNat = arrived
  | some (.store new) => new = count + 1 ∧ count.toNat = arrived
  | some .read => count.toNat = arrived
  | some .reset => arrived = n
  | some .release => arrived = n ∧ count = 0
  | some .unlock => count.toNat = arrived ∧ arrived < n
  | some .outside => True
  | some (.lock _) => True
  | some (.wait _) => True

variable {n : ThreadCount} {round rounds : ℕ} {form : SpinForm}
  {s : Config (Fin n.val) SpinBarrier SpinThread} {who : Fin n.val}
  {holder : Option (Fin n.val)} {sb : SpinBarrier} {own : SpinThread}

/-- How many threads have arrived in the round in progress. -/
def arrived (round : ℕ) (threads : Fin n.val → SpinThread) : ℕ :=
  census (SenseThread.Arrived round) threads

/-- The invariant of the barrier while `round` rounds are complete. -/
structure SpinInv (n : ThreadCount) (rounds round : ℕ) (holder : Option (Fin n.val))
    (s : Config (Fin n.val) SpinBarrier SpinThread) : Prop where
  total_eq : s.shared.total = n.word
  flag_eq : s.shared.releaseFlag.low = sense round
  thread_ok : ∀ i, (s.threads i).Ok sense round
  within : ∀ i, (s.threads i).Within rounds
  held : Mutex.HeldBy Critical s.threads holder
  lock_eq : s.shared.lock.low = 0 ↔ holder = none
  stage : Stage n.val (arrived round s.threads) s.shared.currentCount
    (holder.map fun i => (s.threads i).pc)

namespace SpinInv

theorem init (hinit : spinInitial n s) : SpinInv n rounds 0 none s := by
  obtain ⟨⟨sb, hshared⟩, hthreads⟩ := hinit
  have hnone : arrived 0 s.threads = 0 := by
    apply census_eq_zero_iff.mpr
    intro i
    rw [hthreads i]
    decide
  constructor
  case total_eq =>
    rw [hshared]
    rfl
  case flag_eq =>
    rw [hshared]
    rfl
  case thread_ok =>
    intro i
    rw [hthreads i]
    constructor <;> decide
  case within =>
    intro i
    rw [hthreads i]
    exact ⟨Nat.zero_le _, nofun⟩
  case held =>
    intro i
    rw [hthreads i]
    exact iff_of_false (by decide) nofun
  case lock_eq =>
    rw [hshared]
    simp [spinBarrierInit, spinInit, spinUnlock]
  case stage =>
    rw [hnone, hshared]
    exact ⟨rfl, n.pos⟩

theorem arrived_le : arrived round s.threads ≤ n.val := by
  simpa [arrived] using census_le_card (p := SenseThread.Arrived round) (ι := Fin n.val)

theorem all_arrived (hall : arrived round s.threads = n.val) (i : Fin n.val) :
    (s.threads i).Arrived round := by
  have hcard : census (SenseThread.Arrived round) s.threads = Fintype.card (Fin n.val) := by
    rw [Fintype.card_fin]
    exact hall
  exact census_eq_card_iff.mp hcard i

/-- A thread moves without arriving and without completing a round. -/
theorem quiet (h : SpinInv n rounds round holder s) (sb : SpinBarrier) (hok : own.Ok sense round)
    (hwithin : own.Within rounds) (harr : own.arrivals = (s.threads who).arrivals)
    (htotal : sb.total = s.shared.total) (hflag : sb.releaseFlag = s.shared.releaseFlag)
    {holder' : Option (Fin n.val)}
    (hheld : Mutex.HeldBy Critical (s.move who sb own).threads holder')
    (hlock : sb.lock.low = 0 ↔ holder' = none)
    (hstage : Stage n.val (arrived round s.threads) sb.currentCount
      (holder'.map fun i => ((s.move who sb own).threads i).pc)) :
    SpinInv n rounds round holder' (s.move who sb own) := by
  have hsame : arrived round (s.move who sb own).threads = arrived round s.threads := by
    apply census_update_stay
    unfold SenseThread.Arrived
    rw [harr]
  constructor
  case total_eq => rw [Config.move_shared, htotal, h.total_eq]
  case flag_eq => rw [Config.move_shared, hflag, h.flag_eq]
  case thread_ok =>
    exact fun i => Config.move_cases i (fun _ => hok) (fun _ => h.thread_ok i)
  case within => exact fun i => Config.move_cases i (fun _ => hwithin) (fun _ => h.within i)
  case held => exact hheld
  case lock_eq => exact hlock
  case stage =>
    rw [hsame]
    exact hstage

/-- A thread moves outside the critical section. -/
theorem outside (h : SpinInv n rounds round holder s) (hok : own.Ok sense round)
    (hwithin : own.Within rounds) (harr : own.arrivals = (s.threads who).arrivals)
    (hold : ¬ Critical (s.threads who)) (hnew : ¬ Critical own) {lock : Quad}
    (hlock : lock.low = 0 ↔ s.shared.lock.low = 0) :
    SpinInv n rounds round holder (s.move who { s.shared with lock := lock } own) := by
  have hheld := h.held.stay (iff_of_false hnew hold)
  have hplace : (holder.map fun i => ((s.move who { s.shared with lock := lock } own).threads
      i).pc) = holder.map fun i => (s.threads i).pc := by
    cases hholder : holder with
    | none => rfl
    | some i =>
        have hi : i ≠ who := by
          intro heq
          subst i
          exact hold ((h.held who).mpr hholder)
        simp [Config.move_threads_of_ne hi]
  apply h.quiet { s.shared with lock := lock } hok hwithin harr rfl rfl hheld
    (hlock.trans h.lock_eq)
  rw [hplace]
  exact h.stage

/-- The holder moves inside the critical section. -/
theorem inside (h : SpinInv n rounds round (some who) s) (hok : own.Ok sense round)
    (hwithin : own.Within rounds) (harr : own.arrivals = (s.threads who).arrivals)
    (hnew : Critical own) (count : Word)
    (hstage : Stage n.val (arrived round s.threads) count (some own.pc)) :
    SpinInv n rounds round (some who)
      (s.move who { s.shared with currentCount := count } own) := by
  have hheld := h.held.stay (iff_of_true hnew ((h.held who).mpr rfl))
  apply h.quiet { s.shared with currentCount := count } hok hwithin harr rfl rfl hheld h.lock_eq
  rw [Option.map_some, Config.move_threads_self]
  exact hstage

/-- The attempt that finds the lock free. -/
theorem win (h : SpinInv n rounds round holder s) (hpc : (s.threads who).pc = .lock .attempt)
    (hfree : s.shared.lock.low = 0) :
    SpinInv n rounds round (some who) (s.move who
      { s.shared with lock := s.shared.lock.storeLow 1 } ((s.threads who).goto .load)) := by
  have hnone := h.lock_eq.mp hfree
  subst holder
  have hok := (h.thread_ok who).goto .load (by rw [hpc]; rfl) (by rw [hpc]; rfl)
  have hwithin := (h.within who).goto .load (by rw [hpc]; rfl)
  have hcritical : Critical ((s.threads who).goto .load) := rfl
  have hheld : Mutex.HeldBy Critical
      (Function.update s.threads who ((s.threads who).goto .load)) (some who) :=
    h.held.acquire hcritical
  apply h.quiet { s.shared with lock := s.shared.lock.storeLow 1 } hok hwithin rfl rfl rfl hheld
  · simp
  · rw [Option.map_some, Config.move_threads_self]
    exact h.stage.1

/-- The store that counts an arrival. -/
theorem store (h : SpinInv n rounds round (some who) s) {count : Word}
    (hpc : (s.threads who).pc = .store count) :
    SpinInv n rounds round (some who)
      (s.move who { s.shared with currentCount := count } ((s.threads who).arrive .read)) := by
  obtain ⟨hok, hout, hin⟩ := (h.thread_ok who).arrive .read (by rw [hpc]; rfl)
    (by rw [hpc]; rfl) rfl
  have hwithin := (h.within who).arrive .read (by rw [hpc]; rfl)
  have hcritical : Critical ((s.threads who).arrive .read) := rfl
  have hheld := h.held.stay (iff_of_true hcritical ((h.held who).mpr rfl))
  have hstage := h.stage
  rw [Option.map_some, hpc] at hstage
  obtain ⟨hnew, hcount⟩ := hstage
  have hroom : arrived round s.threads < n.val := by
    simpa [arrived] using census_lt_card hout
  constructor
  case total_eq => exact h.total_eq
  case flag_eq => exact h.flag_eq
  case thread_ok =>
    exact fun i => Config.move_cases i (fun _ => hok) (fun _ => h.thread_ok i)
  case within => exact fun i => Config.move_cases i (fun _ => hwithin) (fun _ => h.within i)
  case held => exact hheld
  case lock_eq => exact h.lock_eq
  case stage =>
    have hgrown : arrived round (s.move who { s.shared with currentCount := count }
        ((s.threads who).arrive .read)).threads = arrived round s.threads + 1 :=
      census_update_enter hout hin
    have hint := n.isInt
    have hsum : count.toNat = arrived round s.threads + 1 := by
      rw [hnew, ← hcount]
      exact incl_toNat (by omega)
    rw [Option.map_some, Config.move_threads_self]
    exact hsum.trans hgrown.symm

/-- The store that completes a round. -/
theorem publish (h : SpinInv n rounds round (some who) s)
    (hpc : (s.threads who).pc = .release) :
    SpinInv n rounds (round + 1) (some who) (s.move who
      { s.shared with releaseFlag := (s.threads who).lsense.signExtend 64 }
      ((s.threads who).goto .unlock)) := by
  have hstage := h.stage
  rw [Option.map_some, hpc] at hstage
  obtain ⟨hall, hzero⟩ := hstage
  have hevery := all_arrived hall
  have hin : CallSite.inCall (s.threads who).pc = true := by rw [hpc]; rfl
  have hcounted : CallSite.counted (s.threads who).pc = true := by rw [hpc]; rfl
  have hok := ((h.thread_ok who).succ (hevery who)).1.goto .unlock hin hcounted
  have hwithin := (h.within who).goto .unlock hin
  have hcritical : Critical ((s.threads who).goto .unlock) := rfl
  have hheld := h.held.stay (iff_of_true hcritical ((h.held who).mpr rfl))
  have hnone : arrived (round + 1) (s.move who
      { s.shared with releaseFlag := (s.threads who).lsense.signExtend 64 }
      ((s.threads who).goto .unlock)).threads = 0 := by
    apply census_eq_zero_iff.mpr
    intro i
    exact Config.move_cases i (fun _ => ((h.thread_ok who).succ (hevery who)).2)
      (fun _ => ((h.thread_ok i).succ (hevery i)).2)
  constructor
  case total_eq => exact h.total_eq
  case flag_eq =>
    show Quad.low ((s.threads who).lsense.signExtend 64) = sense (round + 1)
    rw [Quad.low_signExtend, (h.thread_ok who).lsense_eq_of_counted hin hcounted]
    exact congrArg sense (hevery who)
  case thread_ok =>
    exact fun i => Config.move_cases i (fun _ => hok)
      (fun _ => ((h.thread_ok i).succ (hevery i)).1)
  case within => exact fun i => Config.move_cases i (fun _ => hwithin) (fun _ => h.within i)
  case held => exact hheld
  case lock_eq => exact h.lock_eq
  case stage =>
    rw [Option.map_some, Config.move_threads_self, hnone]
    refine ⟨?_, n.pos⟩
    show s.shared.currentCount.toNat = 0
    rw [hzero]
    rfl

/-- The holder frees the lock. -/
theorem unlock (h : SpinInv n rounds round (some who) s)
    (hpc : (s.threads who).pc = .unlock) :
    SpinInv n rounds round none (s.move who
      { s.shared with lock := spinUnlock s.shared.lock }
      ((s.threads who).goto (.wait .entry))) := by
  have hstage := h.stage
  rw [Option.map_some, hpc] at hstage
  have hok := (h.thread_ok who).goto (.wait .entry) (by rw [hpc]; rfl) (by rw [hpc]; rfl)
  have hwithin := (h.within who).goto (.wait .entry) (by rw [hpc]; rfl)
  have hnot : ¬ Critical ((s.threads who).goto (.wait .entry)) := nofun
  have hheld := h.held.release ((h.held who).mpr rfl) hnot
  apply h.quiet { s.shared with lock := spinUnlock s.shared.lock } hok hwithin rfl rfl rfl
    hheld
  · simp [spinUnlock]
  · exact hstage

/-- A thread in the critical section is the holder. -/
theorem holder_eq (h : SpinInv n rounds round holder s) (who : Fin n.val)
    (hcritical : (s.threads who).pc.critical = true) : holder = some who :=
  (h.held who).mp hcritical

/-- A thread that finds its sense published has arrived in a complete round. -/
theorem arrivals_le_of_flag (h : SpinInv n rounds round holder s) {pc : WaitPc}
    (hpc : (s.threads who).pc = .wait pc)
    (hflag : s.shared.releaseFlag.low = (s.threads who).lsense) :
    (s.threads who).arrivals ≤ round := by
  rw [h.flag_eq] at hflag
  exact (h.thread_ok who).arrivals_le_of_published sense_succ_ne (by rw [hpc]; rfl)
    (by rw [hpc]; rfl) hflag

/-- Every step keeps the invariant. -/
theorem step (h : SpinInv n rounds round holder s)
    (hmove : SpinMove rounds s.shared (s.threads who) sb own) :
    ∃ round' holder', SpinInv n rounds round' holder' (s.move who sb own) := by
  have hok := h.thread_ok who
  have hwithin := h.within who
  cases hmove with
  | enter hpc hcalls =>
      have hflip : ∀ r, (s.threads who).lsense = sense r →
          ~~~(s.threads who).lsense = sense (r + 1) := by
        intro r hr
        rw [hr, not_sense]
      have hok' := hok.enter (.lock .attempt) (by rw [hpc]; rfl) (by rw [hpc]; rfl) rfl hflip
      exact ⟨round, holder, h.outside hok' ⟨hwithin.calls_le, fun _ => hcalls⟩ rfl
        (by simp [Critical, hpc, SpinPc.critical]) (by simp [Critical, SpinPc.critical]) .rfl⟩
  | lose hpc htaken =>
      have hok' := hok.goto (.lock .poll) (by rw [hpc]; rfl) (by rw [hpc]; rfl)
      refine ⟨round, holder, h.outside hok' (hwithin.goto _ (by rw [hpc]; rfl)) rfl
        (by simp [Critical, hpc, SpinPc.critical]) (by simp [Critical, SpinPc.critical]) ?_⟩
      exact iff_of_false (by simp) htaken
  | win hpc hfree => exact ⟨round, some who, h.win hpc hfree⟩
  | spin pc hpc =>
      have hok' := hok.goto (.lock pc) (by rw [hpc]; rfl) (by rw [hpc]; rfl)
      exact ⟨round, holder, h.outside hok' (hwithin.goto _ (by rw [hpc]; rfl)) rfl
        (by simp [Critical, hpc, SpinPc.critical]) (by simp [Critical, SpinPc.critical]) .rfl⟩
  | load hpc =>
      obtain rfl := h.holder_eq who (by rw [hpc]; rfl)
      have hstage := h.stage
      rw [Option.map_some, hpc] at hstage
      have hok' := hok.goto (.store (s.shared.currentCount + 1)) (by rw [hpc]; rfl)
        (by rw [hpc]; rfl)
      exact ⟨round, some who, h.inside hok' (hwithin.goto _ (by rw [hpc]; rfl)) rfl rfl _
        ⟨rfl, hstage⟩⟩
  | store count hpc =>
      obtain rfl := h.holder_eq who (by rw [hpc]; rfl)
      exact ⟨round, some who, h.store hpc⟩
  | full hpc hcount =>
      obtain rfl := h.holder_eq who (by rw [hpc]; rfl)
      have hstage : s.shared.currentCount.toNat = arrived round s.threads := by
        have := h.stage
        rwa [Option.map_some, hpc] at this
      rw [h.total_eq, ThreadCount.eq_word_iff, hstage] at hcount
      have hok' := hok.goto .reset (by rw [hpc]; rfl) (by rw [hpc]; rfl)
      exact ⟨round, some who, h.inside hok' (hwithin.goto _ (by rw [hpc]; rfl)) rfl rfl _
        hcount⟩
  | short hpc hcount =>
      obtain rfl := h.holder_eq who (by rw [hpc]; rfl)
      have hstage : s.shared.currentCount.toNat = arrived round s.threads := by
        have := h.stage
        rwa [Option.map_some, hpc] at this
      rw [h.total_eq, ne_eq, ThreadCount.eq_word_iff, hstage] at hcount
      have hok' := hok.goto .unlock (by rw [hpc]; rfl) (by rw [hpc]; rfl)
      exact ⟨round, some who, h.inside hok' (hwithin.goto _ (by rw [hpc]; rfl)) rfl rfl _
        ⟨hstage, lt_of_le_of_ne arrived_le hcount⟩⟩
  | reset hpc =>
      obtain rfl := h.holder_eq who (by rw [hpc]; rfl)
      have hstage := h.stage
      rw [Option.map_some, hpc] at hstage
      have hok' := hok.goto .release (by rw [hpc]; rfl) (by rw [hpc]; rfl)
      exact ⟨round, some who, h.inside hok' (hwithin.goto _ (by rw [hpc]; rfl)) rfl rfl 0
        ⟨hstage, rfl⟩⟩
  | publish hpc =>
      obtain rfl := h.holder_eq who (by rw [hpc]; rfl)
      exact ⟨round + 1, some who, h.publish hpc⟩
  | unlock hpc =>
      obtain rfl := h.holder_eq who (by rw [hpc]; rfl)
      exact ⟨round, none, h.unlock hpc⟩
  | poll pc pc' hpc =>
      have hok' := hok.goto (.wait pc') (by rw [hpc]; rfl) (by rw [hpc]; rfl)
      exact ⟨round, holder, h.outside hok' (hwithin.goto _ (by rw [hpc]; rfl)) rfl
        (by simp [Critical, hpc, SpinPc.critical]) (by simp [Critical, SpinPc.critical]) .rfl⟩
  | leave pc hpc hflag =>
      have hround := h.arrivals_le_of_flag hpc hflag
      have hok' := hok.ret .outside (by rw [hpc]; rfl) (by rw [hpc]; rfl) hround rfl rfl
      exact ⟨round, holder, h.outside hok' (hwithin.ret _ (by rw [hpc]; rfl) rfl) rfl
        (by simp [Critical, hpc, SpinPc.critical]) (by simp [Critical, SpinPc.critical]) .rfl⟩

/-- Every step is a step of the abstract barrier or none. -/
theorem conforms (h : SpinInv n rounds round holder s)
    (hmove : SpinMove rounds s.shared (s.threads who) sb own) :
    Rendezvous.Conforms SenseThread.arrivals SenseThread.calls s.threads who own := by
  cases hmove with
  | store count hpc =>
      obtain ⟨harr, hcalls⟩ :=
        (h.thread_ok who).arrivals_eq_of_not_counted (by rw [hpc]; rfl)
      exact .inr (.inl ⟨harr.trans hcalls.symm, rfl, rfl⟩)
  | leave pc hpc hflag =>
      have hround := h.arrivals_le_of_flag hpc hflag
      refine .inr (.inr ⟨rfl, rfl, fun j => ?_⟩)
      exact ((h.thread_ok who).calls_lt (by rw [hpc]; rfl) hround).trans_le
        (h.thread_ok j).round_le
  | enter => exact .inl ⟨rfl, rfl⟩
  | lose => exact .inl ⟨rfl, rfl⟩
  | win => exact .inl ⟨rfl, rfl⟩
  | spin => exact .inl ⟨rfl, rfl⟩
  | load => exact .inl ⟨rfl, rfl⟩
  | full => exact .inl ⟨rfl, rfl⟩
  | short => exact .inl ⟨rfl, rfl⟩
  | reset => exact .inl ⟨rfl, rfl⟩
  | publish => exact .inl ⟨rfl, rfl⟩
  | unlock => exact .inl ⟨rfl, rfl⟩
  | poll => exact .inl ⟨rfl, rfl⟩

end SpinInv

/-- The thread spins on a taken lock or polls a flag that differs from its sense. -/
def Stuck (sb : SpinBarrier) (t : SpinThread) : Prop :=
  match t.pc with
  | .lock _ => sb.lock.low ≠ 0
  | .wait _ => sb.releaseFlag.low ≠ t.lsense
  | _ => False

/-- Some thread has calls left, and every such thread is stuck. -/
def SpinDeadlock (rounds : ℕ) (s : Config (Fin n.val) SpinBarrier SpinThread) : Prop :=
  (∃ i, (s.threads i).calls < rounds) ∧
    ∀ i, (s.threads i).calls < rounds → Stuck s.shared (s.threads i)

namespace SpinInv

/-- A stuck thread does not hold the lock. -/
theorem not_critical_of_stuck (hstuck : Stuck s.shared (s.threads who)) :
    ¬ Critical (s.threads who) := by
  unfold Stuck at hstuck
  unfold Critical
  cases hpc : (s.threads who).pc with
  | lock pc => simp [SpinPc.critical]
  | wait pc => simp [SpinPc.critical]
  | _ => simp [hpc] at hstuck

/-- Without a deadlock partner in the critical section the lock is free, so a
stuck thread waits for the round in progress. -/
theorem arrived_of_stuck (h : SpinInv n rounds round none s)
    (hstuck : Stuck s.shared (s.threads who)) : (s.threads who).Arrived round := by
  unfold Stuck at hstuck
  cases hpc : (s.threads who).pc with
  | lock pc =>
      rw [hpc] at hstuck
      exact absurd (h.lock_eq.mpr rfl) hstuck
  | wait pc =>
      rw [hpc] at hstuck
      have hflag : s.shared.releaseFlag.low ≠ (s.threads who).lsense := hstuck
      rw [h.flag_eq] at hflag
      exact (h.thread_ok who).arrived_of_unpublished (by rw [hpc]; rfl) (by rw [hpc]; rfl)
        hflag
  | _ => simp [hpc] at hstuck

theorem not_deadlock (h : SpinInv n rounds round holder s) : ¬ SpinDeadlock rounds s := by
  rintro ⟨⟨i, hi⟩, hstuck⟩
  have hfree : holder = none := by
    apply h.held.eq_none_iff.mpr
    intro j hcritical
    by_cases hj : (s.threads j).calls < rounds
    · exact not_critical_of_stuck (hstuck j hj) hcritical
    · refine hj ((h.within j).calls_lt ?_)
      have hpc : (s.threads j).pc.critical = true := hcritical
      cases hplace : (s.threads j).pc with
      | outside => simp [hplace, SpinPc.critical] at hpc
      | _ => rfl
  subst holder
  have hround : round < rounds := (h.thread_ok i).round_lt (h.arrived_of_stuck (hstuck i hi)) hi
  have hall : ∀ j, (s.threads j).Arrived round := by
    intro j
    apply h.arrived_of_stuck
    exact hstuck j (((h.thread_ok j).calls_le).trans_lt hround)
  have hfull : arrived round s.threads = n.val := by
    simpa [arrived] using census_eq_card_iff.mpr hall
  exact absurd hfull h.stage.2.ne

end SpinInv

/-- The function and the macro refine the abstract barrier. -/
theorem spinSystem_simulates_rendezvous :
    System.Simulates (spinSystem form n rounds) (fun _ _ => True)
      (Rendezvous.system (Fin n.val)) (fun _ _ => True)
      (fun s a => (∃ round holder, SpinInv n rounds round holder s) ∧
        Rendezvous.Counts SenseThread.arrivals SenseThread.calls s a) := by
  apply Rendezvous.simulates
  · intro s hinit
    refine ⟨⟨0, none, .init hinit⟩, fun i => ?_⟩
    rw [hinit.2 i]
    exact ⟨rfl, rfl⟩
  · intro s who choice sb own hInv _ hstep
    obtain ⟨round, holder, hround⟩ := hInv
    rw [SpinForm.program_eq] at hstep
    have hmove := lsenseBarrier_cases hstep
    exact ⟨hround.step hmove, hround.conforms hmove⟩

/-- No call returns before every thread has arrived for it, and no reachable state
is a deadlock. -/
theorem spinSystem_correct (hreach : (spinSystem form n rounds).Reachable s) :
    (∀ i j, (s.threads i).calls ≤ (s.threads j).arrivals) ∧ ¬ SpinDeadlock rounds s := by
  obtain ⟨a, ha, ⟨round, holder, hInv⟩, hcounts⟩ :=
    spinSystem_simulates_rendezvous.reachable hreach
  have hordered := Rendezvous.ordered_of_reachable ha
  refine ⟨fun i j => ?_, hInv.not_deadlock⟩
  rw [← (hcounts i).2, ← (hcounts j).1]
  exact hordered.left_le_arrived i j

/-- A configuration before the first call, with a lock whose upper half is not zero. -/
def spinStart (n : ThreadCount) : Config (Fin n.val) SpinBarrier SpinThread :=
  ⟨spinBarrierInit ⟨~~~0, 0, 0, 0⟩ n.word, fun _ => .start⟩

/-- Thread 1 spins on the lock that thread 0 holds. -/
theorem spinSystem_correct_contended :
    let s := System.exec (SPIN_BARRIER_LSENSE 3).next (spinStart .two)
      (List.map (·, ()) [0, 0, 0, 1, 1, 1])
    ((s.threads 0).pc = .store 1 ∧ (s.threads 1).pc = .lock .poll) ∧
      (∀ i j, (s.threads i).calls ≤ (s.threads j).arrivals) ∧ ¬ SpinDeadlock 3 s :=
  have hinit : (spinSystem .inlined .two 3).Reachable (spinStart .two) :=
    .of_init ⟨⟨_, rfl⟩, fun _ => rfl⟩
  ⟨by decide, spinSystem_correct (System.reachable_exec _ hinit)⟩

end Htsynch.Spin
