/-
# The MWAIT barrier is a reusable barrier

In every reachable state some number of rounds is complete and the next one is in
one of its two phases. The lock word is in line with the phase: while threads leave
it is held by nobody in particular. From this the count never wraps, the plain
increment loses no update, the lock is only released while it is held, and between
two rounds everything is as it was initialised.
-/

import Htsynch.Foundations.Rendezvous
import Htsynch.MwaitBarrier.Phases

namespace Htsynch

open Foundations BarrierThread

/-- Where a round is. -/
inductive Phase (ι : Type)
  | gathering (holder : Option ι)
  | leaving (last : Option ι)

variable {n : ThreadCount} {rounds round : ℕ} {p : Addr}
  {s : Config (Fin n.val) (BarrierShared (Fin n.val)) BarrierThread} {who : Fin n.val}
  {sh : BarrierShared (Fin n.val)} {own : BarrierThread}

namespace Phase

/-- The lock is taken. -/
def Locked {ι : Type} : Phase ι → Prop
  | .gathering holder => holder ≠ none
  | .leaving _ => True

/-- What holds in the phase. -/
def Inv (p : Addr) (n : ThreadCount) (round : ℕ) : Phase (Fin n.val) →
    Config (Fin n.val) (BarrierShared (Fin n.val)) BarrierThread → Prop
  | .gathering holder => Gathering p n round holder
  | .leaving last => Leaving p n round last

end Phase

/-- The invariant of the barrier. -/
structure BarrierInv (p : Addr) (n : ThreadCount) (rounds round : ℕ) (phase : Phase (Fin n.val))
    (s : Config (Fin n.val) (BarrierShared (Fin n.val)) BarrierThread) : Prop where
  base : BarrierBase p n rounds round s
  lock : LockWord phase.Locked (census Polls s.threads) s.shared.barrier.lock
  inv : phase.Inv p n round s

section

variable {held : Prop}

/-- A step that does not write the lock word keeps it in line. -/
theorem BarrierMove.lock_word
    (hmove : BarrierMove p rounds who s.shared (s.threads who) sh own)
    (hlock : LockWord held (census Polls s.threads) s.shared.barrier.lock)
    (hsame : sh.barrier.lock = s.shared.barrier.lock) :
    LockWord held (census Polls (s.move who sh own).threads) sh.barrier.lock := by
  have hquiet : ∀ {t : BarrierThread}, (s.threads who).pc ≠ .lock .poll → t.pc ≠ .lock .poll →
      LockWord held (census Polls (Function.update s.threads who t)) s.shared.barrier.lock :=
    fun hold hnew => hlock.stay (iff_of_false hnew hold)
  rw [hsame]
  cases hmove with
  | interrupt i pc hpc =>
      rcases hpc with rfl | ⟨spc, hsleep, rfl⟩
      · exact hlock.stay Iff.rfl
      · exact hquiet (by simp [hsleep]) (by simp)
  | enter hpc => exact hquiet (by simp [hpc]) (by simp)
  | lose hpc =>
      have hpolls : census Polls (Function.update s.threads who
          ((s.threads who).goto (.lock .poll))) = census Polls s.threads + 1 :=
        census_update_enter (by simp [Polls, hpc]) rfl
      rw [Config.move, hpolls]
      exact hlock.mono (Nat.le_succ _)
  | win hpc => exact hquiet (by simp [hpc]) (by simp)
  | spin pc hpc hout =>
      have hiff : ((s.threads who).goto (.lock pc)).Polls ↔ pc = .poll := by
        simp [Polls]
      exact hlock.spin hpc hiff hout
  | load hpc => exact hquiet (by simp [hpc]) (by simp)
  | store gathered hpc => exact hquiet (by simp [hpc]) (by simp)
  | full hpc => exact hquiet (by simp [hpc]) (by simp)
  | short hpc => exact hquiet (by simp [hpc]) (by simp)
  | notify hpc => exact hquiet (by simp [hpc]) (by simp)
  | unlock hpc => exact hquiet (by simp [hpc]) (by simp)
  | sleep pc pc' machine hpc => exact hquiet (by simp [hpc]) (by simp)
  | wake hpc => exact hquiet (by simp [hpc]) (by simp)
  | leave hpc => exact hquiet (by simp [hpc]) (by simp)
  | leaveLast hpc => exact hquiet (by simp [hpc]) (by simp)
  | unlockLast hpc => exact hquiet (by simp [hpc]) (by simp)

theorem barrier_polls_lt : census Polls s.threads < 2 ^ 31 :=
  (census_le_card.trans_eq (Fintype.card_fin _)).trans_lt n.isInt

end

namespace BarrierInv

variable {holder last : Option (Fin n.val)} {phase : Phase (Fin n.val)} {r : Region}
  {ptrs : Pointers}

theorem init (hinit : barrierInit r ptrs n s) :
    BarrierInv (r.byte ptrs) n rounds 0 (.gathering none) s := by
  have hbase : BarrierBase (r.byte ptrs) n rounds 0 s := .init hinit
  obtain ⟨⟨b, hbarrier⟩, hbyte, hthreads⟩ := hinit
  have hnobody : census (Arrived 0) s.threads = 0 := by
    apply census_eq_zero_iff.mpr
    intro i
    rw [hthreads i]
    decide
  refine ⟨hbase, ?_, ?_⟩
  · rw [hbarrier]
    exact LockWord.init.congr (iff_of_false (not_not.mpr rfl) not_false)
  constructor
  case calls_eq =>
    intro i
    rw [hthreads i]
    rfl
  case unnotified =>
    intro i
    rw [hthreads i]
    rfl
  case held =>
    intro i
    rw [hthreads i]
    exact iff_of_false Bool.false_ne_true (Option.some_ne_none i).symm
  case byte_eq => exact hbyte
  case gathered_eq =>
    rw [hnobody, hbarrier]
    rfl
  case loaded =>
    intro i g hstore
    rw [hthreads i] at hstore
    cases hstore
  case full =>
    intro i hnotify
    rw [hthreads i] at hnotify
    cases hnotify
  case room =>
    rw [hnobody]
    exact .inr n.pos

/-- One step while the threads gather. -/
theorem step_gathering (h : BarrierInv p n rounds round (.gathering holder) s)
    (hn : 2 ≤ n.val) (hmove : BarrierMove p rounds who s.shared (s.threads who) sh own) :
    ∃ phase, BarrierInv p n rounds round phase (s.move who sh own) := by
  have hbase := h.base.step hmove
  have hlock := hmove.lock_word h.lock
  have hinv : Gathering p n round holder s := h.inv
  have hok := h.base.thread_ok who
  have hnot := hinv.unnotified who
  have hcrit : ∀ {t : BarrierThread}, (s.threads who).pc.critical = true →
      t.pc.critical = true →
      Mutex.HeldBy Critical (Function.update s.threads who t) holder :=
    fun hold hnew => hinv.held.stay (iff_of_true hnew hold)
  cases hmove with
  | interrupt i pc hpc =>
      refine ⟨.gathering holder, hbase, hlock rfl, ?_⟩
      rcases hpc with rfl | ⟨spc, hsleep, rfl⟩
      · exact hinv.keep (hinv.held.stay Iff.rfl) rfl rfl hnot
          (congrFun Interrupt.onMachine_mem p) rfl
          (hinv.loaded who) (hinv.full who) .inl
      · rw [hsleep] at hnot
        exact hinv.idle (by rw [hsleep]; rfl) rfl rfl rfl (BarrierPc.notified_onSleeper hnot)
          (congrFun Interrupt.onMachine_mem p) rfl
  | enter hpc =>
      refine ⟨.gathering holder, hbase, hlock rfl, ?_⟩
      exact hinv.idle (by rw [hpc]; rfl) rfl rfl rfl rfl rfl rfl
  | lose hpc hout =>
      have hheld := h.lock.held_of_goto hout
      refine ⟨.gathering holder, hbase, ?_, ?_⟩
      · exact h.lock.lose hheld barrier_polls_lt (by simp [Polls, hpc]) rfl
      · exact hinv.idle (by rw [hpc]; rfl) rfl rfl rfl rfl rfl rfl
  | win hpc hout =>
      have hfree := h.lock.free_of_acquired barrier_polls_lt hout
      obtain rfl := not_not.mp hfree
      refine ⟨.gathering (some who), hbase, ?_, ?_⟩
      · have hnew : ¬ ((s.threads who).goto .load).Polls := by simp [Polls]
        exact (h.lock.win hfree (by simp [Polls, hpc]) hnew).congr
          (iff_of_true (Option.some_ne_none who) trivial)
      · exact hinv.keep (hinv.held.acquire rfl) rfl rfl rfl rfl rfl (by simp) (by simp)
          (by simp [hpc, BarrierPc.closing])
  | spin pc hpc =>
      refine ⟨.gathering holder, hbase, hlock rfl, ?_⟩
      exact hinv.idle (by rw [hpc]; rfl) rfl rfl rfl rfl rfl rfl
  | load hpc =>
      refine ⟨.gathering holder, hbase, hlock rfl, ?_⟩
      have hheld := hcrit (t := (s.threads who).goto (.store (s.shared.barrier.gathered + 1)))
        (by rw [hpc]; rfl) rfl
      exact hinv.keep hheld rfl rfl rfl rfl rfl (fun g hg => (BarrierPc.store.inj hg).symm)
        (by simp) (by simp [hpc, BarrierPc.closing])
  | store gathered hpc =>
      refine ⟨.gathering holder, hbase, hlock rfl, ?_⟩
      exact hinv.arrive hok hpc
  | full hpc hcount =>
      refine ⟨.gathering holder, hbase, hlock rfl, ?_⟩
      have hheld := hcrit (t := (s.threads who).goto .notify) (by rw [hpc]; rfl) rfl
      exact hinv.keep hheld rfl rfl rfl rfl rfl (by simp)
        (fun _ => hinv.census_eq_of_test hok hpc hcount) (fun _ => .inl rfl)
  | short hpc hcount =>
      refine ⟨.gathering holder, hbase, hlock rfl, ?_⟩
      have hheld := hcrit (t := (s.threads who).goto .unlock) (by rw [hpc]; rfl) rfl
      exact hinv.keep hheld rfl rfl rfl rfl rfl (by simp) (by simp)
        (fun _ => .inr (hinv.census_lt_of_test hok hpc hcount))
  | notify hpc =>
      refine ⟨.leaving none, hbase, ?_, hinv.notify hn h.base.thread_ok hpc⟩
      refine (hlock rfl).congr (iff_of_true trivial ?_)
      rw [(hinv.held who).mp (by rw [Critical, hpc]; rfl)]
      exact Option.some_ne_none who
  | unlock hpc =>
      refine ⟨.gathering none, hbase, ?_, ?_⟩
      · exact (LockWord.unlock s.shared.barrier.lock).congr
          (iff_of_false (not_not.mpr rfl) not_false)
      · have hnew : ¬ ((s.threads who).goto (.sleep .irqDisable)).Critical :=
          Bool.false_ne_true
        have hheld := hinv.held.release (by rw [Critical, hpc]; rfl) hnew
        exact hinv.keep hheld rfl rfl rfl rfl rfl (by simp) (by simp)
          (by simp [hpc, BarrierPc.closing])
  | sleep pc pc' machine hpc hsleep =>
      refine ⟨.gathering holder, hbase, hlock rfl, ?_⟩
      have hunseen : pc' ≠ .reset := by
        rintro rfl
        have hmem := hsleep.notified rfl
        rw [hinv.byte_eq] at hmem
        exact original_ne_notified hmem
      exact hinv.idle (by rw [hpc]; rfl) rfl rfl rfl (BarrierPc.notified_sleep_eq_false hunseen)
        (congrFun (hsleep.mem_eq rfl) p) rfl
  | wake hpc =>
      rw [hpc] at hnot
      cases hnot
  | leave hpc =>
      rw [hpc] at hnot
      cases hnot
  | leaveLast hpc =>
      rw [hpc] at hnot
      cases hnot
  | unlockLast hpc =>
      rw [hpc] at hnot
      cases hnot

/-- The release that ends a round. -/
theorem unlockLast (h : BarrierInv p n rounds round (.leaving last) s)
    (hbase : BarrierBase p n rounds round (s.move who sh (s.threads who).ret))
    (hlast : (s.threads who).Last)
    (hgathered : sh.barrier.gathered = s.shared.barrier.gathered)
    (hlock : sh.barrier.lock = spinUnlock s.shared.barrier.lock)
    (hbyte : sh.machine.mem p = s.shared.machine.mem p) :
    BarrierInv p n rounds (round + 1) (.gathering none)
      (s.move who sh (s.threads who).ret) := by
  have hinv : Leaving p n round last s := h.inv
  have hnext := hinv.unlockLast h.base.thread_ok hlast hgathered hbyte
  have hsame : ∀ j, ((s.move who sh (s.threads who).ret).threads j).results =
      (s.threads j).results := Config.move_threads_eq_of_eq (f := BarrierThread.results) rfl
  refine ⟨hbase.succ (fun i => (hnext.calls_eq i).ge) ?_, ?_, hnext⟩
  · simp only [hsame]
    refine ⟨who, (hinv.result_iff who).mpr hlast, fun j hj => ?_⟩
    exact hinv.held.unique ((hinv.result_iff j).mp hj) hlast
  · rw [Config.move_shared, hlock]
    exact (LockWord.unlock s.shared.barrier.lock).congr
      (iff_of_false (not_not.mpr rfl) not_false)

/-- One step while the threads leave. -/
theorem step_leaving (h : BarrierInv p n rounds round (.leaving last) s)
    (hmove : BarrierMove p rounds who s.shared (s.threads who) sh own) :
    ∃ round' phase, BarrierInv p n rounds round' phase (s.move who sh own) := by
  have hbase := h.base.step hmove
  have hlock := hmove.lock_word h.lock
  have hinv : Leaving p n round last s := h.inv
  have hok := h.base.thread_ok who
  have hcrit := hinv.uncritical who
  have hquiet : ∀ {t : BarrierThread} {sh : BarrierShared (Fin n.val)},
      (s.threads who).pc ≠ .unlockLast → t.arrivals = (s.threads who).arrivals →
      t.pc.critical = false → t.results = (s.threads who).results → t.pc ≠ .unlockLast →
      (t.Awake ↔ (s.threads who).Awake) →
      sh.machine.mem p = s.shared.machine.mem p →
      sh.barrier.gathered = s.shared.barrier.gathered →
      Leaving p n round last (s.move who sh t) :=
    fun hpc harr hcrit hresults hnew =>
      hinv.keep harr hcrit hresults (iff_of_false hnew hpc)
  cases hmove with
  | interrupt i pc hpc =>
      refine ⟨round, .leaving last, hbase, hlock rfl, ?_⟩
      rcases hpc with rfl | ⟨spc, hsleep, rfl⟩
      · exact hinv.keep rfl hcrit rfl Iff.rfl Iff.rfl (congrFun Interrupt.onMachine_mem p) rfl
      · exact hquiet (by simp [hsleep]) rfl rfl rfl (by simp)
          (iff_of_false Bool.noConfusion (by rw [Awake, hsleep]; exact Bool.noConfusion))
          (congrFun Interrupt.onMachine_mem p) rfl
  | enter hpc =>
      refine ⟨round, .leaving last, hbase, hlock rfl, ?_⟩
      exact hquiet (by simp [hpc]) rfl rfl rfl (by simp)
        (iff_of_true rfl (by rw [Awake, hpc]; rfl)) rfl rfl
  | lose hpc hout =>
      refine ⟨round, .leaving last, hbase, ?_, ?_⟩
      · exact h.lock.lose trivial barrier_polls_lt (by simp [Polls, hpc]) rfl
      · exact hquiet (by simp [hpc]) rfl rfl rfl (by simp)
          (iff_of_true rfl (by rw [Awake, hpc]; rfl)) rfl rfl
  | win hpc hout =>
      exact absurd trivial (h.lock.free_of_acquired barrier_polls_lt hout)
  | spin pc hpc =>
      refine ⟨round, .leaving last, hbase, hlock rfl, ?_⟩
      exact hquiet (by simp [hpc]) rfl rfl rfl (by simp)
        (iff_of_true rfl (by rw [Awake, hpc]; rfl)) rfl rfl
  | load hpc =>
      rw [hpc] at hcrit
      cases hcrit
  | store gathered hpc =>
      rw [hpc] at hcrit
      cases hcrit
  | full hpc =>
      rw [hpc] at hcrit
      cases hcrit
  | short hpc =>
      rw [hpc] at hcrit
      cases hcrit
  | notify hpc =>
      rw [hpc] at hcrit
      cases hcrit
  | unlock hpc =>
      rw [hpc] at hcrit
      cases hcrit
  | sleep pc pc' machine hpc hsleep =>
      refine ⟨round, .leaving last, hbase, hlock rfl, ?_⟩
      exact hquiet (by simp [hpc]) rfl rfl rfl (by simp)
        (iff_of_false Bool.noConfusion (by rw [Awake, hpc]; exact Bool.noConfusion))
        (congrFun (hsleep.mem_eq rfl) p) rfl
  | wake hpc => exact ⟨round, .leaving last, hbase, hlock rfl, hinv.wake hpc⟩
  | leave hpc hrest =>
      exact ⟨round, .leaving last, hbase, hlock rfl, hinv.leave hok hpc hrest⟩
  | leaveLast hpc hlast =>
      exact ⟨round, .leaving (some who), hbase, hlock rfl, hinv.leaveLast hok hpc hlast⟩
  | unlockLast hpc => exact ⟨round + 1, .gathering none, h.unlockLast hbase hpc rfl rfl rfl⟩

theorem step (h : BarrierInv p n rounds round phase s) (hn : 2 ≤ n.val)
    (hmove : BarrierMove p rounds who s.shared (s.threads who) sh own) :
    ∃ round' phase', BarrierInv p n rounds round' phase' (s.move who sh own) := by
  cases phase with
  | gathering holder =>
      obtain ⟨phase', hnext⟩ := h.step_gathering hn hmove
      exact ⟨round, phase', hnext⟩
  | leaving last => exact h.step_leaving hmove

/-- Every step is a step of the abstract barrier or none. -/
theorem conforms (h : BarrierInv p n rounds round phase s)
    (hmove : BarrierMove p rounds who s.shared (s.threads who) sh own) :
    Rendezvous.Conforms BarrierThread.arrivals BarrierThread.calls s.threads who own := by
  have hleave : (s.threads who).pc.notified = true →
      ∀ j, (s.threads who).calls < (s.threads j).arrivals := by
    intro hnotified j
    cases phase with
    | gathering holder =>
        have hinv : Gathering p n round holder s := h.inv
        rw [hinv.unnotified who] at hnotified
        cases hnotified
    | leaving last =>
        have hinv : Leaving p n round last s := h.inv
        have harr := (h.base.thread_ok who).arrivals_eq
        rw [BarrierPc.counted_of_notified hnotified, hinv.arrivals_eq who] at harr
        rw [hinv.arrivals_eq j, harr]
        exact Nat.lt_succ_self _
  cases hmove with
  | store gathered hpc =>
      have harr := (h.base.thread_ok who).arrivals_eq
      rw [hpc] at harr
      exact .inr (.inl ⟨harr, rfl, rfl⟩)
  | leave hpc => exact .inr (.inr ⟨rfl, rfl, hleave (by rw [hpc]; rfl)⟩)
  | unlockLast hpc => exact .inr (.inr ⟨rfl, rfl, hleave (by rw [hpc]; rfl)⟩)
  | _ => exact .inl ⟨rfl, rfl⟩

end BarrierInv

variable {r : Region} {ptrs : Pointers}

/-- The two functions refine the abstract barrier. -/
theorem barrierSystem_simulates_rendezvous (hn : 2 ≤ n.val) :
    System.Simulates (barrierSystem r ptrs n rounds) (fun _ _ => True)
      (Rendezvous.system (Fin n.val)) (fun _ _ => True)
      (fun s a => (∃ round phase, BarrierInv (r.byte ptrs) n rounds round phase s) ∧
        Rendezvous.Counts BarrierThread.arrivals BarrierThread.calls s a) := by
  apply Rendezvous.simulates
  · intro s hinit
    refine ⟨⟨0, .gathering none, .init hinit⟩, fun i => ?_⟩
    rw [hinit.2.2 i]
    exact ⟨rfl, rfl⟩
  · intro s who choice sh own hInv _ hstep
    obtain ⟨round, phase, h⟩ := hInv
    rw [Region.barrier_eq] at hstep
    have hmove := barrierCall_cases hstep
    exact ⟨h.step hn hmove, h.conforms hmove⟩

/-- What the barrier promises in a state. -/
structure BarrierCorrect (p : Addr) (n : ThreadCount)
    (s : Config (Fin n.val) (BarrierShared (Fin n.val)) BarrierThread) : Prop where
  /-- Nobody has returned more often than anyone has been counted. -/
  rendezvous : ∀ i j, (s.threads i).calls ≤ (s.threads j).arrivals
  count_le : s.shared.barrier.gathered.toNat ≤ n.val
  /-- A store of the count adds one to it. -/
  store_eq : ∀ i g, (s.threads i).pc = .store g →
    g.toNat = s.shared.barrier.gathered.toNat + 1
  /-- A decrement of the count takes one from it. -/
  dec_eq : ∀ i, (s.threads i).pc = .dec →
    (atomicDecAndTest s.shared.barrier.gathered).1.toNat + 1 =
      s.shared.barrier.gathered.toNat
  /-- The lock is held by the time it is released. -/
  unlock_held : ∀ i, (s.threads i).pc = .unlock ∨ (s.threads i).pc = .unlockLast →
    s.shared.barrier.lock.toInt ≤ 0
  /-- In a round that all have left one decrement has reached zero. -/
  one_last : ∀ k, (∀ i, k < (s.threads i).results.length) →
    ∃! i, (s.threads i).results[k]? = some true
  /-- Between two rounds everything is as it was initialised. -/
  between : ∀ k, (∀ i, (s.threads i).pc = .outside ∧ (s.threads i).calls = k) →
    s.shared.barrier.gathered = 0 ∧ s.shared.barrier.lock = 1 ∧
      s.shared.machine.mem p = MWMON_ORIGINAL_VAL

namespace BarrierInv

variable {phase : Phase (Fin n.val)}

theorem count_le (h : BarrierInv p n rounds round phase s) :
    s.shared.barrier.gathered.toNat ≤ n.val := by
  cases phase with
  | gathering holder =>
      have hinv : Gathering p n round holder s := h.inv
      rw [hinv.gathered_eq]
      exact census_le_card.trans_eq (Fintype.card_fin _)
  | leaving last =>
      have hinv : Leaving p n round last s := h.inv
      rw [hinv.gathered_eq]
      exact census_le_card.trans_eq (Fintype.card_fin _)

/-- A thread in the critical section belongs to a round that gathers. -/
theorem gathering_of_critical (h : BarrierInv p n rounds round phase s) {i : Fin n.val}
    (hcrit : (s.threads i).Critical) :
    phase = .gathering (some i) ∧ Gathering p n round (some i) s := by
  cases phase with
  | gathering holder =>
      have hinv : Gathering p n round holder s := h.inv
      obtain rfl := (hinv.held i).mp hcrit
      exact ⟨rfl, hinv⟩
  | leaving last =>
      have hinv : Leaving p n round last s := h.inv
      exact absurd hcrit (Bool.eq_false_iff.mp (hinv.uncritical i))

/-- A thread past the notification belongs to a round that ends. -/
theorem leaving_of_notified (h : BarrierInv p n rounds round phase s) {i : Fin n.val}
    (hnotified : (s.threads i).pc.notified = true) :
    ∃ last, phase = .leaving last ∧ Leaving p n round last s := by
  cases phase with
  | gathering holder =>
      have hinv : Gathering p n round holder s := h.inv
      rw [hinv.unnotified i] at hnotified
      cases hnotified
  | leaving last => exact ⟨last, rfl, h.inv⟩

theorem store_eq (h : BarrierInv p n rounds round phase s) {i : Fin n.val} {g : Word}
    (hpc : (s.threads i).pc = .store g) :
    g.toNat = s.shared.barrier.gathered.toNat + 1 := by
  have hcrit : (s.threads i).Critical := by
    rw [Critical, hpc]
    rfl
  obtain ⟨-, hinv⟩ := h.gathering_of_critical hcrit
  have hle := h.count_le
  have hint := n.isInt
  rw [hinv.loaded i g hpc]
  exact incl_toNat (by omega)

theorem dec_eq (h : BarrierInv p n rounds round phase s) {i : Fin n.val}
    (hpc : (s.threads i).pc = .dec) :
    (atomicDecAndTest s.shared.barrier.gathered).1.toNat + 1 =
      s.shared.barrier.gathered.toNat := by
  obtain ⟨last, -, hinv⟩ := h.leaving_of_notified (i := i) (by rw [hpc]; rfl)
  have hpos : 0 < s.shared.barrier.gathered.toNat := by
    rw [hinv.gathered_eq]
    exact census_pos_iff.mpr ⟨i, hinv.staying_of_dec (h.base.thread_ok i) hpc⟩
  have hdec : (atomicDecAndTest s.shared.barrier.gathered).1.toNat =
      s.shared.barrier.gathered.toNat - 1 := decl_result_toNat hpos
  omega

theorem unlock_held (h : BarrierInv p n rounds round phase s) {i : Fin n.val}
    (hpc : (s.threads i).pc = .unlock ∨ (s.threads i).pc = .unlockLast) :
    s.shared.barrier.lock.toInt ≤ 0 := by
  apply h.lock.le_zero_of_held
  rcases hpc with hpc | hpc
  · obtain ⟨rfl, -⟩ := h.gathering_of_critical (i := i) (by rw [Critical, hpc]; rfl)
    exact Option.some_ne_none i
  · obtain ⟨last, rfl, -⟩ := h.leaving_of_notified (i := i) (by rw [hpc]; rfl)
    exact trivial

theorem one_last (h : BarrierInv p n rounds round phase s) {k : ℕ}
    (hk : ∀ i, k < (s.threads i).results.length) :
    ∃! i, (s.threads i).results[k]? = some true := by
  by_cases hlt : k < round
  · exact h.base.history k hlt
  have hle : round ≤ k := Nat.not_lt.mp hlt
  have hgone : ∀ i, ¬ (s.threads i).Staying round := fun i hstay =>
    absurd (hk i) (Nat.not_lt.mpr (hstay.trans_le hle))
  cases phase with
  | gathering holder =>
      have hinv : Gathering p n round holder s := h.inv
      exact absurd (hinv.staying (h.base.thread_ok 0)) (hgone 0)
  | leaving last =>
      have hinv : Leaving p n round last s := h.inv
      rcases hinv.last_or_staying with ⟨l, rfl, hl⟩ | ⟨i, hi⟩
      · have hround : k = round := by
          have harr := (h.base.thread_ok l).arrivals_eq
          have hlen := (h.base.thread_ok l).results_length
          have hkl := hk l
          rw [hl, hinv.arrivals_eq l] at harr
          rw [hl] at hlen
          have hend : (s.threads l).results.length = round + 1 := hlen.trans harr.symm
          omega
        subst hround
        refine ⟨l, (hinv.result_iff l).mpr hl, fun j hj => ?_⟩
        exact hinv.held.unique ((hinv.result_iff j).mp hj) hl
      · exact absurd hi (hgone i)

theorem between (h : BarrierInv p n rounds round phase s)
    (hout : ∀ i, (s.threads i).pc = .outside) :
    s.shared.barrier.gathered = 0 ∧ s.shared.barrier.lock = 1 ∧
      s.shared.machine.mem p = MWMON_ORIGINAL_VAL := by
  cases phase with
  | gathering holder =>
      have hinv : Gathering p n round holder s := h.inv
      have hnone : holder = none := by
        apply hinv.held.eq_none_iff.mpr
        intro i
        rw [Critical, hout i]
        exact Bool.false_ne_true
      have hzero : census (Arrived round) s.threads = 0 := by
        apply census_eq_zero_iff.mpr
        intro i harrived
        have hcounted := hinv.counted_of_arrived (h.base.thread_ok i) harrived
        rw [hout i] at hcounted
        cases hcounted
      refine ⟨?_, h.lock.eq_one_of_free (not_not.mpr hnone), hinv.byte_eq⟩
      apply BitVec.eq_of_toNat_eq
      rw [hinv.gathered_eq, hzero]
      rfl
  | leaving last =>
      have hinv : Leaving p n round last s := h.inv
      rcases hinv.last_or_staying with ⟨l, -, hl⟩ | ⟨i, hi⟩
      · have hpc : (s.threads l).pc = .unlockLast := hl
        rw [hout l] at hpc
        cases hpc
      · have hcounted := hinv.counted_of_staying (h.base.thread_ok i) hi
        rw [hout i] at hcounted
        cases hcounted

end BarrierInv

/-- The barrier functions are a rendezvous of their threads, and keep their own
books. -/
theorem barrierSystem_correct (hn : 2 ≤ n.val)
    (hreach : (barrierSystem r ptrs n rounds).Reachable s) :
    BarrierCorrect (r.byte ptrs) n s := by
  obtain ⟨a, ha, ⟨round, phase, h⟩, hcounts⟩ :=
    (barrierSystem_simulates_rendezvous hn).reachable hreach
  have hordered := Rendezvous.ordered_of_reachable ha
  constructor
  case rendezvous =>
    intro i j
    rw [← (hcounts i).2, ← (hcounts j).1]
    exact hordered.left_le_arrived i j
  case count_le => exact h.count_le
  case store_eq => exact fun i g => h.store_eq
  case dec_eq => exact fun i => h.dec_eq
  case unlock_held => exact fun i => h.unlock_held
  case one_last => exact fun k => h.one_last
  case between => exact fun k hout => h.between fun i => (hout i).1

/-- Thread 1 already spins in its second call while thread 0 is about to release the
lock of the first round. -/
theorem barrierSystem_correct_overlapping :
    let s := System.exec (mwaitBarrier examplePointers 2).next (barrierStart .two)
      (List.map (·, none) [0, 0, 0, 0, 0, 0, 0, 0, 0, 0, 1, 1, 1, 1, 1, 1, 1, 1, 1, 0, 0, 0, 0])
    ((s.threads 0).pc = .unlockLast ∧ (s.threads 1).pc = .lock .poll ∧
        (s.threads 1).calls = 1) ∧
      BarrierCorrect (Region.first.byte examplePointers) .two s :=
  ⟨by decide, barrierSystem_correct (r := .first) (by decide)
    (System.reachable_exec _ (.of_init barrierStart_init))⟩

end Htsynch
