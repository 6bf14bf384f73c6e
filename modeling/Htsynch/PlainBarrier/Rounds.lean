/-
# Rounds of the barrier without a sense

While `round` rounds are complete the barrier is either open, with everyone arrived as
often and the count at zero, or gathering: somebody has found the count at zero and goes
on to clear the flag, and the count is at most the number of threads that have arrived
since. The first reset of a full count opens it again.

Threads of the round before may still be on their way out. Their resets only take from
the count. Their stores to the flag are harmless until one of the next round has got past
the place where it clears the flag; one that comes later opens the barrier to a round
that is not complete. Runs without such a store are runs of the abstract barrier.
-/

import Htsynch.Foundations.Census
import Htsynch.Foundations.Mutex
import Htsynch.Foundations.Rendezvous
import Htsynch.PlainBarrier.Program

namespace Htsynch

open Foundations

namespace PlainThread

/-- The thread holds the lock. -/
def Critical (t : PlainThread) : Prop := t.pc.critical = true

/-- The thread is in the spin loop of the lock. -/
def Polls (t : PlainThread) : Prop := t.pc = .lock .poll

instance : DecidablePred Critical := fun t => inferInstanceAs (Decidable (t.pc.critical = true))

instance : DecidablePred Polls := fun t => inferInstanceAs (Decidable (t.pc = .lock .poll))

end PlainThread

open PlainThread

variable {B : Type} {F : BarrierFile B} {n : ThreadCount} {rounds round : ℕ}
  {s : Config (Fin n.val) B PlainThread} {who : Fin n.val} {holder : Option (Fin n.val)}
  {b : B} {own : PlainThread}

/-- What holds in every round. -/
structure PlainBase (F : BarrierFile B) (n : ThreadCount) (rounds : ℕ)
    (holder : Option (Fin n.val)) (s : Config (Fin n.val) B PlainThread) : Prop where
  total_eq : (F.view s.shared).total = n.word
  flag_bit : (F.view s.shared).flag = 0 ∨ (F.view s.shared).flag = 1
  counts : ∀ i, (s.threads i).arrivals = (s.threads i).calls + (s.threads i).pc.counted.toNat
  within : ∀ i, (s.threads i).Within rounds
  held : Mutex.HeldBy Critical s.threads holder
  lock : F.Says (holder ≠ none) (census Polls s.threads) s.shared

theorem zero_signExtend : (0 : Word).signExtend 64 = 0 := by decide

theorem one_signExtend : (1 : Word).signExtend 64 = 1 := by decide

namespace PlainBase

theorem init (hinit : plainInitial F n s) : PlainBase F n rounds none s := by
  obtain ⟨hshared, hthreads⟩ := hinit
  obtain ⟨hflag, -, htotal⟩ := F.view_init hshared
  have hnobody : census Polls s.threads = 0 := by
    apply census_eq_zero_iff.mpr
    intro i
    rw [hthreads i]
    decide
  constructor
  case total_eq => exact htotal
  case flag_bit => exact hflag
  case counts =>
    intro i
    rw [hthreads i]
    rfl
  case within =>
    intro i
    rw [hthreads i]
    exact ⟨Nat.zero_le _, fun hin => by cases hin⟩
  case held =>
    intro i
    rw [hthreads i]
    exact iff_of_false (by decide) (by simp)
  case lock =>
    rw [hnobody]
    have hfree : (False ↔ (none : Option (Fin n.val)) ≠ none) := by simp
    exact propext hfree ▸ F.says_init hshared

/-- Fewer threads poll than an `int` can count. -/
theorem polls_lt (s : Config (Fin n.val) B PlainThread) : census Polls s.threads < 2 ^ 31 := by
  have hcard : census Polls s.threads ≤ Fintype.card (Fin n.val) := census_le_card
  rw [Fintype.card_fin] at hcard
  exact hcard.trans_lt n.isInt

/-- A move, given what becomes of the lock. -/
theorem move (h : PlainBase F n rounds holder s) {holder' : Option (Fin n.val)}
    (htotal : (F.view b).total = n.word)
    (hflag : (F.view b).flag = 0 ∨ (F.view b).flag = 1)
    (hcounts : own.arrivals = own.calls + own.pc.counted.toNat) (hwithin : own.Within rounds)
    (hheld : Mutex.HeldBy Critical (Function.update s.threads who own) holder')
    (hlock : F.Says (holder' ≠ none) (census Polls (Function.update s.threads who own)) b) :
    PlainBase F n rounds holder' (s.move who b own) := by
  constructor
  case total_eq => exact htotal
  case flag_bit => exact hflag
  case counts => exact fun j => Config.move_cases j (fun _ => hcounts) fun _ => h.counts j
  case within => exact fun j => Config.move_cases j (fun _ => hwithin) fun _ => h.within j
  case held => exact hheld
  case lock => exact hlock

/-- A move that leaves the lock to its holder and polls no more than before. -/
theorem stay (h : PlainBase F n rounds holder s) (htotal : (F.view b).total = n.word)
    (hflag : (F.view b).flag = 0 ∨ (F.view b).flag = 1)
    (hcounts : own.arrivals = own.calls + own.pc.counted.toNat) (hwithin : own.Within rounds)
    (hcritical : own.Critical ↔ Critical (s.threads who))
    (hpolls : own.Polls ↔ Polls (s.threads who))
    (hlock : F.Says (holder ≠ none) (census Polls s.threads) b) :
    PlainBase F n rounds holder (s.move who b own) := by
  refine h.move htotal hflag hcounts hwithin (h.held.stay hcritical) ?_
  rw [census_update_stay hpolls]
  exact hlock

/-- A move inside a call that is neither an arrival nor a return. -/
theorem goto (h : PlainBase F n rounds holder s) {pc : PlainPc} (pc' : PlainPc)
    (hpc : (s.threads who).pc = pc) (hin : pc.inCall = true)
    (hcounted : pc'.counted = pc.counted) :
    ((s.threads who).goto pc').arrivals =
        ((s.threads who).goto pc').calls + pc'.counted.toNat ∧
      ((s.threads who).goto pc').Within rounds := by
  have hcounts := h.counts who
  rw [hpc, ← hcounted] at hcounts
  exact ⟨hcounts, (h.within who).goto _ (by rw [hpc]; exact hin)⟩

/-- An attempt or a poll of the lock. -/
theorem spin (h : PlainBase F n rounds holder s) {pc pc' : LockPc}
    (hpc : (s.threads who).pc = .lock pc) (hout : (F.lock pc s.shared).2 = .goto pc') :
    PlainBase F n rounds holder
      (s.move who (F.lock pc s.shared).1 ((s.threads who).goto (.lock pc'))) := by
  obtain ⟨hcounts, hwithin⟩ := h.goto (.lock pc') hpc rfl rfl
  have hview := F.view_lock pc s.shared
  have hcritical : Critical ((s.threads who).goto (.lock pc')) ↔ Critical (s.threads who) := by
    simp [Critical, hpc, PlainPc.critical]
  refine h.move (by rw [hview]; exact h.total_eq) (by rw [hview]; exact h.flag_bit) hcounts
    hwithin (h.held.stay hcritical) ?_
  cases pc with
  | attempt =>
      have hbefore : ¬ Polls (s.threads who) := by simp [Polls, hpc]
      rcases F.attempt h.lock (polls_lt s) with ⟨-, hacquired, -⟩ | ⟨-, hpoll, hsays⟩
      · rw [hacquired] at hout
        cases hout
      · rw [hpoll] at hout
        cases hout
        rw [census_update_enter hbefore (show Polls ((s.threads who).goto (.lock .poll)) from rfl)]
        exact hsays
  | poll =>
      obtain ⟨hsame, ⟨-, hpoll⟩ | ⟨-, hattempt, hsays⟩⟩ := F.poll h.lock
      · rw [hpoll] at hout
        cases hout
        have hpolls : Polls ((s.threads who).goto (.lock .poll)) := rfl
        rw [hsame, census_update_stay (iff_of_true hpolls hpc)]
        exact h.lock
      · rw [hsame]
        exact hsays _

/-- An attempt that wins. -/
theorem acquire (h : PlainBase F n rounds holder s) {pc : LockPc}
    (hpc : (s.threads who).pc = .lock pc) (hout : (F.lock pc s.shared).2 = .acquired) :
    PlainBase F n rounds (some who)
      (s.move who (F.lock pc s.shared).1 ((s.threads who).goto .test)) := by
  obtain ⟨hcounts, hwithin⟩ := h.goto .test hpc rfl rfl
  have hview := F.view_lock pc s.shared
  cases pc with
  | attempt =>
      rcases F.attempt h.lock (polls_lt s) with ⟨hfree, -, hsays⟩ | ⟨-, hpoll, -⟩
      · obtain rfl : holder = none := not_not.mp hfree
        refine h.move (by rw [hview]; exact h.total_eq) (by rw [hview]; exact h.flag_bit)
          hcounts hwithin (h.held.acquire rfl) ?_
        rw [census_update_stay (iff_of_false (by simp [Polls]) (by simp [Polls, hpc]))]
        have htrue : True ↔ some who ≠ none := by simp
        exact propext htrue ▸ hsays
      · rw [hpoll] at hout
        cases hout
  | poll =>
      obtain ⟨-, ⟨-, hpoll⟩ | ⟨-, hattempt, -⟩⟩ := F.poll h.lock
      · rw [hpoll] at hout
        cases hout
      · rw [hattempt] at hout
        cases hout

/-- The holder releases the lock. -/
theorem unlock (h : PlainBase F n rounds holder s) (hpc : (s.threads who).pc = .unlock) :
    PlainBase F n rounds none
      (s.move who (F.unlock s.shared) ((s.threads who).goto .read)) := by
  obtain ⟨hcounts, hwithin⟩ := h.goto .read hpc rfl rfl
  have hview := F.view_unlock s.shared
  have hcritical : Critical (s.threads who) := by simp [Critical, hpc, PlainPc.critical]
  refine h.move (by rw [hview]; exact h.total_eq) (by rw [hview]; exact h.flag_bit)
    hcounts hwithin (h.held.release hcritical (by simp [Critical, PlainPc.critical])) ?_
  have hfree : False ↔ (none : Option (Fin n.val)) ≠ none := by simp
  exact propext hfree ▸ F.says_unlock _ _

/-- A move from one place of a call to another that neither takes nor releases the lock and
touches at most the two fields. -/
theorem walk (h : PlainBase F n rounds holder s) {pc pc' : PlainPc}
    (hpc : (s.threads who).pc = pc) (hin : pc.inCall = true)
    (hcounted : pc'.counted = pc.counted) (hcritical : pc'.critical = pc.critical)
    (hpolls : pc ≠ .lock .poll) (hpolls' : pc' ≠ .lock .poll)
    (htotal : (F.view b).total = n.word)
    (hflag : (F.view b).flag = 0 ∨ (F.view b).flag = 1)
    (hlock : F.Says (holder ≠ none) (census Polls s.threads) b) :
    PlainBase F n rounds holder (s.move who b ((s.threads who).goto pc')) := by
  obtain ⟨hcounts, hwithin⟩ := h.goto pc' hpc hin hcounted
  refine h.stay htotal hflag hcounts hwithin ?_ ?_ hlock
  · simp [Critical, hpc, hcritical]
  · exact iff_of_false hpolls' (by rw [Polls, hpc]; exact hpolls)

/-- A thread that returns has arrived. -/
theorem ret (h : PlainBase F n rounds holder s) {pc : PlainPc}
    (hpc : (s.threads who).pc = pc) (hin : pc.inCall = true) (hcounted : pc.counted = true)
    (hcritical : pc.critical = false) (htotal : (F.view b).total = n.word)
    (hflag : (F.view b).flag = 0 ∨ (F.view b).flag = 1)
    (hlock : F.Says (holder ≠ none) (census Polls s.threads) b) :
    PlainBase F n rounds holder (s.move who b ((s.threads who).ret .outside)) := by
  have hcounts := h.counts who
  rw [hpc, hcounted] at hcounts
  refine h.stay htotal hflag hcounts ((h.within who).ret _ (by rw [hpc]; exact hin) rfl) ?_ ?_
    hlock
  · refine iff_of_false Bool.false_ne_true ?_
    rw [Critical, hpc, hcritical]
    exact Bool.false_ne_true
  · refine iff_of_false (by simp [Polls]) ?_
    rw [Polls, hpc]
    rintro rfl
    cases hcounted

/-- Every step keeps what holds in every round. -/
theorem step (h : PlainBase F n rounds holder s)
    (hmove : PlainMove F rounds s.shared (s.threads who) b own) :
    ∃ holder', PlainBase F n rounds holder' (s.move who b own) := by
  cases hmove with
  | enter hpc hcalls =>
      have hcounts := h.counts who
      rw [hpc] at hcounts
      exact ⟨holder, h.stay h.total_eq h.flag_bit hcounts ⟨(h.within who).calls_le, fun _ => hcalls⟩
        (by simp [Critical, hpc, PlainPc.critical]) (by simp [Polls, hpc]) h.lock⟩
  | spin pc pc' hpc hout => exact ⟨holder, h.spin hpc hout⟩
  | acquire pc hpc hout => exact ⟨some who, h.acquire hpc hout⟩
  | first hpc _ =>
      exact ⟨holder, h.walk hpc rfl rfl rfl (by simp) (by simp) h.total_eq h.flag_bit h.lock⟩
  | later hpc _ =>
      exact ⟨holder, h.walk hpc rfl rfl rfl (by simp) (by simp) h.total_eq h.flag_bit h.lock⟩
  | clear hpc =>
      have hview := F.view_setFlag 0 s.shared
      exact ⟨holder, h.walk hpc rfl rfl rfl (by simp) (by simp) (by rw [hview]; exact h.total_eq)
        (by rw [hview]; exact .inl zero_signExtend) (F.says_setFlag _ h.lock)⟩
  | load hpc =>
      exact ⟨holder, h.walk hpc rfl rfl rfl (by simp) (by simp) h.total_eq h.flag_bit h.lock⟩
  | store count hpc =>
      have hview := F.view_setCount count s.shared
      have hcounts := h.counts who
      rw [hpc] at hcounts
      have harrived : ((s.threads who).arrive .unlock).arrivals =
          ((s.threads who).arrive .unlock).calls + 1 := congrArg (· + 1) hcounts
      exact ⟨holder, h.stay (by rw [hview]; exact h.total_eq) (by rw [hview]; exact h.flag_bit)
        harrived ((h.within who).arrive _ (by rw [hpc]; rfl))
        (by simp [Critical, hpc, PlainPc.critical]) (by simp [Polls, hpc])
        (F.says_setCount _ h.lock)⟩
  | unlock hpc => exact ⟨none, h.unlock hpc⟩
  | full hpc _ =>
      exact ⟨holder, h.walk hpc rfl rfl rfl (by simp) (by simp) h.total_eq h.flag_bit h.lock⟩
  | short hpc _ =>
      exact ⟨holder, h.walk hpc rfl rfl rfl (by simp) (by simp) h.total_eq h.flag_bit h.lock⟩
  | reset hpc =>
      have hview := F.view_setCount 0 s.shared
      exact ⟨holder, h.walk hpc rfl rfl rfl (by simp) (by simp) (by rw [hview]; exact h.total_eq)
        (by rw [hview]; exact h.flag_bit) (F.says_setCount _ h.lock)⟩
  | release hpc =>
      have hview := F.view_setFlag 1 s.shared
      exact ⟨holder, h.ret hpc rfl rfl rfl (by rw [hview]; exact h.total_eq)
        (by rw [hview]; exact .inr one_signExtend) (F.says_setFlag _ h.lock)⟩
  | poll pc pc' hpc =>
      exact ⟨holder, h.walk hpc rfl rfl rfl (by simp) (by simp) h.total_eq h.flag_bit h.lock⟩
  | leave pc hpc _ =>
      exact ⟨holder, h.ret hpc rfl rfl rfl h.total_eq h.flag_bit h.lock⟩

end PlainBase

/-! ## The phases of a round -/

/-- How many threads have arrived in the round in progress. -/
def plainArrived (round : ℕ) (threads : Fin n.val → PlainThread) : ℕ :=
  census (SenseThread.Arrived round) threads

/-- Everyone has arrived `round` times and the next round has not begun. -/
structure Open (F : BarrierFile B) (round : ℕ) (s : Config (Fin n.val) B PlainThread) : Prop where
  arrived : ∀ i, (s.threads i).arrivals = round
  count_eq : (F.view s.shared).count = 0
  idle : ∀ i, (s.threads i).pc.updating = false
  flag : (F.view s.shared).flag = 1 ∨ round = 0 ∨ ∃ i, (s.threads i).pc = .release

/-- The next round has begun and is not complete. In the first round there are no threads
of an earlier one, and the count is exact. -/
structure Gather (F : BarrierFile B) (round : ℕ) (s : Config (Fin n.val) B PlainThread) :
    Prop where
  arrived : ∀ i, (s.threads i).arrivals = round ∨
    (s.threads i).Arrived round ∧ (s.threads i).pc.counted = true
  count_le : (F.view s.shared).count.toNat ≤ plainArrived round s.threads
  store_le : ∀ i c, (s.threads i).pc = .store c → c.toNat ≤ plainArrived round s.threads + 1
  flag : (F.view s.shared).flag = 1 →
    plainArrived round s.threads = 0 ∧ ∃ i, (s.threads i).pc = .clear
  begun : plainArrived round s.threads = 0 → ∃ i, (s.threads i).pc.updating = true
  release : ∀ i, (s.threads i).pc = .release → (s.threads i).arrivals = round
  reset : ∀ i, (s.threads i).pc = .reset →
    (s.threads i).arrivals = round ∨ plainArrived round s.threads = n.val
  count_eq : round = 0 → (F.view s.shared).count.toNat = plainArrived round s.threads
  store_eq : round = 0 → ∀ i c, (s.threads i).pc = .store c →
    c.toNat = plainArrived round s.threads + 1
  finishing : round = 0 → plainArrived round s.threads = n.val →
    ∃ i, (s.threads i).pc.finishing = true

/-- What is true of some thread stays so if the mover does not lose it. -/
theorem exists_move {P : PlainThread → Prop} (h : ∃ i, P (s.threads i))
    (hown : P (s.threads who) → P own) : ∃ i, P ((s.move who b own).threads i) := by
  obtain ⟨i, hi⟩ := h
  by_cases hwho : i = who
  · subst i
    exact ⟨who, by rw [Config.move_threads_self]; exact hown hi⟩
  · exact ⟨i, by rw [Config.move_threads_of_ne hwho]; exact hi⟩

/-- Only one thread at a time is in the critical section. -/
theorem PlainBase.eq_of_critical (h : PlainBase F n rounds holder s) {i j : Fin n.val}
    {pc pc' : PlainPc} (hi : (s.threads i).pc = pc) (hj : (s.threads j).pc = pc')
    (hpc : pc.critical = true) (hpc' : pc'.critical = true) : i = j := by
  subst hi hj
  exact h.held.unique hpc hpc'

theorem PlainPc.critical_of_updating {pc : PlainPc} (h : pc.updating = true) :
    pc.critical = true := by
  cases pc with
  | clear => rfl
  | load => rfl
  | store c => rfl
  | _ => cases h

theorem PlainPc.updating_of_counted {pc : PlainPc} (h : pc.counted = true) :
    pc.updating = false := by
  cases pc with
  | clear => cases h
  | load => cases h
  | store c => cases h
  | _ => rfl

/-- A thread that has not arrived leaves room in the round. -/
theorem plainArrived_lt (hwho : (s.threads who).arrivals = round) :
    plainArrived round s.threads < n.val := by
  have hnot : ¬ (s.threads who).Arrived round := by
    rw [SenseThread.Arrived, hwho]
    omega
  have hlt := census_lt_card (p := SenseThread.Arrived round) hnot
  rwa [Fintype.card_fin] at hlt

/-- One that has arrived is counted. -/
theorem plainArrived_pos (hwho : (s.threads who).Arrived round) :
    0 < plainArrived round s.threads :=
  census_pos_iff.mpr ⟨who, hwho⟩

/-- The round is complete when everyone has arrived. -/
theorem arrived_of_full (hfull : plainArrived round s.threads = n.val) (i : Fin n.val) :
    (s.threads i).Arrived round :=
  census_eq_card_iff.mp (hfull.trans (Fintype.card_fin _).symm) i

/-- The count is full only when the round is. -/
theorem full_of_count (hle : (F.view s.shared).count.toNat ≤ plainArrived round s.threads)
    (hcount : (F.view s.shared).count = n.word) : plainArrived round s.threads = n.val := by
  have hcard : plainArrived round s.threads ≤ Fintype.card (Fin n.val) := census_le_card
  rw [Fintype.card_fin] at hcard
  rw [hcount, ThreadCount.toNat_word] at hle
  exact le_antisymm hcard hle

namespace Open

theorem init (hinit : plainInitial F n s) : Open F 0 s := by
  obtain ⟨hshared, hthreads⟩ := hinit
  constructor
  case arrived =>
    intro i
    rw [hthreads i]
    rfl
  case count_eq => exact (F.view_init hshared).2.1
  case idle =>
    intro i
    rw [hthreads i]
    rfl
  case flag => exact .inr (.inl rfl)

/-- A move that begins no round. -/
theorem keep (h : Open F round s) (harrived : own.arrivals = (s.threads who).arrivals)
    (hcount : (F.view b).count = 0) (hidle : own.pc.updating = false)
    (hflag : (F.view b).flag = 1 ∨
      (F.view b).flag = (F.view s.shared).flag ∧ (s.threads who).pc ≠ .release) :
    Open F round (s.move who b own) := by
  constructor
  case arrived =>
    exact fun j => Config.move_cases j (fun _ => harrived.trans (h.arrived who))
      fun _ => h.arrived j
  case count_eq => exact hcount
  case idle => exact fun j => Config.move_cases j (fun _ => hidle) fun _ => h.idle j
  case flag =>
    rcases hflag with hset | ⟨hsame, hpc⟩
    · exact .inl hset
    · rw [Config.move_shared, hsame]
      exact h.flag.imp id (Or.imp id fun hex =>
        exists_move (P := fun t => t.pc = .release) hex fun hwho => absurd hwho hpc)

/-- The first thread to find the count at zero begins the round. -/
theorem begin (h : Open F round s) :
    Gather F round (s.move who s.shared ((s.threads who).goto .clear)) := by
  have hothers (j : Fin n.val) :
      ((s.move who s.shared ((s.threads who).goto .clear)).threads j).arrivals = round :=
    Config.move_cases j (fun _ => h.arrived who) fun _ => h.arrived j
  have hnone : plainArrived round
      (s.move who s.shared ((s.threads who).goto .clear)).threads = 0 := by
    refine census_eq_zero_iff.mpr fun j harrived => ?_
    rw [SenseThread.Arrived, hothers j] at harrived
    omega
  have hclear : ∃ j, ((s.move who s.shared ((s.threads who).goto .clear)).threads j).pc =
      .clear := ⟨who, by rw [Config.move_threads_self]; rfl⟩
  have hstore (j : Fin n.val) (c : Word) :
      ((s.move who s.shared ((s.threads who).goto .clear)).threads j).pc ≠ .store c := by
    refine Config.move_cases (motive := fun t : PlainThread => t.pc ≠ .store c) j (fun _ => by simp)
      fun _ hpc => ?_
    have hidle := h.idle j
    rw [hpc] at hidle
    cases hidle
  have hzero : (F.view s.shared).count.toNat = 0 := by
    rw [h.count_eq]
    rfl
  constructor
  case arrived => exact fun j => .inl (hothers j)
  case count_le =>
    rw [hnone]
    exact hzero.le
  case store_le => exact fun j c hj => absurd hj (hstore j c)
  case flag => exact fun _ => ⟨hnone, hclear⟩
  case begun => exact fun _ => hclear.imp fun j hj => by rw [hj]; rfl
  case release => exact fun j _ => hothers j
  case reset => exact fun j _ => .inl (hothers j)
  case count_eq =>
    rw [hnone]
    exact fun _ => hzero
  case store_eq => exact fun _ j c hj => absurd hj (hstore j c)
  case finishing =>
    rw [hnone]
    exact fun _ hn => absurd hn n.pos.ne

/-- A step of an open barrier leaves it open or begins a round. -/
theorem step (h : Open F round s)
    (hmove : PlainMove F rounds s.shared (s.threads who) b own) :
    Open F round (s.move who b own) ∨ Gather F round (s.move who b own) := by
  have hbusy {pc : PlainPc} (hpc : (s.threads who).pc = pc) : pc.updating = false := by
    rw [← hpc]
    exact h.idle who
  cases hmove with
  | enter hpc _ => exact .inl (h.keep rfl h.count_eq rfl (.inr ⟨rfl, by simp [hpc]⟩))
  | spin pc pc' hpc _ =>
      have hview := F.view_lock pc s.shared
      exact .inl (h.keep rfl (by rw [hview]; exact h.count_eq) rfl
        (.inr ⟨by rw [hview], by simp [hpc]⟩))
  | acquire pc hpc _ =>
      have hview := F.view_lock pc s.shared
      exact .inl (h.keep rfl (by rw [hview]; exact h.count_eq) rfl
        (.inr ⟨by rw [hview], by simp [hpc]⟩))
  | first => exact .inr h.begin
  | later hpc hcount => exact absurd h.count_eq hcount
  | clear hpc => exact absurd (hbusy hpc) (by simp [PlainPc.updating])
  | load hpc => exact absurd (hbusy hpc) (by simp [PlainPc.updating])
  | store count hpc => exact absurd (hbusy hpc) (by simp [PlainPc.updating])
  | unlock hpc =>
      have hview := F.view_unlock s.shared
      exact .inl (h.keep rfl (by rw [hview]; exact h.count_eq) rfl
        (.inr ⟨by rw [hview], by simp [hpc]⟩))
  | full hpc _ => exact .inl (h.keep rfl h.count_eq rfl (.inr ⟨rfl, by simp [hpc]⟩))
  | short hpc _ => exact .inl (h.keep rfl h.count_eq rfl (.inr ⟨rfl, by simp [hpc]⟩))
  | reset hpc =>
      have hview := F.view_setCount 0 s.shared
      exact .inl (h.keep rfl (by rw [hview]) rfl (.inr ⟨by rw [hview], by simp [hpc]⟩))
  | release hpc =>
      have hview := F.view_setFlag 1 s.shared
      exact .inl (h.keep rfl (by rw [hview]; exact h.count_eq) rfl
        (.inl (by rw [hview]; exact one_signExtend)))
  | poll pc pc' hpc => exact .inl (h.keep rfl h.count_eq rfl (.inr ⟨rfl, by simp [hpc]⟩))
  | leave pc hpc _ => exact .inl (h.keep rfl h.count_eq rfl (.inr ⟨rfl, by simp [hpc]⟩))

end Open

/-- A store of 1 to the flag by a thread in its `k`-th call is made before any thread, in
its next call, has got past the place where the flag is cleared. -/
def ReleasesInTime (s : Config (Fin n.val) B PlainThread) (label : Fin n.val × Unit) : Prop :=
  (s.threads label.1).pc = .release → ∀ j,
    (s.threads j).arrivals ≤ (s.threads label.1).arrivals ∧
      ((s.threads j).arrivals = (s.threads label.1).arrivals →
        (s.threads j).pc.counting = false)

instance : DecidablePred (ReleasesInTime s) := fun label => by
  unfold ReleasesInTime
  infer_instance

namespace Gather

/-- A move that is not an arrival. -/
theorem keep (h : Gather F round s) (hsame : own.arrivals = (s.threads who).arrivals)
    (harrived : own.arrivals = round ∨ own.Arrived round ∧ own.pc.counted = true)
    (hcount : (F.view b).count.toNat ≤ plainArrived round s.threads ∧
      (round = 0 → (F.view b).count.toNat = plainArrived round s.threads))
    (hstore : ∀ c, own.pc = .store c → c.toNat ≤ plainArrived round s.threads + 1 ∧
      (round = 0 → c.toNat = plainArrived round s.threads + 1))
    (hflag : (F.view b).flag = 1 → plainArrived round s.threads = 0 ∧
      ∃ i, ((s.move who b own).threads i).pc = .clear)
    (hupdating : (s.threads who).pc.updating = true → own.pc.updating = true)
    (hrelease : own.pc = .release → own.arrivals = round)
    (hreset : own.pc = .reset →
      own.arrivals = round ∨ plainArrived round s.threads = n.val)
    (hfinishing : round = 0 → plainArrived round s.threads = n.val →
      (s.threads who).pc.finishing = true → own.pc.finishing = true) :
    Gather F round (s.move who b own) := by
  have hcensus : plainArrived round (s.move who b own).threads = plainArrived round s.threads :=
    census_update_stay (by rw [SenseThread.Arrived, SenseThread.Arrived, hsame])
  constructor
  case arrived => exact fun j => Config.move_cases j (fun _ => harrived) fun _ => h.arrived j
  case count_le =>
    rw [hcensus]
    exact hcount.1
  case store_le =>
    rw [hcensus]
    exact fun j c => Config.move_cases
      (motive := fun t : PlainThread => t.pc = .store c → c.toNat ≤ _) j
      (fun _ hpc => (hstore c hpc).1) fun _ => h.store_le j c
  case flag =>
    rw [hcensus]
    exact hflag
  case begun =>
    rw [hcensus]
    exact fun hzero => exists_move (P := fun t => t.pc.updating = true) (h.begun hzero) hupdating
  case release =>
    exact fun j => Config.move_cases
      (motive := fun t : PlainThread => t.pc = .release → t.arrivals = round) j
      (fun _ => hrelease) fun _ => h.release j
  case reset =>
    rw [hcensus]
    exact fun j => Config.move_cases
      (motive := fun t : PlainThread => t.pc = .reset → t.arrivals = round ∨ _) j
      (fun _ => hreset) fun _ => h.reset j
  case count_eq =>
    rw [hcensus]
    exact hcount.2
  case store_eq =>
    rw [hcensus]
    exact fun hround j c => Config.move_cases
      (motive := fun t : PlainThread => t.pc = .store c → c.toNat = _) j
      (fun _ hpc => (hstore c hpc).2 hround) fun _ => h.store_eq hround j c
  case finishing =>
    rw [hcensus]
    exact fun hround hfull => exists_move (P := fun t => t.pc.finishing = true)
      (h.finishing hround hfull) (hfinishing hround hfull)

/-- The flag is still 1 for the thread that is about to clear it. -/
theorem flag_of_ne (h : Gather F round s) (hne : (s.threads who).pc ≠ .clear)
    (hset : (F.view s.shared).flag = 1) :
    plainArrived round s.threads = 0 ∧ ∃ i, ((s.move who b own).threads i).pc = .clear := by
  obtain ⟨hnone, hex⟩ := h.flag hset
  exact ⟨hnone, exists_move (P := fun t => t.pc = .clear) hex fun hwho => absurd hwho hne⟩

/-- A move of a thread that touches neither field and goes to an ordinary place. -/
theorem pass (h : Gather F round s) {pc pc' : PlainPc} (hpc : (s.threads who).pc = pc)
    (hview : F.view b = F.view s.shared) (hcounted : pc'.counted = pc.counted)
    (hclear : pc ≠ .clear) (hupdating : pc.updating = true → pc'.updating = true)
    (hstore : ∀ c, pc' ≠ .store c) (hrelease : pc' ≠ .release)
    (hreset : pc' = .reset →
      (s.threads who).arrivals = round ∨ plainArrived round s.threads = n.val)
    (hfinishing : round = 0 → plainArrived round s.threads = n.val →
      pc.finishing = true → pc'.finishing = true) :
    Gather F round (s.move who b ((s.threads who).goto pc')) := by
  subst hpc
  refine h.keep rfl ?_ ?_ (fun c hc => absurd hc (hstore c)) ?_ hupdating
    (fun hr => absurd hr hrelease) hreset hfinishing
  · refine (h.arrived who).imp id fun harrived => ⟨harrived.1, ?_⟩
    exact hcounted.trans harrived.2
  · rw [hview]
    exact ⟨h.count_le, h.count_eq⟩
  · rw [hview]
    exact h.flag_of_ne hclear

/-- A thread that has not counted itself in its call has not arrived in the round. -/
theorem arrivals_eq (h : Gather F round s) (who : Fin n.val)
    (hcounted : (s.threads who).pc.counted = false) :
    (s.threads who).arrivals = round := by
  rcases h.arrived who with hround | ⟨-, htrue⟩
  · exact hround
  · rw [hcounted] at htrue
    cases htrue

/-- A thread that updates nothing and has nothing to finish moves on. -/
theorem walk (h : Gather F round s) {pc pc' : PlainPc} (hpc : (s.threads who).pc = pc)
    (hview : F.view b = F.view s.shared) (hcounted : pc'.counted = pc.counted)
    (hidle : pc.updating = false ∧ pc.finishing = false)
    (hplain : (∀ c, pc' ≠ .store c) ∧ pc' ≠ .release ∧ pc' ≠ .reset) :
    Gather F round (s.move who b ((s.threads who).goto pc')) := by
  obtain ⟨hupdating, hfinishing⟩ := hidle
  obtain ⟨hstore, hrelease, hreset⟩ := hplain
  refine h.pass hpc hview hcounted ?_ ?_ hstore hrelease (fun hr => absurd hr hreset) ?_
  · rintro rfl
    cases hupdating
  · intro hup
    rw [hupdating] at hup
    cases hup
  · intro _ _ hfin
    rw [hfinishing] at hfin
    cases hfin

/-- A thread clears the flag. -/
theorem clear (h : Gather F round s) (hpc : (s.threads who).pc = .clear) :
    Gather F round (s.move who (F.setFlag 0 s.shared) ((s.threads who).goto .load)) := by
  have hview := F.view_setFlag 0 s.shared
  have hround := h.arrivals_eq who (by rw [hpc]; rfl)
  refine h.keep rfl (.inl hround) ?_ (fun c hc => by simp at hc) ?_ (fun _ => rfl)
    (fun hr => by simp at hr) (fun hr => by simp at hr) ?_
  · rw [hview]
    exact ⟨h.count_le, h.count_eq⟩
  · rw [hview, zero_signExtend]
    exact fun hset => absurd (show (0 : Quad) = 1 from hset) (by decide)
  · intro _ _ hfin
    rw [hpc] at hfin
    cases hfin

/-- A thread loads the count, which is short of the total. -/
theorem load (h : Gather F round s) (hpc : (s.threads who).pc = .load) :
    Gather F round
      (s.move who s.shared ((s.threads who).goto (.store ((F.view s.shared).count + 1)))) := by
  have hround := h.arrivals_eq who (by rw [hpc]; rfl)
  have hcount : ((F.view s.shared).count + 1).toNat = (F.view s.shared).count.toNat + 1 := by
    have hlt := plainArrived_lt hround
    have hle := h.count_le
    have hint := n.isInt
    rw [BitVec.toNat_add]
    exact Nat.mod_eq_of_lt (by simp; omega)
  refine h.keep rfl (.inl hround) ⟨h.count_le, h.count_eq⟩ ?_
    (h.flag_of_ne (by simp [hpc])) (fun _ => rfl) (fun hr => by simp at hr)
    (fun hr => by simp at hr) ?_
  · intro c hc
    obtain rfl := PlainPc.store.inj hc
    rw [hcount]
    exact ⟨Nat.succ_le_succ h.count_le, fun hzero => congrArg (· + 1) (h.count_eq hzero)⟩
  · intro _ _ hfin
    rw [hpc] at hfin
    cases hfin

/-- A thread counts itself. -/
theorem store (h : Gather F round s) (hbase : PlainBase F n rounds holder s) {count : Word}
    (hpc : (s.threads who).pc = .store count) :
    Gather F round (s.move who (F.setCount count s.shared) ((s.threads who).arrive .unlock)) := by
  have hview := F.view_setCount count s.shared
  have hround := h.arrivals_eq who (by rw [hpc]; rfl)
  have hnot : ¬ (s.threads who).Arrived round := by
    rw [SenseThread.Arrived, hround]
    omega
  have hnew : ((s.threads who).arrive .unlock).Arrived round := congrArg (· + 1) hround
  have hcensus : plainArrived round
      (s.move who (F.setCount count s.shared) ((s.threads who).arrive .unlock)).threads =
        plainArrived round s.threads + 1 := census_update_enter hnot hnew
  -- The mover is the only thread in the critical section.
  have halone {j : Fin n.val} {pc : PlainPc} (hj : (s.threads j).pc = pc)
      (hcritical : pc.critical = true) : j = who := hbase.eq_of_critical hj hpc hcritical rfl
  constructor
  case arrived =>
    exact fun j => Config.move_cases
      (motive := fun t : PlainThread => t.arrivals = round ∨ t.Arrived round ∧ t.pc.counted = true)
      j (fun _ => .inr ⟨hnew, rfl⟩) fun _ => h.arrived j
  case count_le =>
    rw [hcensus, Config.move_shared, hview]
    exact h.store_le who count hpc
  case store_le =>
    exact fun j c => Config.move_cases (motive := fun t : PlainThread => t.pc = .store c → _) j
      (fun _ hunlock => by simp at hunlock) fun hj hstore => absurd (halone hstore rfl) hj
  case flag =>
    rw [Config.move_shared, hview]
    intro hset
    obtain ⟨-, j, hj⟩ := h.flag hset
    have hwho := halone hj rfl
    rw [hwho, hpc] at hj
    cases hj
  case begun =>
    rw [hcensus]
    exact fun hzero => absurd hzero (Nat.succ_ne_zero _)
  case release =>
    exact fun j => Config.move_cases
      (motive := fun t : PlainThread => t.pc = .release → t.arrivals = round) j
      (fun _ hunlock => by simp at hunlock) fun _ => h.release j
  case reset =>
    refine fun j => Config.move_cases
      (motive := fun t : PlainThread => t.pc = .reset → t.arrivals = round ∨ _) j
      (fun _ hunlock => by simp at hunlock) fun _ hreset => ?_
    rcases h.reset j hreset with hlate | hfull
    · exact .inl hlate
    · exact absurd (arrived_of_full hfull who) hnot
  case count_eq =>
    rw [hcensus, Config.move_shared, hview]
    exact fun hzero => h.store_eq hzero who count hpc
  case store_eq =>
    exact fun _ j c => Config.move_cases (motive := fun t : PlainThread => t.pc = .store c → _) j
      (fun _ hunlock => by simp at hunlock) fun hj hstore => absurd (halone hstore rfl) hj
  case finishing =>
    exact fun _ _ => ⟨who, by rw [Config.move_threads_self]; rfl⟩

/-- A full count is reset for the first time. -/
theorem complete (h : Gather F round s) (hfull : plainArrived round s.threads = n.val) :
    Open F (round + 1) (s.move who (F.setCount 0 s.shared) ((s.threads who).goto .release)) := by
  have hview := F.view_setCount 0 s.shared
  constructor
  case arrived =>
    exact fun j => Config.move_cases j (fun _ => arrived_of_full hfull who)
      fun _ => arrived_of_full hfull j
  case count_eq =>
    rw [Config.move_shared, hview]
  case idle =>
    refine fun j => Config.move_cases (motive := fun t : PlainThread => t.pc.updating = false) j
      (fun _ => rfl) fun _ => ?_
    rcases h.arrived j with hround | ⟨-, hcounted⟩
    · have harrived : (s.threads j).arrivals = round + 1 := arrived_of_full hfull j
      omega
    · exact PlainPc.updating_of_counted hcounted
  case flag => exact .inr (.inr ⟨who, by rw [Config.move_threads_self]; rfl⟩)

/-- A thread of the round before resets the count. -/
theorem reset_late (h : Gather F round s) (hbase : PlainBase F n rounds holder s)
    (hpc : (s.threads who).pc = .reset) (hlate : (s.threads who).arrivals = round) :
    Gather F round (s.move who (F.setCount 0 s.shared) ((s.threads who).goto .release)) := by
  have hview := F.view_setCount 0 s.shared
  have hlater : round ≠ 0 := by
    have hcounts := hbase.counts who
    rw [hpc, hlate] at hcounts
    simp only [PlainPc.counted, Bool.toNat_true] at hcounts
    omega
  refine h.keep rfl (.inl hlate) ?_ (fun c hc => by simp at hc) ?_ (fun hup => ?_)
    (fun _ => hlate) (fun hr => by simp at hr) fun hround => absurd hround hlater
  · rw [hview]
    exact ⟨Nat.zero_le _, fun hround => absurd hround hlater⟩
  · rw [hview]
    exact h.flag_of_ne (by simp [hpc])
  · rw [hpc] at hup
    cases hup

/-- A thread of the round before sets the flag in time. -/
theorem release_late (h : Gather F round s) (hpc : (s.threads who).pc = .release)
    (hallow : ReleasesInTime s (who, ())) :
    Gather F round (s.move who (F.setFlag 1 s.shared) ((s.threads who).ret .outside)) := by
  have hview := F.view_setFlag 1 s.shared
  have hlate := h.release who hpc
  have hallowed := hallow hpc
  rw [hlate] at hallowed
  have hnone : plainArrived round s.threads = 0 := by
    refine census_eq_zero_iff.mpr fun j harrived => ?_
    rw [SenseThread.Arrived] at harrived
    have hle := (hallowed j).1
    omega
  obtain ⟨j, hj⟩ := h.begun hnone
  have hclear : (s.threads j).pc = .clear := by
    have hround := h.arrivals_eq j <| by
      by_contra hcounted
      have hnot := PlainPc.updating_of_counted (Bool.not_eq_false _ ▸ hcounted)
      rw [hj] at hnot
      cases hnot
    have hcounting := (hallowed j).2 hround
    generalize (s.threads j).pc = pc at hj hcounting
    cases pc with
    | clear => rfl
    | load => cases hcounting
    | store c => cases hcounting
    | _ => cases hj
  refine h.keep rfl (.inl hlate) ?_ (fun c hc => by simp at hc) ?_ (fun hup => ?_)
    (fun hr => by simp at hr) (fun hr => by simp at hr) fun _ _ hfin => ?_
  · rw [hview]
    exact ⟨h.count_le, h.count_eq⟩
  · refine fun _ => ⟨hnone, exists_move (P := fun t => t.pc = .clear) ⟨j, hclear⟩ fun hwho => ?_⟩
    simp [hpc] at hwho
  · rw [hpc] at hup
    cases hup
  · rw [hpc] at hfin
    cases hfin

/-- Whoever finds the flag set in a round in progress belongs to the round before. -/
theorem late_of_flag (h : Gather F round s) (hset : (F.view s.shared).flag = 1) :
    (s.threads who).arrivals = round := by
  rcases h.arrived who with hround | ⟨harrived, -⟩
  · exact hround
  · have hpos := plainArrived_pos harrived
    rw [(h.flag hset).1] at hpos
    exact absurd hpos (Nat.lt_irrefl 0)

/-- A thread leaves from an earlier round: the flag it finds is not this round's. -/
theorem leave (h : Gather F round s) (hbase : PlainBase F n rounds holder s) {pc : WaitPc}
    (hpc : (s.threads who).pc = .wait pc) (hflag : (F.view s.shared).flag.low = 1) :
    Gather F round (s.move who s.shared ((s.threads who).ret .outside)) := by
  have hset : (F.view s.shared).flag = 1 := by
    refine hbase.flag_bit.resolve_left fun hzero => ?_
    rw [hzero] at hflag
    exact absurd hflag (by decide)
  refine h.keep rfl (.inl (h.late_of_flag hset)) ⟨h.count_le, h.count_eq⟩
    (fun c hc => by simp at hc) (h.flag_of_ne (by simp [hpc])) ?_ (fun hr => by simp at hr)
    (fun hr => by simp at hr) ?_
  · intro hup
    rw [hpc] at hup
    cases hup
  · intro _ _ hfin
    rw [hpc] at hfin
    cases hfin

/-- A step of a round in progress leaves it in progress or completes it. -/
theorem step (h : Gather F round s) (hbase : PlainBase F n rounds holder s)
    (hallow : ReleasesInTime s (who, ()))
    (hmove : PlainMove F rounds s.shared (s.threads who) b own) :
    Gather F round (s.move who b own) ∨ Open F (round + 1) (s.move who b own) := by
  cases hmove with
  | enter hpc _ => exact .inl (h.walk hpc rfl rfl ⟨rfl, rfl⟩ (by simp))
  | spin pc pc' hpc _ => exact .inl (h.walk hpc (F.view_lock _ _) rfl ⟨rfl, rfl⟩ (by simp))
  | acquire pc hpc _ => exact .inl (h.walk hpc (F.view_lock _ _) rfl ⟨rfl, rfl⟩ (by simp))
  | first hpc _ => exact .inl (h.walk hpc rfl rfl ⟨rfl, rfl⟩ (by simp))
  | later hpc _ => exact .inl (h.walk hpc rfl rfl ⟨rfl, rfl⟩ (by simp))
  | clear hpc => exact .inl (h.clear hpc)
  | load hpc => exact .inl (h.load hpc)
  | store count hpc => exact .inl (h.store hbase hpc)
  | unlock hpc =>
      exact .inl (h.pass hpc (F.view_unlock _) rfl (by simp) (by simp [PlainPc.updating])
        (by simp) (by simp) (by simp) (fun _ _ _ => rfl))
  | full hpc hcount =>
      rw [hbase.total_eq] at hcount
      exact .inl (h.pass hpc rfl rfl (by simp) (by simp [PlainPc.updating]) (by simp) (by simp)
        (fun _ => .inr (full_of_count h.count_le hcount)) (fun _ _ _ => rfl))
  | short hpc hcount =>
      rw [hbase.total_eq] at hcount
      refine .inl (h.pass hpc rfl rfl (by simp) (by simp [PlainPc.updating]) (by simp) (by simp)
        (by simp) fun hround hfull => ?_)
      exact absurd (ThreadCount.eq_word_iff.mpr ((h.count_eq hround).trans hfull)) hcount
  | reset hpc =>
      rcases h.reset who hpc with hlate | hfull
      · exact .inl (h.reset_late hbase hpc hlate)
      · exact .inr (h.complete hfull)
  | release hpc => exact .inl (h.release_late hpc hallow)
  | poll pc pc' hpc => exact .inl (h.walk hpc rfl rfl ⟨rfl, rfl⟩ (by simp))
  | leave pc hpc hflag => exact .inl (h.leave hbase hpc hflag)

end Gather

/-! ## Runs of the abstract barrier -/

/-- What holds in runs whose stores to the flag are in time. -/
def PlainInv (F : BarrierFile B) (n : ThreadCount) (rounds : ℕ)
    (s : Config (Fin n.val) B PlainThread) : Prop :=
  (∃ holder, PlainBase F n rounds holder s) ∧ ∃ round, Open F round s ∨ Gather F round s

namespace PlainInv

theorem init (hinit : plainInitial F n s) : PlainInv F n rounds s :=
  ⟨⟨none, .init hinit⟩, 0, .inl (.init hinit)⟩

theorem step (h : PlainInv F n rounds s) (hallow : ReleasesInTime s (who, ()))
    (hmove : PlainMove F rounds s.shared (s.threads who) b own) :
    PlainInv F n rounds (s.move who b own) := by
  obtain ⟨⟨holder, hbase⟩, round, hopen | hgather⟩ := h
  · exact ⟨hbase.step hmove, round, hopen.step hmove⟩
  · rcases hgather.step hbase hallow hmove with hnext | hnext
    · exact ⟨hbase.step hmove, round, .inr hnext⟩
    · exact ⟨hbase.step hmove, round + 1, .inl hnext⟩

/-- Whoever returns has arrived in a round that is complete. -/
theorem calls_lt (h : PlainInv F n rounds s) (hcounted : (s.threads who).pc.counted = true)
    (hleaves : (s.threads who).pc = .release ∨ (F.view s.shared).flag.low = 1)
    (j : Fin n.val) : (s.threads who).calls < (s.threads j).arrivals := by
  obtain ⟨⟨holder, hbase⟩, round, hopen | hgather⟩ := h
  · have hcounts := hbase.counts who
    rw [hcounted, hopen.arrived who] at hcounts
    rw [hopen.arrived j, hcounts]
    exact Nat.lt_succ_self _
  · have hround : (s.threads who).arrivals = round := by
      rcases hleaves with hpc | hflag
      · exact hgather.release who hpc
      · refine hgather.late_of_flag (hbase.flag_bit.resolve_left fun hzero => ?_)
        rw [hzero] at hflag
        exact absurd hflag (by decide)
    have hcounts := hbase.counts who
    rw [hcounted, hround] at hcounts
    simp only [Bool.toNat_true] at hcounts
    rcases hgather.arrived j with hj | ⟨hj, -⟩
    · omega
    · rw [SenseThread.Arrived] at hj
      omega

/-- Every step is a step of the abstract barrier or none. -/
theorem conforms (h : PlainInv F n rounds s)
    (hmove : PlainMove F rounds s.shared (s.threads who) b own) :
    Rendezvous.Conforms SenseThread.arrivals SenseThread.calls s.threads who own := by
  cases hmove with
  | store count hpc =>
      obtain ⟨⟨holder, hbase⟩, -⟩ := h
      have hcounts := hbase.counts who
      rw [hpc] at hcounts
      exact .inr (.inl ⟨hcounts, rfl, rfl⟩)
  | release hpc => exact .inr (.inr ⟨rfl, rfl, h.calls_lt (by rw [hpc]; rfl) (.inl hpc)⟩)
  | leave pc hpc hflag =>
      exact .inr (.inr ⟨rfl, rfl, h.calls_lt (by rw [hpc]; rfl) (.inr hflag)⟩)
  | enter => exact .inl ⟨rfl, rfl⟩
  | spin => exact .inl ⟨rfl, rfl⟩
  | acquire => exact .inl ⟨rfl, rfl⟩
  | first => exact .inl ⟨rfl, rfl⟩
  | later => exact .inl ⟨rfl, rfl⟩
  | clear => exact .inl ⟨rfl, rfl⟩
  | load => exact .inl ⟨rfl, rfl⟩
  | unlock => exact .inl ⟨rfl, rfl⟩
  | full => exact .inl ⟨rfl, rfl⟩
  | short => exact .inl ⟨rfl, rfl⟩
  | reset => exact .inl ⟨rfl, rfl⟩
  | poll => exact .inl ⟨rfl, rfl⟩

end PlainInv

/-- Runs whose stores to the flag are in time refine the abstract barrier. -/
theorem plainSystem_simulates_rendezvous :
    System.Simulates (plainSystem F n rounds) ReleasesInTime
      (Rendezvous.system (Fin n.val)) (fun _ _ => True)
      (fun s a => PlainInv F n rounds s ∧
        Rendezvous.Counts SenseThread.arrivals SenseThread.calls s a) := by
  apply Rendezvous.simulates
  · intro s hinit
    refine ⟨.init hinit, fun i => ?_⟩
    rw [hinit.2 i]
    exact ⟨rfl, rfl⟩
  · intro s who choice b own hInv hallow hstep
    have hmove := plainBarrier_cases hstep
    exact ⟨hInv.step hallow hmove, hInv.conforms hmove⟩

theorem plainInv_of_reachable (hreach : (plainSystem F n rounds).ReachableVia ReleasesInTime s) :
    PlainInv F n rounds s := by
  obtain ⟨-, -, hInv, -⟩ := plainSystem_simulates_rendezvous.reachable hreach
  exact hInv

/-- In such a run nobody has returned more often than anyone has arrived. -/
theorem calls_le_arrivals (hreach : (plainSystem F n rounds).ReachableVia ReleasesInTime s)
    (i j : Fin n.val) : (s.threads i).calls ≤ (s.threads j).arrivals := by
  obtain ⟨a, ha, -, hcounts⟩ := plainSystem_simulates_rendezvous.reachable hreach
  rw [← (hcounts i).2, ← (hcounts j).1]
  exact (Rendezvous.ordered_of_reachable ha).left_le_arrived i j

/-- In both files no call returns before every thread has arrived for it, if each store of
1 to the flag is in time. -/
theorem plainSystem_rendezvous {file : PlainFile} {s : Config (Fin n.val) file.Barrier PlainThread}
    (hreach : (plainSystem file.ops n rounds).ReachableVia ReleasesInTime s) (i j : Fin n.val) :
    (s.threads i).calls ≤ (s.threads j).arrivals :=
  calls_le_arrivals hreach i j

/-- Two threads before their first call, in `synch.h`. -/
def synchStart : Config (Fin 2) SpinBarrier PlainThread :=
  ⟨spinBarrierInit ThreadCount.two.word, fun _ => .start⟩

/-- The same in `spin.c`. -/
def spinStart : Config (Fin 2) Spin.SpinBarrier PlainThread :=
  ⟨Spin.spinBarrierInit ⟨0, 0, 0, 0⟩ ThreadCount.two.word, fun _ => .start⟩

theorem synchStart_init : plainInitial synchBarrier .two synchStart := ⟨rfl, fun _ => rfl⟩

theorem spinStart_init : plainInitial spinBarrier .two spinStart := ⟨⟨_, rfl⟩, fun _ => rfl⟩

/-- Both threads find the count full. The first resets it, sets the flag, returns and begins
its second call, in which it clears the flag and is counted. Then the second resets the
count and sets the flag, and the first, which polls it, returns again. -/
def lateRelease : List (Fin ThreadCount.two.val × Unit) :=
  List.map (·, ()) ([0, 0, 0, 0, 0, 0, 0] ++ [1, 1, 1, 1, 1, 1] ++ [0, 1] ++ [0, 0] ++
    [0, 0, 0, 0, 0, 0, 0, 0] ++ [1, 1] ++ [0])

/-- In both files thread 0 returns from its second call before thread 1 has arrived in its
own. -/
theorem plainBarrier_passed_early :
    ((plainSystem synchBarrier .two 2).Reachable
        (System.exec (plainBarrier synchBarrier 2).next synchStart lateRelease) ∧
      ((System.exec (plainBarrier synchBarrier 2).next synchStart lateRelease).threads 0).calls =
        2 ∧
      ((System.exec (plainBarrier synchBarrier 2).next synchStart lateRelease).threads 1).arrivals =
        1) ∧
    (plainSystem spinBarrier .two 2).Reachable
        (System.exec (plainBarrier spinBarrier 2).next spinStart lateRelease) ∧
      ((System.exec (plainBarrier spinBarrier 2).next spinStart lateRelease).threads 0).calls =
        2 ∧
      ((System.exec (plainBarrier spinBarrier 2).next spinStart lateRelease).threads 1).arrivals =
        1 := by
  refine ⟨⟨System.reachable_exec _ (.of_init synchStart_init), ?_, ?_⟩,
    System.reachable_exec _ (.of_init spinStart_init), ?_, ?_⟩ <;> decide

/-- The same labels where the late store does not happen. -/
def withoutLateRelease :
    Config (Fin ThreadCount.two.val) PlainFile.synchH.Barrier PlainThread :=
  System.exec (System.guarded ReleasesInTime (plainBarrier synchBarrier 2).next) synchStart
    lateRelease

theorem withoutLateRelease_reachable :
    (plainSystem PlainFile.synchH.ops .two 2).ReachableVia ReleasesInTime withoutLateRelease :=
  System.reachableVia_exec lateRelease (.of_init synchStart_init)

theorem plainSystem_rendezvous_two :
    (withoutLateRelease.threads 0).calls ≤ (withoutLateRelease.threads 1).arrivals :=
  plainSystem_rendezvous withoutLateRelease_reachable 0 1

end Htsynch
