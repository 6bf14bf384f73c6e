/-
# More than two threads at the MWAIT barrier

The byte carries one notification, and the first sleeper that leaves takes it back. With
a third thread there may be another one that has not looked yet: it sleeps for ever, and
so the count never comes to zero and nobody ever releases the lock that the last arrival
has kept. With two threads there is no other sleeper.
-/

import Htsynch.MwaitBarrier.Termination

namespace Htsynch

open Foundations BarrierThread

variable {n : ThreadCount} {rounds : ℕ} {p : Addr} {r : Region} {ptrs : Pointers}
  {s t : Config (Fin n.val) (BarrierShared (Fin n.val)) BarrierThread} {i who : Fin n.val}
  {sh : BarrierShared (Fin n.val)} {own : BarrierThread}

/-- Calls are left, and whatever happens none of them ever returns. -/
def Hangs (r : Region) (ptrs : Pointers) (rounds : ℕ)
    (s : Config (Fin n.val) (BarrierShared (Fin n.val)) BarrierThread) : Prop :=
  (∃ i, (s.threads i).calls < rounds) ∧
    ∀ t, Relation.ReflTransGen ((barrierSystem r ptrs n rounds).Next fun _ _ => True) s t →
      ∀ i, (t.threads i).calls = (s.threads i).calls

namespace BarrierPc

/-- Outside, at the lock, or asleep without having seen a notification. -/
def idle : BarrierPc → Bool
  | .outside => true
  | .lock _ => true
  | .sleep .reset => false
  | .sleep _ => true
  | _ => false

theorem idle_sleep {spc : SleepPc} (h : spc ≠ .reset) : (BarrierPc.sleep spc).idle = true := by
  cases spc with
  | reset => exact absurd rfl h
  | _ => rfl

theorem ne_reset_of_idle {spc : SleepPc} (h : (BarrierPc.sleep spc).idle = true) :
    spc ≠ .reset := by
  rintro rfl
  cases h

end BarrierPc

/-- The lock is kept, the byte is not notified, and nobody is about to change that. -/
structure Lost (p : Addr)
    (s : Config (Fin n.val) (BarrierShared (Fin n.val)) BarrierThread) : Prop where
  lock : LockWord True (census Polls s.threads) s.shared.barrier.lock
  byte : s.shared.machine.mem p ≠ MWMON_NOTIFIED_VAL
  idle : ∀ i, (s.threads i).pc.idle = true

namespace Lost

/-- A step that leaves the lock and the byte as they are. -/
theorem keep (h : Lost p s) (hlock : sh.barrier.lock = s.shared.barrier.lock)
    (hbyte : sh.machine.mem p = s.shared.machine.mem p) (hidle : own.pc.idle = true)
    (hpolls : own.Polls ↔ (s.threads who).Polls) : Lost p (s.move who sh own) where
  lock := by
    rw [Config.move_shared, hlock]
    exact h.lock.stay hpolls
  byte := by
    rw [Config.move_shared, hbyte]
    exact h.byte
  idle i := Config.move_cases (motive := fun t : BarrierThread => t.pc.idle = true) i
    (fun _ => hidle) (fun _ => h.idle i)

/-- No step ends a call, notifies the byte or releases the lock. -/
theorem step (h : Lost p s)
    (hmove : BarrierMove p rounds who s.shared (s.threads who) sh own) :
    Lost p (s.move who sh own) ∧ own.calls = (s.threads who).calls := by
  have hwho := h.idle who
  cases hmove with
  | interrupt intr pc hpc =>
      have hbyte := congrFun (Interrupt.onMachine_mem (i := intr) (c := who)
        (h := s.shared.machine)) p
      rcases hpc with rfl | ⟨spc, hsleep, rfl⟩
      · exact ⟨h.keep rfl hbyte hwho .rfl, rfl⟩
      · rw [hsleep] at hwho
        refine ⟨h.keep rfl hbyte (BarrierPc.idle_sleep ?_) (by simp [Polls, hsleep]), rfl⟩
        rcases intr.onSleeper_cases spc with hsame | ⟨-, hwake⟩
        · rw [hsame]
          exact BarrierPc.ne_reset_of_idle hwho
        · rw [hwake]
          exact SleepPc.noConfusion
  | enter hpc => exact ⟨h.keep rfl rfl rfl (by simp [Polls, hpc]), rfl⟩
  | lose hpc =>
      refine ⟨⟨?_, h.byte, fun i => ?_⟩, rfl⟩
      · exact h.lock.lose trivial barrier_polls_lt (by simp [Polls, hpc]) rfl
      · exact Config.move_cases (motive := fun t : BarrierThread => t.pc.idle = true) i
          (fun _ => rfl) (fun _ => h.idle i)
  | win hpc hout => exact absurd trivial (h.lock.free_of_acquired barrier_polls_lt hout)
  | spin pc hpc hout =>
      rcases (h.lock.poll (v := .fast)).2 with ⟨-, hgoto⟩ | ⟨hfree, -⟩
      · rw [hgoto] at hout
        cases hout
        exact ⟨h.keep rfl rfl rfl (by simp [Polls, hpc]), rfl⟩
      · exact absurd trivial hfree
  | sleep pc pc' machine hpc hmove =>
      refine ⟨h.keep rfl (congrFun (hmove.mem_eq rfl) p) (BarrierPc.idle_sleep ?_)
        (by simp [Polls, hpc]), rfl⟩
      rintro rfl
      exact h.byte (hmove.notified rfl)
  | wake hpc => rw [hpc] at hwho; cases hwho
  | load hpc => rw [hpc] at hwho; cases hwho
  | store gathered hpc => rw [hpc] at hwho; cases hwho
  | full hpc => rw [hpc] at hwho; cases hwho
  | short hpc => rw [hpc] at hwho; cases hwho
  | notify hpc => rw [hpc] at hwho; cases hwho
  | unlock hpc => rw [hpc] at hwho; cases hwho
  | leave hpc => rw [hpc] at hwho; cases hwho
  | leaveLast hpc => rw [hpc] at hwho; cases hwho
  | unlockLast hpc => rw [hpc] at hwho; cases hwho

theorem path (h : Lost (r.byte ptrs) s)
    (hpath : Relation.ReflTransGen ((barrierSystem r ptrs n rounds).Next fun _ _ => True) s t) :
    Lost (r.byte ptrs) t ∧ ∀ i, (t.threads i).calls = (s.threads i).calls := by
  induction hpath with
  | refl => exact ⟨h, fun _ => rfl⟩
  | tail _ hnext ih =>
      obtain ⟨hlost, hcalls⟩ := ih
      obtain ⟨label, -, hstep⟩ := hnext
      obtain ⟨sh, own, hrun, rfl⟩ := interleave_step_iff.mp hstep
      rw [Region.barrier_eq] at hrun
      obtain ⟨hnext, hsame⟩ := hlost.step (barrierCall_cases hrun)
      exact ⟨hnext, fun i =>
        (Config.move_threads_eq_of_eq (f := BarrierThread.calls) hsame i).trans (hcalls i)⟩

theorem hangs (h : Lost (r.byte ptrs) s) (hleft : ∃ i, (s.threads i).calls < rounds) :
    Hangs r ptrs rounds s :=
  ⟨hleft, fun _ hpath => (h.path hpath).2⟩

end Lost

/-- A thread that has arrived, released the lock and called the sleep. -/
def napping (n : ThreadCount) : BarrierThread := ⟨.sleep .irqDisable, n.word, 1, 0, []⟩

/-- A thread that has left without being the last. -/
def returned (n : ThreadCount) : BarrierThread := ⟨.outside, n.word, 1, 1, [false]⟩

section

variable (r ptrs i) {b : MwaitBarrier} (machine : Machine (Fin n.val))

/-- One thread arrives and goes to sleep. -/
theorem solo_nap (hrounds : 0 < rounds) (hlock : b.lock = spinLockInit)
    (hinit : b.initCount = n.word) (hshort : b.gathered + 1 ≠ n.word) :
    (barrierCall r ptrs rounds).solo i (List.replicate 6 none) (⟨b, machine⟩, .start) =
      some (⟨{ b with gathered := b.gathered + 1 }, machine⟩, napping n) := by
  obtain ⟨lock, left, gathered, initCount, currEvent⟩ := b
  subst hlock hinit
  have hout : (spinLockFast .attempt spinLockInit).2 = .acquired := by decide
  have hcount : ¬ gathered + 1#32 = n.word := hshort
  simp [List.replicate, Program.solo, barrierCall, start, enter, goto, arrive, hrounds, hout,
    hcount, napping]
  rfl

/-- The last one notifies the byte and leaves. -/
theorem solo_notify (hrounds : 0 < rounds) (hlock : b.lock = spinLockInit)
    (hinit : b.initCount = n.word) (hfull : b.gathered + 1 = n.word) (hrest : n.word ≠ 1) :
    (barrierCall r ptrs rounds).solo i (List.replicate 7 none) (⟨b, machine⟩, .start) =
      some (⟨{ b with lock := 0, gathered := n.word - 1 },
        machine.store i (r.byte ptrs) MWMON_NOTIFIED_VAL⟩, returned n) := by
  obtain ⟨lock, left, gathered, initCount, currEvent⟩ := b
  subst hlock hinit
  have hout : (spinLockFast .attempt spinLockInit).2 = .acquired := by decide
  have hzf : ¬ (atomicDecAndTest n.word).2 = true := fun hz => hrest (decl_zf_eq_true_iff.mp hz)
  have hcount : gathered + 1#32 = n.word := hfull
  simp [List.replicate, Program.solo, barrierCall, start, enter, goto, arrive, leave, hrounds,
    hout, hcount, hzf, returned]
  exact ⟨rfl, rfl⟩

variable {machine} (rounds)

/-- A sleeper sees the notification, takes it back and leaves. -/
theorem solo_wake (hmem : machine.mem (r.byte ptrs) = MWMON_NOTIFIED_VAL)
    (hrest : b.gathered ≠ 1) :
    (barrierCall r ptrs rounds).solo i (List.replicate 6 none) (⟨b, machine⟩, napping n) =
      some (⟨{ b with gathered := b.gathered - 1 },
        (machine.monitor i (r.byte ptrs)).store i (r.byte ptrs) MWMON_ORIGINAL_VAL⟩,
        returned n) := by
  have hzf : ¬ (atomicDecAndTest b.gathered).2 = true :=
    fun hz => hrest (decl_zf_eq_true_iff.mp hz)
  simp [List.replicate, Program.solo, barrierCall, SleepCall.run_eq, Region.sleepCall_target,
    mwmonSleep, napping, goto, leave, hmem, hzf, returned]
  rfl

end

/-- The first `k` threads sleep, and the others have not called yet. -/
def parked (n : ThreadCount) (k : ℕ) :
    Config (Fin n.val) (BarrierShared (Fin n.val)) BarrierThread where
  shared := { (barrierStart n).shared with
    barrier := { (barrierStart n).shared.barrier with gathered := .ofNat 32 k } }
  threads i := if i.val < k then napping n else .start

theorem parked_of_lt {k : ℕ} (hi : i.val < k) : (parked n k).threads i = napping n := if_pos hi

theorem parked_of_le {k : ℕ} (hi : k ≤ i.val) : (parked n k).threads i = .start :=
  if_neg (Nat.not_lt.mpr hi)

theorem ofNat_add_one (k : ℕ) : BitVec.ofNat 32 k + 1 = .ofNat 32 (k + 1) :=
  (BitVec.ofNat_add k 1).symm

theorem ofNat_eq_word_iff {k : ℕ} (hk : k ≤ n.val) : BitVec.ofNat 32 k = n.word ↔ k = n.val := by
  have hint := n.isInt
  rw [ThreadCount.eq_word_iff, BitVec.toNat_ofNat, Nat.mod_eq_of_lt (by omega)]

/-- One more thread goes to sleep. -/
theorem parked_succ {k : ℕ} (hk : k < n.val) :
    (parked n k).move ⟨k, hk⟩
      ⟨{ (parked n k).shared.barrier with
        gathered := (parked n k).shared.barrier.gathered + 1 }, (parked n k).shared.machine⟩
      (napping n) = parked n (k + 1) := by
  have hcount : (parked n k).shared.barrier.gathered + 1 = .ofNat 32 (k + 1) := ofNat_add_one k
  rw [hcount, Config.move, parked, parked]
  refine congrArg (Config.mk _) (funext fun i => ?_)
  by_cases hi : i.val = k
  · obtain rfl : i = ⟨k, hk⟩ := Fin.ext hi
    simp
  · have hne : i ≠ ⟨k, hk⟩ := fun heq => hi (congrArg Fin.val heq)
    have hiff : i.val < k + 1 ↔ i.val < k := by omega
    simp only [Function.update_of_ne hne, hiff]

theorem parked_reachable (r : Region) (ptrs : Pointers) (hrounds : 0 < rounds) {k : ℕ}
    (hk : k < n.val) : (barrierSystem r ptrs n rounds).Reachable (parked n k) := by
  induction k with
  | zero => exact .of_init ⟨⟨_, rfl⟩, rfl, fun i => parked_of_le (Nat.zero_le i.val)⟩
  | succ k ih =>
      have hlt := Nat.lt_of_succ_lt hk
      have hidle : (parked n k).threads ⟨k, hlt⟩ = .start := parked_of_le le_rfl
      have hshort : (parked n k).shared.barrier.gathered + 1 ≠ n.word := by
        show BitVec.ofNat 32 k + 1 ≠ n.word
        rw [ofNat_add_one, ne_eq, ofNat_eq_word_iff hk.le]
        exact hk.ne
      have hsolo := solo_nap r ptrs ⟨k, hlt⟩ (parked n k).shared.machine hrounds rfl rfl hshort
      rw [← hidle] at hsolo
      rw [barrierSystem, Region.barrier_eq] at ih ⊢
      have hnext := Program.reachable_solo _ (ih hlt) hsolo
      rwa [parked_succ hlt] at hnext

/-- A thread that has not called, sleeps, or has left. -/
def Resting (n : ThreadCount) (t : BarrierThread) : Prop :=
  t = .start ∨ t = napping n ∨ t = returned n

theorem Resting.idle {t : BarrierThread} (h : Resting n t) :
    t.pc.idle = true ∧ ¬ t.Polls := by
  rcases h with rfl | rfl | rfl
  · exact ⟨rfl, BarrierPc.noConfusion⟩
  · exact ⟨rfl, BarrierPc.noConfusion⟩
  · exact ⟨rfl, BarrierPc.noConfusion⟩

theorem parked_resting (k : ℕ) (i : Fin n.val) : Resting n ((parked n k).threads i) := by
  rcases Nat.lt_or_ge i.val k with hi | hi
  · exact .inr (.inl (parked_of_lt hi))
  · exact .inl (parked_of_le hi)

theorem lost_of_resting (hlock : s.shared.barrier.lock = 0)
    (hbyte : s.shared.machine.mem p ≠ MWMON_NOTIFIED_VAL)
    (h : ∀ i, Resting n (s.threads i)) : Lost p s where
  lock := by
    rw [hlock, census_eq_zero_iff.mpr fun i => (h i).idle.2]
    exact (LockWord.init.attempt_free (v := .fast) id).2
  byte := hbyte
  idle i := (h i).idle.1

/-- All have arrived, the last one has notified the byte and left, and the rest sleeps. -/
def gone (p : Addr) (n : ThreadCount) (last : Fin n.val) :
    Config (Fin n.val) (BarrierShared (Fin n.val)) BarrierThread :=
  (parked n last.val).move last
    ⟨{ (parked n last.val).shared.barrier with lock := 0, gathered := n.word - 1 },
      (parked n last.val).shared.machine.store last p MWMON_NOTIFIED_VAL⟩ (returned n)

theorem gone_reachable (r : Region) (ptrs : Pointers) {last : Fin n.val} (hn : 2 ≤ n.val)
    (hlast : last.val + 1 = n.val) (hrounds : 0 < rounds) :
    (barrierSystem r ptrs n rounds).Reachable (gone (r.byte ptrs) n last) := by
  have hparked := parked_reachable r ptrs hrounds last.isLt
  have hfull : (parked n last.val).shared.barrier.gathered + 1 = n.word := by
    show BitVec.ofNat 32 last.val + 1 = n.word
    rw [ofNat_add_one, ofNat_eq_word_iff hlast.le, hlast]
  have hrest : n.word ≠ 1 := by
    intro heq
    have hone := (ofNat_eq_word_iff (k := 1) (by omega)).mp heq.symm
    omega
  have hsolo := solo_notify r ptrs last (parked n last.val).shared.machine hrounds rfl rfl hfull
    hrest
  rw [← parked_of_le (i := last) le_rfl] at hsolo
  rw [barrierSystem, Region.barrier_eq] at hparked ⊢
  exact Program.reachable_solo _ hparked hsolo

theorem gone_resting {last : Fin n.val} (i : Fin n.val) :
    Resting n ((gone p n last).threads i) :=
  Config.move_cases (motive := Resting n) i (fun _ => .inr (.inr rfl))
    (fun _ => parked_resting last.val i)

/-- With a third thread there is one that nobody will notify. -/
theorem exists_lost (r : Region) (ptrs : Pointers) (hn : 3 ≤ n.val) (hrounds : 0 < rounds) :
    ∃ s, (barrierSystem r ptrs n rounds).Reachable s ∧ Lost (r.byte ptrs) s ∧
      ∃ i, (s.threads i).calls < rounds := by
  obtain ⟨last, hlast⟩ : ∃ last : Fin n.val, last.val + 1 = n.val :=
    ⟨⟨n.val - 1, by omega⟩, Nat.sub_add_cancel (by omega)⟩
  obtain ⟨first, hfirst⟩ : ∃ first : Fin n.val, first.val = 0 := ⟨⟨0, by omega⟩, rfl⟩
  obtain ⟨other, hother⟩ : ∃ other : Fin n.val, other.val = 1 := ⟨⟨1, by omega⟩, rfl⟩
  have hgone := gone_reachable r ptrs (by omega) hlast hrounds
  have hnap {i : Fin n.val} (hi : i.val < last.val) :
      (gone (r.byte ptrs) n last).threads i = napping n :=
    (Config.move_threads_of_ne fun heq => hi.ne (congrArg Fin.val heq)).trans (parked_of_lt hi)
  have hrest : n.word - 1 ≠ 1 := by
    intro heq
    have htwo := (ofNat_eq_word_iff (k := 2) (by omega)).mp (sub_eq_iff_eq_add.mp heq).symm
    omega
  have hsolo := solo_wake rounds r ptrs first (b := (gone (r.byte ptrs) n last).shared.barrier)
    (Hardware.store_mem_self (h := (parked n last.val).shared.machine) (c := last)) hrest
  rw [← hnap (i := first) (by omega)] at hsolo
  rw [barrierSystem, Region.barrier_eq] at hgone ⊢
  refine ⟨_, Program.reachable_solo _ hgone hsolo, lost_of_resting rfl ?_ fun i => ?_, other, ?_⟩
  · rw [Config.move_shared, Hardware.store_mem_self]
    exact original_ne_notified
  · exact Config.move_cases (motive := Resting n) i (fun _ => .inr (.inr rfl))
      (fun _ => gone_resting i)
  · have hne : other ≠ first := by
      rintro rfl
      omega
    rw [Config.move_threads_of_ne hne, hnap (by omega)]
    exact hrounds

/-- The barrier can hang exactly with more than the two threads it is made for. -/
theorem barrierSystem_hangs_iff (hn : 2 ≤ n.val) (hrounds : 0 < rounds) :
    (∃ s, (barrierSystem r ptrs n rounds).Reachable s ∧ Hangs r ptrs rounds s) ↔ 3 ≤ n.val := by
  constructor
  · rintro ⟨s, hreach, ⟨i, hi⟩, hstays⟩
    by_contra htwo
    have hlive (t : Config (Fin n.val) (BarrierShared (Fin n.val)) BarrierThread)
        (hpath : Relation.ReflTransGen
          ((barrierSystem r ptrs n rounds).Next fun _ _ => True) s t) :
        BarrierLive (r.byte ptrs) n rounds t :=
      have ⟨start, hstart, hfirst⟩ := hreach
      barrierLive_of_reachable hn ⟨start, hstart, hfirst.trans hpath⟩
    obtain ⟨t, hpath, hdone⟩ :=
      (@barrier_descent n rounds r ptrs (by omega)).exists_path (fun _ _ => trivial) hlive
    have hcalls : ¬ (t.threads i).calls < rounds := hdone i
    rw [hstays t hpath i] at hcalls
    exact hcalls hi
  · intro hthree
    obtain ⟨s, hreach, hlost, hleft⟩ := exists_lost r ptrs hthree hrounds
    exact ⟨s, hreach, hlost.hangs hleft⟩

theorem barrierSystem_hangs_iff_four :
    (∃ s, (barrierSystem .second examplePointers ⟨4, by decide, by decide⟩ 1).Reachable s ∧
      Hangs .second examplePointers 1 s) ↔ 3 ≤ 4 :=
  barrierSystem_hangs_iff (by decide) Nat.one_pos

end Htsynch
