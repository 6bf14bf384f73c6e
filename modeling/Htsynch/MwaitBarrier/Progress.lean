/-
# Two threads at the MWAIT barrier never get stuck

The comment above the functions restricts them to two threads. While threads gather,
a thread that has still to arrive never waits, whatever their number. While they
leave, a thread that has still to leave may be asleep, and it is only with two
threads that the byte must then be notified: the other thread is awake, so nobody
has reset it.
-/

import Htsynch.MwaitBarrier.Rendezvous

namespace Htsynch

open Foundations BarrierThread

variable {n : ThreadCount} {rounds round : ℕ} {p : Addr}
  {s : Config (Fin n.val) (BarrierShared (Fin n.val)) BarrierThread} {i : Fin n.val}

/-- Thread `i` is acquiring a lock that is taken. -/
def Spinning (s : Config (Fin n.val) (BarrierShared (Fin n.val)) BarrierThread)
    (i : Fin n.val) : Prop :=
  (∃ pc, (s.threads i).pc = .lock pc) ∧ s.shared.barrier.lock.toInt ≤ 0

/-- Thread `i` is in the sleep call while the byte is not notified, or is held by
MWAIT. -/
def Sleeping (p : Addr) (s : Config (Fin n.val) (BarrierShared (Fin n.val)) BarrierThread)
    (i : Fin n.val) : Prop :=
  ∃ pc, (s.threads i).pc = .sleep pc ∧
    (s.shared.machine.mem p ≠ MWMON_NOTIFIED_VAL ∨ pc = .mwait ∧ s.shared.machine.Blocks i)

/-- Some thread has calls left to finish, and all that have spin or sleep. -/
def Stuck (p : Addr) (rounds : ℕ)
    (s : Config (Fin n.val) (BarrierShared (Fin n.val)) BarrierThread) : Prop :=
  (∃ i, (s.threads i).calls < rounds) ∧
    ∀ i, (s.threads i).calls < rounds → Spinning s i ∨ Sleeping p s i

/-- A sleeper whose byte is notified goes on. -/
theorem not_sleeping_of_notified (hbase : BarrierBase p n rounds round s)
    (hmem : s.shared.machine.mem p = MWMON_NOTIFIED_VAL) : ¬ Sleeping p s i := by
  rintro ⟨pc, hpc, hne | ⟨rfl, hblocks⟩⟩
  · exact hne hmem
  · have hwatch : s.shared.machine.Watched i p MWMON_NOTIFIED_VAL := hbase.watch i .mwait hpc
    exact hwatch.not_blocks hmem hblocks

/-- Whoever waits is asleep, unless it is acquiring a lock that is taken. -/
theorem asleep_of_waiting (hlock : ¬ s.shared.barrier.lock.toInt ≤ 0 ∨
      ∀ pc, (s.threads i).pc ≠ .lock pc)
    (hwait : Spinning s i ∨ Sleeping p s i) : (s.threads i).pc.asleep = true := by
  rcases hwait with ⟨⟨pc, hpc⟩, hle⟩ | ⟨pc, hpc, -⟩
  · rcases hlock with hfree | hne
    · exact absurd hle hfree
    · exact absurd hpc (hne pc)
  · rw [hpc]
    rfl

theorem ne_outside_of_counted {t : BarrierThread} (hcounted : t.pc.counted = true) :
    t.pc ≠ .outside := by
  intro hout
  rw [hout] at hcounted
  cases hcounted

/-- While a thread holds the lock on its own behalf it does not wait. -/
theorem not_waiting_of_critical (hcrit : (s.threads i).Critical) :
    ¬ (Spinning s i ∨ Sleeping p s i) := by
  rintro (⟨⟨pc, hpc⟩, -⟩ | ⟨pc, hpc, -⟩)
  · rw [Critical, hpc] at hcrit
    cases hcrit
  · rw [Critical, hpc] at hcrit
    cases hcrit

namespace BarrierInv

/-- While threads gather and nobody holds the lock, whoever has still to arrive does
not wait. -/
theorem not_stuck_of_free (h : BarrierInv p n rounds round (.gathering none) s) :
    ¬ Stuck p rounds s := by
  rintro ⟨⟨i, hi⟩, hall⟩
  have hinv : Gathering p n round none s := h.inv
  have hfree : ¬ s.shared.barrier.lock.toInt ≤ 0 := by
    rw [h.lock.eq_one_of_free (not_not.mpr rfl)]
    decide
  have hround : round < rounds := by
    rwa [hinv.calls_eq i] at hi
  have hcounted : ∀ j, (s.threads j).pc.counted = true := by
    intro j
    have hwait := hall j (by rwa [hinv.calls_eq j])
    exact BarrierPc.counted_of_asleep (asleep_of_waiting (.inl hfree) hwait)
  have hroom : census (Arrived round) s.threads < n.val := by
    rcases hinv.room with ⟨j, hj⟩ | hlt
    · have hcrit : (s.threads j).Critical := BarrierPc.closing_critical hj
      exact absurd hcrit (hinv.held.eq_none_iff.mp rfl j)
    · exact hlt
  have hfull : census (Arrived round) s.threads = Fintype.card (Fin n.val) := by
    apply census_eq_card_iff.mpr
    intro j
    have harr := (h.base.thread_ok j).arrivals_eq
    rw [hcounted j, hinv.calls_eq j] at harr
    exact harr
  rw [hfull, Fintype.card_fin] at hroom
  exact lt_irrefl _ hroom

/-- While threads gather, whoever holds the lock does not wait. -/
theorem not_stuck_gathering {holder : Option (Fin n.val)}
    (h : BarrierInv p n rounds round (.gathering holder) s) : ¬ Stuck p rounds s := by
  have hinv : Gathering p n round holder s := h.inv
  cases holder with
  | none => exact h.not_stuck_of_free
  | some j =>
      have hcrit : (s.threads j).Critical := (hinv.held j).mpr rfl
      have hin : (s.threads j).pc ≠ .outside := by
        intro hout
        rw [Critical, hout] at hcrit
        cases hcrit
      rintro ⟨-, hall⟩
      exact not_waiting_of_critical hcrit (hall j ((h.base.thread_ok j).calls_lt hin))

/-- While two threads leave, a sleeper's byte is notified. -/
theorem notified_of_asleep {last : Option (Fin n.val)} (hn : n.val = 2)
    (h : Leaving p n round last s) (hasleep : (s.threads i).pc.asleep = true) :
    s.shared.machine.mem p = MWMON_NOTIFIED_VAL := by
  have hdown : ¬ (s.threads i).Awake := by
    rw [Awake, hasleep]
    exact Bool.noConfusion
  have hlt : census Awake s.threads < n.val := by
    simpa using census_lt_card hdown
  rcases h.byte_cases with ⟨hmem, -⟩ | ⟨-, htwo⟩
  · exact hmem
  · omega

/-- While two threads leave, whoever has still to leave does not wait. -/
theorem not_stuck_leaving {last : Option (Fin n.val)} (hn : n.val = 2)
    (h : BarrierInv p n rounds round (.leaving last) s) : ¬ Stuck p rounds s := by
  rintro ⟨-, hall⟩
  have hinv : Leaving p n round last s := h.inv
  rcases hinv.last_or_staying with ⟨l, -, hl⟩ | ⟨i, hi⟩
  · have hpc : (s.threads l).pc = .unlockLast := hl
    have hcalls := (h.base.thread_ok l).calls_lt (by simp [hpc])
    have hasleep := asleep_of_waiting (.inr (by simp [hpc])) (hall l hcalls)
    rw [hpc] at hasleep
    cases hasleep
  · have hcounted := hinv.counted_of_staying (h.base.thread_ok i) hi
    have hcalls := (h.base.thread_ok i).calls_lt (ne_outside_of_counted hcounted)
    have hwait := hall i hcalls
    have hlock : ∀ pc, (s.threads i).pc ≠ .lock pc := by
      intro pc hpc
      rw [hpc] at hcounted
      cases hcounted
    have hmem := notified_of_asleep hn hinv (asleep_of_waiting (.inr hlock) hwait)
    rcases hwait with ⟨⟨pc, hpc⟩, -⟩ | hsleep
    · exact hlock pc hpc
    · exact not_sleeping_of_notified h.base hmem hsleep

theorem not_stuck {phase : Phase (Fin n.val)} (hn : n.val = 2)
    (h : BarrierInv p n rounds round phase s) : ¬ Stuck p rounds s := by
  cases phase with
  | gathering holder => exact h.not_stuck_gathering
  | leaving last => exact h.not_stuck_leaving hn

end BarrierInv

section

variable {r : Region} {ptrs : Pointers}
  {s : Config (Fin ThreadCount.two.val) (BarrierShared (Fin ThreadCount.two.val)) BarrierThread}

/-- Two threads at the barrier never get stuck. -/
theorem barrierSystem_not_stuck
    (hreach : (barrierSystem r ptrs .two rounds).Reachable s) :
    ¬ Stuck (r.byte ptrs) rounds s := by
  obtain ⟨a, -, ⟨round, phase, h⟩, -⟩ :=
    (barrierSystem_simulates_rendezvous (by decide)).reachable hreach
  exact h.not_stuck rfl

/-- Thread 0 is held by MWAIT in the second region when thread 1 notifies it and
begins its second call on the lock it has kept. -/
theorem barrierSystem_not_stuck_notified :
    let s := System.exec (mwaitBarrier2 examplePointers 2).next (barrierStart .two)
      (List.map (·, none) [0, 0, 0, 0, 0, 0, 0, 0, 0, 0, 1, 1, 1, 1, 1, 1, 1, 1, 1])
    ((s.threads 0).pc = .sleep .mwait ∧
        s.shared.machine.mem (Region.second.byte examplePointers) = MWMON_NOTIFIED_VAL ∧
        (s.threads 1).pc = .lock .poll ∧ (s.threads 1).calls = 1) ∧
      ¬ Stuck (Region.second.byte examplePointers) 2 s :=
  ⟨by decide, barrierSystem_not_stuck (r := .second)
    (System.reachable_exec _ (.of_init barrierStart_init))⟩

end

end Htsynch
