/-
# The barrier without a sense, used once

With one call each there is no earlier round: whoever sets the flag sets it for the only
round there is, so that every store to it is in time. The count is exact until it is
reset, and the last thread to arrive, if no other, finds it full. Nobody is left behind,
and the barrier ends as it is to be found by a next use: the count at zero, the flag set
and the lock free.
-/

import Htsynch.PlainBarrier.Rounds

namespace Htsynch

open Foundations PlainThread

variable {B : Type} {F : BarrierFile B} {n : ThreadCount} {rounds : ℕ}
  {s : Config (Fin n.val) B PlainThread} {who : Fin n.val} {holder : Option (Fin n.val)}

/-- The thread spins on a taken lock or polls a flag that is not 1. -/
def PlainStuck (F : BarrierFile B) (b : B) (t : PlainThread) : Prop :=
  match t.pc with
  | .lock _ => ¬ F.Free b
  | .wait _ => (F.view b).flag.low ≠ 1
  | _ => False

/-- Some thread has calls left, and every such thread is stuck. -/
def PlainDeadlock (F : BarrierFile B) (rounds : ℕ) (s : Config (Fin n.val) B PlainThread) :
    Prop :=
  (∃ i, (s.threads i).calls < rounds) ∧
    ∀ i, (s.threads i).calls < rounds → PlainStuck F s.shared (s.threads i)

/-- The count is 0, the flag is 1 and the lock is free. -/
def LeftReady (F : BarrierFile B) (b : B) : Prop :=
  (F.view b).count = 0 ∧ (F.view b).flag = 1 ∧ F.Free b

theorem PlainPc.inCall_of_ne {pc : PlainPc} (h : pc ≠ .outside) : pc.inCall = true := by
  cases pc with
  | outside => exact absurd rfl h
  | _ => rfl

namespace PlainBase

/-- A thread in its call has not returned. -/
theorem calls_eq_zero (h : PlainBase F n 1 holder s) (hpc : (s.threads who).pc ≠ .outside) :
    (s.threads who).calls = 0 :=
  Nat.lt_one_iff.mp ((h.within who).calls_lt (PlainPc.inCall_of_ne hpc))

/-- Nobody arrives twice. -/
theorem arrivals_le_one (h : PlainBase F n 1 holder s) (who : Fin n.val) :
    (s.threads who).arrivals ≤ 1 := by
  rw [h.counts who]
  by_cases hpc : (s.threads who).pc = .outside
  · rw [hpc]
    exact (h.within who).calls_le
  · rw [h.calls_eq_zero hpc, Nat.zero_add]
    exact Bool.toNat_le _

/-- Every store to the flag is in time. -/
theorem releasesInTime (h : PlainBase F n 1 holder s) (label : Fin n.val × Unit) :
    ReleasesInTime s label := by
  intro hrelease j
  have hone : (s.threads label.1).arrivals = 1 := by
    rw [h.counts label.1, h.calls_eq_zero (by simp [hrelease]), hrelease]
    rfl
  rw [hone]
  refine ⟨h.arrivals_le_one j, fun hj => ?_⟩
  by_contra hcounting
  have hcounts := h.counts j
  cases hpc : (s.threads j).pc with
  | load =>
      rw [h.calls_eq_zero (by simp [hpc]), hpc, hj] at hcounts
      cases hcounts
  | store c =>
      rw [h.calls_eq_zero (by simp [hpc]), hpc, hj] at hcounts
      cases hcounts
  | _ => simp [hpc, PlainPc.counting] at hcounting

end PlainBase

/-- So no run with one call each is lost. -/
theorem reachableVia_of_once (hreach : (plainSystem F n 1).Reachable s) :
    (plainSystem F n 1).ReachableVia ReleasesInTime s := by
  refine System.Reachable.invariant (fun _ => .of_init) ?_ hreach
  intro s label t hs hstep
  obtain ⟨⟨holder, hbase⟩, -⟩ := plainInv_of_reachable hs
  exact hs.step (hbase.releasesInTime label) hstep

/-- A stuck thread waits for the lock or for the flag. -/
theorem PlainStuck.places {b : B} {t : PlainThread} (h : PlainStuck F b t) :
    (∃ pc, t.pc = .lock pc) ∧ ¬ F.Free b ∨ (∃ pc, t.pc = .wait pc) ∧ (F.view b).flag.low ≠ 1 := by
  unfold PlainStuck at h
  cases hpc : t.pc with
  | lock pc =>
      rw [hpc] at h
      exact .inl ⟨⟨pc, rfl⟩, h⟩
  | wait pc =>
      rw [hpc] at h
      exact .inr ⟨⟨pc, rfl⟩, h⟩
  | _ => simp [hpc] at h

/-- A thread in the critical section is in its call. -/
theorem PlainPc.ne_outside_of_critical {pc : PlainPc} (h : pc.critical = true) :
    pc ≠ .outside := by
  rintro rfl
  cases h

section

variable (hbase : PlainBase F n 1 holder s)
include hbase

/-- When all threads that have not returned are stuck, they wait for the flag. -/
theorem waits_of_stuck
    (hstuck : ∀ i, (s.threads i).calls < 1 → PlainStuck F s.shared (s.threads i))
    {i : Fin n.val} (hi : (s.threads i).pc ≠ .outside) :
    (∃ pc, (s.threads i).pc = .wait pc) ∧ (F.view s.shared).flag.low ≠ 1 := by
  have hplaces {j : Fin n.val} (hj : (s.threads j).pc ≠ .outside) :=
    (hstuck j (Nat.lt_one_iff.mpr (hbase.calls_eq_zero hj))).places
  have hfree : F.Free s.shared := by
    refine (F.free_iff hbase.lock).mpr (not_not.mpr (hbase.held.eq_none_iff.mpr fun j hj => ?_))
    have hcritical : (s.threads j).pc.critical = true := hj
    rcases hplaces (PlainPc.ne_outside_of_critical hcritical) with ⟨⟨pc, hpc⟩, -⟩ | ⟨⟨pc, hpc⟩, -⟩
    · rw [hpc] at hcritical
      cases hcritical
    · rw [hpc] at hcritical
      cases hcritical
  rcases hplaces hi with ⟨-, htaken⟩ | hwaits
  · exact absurd hfree htaken
  · exact hwaits

/-- A round in progress has a thread that moves. -/
theorem Gather.exists_not_waiting {round : ℕ} (h : Gather F round s) :
    ∃ i, (s.threads i).calls < 1 ∧ ∀ pc, (s.threads i).pc ≠ .wait pc := by
  by_contra hnone
  push Not at hnone
  have hwaits {j : Fin n.val} (hj : (s.threads j).pc ≠ .outside) :
      ∃ pc, (s.threads j).pc = .wait pc :=
    hnone j (Nat.lt_one_iff.mpr (hbase.calls_eq_zero hj))
  -- Somebody has arrived, and in the first round.
  have hsome : ∃ j, (s.threads j).Arrived round := by
    refine census_pos_iff.mp (Nat.pos_of_ne_zero fun hzero => ?_)
    obtain ⟨j, hj⟩ := h.begun hzero
    obtain ⟨pc, hpc⟩ := hwaits
      (PlainPc.ne_outside_of_critical (PlainPc.critical_of_updating hj))
    simp [hpc, PlainPc.updating] at hj
  obtain ⟨j, hj⟩ := hsome
  have hround : round = 0 := by
    have hle := hbase.arrivals_le_one j
    rw [SenseThread.Arrived] at hj
    omega
  -- So has everybody, and the last one has not compared the count.
  have hall : ∀ k, (s.threads k).Arrived round := by
    intro k
    refine ((h.arrived k).resolve_left fun hk => ?_).1
    have hcounts := hbase.counts k
    rw [hk, hround] at hcounts
    obtain ⟨pc, hpc⟩ := hnone k (by omega)
    simp [hpc, PlainPc.counted] at hcounts
  have hfull : plainArrived round s.threads = n.val := by
    simpa [plainArrived] using census_eq_card_iff.mpr hall
  obtain ⟨k, hk⟩ := h.finishing hround hfull
  have hne : (s.threads k).pc ≠ .outside := by
    intro hout
    simp [hout, PlainPc.finishing] at hk
  obtain ⟨pc, hpc⟩ := hwaits hne
  simp [hpc, PlainPc.finishing] at hk

/-- Between two rounds a thread that waits finds the flag set. -/
theorem Open.flag_of_waiting {round : ℕ} (h : Open F round s) {i : Fin n.val} {pc : WaitPc}
    (hpc : (s.threads i).pc = .wait pc) :
    (F.view s.shared).flag = 1 ∨ ∃ j, (s.threads j).pc = .release := by
  rcases h.flag with hset | hzero | hrelease
  · exact .inl hset
  · have hcounts := hbase.counts i
    rw [h.arrived i, hpc, hzero] at hcounts
    simp [PlainPc.counted] at hcounts
  · exact .inr hrelease

/-- No state is a deadlock. -/
theorem not_plainDeadlock {round : ℕ} (hphase : Open F round s ∨ Gather F round s) :
    ¬ PlainDeadlock F 1 s := by
  rintro ⟨⟨i, hi⟩, hstuck⟩
  have hinside {j : Fin n.val} (hj : (s.threads j).calls < 1) : (s.threads j).pc ≠ .outside := by
    intro hout
    have := hstuck j hj
    simp [PlainStuck, hout] at this
  have hwaits {j : Fin n.val} (hj : (s.threads j).calls < 1) :=
    waits_of_stuck hbase hstuck (hinside hj)
  rcases hphase with hopen | hgather
  · obtain ⟨⟨pc, hpc⟩, hflag⟩ := hwaits hi
    rcases hopen.flag_of_waiting hbase hpc with hset | ⟨j, hj⟩
    · exact hflag (congrArg Quad.low hset)
    · have hcalls : (s.threads j).calls = 0 := hbase.calls_eq_zero (by simp [hj])
      obtain ⟨⟨pc', hpc'⟩, -⟩ := hwaits (j := j) (Nat.lt_one_iff.mpr hcalls)
      simp [hj] at hpc'
  · obtain ⟨k, hk, hmoves⟩ := hgather.exists_not_waiting hbase
    obtain ⟨⟨pc, hpc⟩, -⟩ := hwaits hk
    exact hmoves pc hpc

/-- When all have returned the barrier is left ready. -/
theorem leftReady {round : ℕ} (hphase : Open F round s ∨ Gather F round s)
    (hall : ∀ i, (s.threads i).calls = 1) : LeftReady F s.shared := by
  have hout (i : Fin n.val) : (s.threads i).pc = .outside := by
    by_contra hne
    have hcalls := hall i
    rw [hbase.calls_eq_zero hne] at hcalls
    cases hcalls
  have harrivals (i : Fin n.val) : (s.threads i).arrivals = 1 := by
    rw [hbase.counts i, hout i, hall i]
    rfl
  have hfree : F.Free s.shared := by
    refine (F.free_iff hbase.lock).mpr (not_not.mpr (hbase.held.eq_none_iff.mpr fun i hi => ?_))
    rw [Critical, hout i] at hi
    cases hi
  rcases hphase with hopen | hgather
  · refine ⟨hopen.count_eq, ?_, hfree⟩
    rcases hopen.flag with hset | hzero | ⟨j, hj⟩
    · exact hset
    · have hround := (hopen.arrived 0).symm.trans (harrivals 0)
      rw [hzero] at hround
      cases hround
    · rw [hout j] at hj
      cases hj
  · -- A round in progress has a thread in its call.
    obtain ⟨k, hk, -⟩ := hgather.exists_not_waiting hbase
    rw [hall k] at hk
    exact absurd hk (lt_irrefl 1)

end

/-- Used once, the barrier of either file is passed only together, never leaves a thread
behind, and ends ready. -/
theorem plainOnce_correct {file : PlainFile} {s : Config (Fin n.val) file.Barrier PlainThread}
    (hreach : (plainSystem file.ops n 1).Reachable s) :
    (∀ i j, (s.threads i).calls ≤ (s.threads j).arrivals) ∧
      ¬ PlainDeadlock file.ops 1 s ∧
      ((∀ i, (s.threads i).calls = 1) → LeftReady file.ops s.shared) := by
  have hvia := reachableVia_of_once hreach
  obtain ⟨⟨holder, hbase⟩, round, hphase⟩ := plainInv_of_reachable hvia
  exact ⟨calls_le_arrivals hvia, not_plainDeadlock hbase hphase, leftReady hbase hphase⟩

/-- Two threads in `spin.c` that have both called the barrier once. -/
def spinOnce : Config (Fin ThreadCount.two.val) PlainFile.spinC.Barrier PlainThread :=
  System.exec (plainBarrier spinBarrier 1).next spinStart
    (List.map (·, ()) (List.replicate 8 0 ++ List.replicate 9 1 ++ List.replicate 3 0))

theorem spinOnce_reachable : (plainSystem PlainFile.spinC.ops .two 1).Reachable spinOnce :=
  System.reachable_exec _ (.of_init spinStart_init)

theorem spinOnce_calls (i : Fin ThreadCount.two.val) : (spinOnce.threads i).calls = 1 := by
  revert i
  decide

theorem plainOnce_correct_two :
    (spinOnce.threads 0).calls = 1 ∧ LeftReady PlainFile.spinC.ops spinOnce.shared :=
  ⟨spinOnce_calls 0, (plainOnce_correct spinOnce_reachable).2.2 spinOnce_calls⟩

end Htsynch
