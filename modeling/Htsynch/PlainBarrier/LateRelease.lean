/-
# What a late store leads to

A store of 1 to the flag that is late opens the barrier to a round in progress. A thread
that has got past the place where the flag is cleared then needs only its own next steps to
return, from a call for which the storing thread has not arrived: the count it finds is
below the total, and the flag it polls is 1.
-/

import Htsynch.PlainBarrier.Rounds

namespace Htsynch

open Foundations PlainThread

variable {B : Type} {F : BarrierFile B} {n : ThreadCount} {rounds round : ℕ}
  {s : Config (Fin n.val) B PlainThread} {who j : Fin n.val} {holder : Option (Fin n.val)}
  {b : B} {own : PlainThread}

/-- The thread returns from its call by its own next steps. -/
def ReturnsAlone (F : BarrierFile B) (rounds : ℕ) (j : Fin n.val)
    (s : Config (Fin n.val) B PlainThread) : Prop :=
  ∃ t, Relation.ReflTransGen ((plainSystem F n rounds).Next fun _ label => label.1 = j) s t ∧
    (t.threads j).calls = (s.threads j).calls + 1 ∧ ∀ i ≠ j, t.threads i = s.threads i

theorem plainSystem_next {allow : Config (Fin n.val) B PlainThread → Fin n.val × Unit → Prop}
    (hallow : allow s (j, ()))
    (hstep : plainBarrier F rounds j () s.shared (s.threads j) = some (b, own)) :
    (plainSystem F n rounds).Next allow s (s.move j b own) :=
  ⟨(j, ()), hallow, interleave_step_iff.mpr ⟨b, own, hstep, rfl⟩⟩

namespace ReturnsAlone

/-- The last step. -/
theorem of_ret (hstep : plainBarrier F rounds j () s.shared (s.threads j) =
    some (b, (s.threads j).ret .outside)) : ReturnsAlone F rounds j s := by
  refine ⟨s.move j b ((s.threads j).ret .outside), .single (plainSystem_next rfl hstep), ?_, ?_⟩
  · rw [Config.move_threads_self]
    rfl
  · exact fun i hi => Config.move_threads_of_ne hi

/-- A step before it. -/
theorem of_step (hstep : plainBarrier F rounds j () s.shared (s.threads j) = some (b, own))
    (hcalls : own.calls = (s.threads j).calls)
    (hrest : ReturnsAlone F rounds j (s.move j b own)) : ReturnsAlone F rounds j s := by
  obtain ⟨t, hpath, ht, hothers⟩ := hrest
  refine ⟨t, .head (plainSystem_next rfl hstep) hpath, ?_, ?_⟩
  · rw [ht, Config.move_threads_self, hcalls]
  · exact fun i hi => (hothers i hi).trans (Config.move_threads_of_ne hi)

/-- The comparison at the end of a turn finds the flag at 1. -/
theorem of_poll (hpc : (s.threads j).pc = .wait .poll)
    (hflag : (F.view s.shared).flag.low = 1) : ReturnsAlone F rounds j s :=
  of_ret (b := s.shared) (by simp [plainBarrier, hpc, F.waitFlag_eq, spinOnCondition, hflag])

theorem of_wait (pc : WaitPc) (hpc : (s.threads j).pc = .wait pc)
    (hflag : (F.view s.shared).flag.low = 1) : ReturnsAlone F rounds j s := by
  have hturn (hgo : spinOnCondition pc (F.view s.shared).flag.low 1 = .goto .poll) :
      ReturnsAlone F rounds j s := by
    have hstep : plainBarrier F rounds j () s.shared (s.threads j) =
        some (s.shared, (s.threads j).goto (.wait .poll)) := by
      simp only [plainBarrier, hpc, F.waitFlag_eq, hgo]
    exact of_step hstep rfl (of_poll (by simp) hflag)
  cases pc with
  | entry =>
      exact of_ret (b := s.shared)
        (by simp [plainBarrier, hpc, F.waitFlag_eq, spinOnCondition, hflag])
  | pause => exact hturn rfl
  | halted => exact hturn rfl
  | poll => exact of_poll hpc hflag

/-- A thread that finds the count short goes on to wait. -/
theorem of_read (hpc : (s.threads j).pc = .read) (hflag : (F.view s.shared).flag.low = 1)
    (hcount : (F.view s.shared).count ≠ (F.view s.shared).total) : ReturnsAlone F rounds j s := by
  have hstep : plainBarrier F rounds j () s.shared (s.threads j) =
      some (s.shared, (s.threads j).goto (.wait .entry)) := by
    simp [plainBarrier, hpc, hcount]
  exact of_step hstep rfl (of_wait .entry (by simp) hflag)

theorem of_unlock (hpc : (s.threads j).pc = .unlock) (hflag : (F.view s.shared).flag.low = 1)
    (hcount : (F.view s.shared).count ≠ (F.view s.shared).total) : ReturnsAlone F rounds j s := by
  have hstep : plainBarrier F rounds j () s.shared (s.threads j) =
      some (F.unlock s.shared, (s.threads j).goto .read) := by
    simp [plainBarrier, hpc]
  refine of_step hstep rfl (of_read (by simp) ?_ ?_)
  · rwa [Config.move_shared, F.view_unlock]
  · rwa [Config.move_shared, F.view_unlock]

theorem of_store {count : Word} (hpc : (s.threads j).pc = .store count)
    (hflag : (F.view s.shared).flag.low = 1) (hcount : count ≠ (F.view s.shared).total) :
    ReturnsAlone F rounds j s := by
  have hstep : plainBarrier F rounds j () s.shared (s.threads j) =
      some (F.setCount count s.shared, (s.threads j).arrive .unlock) := by
    simp [plainBarrier, hpc]
  refine of_step hstep rfl (of_unlock (by simp) ?_ ?_)
  · rwa [Config.move_shared, F.view_setCount]
  · rwa [Config.move_shared, F.view_setCount]

theorem of_load (hpc : (s.threads j).pc = .load) (hflag : (F.view s.shared).flag.low = 1)
    (hcount : (F.view s.shared).count + 1 ≠ (F.view s.shared).total) :
    ReturnsAlone F rounds j s := by
  have hstep : plainBarrier F rounds j () s.shared (s.threads j) =
      some (s.shared, (s.threads j).goto (.store ((F.view s.shared).count + 1))) := by
    simp [plainBarrier, hpc]
  exact of_step hstep rfl (of_store (by simp) hflag hcount)

end ReturnsAlone

/-- Two threads that have not arrived leave room for two. -/
theorem plainArrived_succ_lt (hne : who ≠ j) (hwho : (s.threads who).arrivals = round)
    (hj : (s.threads j).arrivals = round) : plainArrived round s.threads + 1 < n.val := by
  have hnot : ¬ (s.threads j).Arrived round := by
    rw [SenseThread.Arrived, hj]
    omega
  have hnew : ((s.threads j).arrive .unlock).Arrived round := congrArg (· + 1) hj
  have hcensus : plainArrived round (s.move j s.shared ((s.threads j).arrive .unlock)).threads =
      plainArrived round s.threads + 1 := census_update_enter hnot hnew
  have hwho' : ((s.move j s.shared ((s.threads j).arrive .unlock)).threads who).arrivals =
      round := by
    rw [Config.move_threads_of_ne hne]
    exact hwho
  have hroom := plainArrived_lt hwho'
  rwa [hcensus] at hroom

/-- In the round in progress the thread has got past the place where the flag is cleared. -/
def PastClear (round : ℕ) (t : PlainThread) : Prop :=
  t.Arrived round ∨ t.arrivals = round ∧ t.pc.counting = true

/-- Such a thread has not returned from the round. -/
theorem Gather.calls_of_pastClear (h : Gather F round s) (hbase : PlainBase F n rounds holder s)
    (hpast : PastClear round (s.threads j)) : (s.threads j).calls = round := by
  have hcounts := hbase.counts j
  rcases hpast with harrived | ⟨hround, hcounting⟩
  · rcases h.arrived j with hround | ⟨-, hcounted⟩
    · rw [SenseThread.Arrived] at harrived
      omega
    · rw [harrived, hcounted] at hcounts
      exact (Nat.succ.inj hcounts).symm
  · have hcounted : (s.threads j).pc.counted = false := by
      cases hplace : (s.threads j).pc with
      | load => rfl
      | store c => rfl
      | _ => simp [hplace, PlainPc.counting] at hcounting
    rw [hround, hcounted] at hcounts
    exact hcounts.symm

/-- Once the flag is set it returns alone, while another thread has not arrived. -/
theorem Gather.returnsAlone (h : Gather F round s) (hbase : PlainBase F n rounds holder s)
    (hwho : (s.threads who).arrivals = round) (hne : who ≠ j)
    (hpast : PastClear round (s.threads j))
    (hview : F.view b = { F.view s.shared with flag := 1 }) :
    ReturnsAlone F rounds j (s.move who b own) := by
  have hflag : (F.view b).flag.low = 1 := by
    rw [hview]
    rfl
  have hthread : (s.move who b own).threads j = s.threads j := Config.move_threads_of_ne hne.symm
  have hroom : plainArrived round s.threads < n.val := plainArrived_lt hwho
  have hshort {c : Word} (hc : c.toNat < n.val) : c ≠ (F.view b).total := by
    rw [hview]
    rintro rfl
    rw [hbase.total_eq, ThreadCount.toNat_word] at hc
    exact absurd hc (Nat.lt_irrefl _)
  have hcount : (F.view b).count ≠ (F.view b).total := by
    refine hshort ?_
    rw [hview]
    exact h.count_le.trans_lt hroom
  rcases hpast with harrived | ⟨hround, hcounting⟩
  · have hnot : (s.threads j).arrivals ≠ round := by
      rw [SenseThread.Arrived] at harrived
      omega
    have hcounted : (s.threads j).pc.counted = true := ((h.arrived j).resolve_left hnot).2
    cases hpc : (s.threads j).pc with
    | unlock => exact .of_unlock (by rw [hthread, hpc]) hflag hcount
    | read => exact .of_read (by rw [hthread, hpc]) hflag hcount
    | wait pc => exact .of_wait pc (by rw [hthread, hpc]) hflag
    | reset =>
        rcases h.reset j hpc with hlate | hfull
        · exact absurd hlate hnot
        · exact absurd hfull (Nat.ne_of_lt hroom)
    | release => exact absurd (h.release j hpc) hnot
    | _ => simp [hpc, PlainPc.counted] at hcounted
  · have hroom' := plainArrived_succ_lt hne hwho hround
    cases hpc : (s.threads j).pc with
    | load =>
        refine .of_load (by rw [hthread, hpc]) hflag (hshort ?_)
        have hle := h.count_le
        have hmax := n.isInt
        rw [Config.move_shared, hview, BitVec.toNat_add, Nat.mod_eq_of_lt]
        · exact (Nat.add_le_add_right hle 1).trans_lt hroom'
        · exact ((Nat.add_le_add_right hle 1).trans_lt hroom').trans (hmax.trans (by decide))
    | store c =>
        refine .of_store (by rw [hthread, hpc]) hflag (hshort ?_)
        exact (h.store_le j c hpc).trans_lt hroom'
    | _ => simp [hpc, PlainPc.counting] at hcounting

/-- After every late store some thread can return from a call before the storing thread has
arrived in its own. -/
theorem passed_early_of_late (hreach : (plainSystem F n rounds).ReachableVia ReleasesInTime s)
    (hlate : ¬ ReleasesInTime s (who, ())) :
    ∃ t j, Relation.ReflTransGen ((plainSystem F n rounds).Next fun _ _ => True) s t ∧
      (t.threads who).arrivals < (t.threads j).calls := by
  obtain ⟨⟨holder, hbase⟩, round, hphase⟩ := plainInv_of_reachable hreach
  obtain ⟨hpc, hnot⟩ := Classical.not_imp.mp hlate
  obtain ⟨j, hj⟩ := not_forall.mp hnot
  rcases hphase with hopen | hgather
  · -- Everyone has arrived as often, and nobody is about to count itself.
    exfalso
    refine hj ⟨le_of_eq ((hopen.arrived j).trans (hopen.arrived who).symm), fun _ => ?_⟩
    have hidle := hopen.idle j
    cases hcounting : (s.threads j).pc with
    | load => simp [hcounting, PlainPc.updating] at hidle
    | store c => simp [hcounting, PlainPc.updating] at hidle
    | _ => rfl
  · have hwho : (s.threads who).arrivals = round := hgather.release who hpc
    have hpast : PastClear round (s.threads j) := by
      rcases hgather.arrived j with hround | ⟨harrived, -⟩
      · refine .inr ⟨hround, ?_⟩
        by_contra hcounting
        exact hj ⟨le_of_eq (hround.trans hwho.symm), fun _ => Bool.not_eq_true _ ▸ hcounting⟩
      · exact .inl harrived
    have hcalls := hgather.calls_of_pastClear hbase hpast
    have hne : who ≠ j := by
      rintro rfl
      have hcounts := hbase.counts who
      rw [hpc, hwho, hcalls] at hcounts
      simp [PlainPc.counted] at hcounts
    have hstep : plainBarrier F rounds who () s.shared (s.threads who) =
        some (F.setFlag 1 s.shared, (s.threads who).ret .outside) := by
      simp only [plainBarrier, hpc]
    have hreturns : ReturnsAlone F rounds j
        (s.move who (F.setFlag 1 s.shared) ((s.threads who).ret .outside)) :=
      hgather.returnsAlone hbase hwho hne hpast (F.view_setFlag 1 s.shared)
    obtain ⟨t, hpath, ht, hothers⟩ := hreturns
    have hany : (plainSystem F n rounds).Next (fun _ label => label.1 = j) ≤
        (plainSystem F n rounds).Next fun _ _ => True := by
      rintro x y ⟨label, -, hnext⟩
      exact ⟨label, trivial, hnext⟩
    refine ⟨t, j, .head (plainSystem_next trivial hstep)
      (Relation.ReflTransGen.mono hany _ _ hpath), ?_⟩
    rw [ht, hothers who hne, Config.move_threads_self, Config.move_threads_of_ne hne.symm,
      hcalls, SenseThread.ret_arrivals, hwho]
    exact Nat.lt_succ_self round

end Htsynch
