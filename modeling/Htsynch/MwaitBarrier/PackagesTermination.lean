/-
# Both packages finish

What is left of a fair run of both packages when everything but one pair is erased is a
fair run of that pair on a machine of its own: a thread that could move there can move
here. So each pair finishes as if it were alone, whatever the other one does, whoever
stores to the long in the page and however often.
-/

import Htsynch.MwaitBarrier.Separation
import Htsynch.MwaitBarrier.Termination

namespace Htsynch

open Foundations

/-- The steps a thread owns: the instructions of its barrier. -/
def OwnsBarrier (who : PackageThread) (label : PackageLabel) : Prop :=
  label = .thread who none

/-- The pair sees the same in both. -/
theorem PairAgrees.symm {Cpu Cpu' : Type} {p : Addr} {cpu' : Fin 2 → Cpu'} {cpu : Fin 2 → Cpu}
    {s' : Config (Fin 2) (BarrierShared Cpu') BarrierThread}
    {s : Config (Fin 2) (BarrierShared Cpu) BarrierThread} (h : PairAgrees p cpu' cpu s' s) :
    PairAgrees p cpu cpu' s s' where
  threads := h.threads.symm
  barrier := h.barrier.symm
  machine := by
    rw [MachinesAgree, h.threads]
    exact Hardware.AgreesOn.symm h.machine

variable {m : DeviceMapping} {rounds : Region → ℕ} {r : Region} {s : PackagesConfig}
  {s' : Config (Fin 2) (BarrierShared (Fin 2)) BarrierThread}

/-- Who can move alone can move beside the other package. -/
theorem able_of_alone (hagree : PairAgrees (r.byte m.ptrs) id (pairCpu r) s' (s.pair r))
    {i : Fin 2}
    (hable : (barrierSystem r m.ptrs .two (rounds r)).Able (Owns (· = none) i) s') :
    (packagesSystem m rounds).Able (OwnsBarrier (r, i)) s := by
  obtain ⟨⟨j, choice⟩, t, ⟨rfl, rfl⟩, hstep⟩ := hable
  obtain ⟨sh, own, hrun, -⟩ := interleave_step_iff.mp hstep
  rw [Region.barrier_eq] at hrun
  obtain ⟨sh', hcall, -⟩ :=
    hagree.symm.step (pairCpu_injective r) Function.injective_id hrun
  exact ⟨.thread (r, j) none, _, rfl, packagesNext_thread.mpr ⟨sh', own, hcall, rfl⟩⟩

/-- In every fair run of the two packages all calls of all four threads return, and both
barriers are left as they were initialised. -/
theorem packagesSystem_terminates
    (e : System.Execution (packagesSystem m rounds) (fun _ _ => True))
    (hfair : e.Fair OwnsBarrier) :
    ∃ k, ∀ n, k ≤ n →
      (∀ who, ((e.state n).threads who).pc = .outside ∧
        ((e.state n).threads who).calls = rounds who.1) ∧
      ∀ r, ((e.state n).shared.barriers r).gathered = 0 ∧
        ((e.state n).shared.barriers r).lock = 1 ∧
          (e.state n).shared.machine.mem (r.byte m.ptrs) = MWMON_ORIGINAL_VAL := by
  have hpair (r : Region) : ∃ k, ∀ n, k ≤ n →
      (∀ i, ((e.state n).threads (r, i)).pc = .outside ∧
        ((e.state n).threads (r, i)).calls = rounds r) ∧
      ((e.state n).shared.barriers r).gathered = 0 ∧
        ((e.state n).shared.barriers r).lock = 1 ∧
          (e.state n).shared.machine.mem (r.byte m.ptrs) = MWMON_ORIGINAL_VAL := by
    have hkept (i : Fin 2) (label : PackageLabel) (hown : OwnsBarrier (r, i) label) :
        ∃ label', onlyPair r label = some label' ∧ Owns (· = none) i label' := by
      obtain rfl := hown
      exact ⟨(i, none), if_pos rfl, rfl, rfl⟩
    obtain ⟨e', hstart, hagree, hfair'⟩ := (pair_unwinding m rounds r).fair_path hfair
      (alone_agrees_start e.init) (fun i => (r, i))
      (fun _ _ _ hagree => able_of_alone hagree) hkept
    obtain ⟨k, hdone⟩ := barrier_finishes ⟨e', hstart ▸ alone_init e.init⟩ hfair'
    refine ⟨k, fun n hn => ?_⟩
    obtain ⟨hreturned, hlive⟩ := hdone n hn
    obtain ⟨hgathered, hlock, hbyte⟩ := hlive.between hreturned
    have hthread (i : Fin 2) : (e'.state n).threads i = (e.state n).threads (r, i) :=
      congrFun (hagree n).threads i
    have hbarrier : (e'.state n).shared.barrier = (e.state n).shared.barriers r :=
      (hagree n).barrier
    have hmem := (hagree n).machine.mem (r.byte m.ptrs) rfl
    refine ⟨fun i => ?_, ?_, ?_, ?_⟩
    · rw [← hthread]
      exact hreturned i
    · rw [← hbarrier]
      exact hgathered
    · rw [← hbarrier]
      exact hlock
    · exact hmem.symm.trans hbyte
  obtain ⟨k₁, h₁⟩ := hpair .first
  obtain ⟨k₂, h₂⟩ := hpair .second
  refine ⟨max k₁ k₂, fun n hn => ?_⟩
  have hfirst := h₁ n ((le_max_left _ _).trans hn)
  have hsecond := h₂ n ((le_max_right _ _).trans hn)
  constructor
  · rintro ⟨r, i⟩
    cases r with
    | first => exact hfirst.1 i
    | second => exact hsecond.1 i
  · intro r
    cases r with
    | first => exact hfirst.2
    | second => exact hsecond.2

/-- Nobody has a call left to make. -/
theorem packages_not_able
    (h : ∀ who, (s.threads who).pc = .outside ∧ ¬ (s.threads who).calls < rounds who.1)
    (who : PackageThread) : ¬ (packagesSystem m rounds).Able (OwnsBarrier who) s := by
  rintro ⟨label, t, rfl, hstep⟩
  obtain ⟨sh, own, hcall, -⟩ := packagesNext_thread.mp hstep
  obtain ⟨hpc, hcalls⟩ := h who
  simp [barrierCall, hpc, hcalls] at hcall

/-- In each package thread 0 sleeps and thread 1 notifies it, the second package after the
first has gone to sleep. -/
def bothPackages : List PackageLabel :=
  List.replicate 10 (.thread (.first, thread0) none) ++
    List.replicate 10 (.thread (.second, thread0) none) ++
      List.replicate 7 (.thread (.first, thread1) none) ++
        List.replicate 7 (.thread (.second, thread1) none) ++
          List.replicate 5 (.thread (.first, thread0) none) ++
            List.replicate 5 (.thread (.second, thread0) none)

def bothPackagesRun :
    System.Execution (packagesSystem onePageMapping fun _ => 1) (fun _ _ => True) :=
  System.scheduled _ _ packagesStart packagesStart_init (bothPackages[·]?)

set_option maxRecDepth 8000 in
theorem bothPackagesRun_fair : bothPackagesRun.Fair OwnsBarrier := by
  refine System.fair_scheduled (packages_not_able ?_)
  rintro ⟨r, i⟩
  cases r with
  | first =>
      revert i
      decide
  | second =>
      revert i
      decide

theorem packagesSystem_terminates_both :
    ∃ k, ∀ n, k ≤ n →
      (∀ who, ((bothPackagesRun.state n).threads who).pc = .outside ∧
        ((bothPackagesRun.state n).threads who).calls = 1) ∧
      ∀ r, ((bothPackagesRun.state n).shared.barriers r).gathered = 0 ∧
        ((bothPackagesRun.state n).shared.barriers r).lock = 1 ∧
          (bothPackagesRun.state n).shared.machine.mem (r.byte onePageMapping.ptrs) =
            MWMON_ORIGINAL_VAL :=
  packagesSystem_terminates bothPackagesRun bothPackagesRun_fair

end Htsynch
