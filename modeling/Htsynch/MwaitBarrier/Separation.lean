/-
# Erasing the other package

Two configurations of a pair agree when the threads, the barrier and the bytes of the
pair's line are the same, and so are the monitors of those of its threads that are on
their way to MWAIT. The processors may be numbered differently in the two. The pair's own
steps keep the agreement when both take them, everything else keeps it when only one does.

So a run of both packages without the steps of one is a run of the other, and a run of its
barrier alone on a machine that has only its two processors.
-/

import Htsynch.MwaitBarrier.Packages

namespace Htsynch

open Foundations

/-- The thread has armed its monitor and not found the byte notified. -/
def BarrierPc.waits : BarrierPc → Bool
  | .sleep .irqEnable => true
  | .sleep .check => true
  | .sleep .mwait => true
  | _ => false

/-- The step neither sleeps nor notifies. -/
def BarrierPc.local : BarrierPc → Bool
  | .notify => false
  | .sleep _ => false
  | _ => true

section

variable {Cpu Cpu' : Type} {p : Addr} {cpu' : Fin 2 → Cpu'} {cpu : Fin 2 → Cpu}
  {h' : Machine Cpu'} {h : Machine Cpu} {threads : Fin 2 → BarrierThread} {i : Fin 2}
  {own : BarrierThread}

/-- The machines agree about what the threads of a pair wait for. -/
abbrev MachinesAgree (p : Addr) (cpu' : Fin 2 → Cpu') (cpu : Fin 2 → Cpu)
    (threads : Fin 2 → BarrierThread) (h' : Machine Cpu') (h : Machine Cpu) : Prop :=
  h'.AgreesOn cpu' cpu (Lines.line p) (fun i => (threads i).pc.waits = true) h

/-- The two configurations agree about everything the pair can see. -/
structure PairAgrees (p : Addr) (cpu' : Fin 2 → Cpu') (cpu : Fin 2 → Cpu)
    (s' : Config (Fin 2) (BarrierShared Cpu') BarrierThread)
    (s : Config (Fin 2) (BarrierShared Cpu) BarrierThread) : Prop where
  threads : s'.threads = s.threads
  barrier : s'.shared.barrier = s.shared.barrier
  machine : MachinesAgree p cpu' cpu s.threads s'.shared.machine s.shared.machine

/-- Who waits after a step from which its thread waits only if it did before. -/
theorem waits_of_update {j : Fin 2} (hown : own.pc.waits = true → (threads i).pc.waits = true)
    (hj : (Function.update threads i own j).pc.waits = true) : (threads j).pc.waits = true := by
  by_cases hji : j = i
  · subst j
    rw [Function.update_self] at hj
    exact hown hj
  · rwa [Function.update_of_ne hji] at hj

/-- A step that leaves the machine alone. -/
theorem MachinesAgree.goto (hagree : MachinesAgree p cpu' cpu threads h' h)
    (hown : own.pc.waits = true → (threads i).pc.waits = true) :
    MachinesAgree p cpu' cpu (Function.update threads i own) h' h :=
  hagree.mono fun _ => waits_of_update hown

/-- Where a thread is after a step of its sleep call. -/
def BarrierThread.afterSleep (t : BarrierThread) : SleepOutcome → BarrierThread
  | .goto pc => t.goto (.sleep pc)
  | .returned => t.goto .dec

variable [DecidableEq Cpu] [DecidableEq Cpu']

/-- A step of a sleep call sees the same and does the same in both machines. -/
theorem mwmonSleep_agrees (hinj' : cpu'.Injective) (hinj : cpu.Injective)
    (hagree : MachinesAgree p cpu' cpu threads h' h) {pc : SleepPc}
    (hpc : (threads i).pc = .sleep pc) {g : Machine Cpu} {out : SleepOutcome}
    (hstep : mwmonSleep p (cpu i) pc h = some (g, out)) :
    ∃ g', mwmonSleep p (cpu' i) pc h' = some (g', out) ∧
      MachinesAgree p cpu' cpu (Function.update threads i ((threads i).afterSleep out)) g' g := by
  have hbyte : h'.mem p = h.mem p := hagree.mem p rfl
  cases pc with
  | irqDisable =>
      obtain ⟨rfl, rfl⟩ := Prod.mk.inj (Option.some.inj hstep)
      exact ⟨h', rfl, hagree.goto fun hwaits => by cases hwaits⟩
  | monitor =>
      obtain ⟨rfl, rfl⟩ := Prod.mk.inj (Option.some.inj hstep)
      refine ⟨_, rfl, hagree.monitor_both hinj' hinj rfl fun j hj => ?_⟩
      by_cases hji : j = i
      · exact .inl hji
      · rw [Function.update_of_ne hji] at hj
        exact .inr hj
  | irqEnable =>
      obtain ⟨rfl, rfl⟩ := Prod.mk.inj (Option.some.inj hstep)
      exact ⟨h', rfl, hagree.goto fun _ => by rw [hpc]; rfl⟩
  | check =>
      obtain ⟨rfl, rfl⟩ := Prod.mk.inj (Option.some.inj hstep)
      refine ⟨h', ?_, hagree.goto fun _ => by rw [hpc]; rfl⟩
      rw [mwmonSleep, hbyte]
  | mwait =>
      obtain ⟨hfree, hout⟩ := Option.ite_none_left_eq_some.mp hstep
      obtain ⟨rfl, rfl⟩ := Prod.mk.inj (Option.some.inj hout)
      have hfree' : ¬ h'.Blocks (cpu' i) := by
        rwa [hagree.blocks_iff (by rw [hpc]; rfl)]
      exact ⟨h', if_neg hfree', hagree.goto fun hwaits => by cases hwaits⟩
  | recheck =>
      obtain ⟨rfl, rfl⟩ := Prod.mk.inj (Option.some.inj hstep)
      refine ⟨h', ?_, hagree.goto fun hwaits => ?_⟩
      · rw [mwmonSleep, hbyte]
      · by_cases hmem : h.mem p ≠ MWMON_NOTIFIED_VAL
        · rw [if_pos hmem] at hwaits
          cases hwaits
        · rw [if_neg hmem] at hwaits
          cases hwaits
  | reset =>
      obtain ⟨rfl, rfl⟩ := Prod.mk.inj (Option.some.inj hstep)
      refine ⟨_, rfl, MachinesAgree.goto (hagree.store_both hinj' hinj) ?_⟩
      exact fun hwaits => by cases hwaits

/-- An interrupt of a thread of the pair. -/
theorem MachinesAgree.interrupt (hinj' : cpu'.Injective) (hinj : cpu.Injective)
    (hagree : MachinesAgree p cpu' cpu threads h' h) (intr : Interrupt) :
    MachinesAgree p cpu' cpu threads (intr.onMachine (cpu' i) h') (intr.onMachine (cpu i) h) := by
  unfold Interrupt.onMachine
  by_cases hdisarms : intr.disarms = true
  · rw [if_pos hdisarms, if_pos hdisarms]
    exact hagree.disarm_both hinj' hinj
  · rw [if_neg hdisarms, if_neg hdisarms]
    exact hagree

/-- An interrupted sleeper waits only if it did before. -/
theorem waits_onSleeper {intr : Interrupt} {pc : SleepPc}
    (hwaits : (BarrierPc.sleep (intr.onSleeper pc)).waits = true) :
    (BarrierPc.sleep pc).waits = true := by
  rcases intr.onSleeper_cases pc with hsame | ⟨-, hwake⟩
  · rwa [hsame] at hwaits
  · rw [hwake] at hwaits
    cases hwaits

/-- A local step is the same on every machine, and leads to no waiting. -/
theorem barrierCall_local {r : Region} {ptrs : Pointers} {rounds : ℕ} {b : MwaitBarrier}
    {t : BarrierThread} (hlocal : t.pc.local = true) (h' : Machine Cpu') {sh : BarrierShared Cpu}
    (hstep : barrierCall r ptrs rounds (cpu i) none ⟨b, h⟩ t = some (sh, own)) :
    sh.machine = h ∧ own.pc.waits = false ∧
      barrierCall r ptrs rounds (cpu' i) none ⟨b, h'⟩ t = some (⟨sh.barrier, h'⟩, own) := by
  cases hpc : t.pc with
  | outside =>
      simp only [barrierCall, hpc, Option.ite_none_right_eq_some, Option.some.injEq,
        Prod.mk.injEq] at hstep
      obtain ⟨hcalls, rfl, rfl⟩ := hstep
      exact ⟨rfl, rfl, by simp [barrierCall, hpc, hcalls]⟩
  | lock pc =>
      cases hout : (spinLockFast pc b.lock).2 with
      | goto pc' =>
          simp only [barrierCall, hpc, hout, Option.some.injEq, Prod.mk.injEq] at hstep
          obtain ⟨rfl, rfl⟩ := hstep
          exact ⟨rfl, rfl, by simp [barrierCall, hpc, hout]⟩
      | acquired =>
          simp only [barrierCall, hpc, hout, Option.some.injEq, Prod.mk.injEq] at hstep
          obtain ⟨rfl, rfl⟩ := hstep
          exact ⟨rfl, rfl, by simp [barrierCall, hpc, hout]⟩
  | load =>
      simp only [barrierCall, hpc, Option.some.injEq, Prod.mk.injEq] at hstep
      obtain ⟨rfl, rfl⟩ := hstep
      exact ⟨rfl, rfl, by simp [barrierCall, hpc]⟩
  | store gathered =>
      simp only [barrierCall, hpc, Option.some.injEq, Prod.mk.injEq] at hstep
      obtain ⟨rfl, rfl⟩ := hstep
      exact ⟨rfl, rfl, by simp [barrierCall, hpc]⟩
  | test =>
      by_cases hcount : b.gathered = t.initCount
      · simp only [barrierCall, hpc, if_pos hcount, Option.some.injEq, Prod.mk.injEq] at hstep
        obtain ⟨rfl, rfl⟩ := hstep
        exact ⟨rfl, rfl, by simp [barrierCall, hpc, hcount]⟩
      · simp only [barrierCall, hpc, if_neg hcount, Option.some.injEq, Prod.mk.injEq] at hstep
        obtain ⟨rfl, rfl⟩ := hstep
        exact ⟨rfl, rfl, by simp [barrierCall, hpc, hcount]⟩
  | notify =>
      rw [hpc] at hlocal
      cases hlocal
  | unlock =>
      simp only [barrierCall, hpc, Option.some.injEq, Prod.mk.injEq] at hstep
      obtain ⟨rfl, rfl⟩ := hstep
      exact ⟨rfl, rfl, by simp [barrierCall, hpc]⟩
  | sleep pc =>
      rw [hpc] at hlocal
      cases hlocal
  | dec =>
      by_cases hzero : (atomicDecAndTest b.gathered).2 = true
      · simp only [barrierCall, hpc, if_pos hzero, Option.some.injEq, Prod.mk.injEq] at hstep
        obtain ⟨rfl, rfl⟩ := hstep
        exact ⟨rfl, rfl, by simp [barrierCall, hpc, hzero]⟩
      · simp only [barrierCall, hpc, if_neg hzero, Option.some.injEq, Prod.mk.injEq] at hstep
        obtain ⟨rfl, rfl⟩ := hstep
        exact ⟨rfl, rfl, by simp [barrierCall, hpc, hzero]⟩
  | unlockLast =>
      simp only [barrierCall, hpc, Option.some.injEq, Prod.mk.injEq] at hstep
      obtain ⟨rfl, rfl⟩ := hstep
      exact ⟨rfl, rfl, by simp [barrierCall, hpc]⟩

namespace PairAgrees

variable {s' : Config (Fin 2) (BarrierShared Cpu') BarrierThread}
  {s : Config (Fin 2) (BarrierShared Cpu) BarrierThread}

omit [DecidableEq Cpu] [DecidableEq Cpu'] in
/-- A thread has moved in both configurations. -/
theorem move (hagree : PairAgrees p cpu' cpu s' s) {sh' : BarrierShared Cpu'}
    {sh : BarrierShared Cpu} (hbarrier : sh'.barrier = sh.barrier)
    (hmachine : MachinesAgree p cpu' cpu (Function.update s.threads i own)
      sh'.machine sh.machine) :
    PairAgrees p cpu' cpu (s'.move i sh' own) (s.move i sh own) := by
  constructor
  case threads => exact congrArg (Function.update · i own) hagree.threads
  case barrier => exact hbarrier
  case machine => exact hmachine

variable {r : Region} {ptrs : Pointers} {rounds : ℕ} {sh : BarrierShared Cpu}

/-- An interrupt of a thread of the pair. -/
theorem interrupt (hagree : PairAgrees p cpu' cpu s' s) (hinj' : cpu'.Injective)
    (hinj : cpu.Injective) {intr : Interrupt}
    (hstep : barrierCall r ptrs rounds (cpu i) (some intr) s.shared (s.threads i) =
      some (sh, own)) :
    ∃ sh', barrierCall r ptrs rounds (cpu' i) (some intr) s'.shared (s.threads i) =
        some (sh', own) ∧
      PairAgrees p cpu' cpu (s'.move i sh' own) (s.move i sh own) := by
  have hmachine := hagree.machine.interrupt (i := i) hinj' hinj intr
  cases hpc : (s.threads i).pc with
  | sleep pc =>
      simp only [barrierCall, hpc, Option.some.injEq, Prod.mk.injEq] at hstep
      obtain ⟨rfl, rfl⟩ := hstep
      refine ⟨{ s'.shared with machine := intr.onMachine (cpu' i) s'.shared.machine },
        by simp only [barrierCall, hpc], hagree.move hagree.barrier (hmachine.goto ?_)⟩
      intro hwaits
      rw [hpc]
      exact waits_onSleeper hwaits
  | _ =>
      simp only [barrierCall, hpc, Option.some.injEq, Prod.mk.injEq] at hstep
      obtain ⟨rfl, rfl⟩ := hstep
      exact ⟨{ s'.shared with machine := intr.onMachine (cpu' i) s'.shared.machine },
        by simp only [barrierCall, hpc], hagree.move hagree.barrier (hmachine.goto id)⟩

/-- The last thread notifies. -/
theorem notify (hagree : PairAgrees p cpu' cpu s' s) (hinj' : cpu'.Injective)
    (hinj : cpu.Injective) (hpc : (s.threads i).pc = .notify)
    (hstep : barrierCall r ptrs rounds (cpu i) none s.shared (s.threads i) = some (sh, own)) :
    ∃ sh', barrierCall r ptrs rounds (cpu' i) none s'.shared (s.threads i) = some (sh', own) ∧
      PairAgrees p cpu' cpu (s'.move i sh' own) (s.move i sh own) := by
  simp only [barrierCall, hpc, Option.some.injEq, Prod.mk.injEq] at hstep
  obtain ⟨rfl, rfl⟩ := hstep
  refine ⟨{ s'.shared with machine :=
      s'.shared.machine.store (cpu' i) (r.byte ptrs) MWMON_NOTIFIED_VAL },
    by simp only [barrierCall, hpc], hagree.move hagree.barrier ?_⟩
  exact MachinesAgree.goto (hagree.machine.store_both hinj' hinj) fun hwaits => by cases hwaits

/-- A thread goes on in its sleep call. -/
theorem sleep (hagree : PairAgrees (r.byte ptrs) cpu' cpu s' s) (hinj' : cpu'.Injective)
    (hinj : cpu.Injective) {pc : SleepPc} (hpc : (s.threads i).pc = .sleep pc)
    (hstep : barrierCall r ptrs rounds (cpu i) none s.shared (s.threads i) = some (sh, own)) :
    ∃ sh', barrierCall r ptrs rounds (cpu' i) none s'.shared (s.threads i) = some (sh', own) ∧
      PairAgrees (r.byte ptrs) cpu' cpu (s'.move i sh' own) (s.move i sh own) := by
  simp only [barrierCall, hpc, SleepCall.run_eq, Region.sleepCall_target,
    Option.map_eq_some_iff, Prod.exists] at hstep
  obtain ⟨g, out, hsleep, hown⟩ := hstep
  obtain ⟨g', hsleep', hmachine⟩ := mwmonSleep_agrees hinj' hinj hagree.machine hpc hsleep
  refine ⟨{ s'.shared with machine := g' }, ?_⟩
  cases out with
  | goto pc' =>
      obtain ⟨rfl, rfl⟩ := Prod.mk.inj hown
      refine ⟨?_, hagree.move hagree.barrier hmachine⟩
      simp [barrierCall, hpc, SleepCall.run_eq, Region.sleepCall_target, hsleep']
  | returned =>
      obtain ⟨rfl, rfl⟩ := Prod.mk.inj hown
      refine ⟨?_, hagree.move hagree.barrier hmachine⟩
      simp [barrierCall, hpc, SleepCall.run_eq, Region.sleepCall_target, hsleep']

/-- A step of the pair is the same in both configurations. -/
theorem step (hagree : PairAgrees (r.byte ptrs) cpu' cpu s' s) (hinj' : cpu'.Injective)
    (hinj : cpu.Injective) {choice : Option Interrupt}
    (hstep : barrierCall r ptrs rounds (cpu i) choice s.shared (s.threads i) = some (sh, own)) :
    ∃ sh', barrierCall r ptrs rounds (cpu' i) choice s'.shared (s'.threads i) =
        some (sh', own) ∧
      PairAgrees (r.byte ptrs) cpu' cpu (s'.move i sh' own) (s.move i sh own) := by
  rw [congrFun hagree.threads i]
  cases choice with
  | some intr => exact hagree.interrupt hinj' hinj hstep
  | none =>
      by_cases hlocal : (s.threads i).pc.local = true
      · obtain ⟨hmachine, hwaits, hstep'⟩ := barrierCall_local hlocal s'.shared.machine hstep
        refine ⟨⟨sh.barrier, s'.shared.machine⟩, ?_, hagree.move rfl ?_⟩
        · rw [← hstep', ← hagree.barrier]
        · rw [hmachine]
          exact hagree.machine.goto fun hown => by rw [hwaits] at hown; cases hown
      · cases hpc : (s.threads i).pc with
        | notify => exact hagree.notify hinj' hinj hpc hstep
        | sleep pc => exact hagree.sleep hinj' hinj hpc hstep
        | _ =>
            rw [hpc] at hlocal
            exact absurd rfl hlocal

end PairAgrees

omit [DecidableEq Cpu'] in
/-- A step in the other barrier, by another processor. -/
theorem MachinesAgree.other {sh sh₁ : BarrierShared Cpu} {t t₁ : BarrierThread} {d : Cpu}
    {q : Addr} {rounds : ℕ} (hagree : MachinesAgree p cpu' cpu threads h' sh.machine)
    (hd : ∀ i, cpu i ≠ d) (hq : Lines.line q ≠ Lines.line p)
    (hmove : BarrierMove q rounds d sh t sh₁ t₁) :
    MachinesAgree p cpu' cpu threads h' sh₁.machine := by
  cases hmove with
  | interrupt intr =>
      change MachinesAgree p cpu' cpu threads h' (intr.onMachine d sh.machine)
      unfold Interrupt.onMachine
      split
      · exact hagree.disarm_right hd
      · exact hagree
  | notify => exact hagree.store_right hq
  | wake => exact hagree.store_right hq
  | sleep pc pc' machine _ hsleep =>
      cases hsleep with
      | arm => exact hagree.monitor_right hd
      | _ => exact hagree
  | _ => exact hagree

omit [DecidableEq Cpu'] in
/-- A store of a long on other lines. -/
theorem MachinesAgree.storeLong {a : Addr} {v : BitVec 64} {d : Cpu}
    (hagree : MachinesAgree p cpu' cpu threads h' h)
    (ha : ∀ i < 8, Lines.line (a + i) ≠ Lines.line p) :
    MachinesAgree p cpu' cpu threads h' (storeLong d a v h) := by
  have hbytes : ∀ k ≤ 8, MachinesAgree p cpu' cpu threads h'
      ((List.range k).foldl (fun h i => h.store d (a + i) (longByte v i)) h) := by
    intro k
    induction k with
    | zero => exact fun _ => hagree
    | succ k ih =>
        intro hk
        rw [List.range_succ, List.foldl_append]
        exact (ih (Nat.le_of_succ_le hk)).store_right (ha k hk)
  exact hbytes 8 (Nat.le_refl 8)

end

/-! ## The two pairs -/

/-- What a pair works on, and its threads. -/
def PackagesConfig.pair (s : PackagesConfig) (r : Region) :
    Config (Fin 2) (BarrierShared PackageCpu) BarrierThread :=
  ⟨s.shared.pair r, fun i => s.threads (r, i)⟩

/-- The processors of a pair. -/
def pairCpu (r : Region) (i : Fin 2) : PackageCpu := some (r, i)

theorem pairCpu_injective (r : Region) : (pairCpu r).Injective := by
  intro i j hij
  simpa [pairCpu] using hij

section

variable {m : DeviceMapping} {rounds : Region → ℕ} {r : Region} {s t : PackagesConfig}

theorem packagesNext_thread {who : PackageThread} {choice : Option Interrupt} :
    packagesNext m rounds s (.thread who choice) = some t ↔
      ∃ sh own, barrierCall who.1 m.ptrs (rounds who.1) (some who) choice
          (s.shared.pair who.1) (s.threads who) = some (sh, own) ∧
        t = s.move who (s.shared.put who.1 sh) own := by
  simp [packagesNext, Program.next, packageBarrier_eq, eq_comm]

theorem packagesNext_lint {c : PackageCpu} {v : BitVec 64} :
    packagesNext m rounds s (.lint c v) = some t ↔
      MayStoreLint s c ∧ t = { s with shared := { s.shared with
        machine := storeLong c m.ptrs.mwmonLintVarAddr v s.shared.machine } } := by
  simp [packagesNext, DeviceMapping.userStoreLong, m.translate_lintCounterAddr, eq_comm]

/-- A thread of the pair moves. -/
theorem pair_move_self {i : Fin 2} {sh : BarrierShared PackageCpu} {own : BarrierThread} :
    PackagesConfig.pair (s.move (r, i) (s.shared.put r sh) own) r =
      (s.pair r).move i sh own := by
  have hthreads : (fun j => Function.update s.threads (r, i) own (r, j)) =
      Function.update (fun j => s.threads (r, j)) i own := by
    funext j
    by_cases hji : j = i
    · subst j
      simp
    · simp [hji]
  simp [PackagesConfig.pair, PackagesShared.pair, PackagesShared.put, Config.move, hthreads]

/-- A thread of the other pair moves. -/
theorem pair_move_other {who : PackageThread} (hne : who.1 ≠ r) {sh : BarrierShared PackageCpu}
    {own : BarrierThread} :
    PackagesConfig.pair (s.move who (s.shared.put who.1 sh) own) r =
      { s.pair r with shared := ⟨s.shared.barriers r, sh.machine⟩ } := by
  have hthread (j : Fin 2) : (r, j) ≠ who := fun heq => hne (by rw [← heq])
  simp [PackagesConfig.pair, PackagesShared.pair, PackagesShared.put, Config.move, hthread,
    hne.symm]

variable {Cpu' : Type} {cpu' : Fin 2 → Cpu'}
  {s' : Config (Fin 2) (BarrierShared Cpu') BarrierThread}

/-- A step that no thread of the pair takes in its barrier does not change what the pair
sees. -/
theorem pairAgrees_of_outside {label : PackageLabel}
    (hagree : PairAgrees (r.byte m.ptrs) cpu' (pairCpu r) s' (s.pair r))
    (hstep : packagesNext m rounds s label = some t)
    (hlabel : ∀ i choice, label ≠ .thread (r, i) choice) :
    PairAgrees (r.byte m.ptrs) cpu' (pairCpu r) s' (t.pair r) := by
  cases label with
  | thread who choice =>
      obtain ⟨sh, own, hcall, rfl⟩ := packagesNext_thread.mp hstep
      have hne : who.1 ≠ r := by
        rintro rfl
        exact hlabel who.2 choice rfl
      have hcpu (i : Fin 2) : pairCpu r i ≠ some who := by
        intro hwho
        exact hne (by rw [← Option.some.inj hwho])
      have hbefore : MachinesAgree (r.byte m.ptrs) cpu' (pairCpu r) (s.pair r).threads
          s'.shared.machine (s.shared.pair who.1).machine := hagree.machine
      have hafter := hbefore.other hcpu (m.line_byte_ne hne) (barrierCall_cases hcall)
      rw [pair_move_other hne]
      exact ⟨hagree.threads, hagree.barrier, hafter⟩
  | lint c v =>
      obtain ⟨-, rfl⟩ := packagesNext_lint.mp hstep
      exact ⟨hagree.threads, hagree.barrier,
        MachinesAgree.storeLong hagree.machine fun i hi => m.line_lint_ne r hi⟩

/-- A step of a thread of the pair is the same in an agreeing configuration. -/
theorem pairAgrees_of_thread [DecidableEq Cpu'] {i : Fin 2} {choice : Option Interrupt}
    (hagree : PairAgrees (r.byte m.ptrs) cpu' (pairCpu r) s' (s.pair r))
    (hinj' : cpu'.Injective) (hstep : packagesNext m rounds s (.thread (r, i) choice) = some t) :
    ∃ sh own, barrierCall r m.ptrs (rounds r) (cpu' i) choice s'.shared (s'.threads i) =
        some (sh, own) ∧
      PairAgrees (r.byte m.ptrs) cpu' (pairCpu r) (s'.move i sh own) (t.pair r) := by
  obtain ⟨sh, own, hcall, rfl⟩ := packagesNext_thread.mp hstep
  have hpair : barrierCall r m.ptrs (rounds r) (pairCpu r i) choice (s.pair r).shared
      ((s.pair r).threads i) = some (sh, own) := hcall
  obtain ⟨sh', hcall', hagree'⟩ := hagree.step hinj' (pairCpu_injective r) hpair
  rw [← pair_move_self] at hagree'
  exact ⟨sh', own, hcall', hagree'⟩

/-! ## Erasing steps -/

/-- The steps of the other package are erased. -/
def withoutOther (r : Region) (label : PackageLabel) : Option PackageLabel :=
  if label.package = some r.other then none else some label

/-- Only the steps of the pair in its barrier are kept. -/
def onlyPair (r : Region) : PackageLabel → Option (Fin 2 × Option Interrupt)
  | .thread who choice => if who.1 = r then some (who.2, choice) else none
  | .lint _ _ => none

theorem Region.eq_or_other (r r' : Region) : r' = r ∨ r' = r.other := by
  cases r with
  | first =>
      cases r' with
      | first => exact .inl rfl
      | second => exact .inr rfl
  | second =>
      cases r' with
      | first => exact .inr rfl
      | second => exact .inl rfl

theorem Region.ne_other (r : Region) : r ≠ r.other := by
  cases r <;> decide

/-- What the pair sees is the same in both. -/
def PackageAgrees (m : DeviceMapping) (r : Region) (s' s : PackagesConfig) : Prop :=
  PairAgrees (r.byte m.ptrs) (pairCpu r) (pairCpu r) (s'.pair r) (s.pair r)

/-- A store to the long, by a processor that may store to it in both. -/
theorem PackageAgrees.lint {s' : PackagesConfig} (hagree : PackageAgrees m r s' s)
    {c : PackageCpu} {v : BitVec 64} (hmay : MayStoreLint s' c)
    (hstep : packagesNext m rounds s (.lint c v) = some t) :
    ∃ t', packagesNext m rounds s' (.lint c v) = some t' ∧ PackageAgrees m r t' t := by
  obtain ⟨-, rfl⟩ := packagesNext_lint.mp hstep
  refine ⟨_, packagesNext_lint.mpr ⟨hmay, rfl⟩, hagree.threads, hagree.barrier, ?_⟩
  have hlines (i : ℕ) (hi : i < 8) := m.line_lint_ne r hi
  have hright := MachinesAgree.storeLong (d := c) (v := v) hagree.machine hlines
  exact (MachinesAgree.storeLong (d := c) (v := v) hright.symm hlines).symm

/-- The other package can be erased. -/
theorem packages_unwinding (m : DeviceMapping) (rounds : Region → ℕ) (r : Region) :
    System.Unwinding (packagesSystem m rounds) (packagesSystem m rounds) (withoutOther r)
      (PackageAgrees m r) := by
  constructor
  case keep =>
    intro s' s t label label' hagree hstep hlabel
    obtain ⟨hkept, hsame⟩ := Option.ite_none_left_eq_some.mp hlabel
    obtain rfl := Option.some.inj hsame
    have hown {r' : Region} (hr' : some r' ≠ some r.other) : r' = r :=
      (r.eq_or_other r').resolve_right fun heq => hr' (congrArg some heq)
    cases label with
    | thread who choice =>
        obtain ⟨r', i⟩ := who
        obtain rfl : r' = r := hown hkept
        obtain ⟨sh, own, hcall, hagree'⟩ :=
          pairAgrees_of_thread hagree (pairCpu_injective _) hstep
        refine ⟨s'.move (r', i) (s'.shared.put r' sh) own,
          packagesNext_thread.mpr ⟨sh, own, hcall, rfl⟩, ?_⟩
        rw [PackageAgrees, pair_move_self]
        exact hagree'
    | lint c v =>
        refine hagree.lint ?_ hstep
        have hmay := (packagesNext_lint.mp hstep).1
        cases c with
        | none => exact trivial
        | some who =>
            obtain ⟨r', i⟩ := who
            obtain rfl : r' = r := hown hkept
            have hthread : s'.threads (r', i) = s.threads (r', i) := congrFun hagree.threads i
            rw [MayStoreLint, hthread]
            exact hmay
  case erase =>
    intro s' s t label hagree hstep hlabel
    have hother : label.package = some r.other := by
      by_contra hne
      rw [withoutOther, if_neg hne] at hlabel
      cases hlabel
    refine pairAgrees_of_outside hagree hstep ?_
    rintro i choice rfl
    exact r.ne_other (Option.some.inj hother)

/-- Everything but the pair can be erased, processors included. -/
theorem pair_unwinding (m : DeviceMapping) (rounds : Region → ℕ) (r : Region) :
    System.Unwinding (packagesSystem m rounds) (barrierSystem r m.ptrs .two (rounds r))
      (onlyPair r) (fun s' s => PairAgrees (r.byte m.ptrs) id (pairCpu r) s' (s.pair r)) := by
  constructor
  case keep =>
    intro s' s t label label' hagree hstep hlabel
    cases label with
    | thread who choice =>
        obtain ⟨rfl, hsame⟩ := Option.ite_none_right_eq_some.mp hlabel
        obtain rfl := Option.some.inj hsame
        obtain ⟨sh, own, hcall, hagree'⟩ :=
          pairAgrees_of_thread hagree Function.injective_id hstep
        refine ⟨s'.move who.2 sh own, interleave_step_iff.mpr ⟨sh, own, ?_, rfl⟩, hagree'⟩
        rw [Region.barrier_eq]
        exact hcall
    | lint c v => cases hlabel
  case erase =>
    intro s' s t label hagree hstep hlabel
    refine pairAgrees_of_outside hagree hstep ?_
    rintro i choice rfl
    rw [onlyPair, if_pos rfl] at hlabel
    cases hlabel

/-- The same instruction, by threads in the same state, that reads the same value and wakes
the same threads of the pair. -/
structure SameStep (m : DeviceMapping) (rounds : Region → ℕ) (r : Region)
    (x' x : PackagesConfig × PackageLabel) : Prop where
  label : x'.2 = x.2
  threads : ∀ i, x'.1.threads (r, i) = x.1.threads (r, i)
  read : valueRead m x'.1 x'.2 = valueRead m x.1 x.2
  wakes : ∀ i, WakesByStore m rounds x' (r, i) ↔ WakesByStore m rounds x (r, i)

/-- A thread that MWAIT holds takes no step. -/
theorem thread_of_held {label : PackageLabel} {who : PackageThread}
    (hstep : packagesNext m rounds s label = some t) (hexecutes : label.executes = true)
    (hpc : (s.threads who).pc = .sleep .mwait) (hheld : s.shared.machine.Blocks (some who)) :
    t.threads who = s.threads who := by
  cases label with
  | thread mover choice =>
      obtain ⟨sh, own, hcall, rfl⟩ := packagesNext_thread.mp hstep
      by_cases hmover : who = mover
      · subst mover
        obtain rfl : choice = none := Option.isNone_iff_eq_none.mp hexecutes
        have hnone : mwmonSleep (who.1.byte m.ptrs) (some who) .mwait
            (s.shared.pair who.1).machine = none := if_pos hheld
        simp [barrierCall, hpc, SleepCall.run_eq, Region.sleepCall_target, hnone] at hcall
      · exact Config.move_threads_of_ne hmover
  | lint c v =>
      obtain ⟨-, rfl⟩ := packagesNext_lint.mp hstep
      rfl

/-- What the pair sees decides what its next instruction reads. -/
theorem PackageAgrees.loads {s' : PackagesConfig} (hagree : PackageAgrees m r s' s) (i : Fin 2) :
    (s'.threads (r, i)).loads (r.byte m.ptrs) (s'.shared.pair r) =
      (s.threads (r, i)).loads (r.byte m.ptrs) (s.shared.pair r) := by
  have hthread : s'.threads (r, i) = s.threads (r, i) := congrFun hagree.threads i
  have hbarrier : (s'.shared.pair r).barrier = (s.shared.pair r).barrier := hagree.barrier
  have hbyte : (s'.shared.pair r).machine.mem (r.byte m.ptrs) =
      (s.shared.pair r).machine.mem (r.byte m.ptrs) := hagree.machine.mem _ rfl
  simp only [BarrierThread.loads, hthread, hbarrier, hbyte]

theorem wakesByStore_of_step {label : PackageLabel} {who : PackageThread}
    (hstep : packagesNext m rounds s label = some t) :
    WakesByStore m rounds (s, label) who ↔
      label.executes = true ∧ (s.threads who).pc = .sleep .mwait ∧
        s.shared.machine.Blocks (some who) ∧ ¬ t.shared.machine.Blocks (some who) := by
  simp [WakesByStore, hstep]

/-- MWAIT holds a thread of the pair in both configurations or in neither. -/
theorem PackageAgrees.blocks_iff {s' : PackagesConfig} (hagree : PackageAgrees m r s' s)
    {i : Fin 2} (hpc : (s.threads (r, i)).pc = .sleep .mwait) :
    s'.shared.machine.Blocks (some (r, i)) ↔ s.shared.machine.Blocks (some (r, i)) := by
  have hwaits : (s.threads (r, i)).pc.waits = true := by
    rw [hpc]
    rfl
  exact hagree.machine.blocks_iff (i := i) hwaits

/-- What the pair sees before and after a step decides whether the step wakes it. -/
theorem wakesByStore_iff {s' t' : PackagesConfig} {label : PackageLabel}
    (hbefore : PackageAgrees m r s' s) (hafter : PackageAgrees m r t' t)
    (hstep' : packagesNext m rounds s' label = some t')
    (hstep : packagesNext m rounds s label = some t) (i : Fin 2) :
    WakesByStore m rounds (s', label) (r, i) ↔ WakesByStore m rounds (s, label) (r, i) := by
  have hthread : s'.threads (r, i) = s.threads (r, i) := congrFun hbefore.threads i
  rw [wakesByStore_of_step hstep', wakesByStore_of_step hstep, hthread]
  refine and_congr_right fun hexecutes => and_congr_right fun hpc => ?_
  rw [hbefore.blocks_iff hpc]
  refine and_congr_right fun hheld => not_congr (hafter.blocks_iff ?_)
  rw [thread_of_held hstep hexecutes hpc hheld]
  exact hpc

/-- Nothing outside the pair wakes it. -/
theorem not_wakesByStore_of_outside {s' : PackagesConfig} {label : PackageLabel}
    (hagree : PackageAgrees m r s' s) (hstep : packagesNext m rounds s label = some t)
    (hlabel : ∀ i choice, label ≠ .thread (r, i) choice) (i : Fin 2) :
    ¬ WakesByStore m rounds (s, label) (r, i) := by
  rw [wakesByStore_of_step hstep]
  rintro ⟨hexecutes, hpc, hheld, hfree⟩
  have hafter : PackageAgrees m r s' t := pairAgrees_of_outside hagree hstep hlabel
  have hpc' : (t.threads (r, i)).pc = .sleep .mwait := by
    rw [thread_of_held hstep hexecutes hpc hheld]
    exact hpc
  exact hfree ((hafter.blocks_iff hpc').mp ((hagree.blocks_iff hpc).mpr hheld))

/-- Matching steps are the same for the pair. -/
theorem sameStep_of_matched {x' x : PackagesConfig × PackageLabel}
    (hmatched : System.Matched (packagesSystem m rounds) (packagesSystem m rounds)
      (withoutOther r) (PackageAgrees m r) x' x) : SameStep m rounds r x' x := by
  obtain ⟨s', label'⟩ := x'
  obtain ⟨s, label⟩ := x
  obtain ⟨hlabel, hbefore, t', t, hstep', hstep, hafter⟩ := hmatched
  obtain ⟨hkept, hsame⟩ := Option.ite_none_left_eq_some.mp hlabel
  obtain rfl : label = label' := Option.some.inj hsame
  constructor
  case label => rfl
  case threads => exact fun i => congrFun hbefore.threads i
  case read =>
    cases label with
    | thread who choice =>
        cases choice with
        | some intr => rfl
        | none =>
            obtain ⟨r', i⟩ := who
            obtain rfl : r' = r :=
              (r.eq_or_other r').resolve_right fun heq => hkept (congrArg some heq)
            exact hbefore.loads i
    | lint c v => rfl
  case wakes => exact wakesByStore_iff hbefore hafter hstep' hstep

/-- At the start nobody is on the way to MWAIT. -/
theorem waits_of_init (hinit : packagesInit m s) (i : Fin 2) :
    ¬ ((s.pair r).threads i).pc.waits = true := by
  have hthread : (s.pair r).threads i = .start := hinit.2.2 (r, i)
  rw [hthread]
  decide

/-- A pair on a machine that has only its two processors. -/
def PackagesConfig.alone (s : PackagesConfig) (r : Region) :
    Config (Fin 2) (BarrierShared (Fin 2)) BarrierThread :=
  ⟨⟨s.shared.barriers r,
    ⟨s.shared.machine.mem, fun i => s.shared.machine.armed (pairCpu r i)⟩⟩,
    fun i => s.threads (r, i)⟩

theorem alone_init (hinit : packagesInit m s) :
    barrierInit r m.ptrs .two (s.alone r) :=
  ⟨hinit.1 r, hinit.2.1 r, fun i => hinit.2.2 (r, i)⟩

theorem packageAgrees_start (hinit : packagesInit m s) : PackageAgrees m r s s :=
  ⟨rfl, rfl, fun _ _ => rfl, fun _ _ => rfl, fun i hi => absurd hi (waits_of_init hinit i)⟩

theorem alone_agrees_start (hinit : packagesInit m s) :
    PairAgrees (r.byte m.ptrs) id (pairCpu r) (s.alone r) (s.pair r) :=
  ⟨rfl, rfl, fun _ _ => rfl, fun _ _ => rfl, fun i hi => absurd hi (waits_of_init hinit i)⟩

/-- The two packages do not interfere. A run of both without the steps of one is a run of
the other, which reads the same values and is woken by the same stores, and the steps
without effect on it have woken nobody of it; and on a machine that has only its two
processors the pair's own steps are a run of its barrier. -/
theorem packages_do_not_interfere {start : PackagesConfig}
    {steps : List (PackagesConfig × PackageLabel)} (hinit : packagesInit m start)
    (hrun : (packagesSystem m rounds).Run start steps s) (r : Region) :
    (∃ left s', (packagesSystem m rounds).Run start left s' ∧
        List.Forall₂ (SameStep m rounds r) left
          (steps.filter fun x => x.2.package ≠ some r.other) ∧
        ∀ i, s'.threads (r, i) = s.threads (r, i)) ∧
      (∀ x ∈ steps, ∀ i, WakesByStore m rounds x (r, i) →
        ∃ j choice, x.2 = .thread (r, j) choice) ∧
      ∃ left s', (barrierSystem r m.ptrs .two (rounds r)).Run (start.alone r) left s' ∧
        left.map Prod.snd = (steps.filterMap fun x => onlyPair r x.2) ∧
        ∀ i, s'.threads i = s.threads (r, i) := by
  refine ⟨?_, ?_, ?_⟩
  · obtain ⟨left, s', hleft, hmatched, hagree⟩ :=
      (packages_unwinding m rounds r).run hrun (packageAgrees_start hinit)
    have hkept : System.kept (withoutOther r) steps =
        steps.filter fun x => x.2.package ≠ some r.other := by
      refine List.filter_congr fun x _ => ?_
      by_cases hother : x.2.package = some r.other <;> simp [withoutOther, hother]
    rw [hkept] at hmatched
    exact ⟨left, s', hleft, hmatched.imp fun _ _ => sameStep_of_matched,
      fun i => congrFun hagree.threads i⟩
  · intro x hx i hwakes
    by_contra houtside
    obtain ⟨before, t, hbefore, hstep⟩ := hrun.of_mem hx
    obtain ⟨-, s', -, -, hagree⟩ :=
      (packages_unwinding m rounds r).run hbefore (packageAgrees_start hinit)
    exact not_wakesByStore_of_outside hagree hstep
      (fun j choice hlabel => houtside ⟨j, choice, hlabel⟩) i hwakes
  · obtain ⟨left, s', hleft, hmatched, hagree⟩ :=
      (pair_unwinding m rounds r).run hrun (alone_agrees_start hinit)
    exact ⟨left, s', hleft, System.labels_of_matched hmatched,
      fun i => congrFun hagree.threads i⟩

end

/-! ## Both packages at once -/

/-- One page mapped of a block that begins in the middle of a page. -/
def onePageMapping : DeviceMapping where
  map := kernelMap
  remap := remapAll
  kmallocPtr := 0xC0001001
  unloaded := bootPointers
  vma := onePage
  maps := remapAll_mapsRange
  direct := by decide
  valid := onePage_valid
  page := by decide
  granted := rfl

/-- Nobody has called yet. -/
def packagesStart : PackagesConfig :=
  ⟨⟨fun _ => mwaitBarrierInit ⟨0, 0, 0, 0, 0⟩ ThreadCount.two.word,
    ⟨fun _ => MWMON_ORIGINAL_VAL, fun _ => none⟩⟩, fun _ => .start⟩

theorem packagesStart_init : packagesInit onePageMapping packagesStart :=
  ⟨fun _ => ⟨_, rfl⟩, fun _ => rfl, fun _ => rfl⟩

/-- In both packages thread 0 goes to sleep, by turns. Then the long is stored, and thread 1
of the second package arrives and notifies. -/
def packagesLabels : List PackageLabel :=
  ((List.replicate 10 [.thread (.first, thread0) none, .thread (.second, thread0) none]).flatten ++
    [.lint none 1]) ++ List.replicate 6 (.thread (.second, thread1) none)

/-- The steps of that run. -/
def packagesSteps : List (PackagesConfig × PackageLabel) :=
  System.trace (packagesNext onePageMapping fun _ => 1) packagesStart packagesLabels

/-- Erased, the second package leaves a run of the first. -/
theorem packages_do_not_interfere_first :
    ∃ left s', (packagesSystem onePageMapping fun _ => 1).Run packagesStart left s' ∧
      List.Forall₂ (SameStep onePageMapping (fun _ => 1) .first) left
        (packagesSteps.filter fun x => x.2.package ≠ some .second) := by
  obtain ⟨⟨left, s', hrun, hsame, -⟩, -⟩ :=
    packages_do_not_interfere packagesStart_init (System.run_trace packagesLabels) .first
  exact ⟨left, s', hrun, hsame⟩

end Htsynch
