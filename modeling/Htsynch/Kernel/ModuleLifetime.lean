/-
# How long the monitored page lives

The pointers to the page belong to the kernel, the page to a module that comes and goes.
`kmem_mapper_init` sets the pointers one after the other, when the device can be opened
already, and gives up without a trace in them when `kmalloc` fails.
`kmem_mapper_exit` frees the page and leaves the pointers as they are. An open file keeps
the module loaded; a process inside one of the system calls does not.

The calls of this module are those of the 2.6.13.1 kernel with two regions. Whoever opens
the device while it is registered enters the open handler.
-/

import Htsynch.Foundations.LiveBlocks
import Htsynch.Kernel.KernelRegion
import Htsynch.Kernel.KmemMmap
import Mathlib.Data.Finset.Basic
import Mathlib.Data.Fintype.Basic

namespace Htsynch

open Foundations

/-- Where `kmem_mapper_init` is, from `cdev_add` on. -/
inductive InitPc
  /-- `kmalloc(LEN + 2 * PAGE_SIZE, GFP_KERNEL)`. -/
  | kmalloc
  /-- The assignment to `mwmon_mmap_area`. -/
  | area
  /-- The assignment to `mwmon_mmap_area2`. -/
  | area2
  /-- A store of the loop over the first ten bytes of the regions. -/
  | fill (i : Fin 10) (r : Region)
  /-- The assignment to `mwmon_lint_var_addr`. -/
  | lint
  deriving DecidableEq

/-- What the module is doing. -/
inductive ModuleStage
  | unloaded
  | initializing (pc : InitPc)
  | live
  deriving DecidableEq

/-- What the module and the system calls share. -/
structure ModuleState (ι : Type) where
  machine : Machine ι
  heap : Heap
  ptrs : Pointers
  stage : ModuleStage
  /-- `kmalloc_ptr`. -/
  kmallocPtr : Addr
  /-- Whether the device can be opened. -/
  registered : Bool
  /-- The processes that have the device open or mapped. -/
  holders : Finset ι

/-- How much `kmem_mapper_init` asks for. -/
def blockSize : ℕ := LEN + 2 * PAGE_SIZE

variable {ι : Type} [DecidableEq ι]

/-- One step of `kmem_mapper_init`, with the allocator's answer where it asks for one. -/
def kmemMapperInitStep (c : ι) (answer : Addr) (s : ModuleState ι) :
    InitPc → Option (ModuleState ι)
  | .kmalloc =>
      if answer = 0 then some { s with stage := .unloaded, kmallocPtr := 0 }
      else if s.heap.Fresh answer blockSize then
        some { s with
          heap := s.heap.alloc answer blockSize
          stage := .initializing .area
          kmallocPtr := answer }
      else none
  | .area =>
      let area := (kmemMapperInit s.kmallocPtr s.ptrs).mwmonMmapArea
      some { s with
        ptrs := { s.ptrs with mwmonMmapArea := area }
        stage := .initializing .area2 }
  | .area2 =>
      let area2 := s.ptrs.mwmonMmapArea + MONITORED_REGIONS_DISTANCE
      some { s with
        ptrs := { s.ptrs with mwmonMmapArea2 := area2 }
        stage := .initializing (.fill firstIndex .first) }
  | .fill i r =>
      let o := kmemMapperOpen s.ptrs c i r s.machine
      some { s with
        machine := o.1
        stage :=
          match o.2 with
          | some (i', r') => .initializing (.fill i' r')
          | none => .initializing .lint }
  | .lint =>
      let lint := s.ptrs.mwmonMmapArea + MWMON_LINT_VAR_OFFSET
      some { s with ptrs := { s.ptrs with mwmonLintVarAddr := lint }, stage := .live }

/-- `kmem_mapper_exit`. -/
def kmemMapperExit (s : ModuleState ι) : ModuleState ι :=
  { s with heap := s.heap.free s.kmallocPtr, stage := .unloaded, registered := false }

/-- What may happen next. -/
inductive ModuleChoice
  /-- The module is loaded, and its initialization runs up to `cdev_add`. -/
  | load
  | init (answer : Addr)
  | unload
  | openDevice
  | close
  /-- A process makes a system call, or goes on with what it is doing. -/
  | act (choice : ProcessChoice)
  deriving DecidableEq

/-- One step. -/
def moduleStep : Program ι (ModuleState ι) Process ModuleChoice
  | _, .load, s, .user =>
      if s.stage = .unloaded then
        some ({ s with stage := .initializing .kmalloc, registered := true }, .user)
      else none
  | c, .init answer, s, .user =>
      match s.stage with
      | .initializing pc => (kmemMapperInitStep c answer s pc).map fun s' => (s', .user)
      | _ => none
  | _, .unload, s, .user =>
      if s.stage = .live ∧ s.holders = ∅ then some (kmemMapperExit s, .user) else none
  | c, .openDevice, s, .user =>
      if s.registered then
        some ({ s with holders := insert c s.holders }, .opening firstIndex .first)
      else none
  | c, .close, s, .user => some ({ s with holders := s.holders.erase c }, .user)
  | _, .act .openDevice, _, _ => none
  | c, .act choice, s, p =>
      (process s.ptrs c choice s.machine p).map fun r => ({ s with machine := r.1 }, r.2)
  | _, _, _, _ => none

/-- After boot: the pointers are 0 and no module was loaded yet. -/
def moduleInit (s : Config ι (ModuleState ι) Process) : Prop :=
  s.shared.heap = .empty ∧ s.shared.stage = .unloaded ∧ s.shared.holders = ∅ ∧
    s.shared.registered = false ∧ s.shared.ptrs.mwmonMmapArea = 0 ∧
    s.shared.ptrs.mwmonMmapArea2 = 0 ∧ s.shared.ptrs.mwmonLintVarAddr = 0 ∧
    ∀ i, s.threads i = .user

/-- Loading, unloading, opening, and any number of processes that make system calls. -/
def moduleSystem (ι : Type) [DecidableEq ι] :
    System (Config ι (ModuleState ι) Process) (ι × ModuleChoice) :=
  interleave moduleInit moduleStep

/-- The calls that sleep on the page. -/
def SleepCall.OnPage : SleepCall → Prop
  | .mmapSleep => True
  | .mmapSleep2 => True
  | _ => False

instance : DecidablePred SleepCall.OnPage := fun call => by
  cases call <;> unfold SleepCall.OnPage <;> infer_instance

/-- What a step of `sys_mwmon_mmap_spin_while_greater` accesses. -/
def SpinWhilePc.accesses (ptrs : Pointers) : SpinWhilePc → List Addr
  | .test => (List.range 8).map (ptrs.mwmonLintVarAddr + ·)
  | .monitor => [ptrs.mwmonMmapArea]
  | .reset => [ptrs.mwmonMmapArea]
  | _ => []

/-- What a process's next step accesses through the pointers to the page. -/
def Process.accesses (ptrs : Pointers) : Process → List Addr
  | .user => []
  | .opening i r => [r.byte ptrs + i]
  | .asleep call pc => if call.OnPage ∧ pc.Touches then [call.target ptrs] else []
  | .spinning _ pc => pc.accesses ptrs

/-- What the next step of the initialization accesses through them. -/
def ModuleStage.accesses (ptrs : Pointers) : ModuleStage → List Addr
  | .initializing (.fill i r) => [r.byte ptrs + i]
  | _ => []

/-- What a step accesses through them. -/
def pageAccesses (s : Config ι (ModuleState ι) Process) : ι × ModuleChoice → List Addr
  | (_, .init _) => s.shared.stage.accesses s.shared.ptrs
  | (i, .act .step) => (s.threads i).accesses s.shared.ptrs
  | _ => []

/-! ## Runs that respect the life of the page -/

/-- The module that is loaded has set the pointers to the regions. -/
def ModuleStage.AreasSet : ModuleStage → Prop
  | .initializing (.fill _ _) => True
  | .initializing .lint => True
  | .live => True
  | _ => False

instance : DecidablePred ModuleStage.AreasSet := fun stage => by
  unfold ModuleStage.AreasSet
  split <;> infer_instance

/-- What a process is in the middle of. -/
inductive Activity
  | user
  | opening
  | asleep (call : SleepCall)
  | spinning
  deriving DecidableEq

def Process.activity : Process → Activity
  | .user => .user
  | .opening _ _ => .opening
  | .asleep call _ => .asleep call
  | .spinning _ _ => .spinning

/-- A process is inside a system call on the page. -/
def Activity.InPageCall : Activity → Prop
  | .asleep call => call.OnPage
  | .spinning => True
  | _ => False

instance : DecidablePred Activity.InPageCall := fun a => by
  unfold Activity.InPageCall
  split <;> infer_instance

/-- The device is opened, and a region slept on, when the loaded module has set the
pointers to the regions; the counter is waited for when the module is up; the module goes
when nobody is inside a call on the page. -/
def InLifetime (s : Config ι (ModuleState ι) Process) : ι × ModuleChoice → Prop
  | (_, .openDevice) => s.shared.stage.AreasSet
  | (_, .act (.sleep call)) => call.OnPage → s.shared.stage.AreasSet
  | (_, .act (.spinWhileGreater _)) => s.shared.stage = .live
  | (_, .unload) => ∀ i, ¬ (s.threads i).activity.InPageCall
  | _ => True

instance [Fintype ι] (s : Config ι (ModuleState ι) Process) :
    DecidablePred (InLifetime s) := fun label => by
  unfold InLifetime
  split <;> infer_instance

/-- The steps of the system. -/
inductive ModuleMove (c : ι) (s : ModuleState ι) :
    Process → ModuleChoice → ModuleState ι → Process → Prop
  | load (hstage : s.stage = .unloaded) :
      ModuleMove c s .user .load
        { s with stage := .initializing .kmalloc, registered := true } .user
  | init (answer : Addr) (pc : InitPc) (s' : ModuleState ι) (hstage : s.stage = .initializing pc)
      (hrun : kmemMapperInitStep c answer s pc = some s') :
      ModuleMove c s .user (.init answer) s' .user
  | unload (hstage : s.stage = .live) (hholders : s.holders = ∅) :
      ModuleMove c s .user .unload (kmemMapperExit s) .user
  | openDevice :
      ModuleMove c s .user .openDevice { s with holders := insert c s.holders } (.opening 0 .first)
  | close : ModuleMove c s .user .close { s with holders := s.holders.erase c } .user
  | act (p p' : Process) (choice : ProcessChoice) (h' : Machine ι) (hchoice : choice ≠ .openDevice)
      (hrun : process s.ptrs c choice s.machine p = some (h', p')) :
      ModuleMove c s p (.act choice) { s with machine := h' } p'

section

variable {c : ι} {s s' : ModuleState ι} {p p' : Process} {choice : ModuleChoice}

/-- A process makes its own steps with the pointers as they are. -/
theorem moduleStep_act {choice : ProcessChoice} (hchoice : choice ≠ .openDevice) :
    moduleStep c (.act choice) s p =
      (process s.ptrs c choice s.machine p).map fun r => ({ s with machine := r.1 }, r.2) := by
  cases choice with
  | openDevice => exact absurd rfl hchoice
  | _ => cases p <;> rfl

theorem moduleStep_cases (hstep : moduleStep c choice s p = some (s', p')) :
    ModuleMove c s p choice s' p' := by
  cases choice with
  | act choice =>
      by_cases hchoice : choice = .openDevice
      · subst hchoice
        cases p <;> cases hstep
      · rw [moduleStep_act hchoice] at hstep
        obtain ⟨r, hrun, hr⟩ := Option.map_eq_some_iff.mp hstep
        obtain ⟨rfl, rfl⟩ := Prod.mk.inj hr
        exact .act _ _ _ _ hchoice hrun
  | load =>
      cases p with
      | user =>
          obtain ⟨hstage, hs'⟩ := Option.ite_none_right_eq_some.mp hstep
          obtain ⟨rfl, rfl⟩ := Prod.mk.inj (Option.some.inj hs')
          exact .load hstage
      | _ => cases hstep
  | init answer =>
      cases p with
      | user =>
          cases hstage : s.stage with
          | initializing pc =>
              simp only [moduleStep, hstage] at hstep
              obtain ⟨s'', hrun, hr⟩ := Option.map_eq_some_iff.mp hstep
              obtain ⟨rfl, rfl⟩ := Prod.mk.inj hr
              exact .init answer pc _ hstage hrun
          | _ => simp [moduleStep, hstage] at hstep
      | _ => cases hstep
  | unload =>
      cases p with
      | user =>
          obtain ⟨⟨hstage, hholders⟩, hs'⟩ := Option.ite_none_right_eq_some.mp hstep
          obtain ⟨rfl, rfl⟩ := Prod.mk.inj (Option.some.inj hs')
          exact .unload hstage hholders
      | _ => cases hstep
  | openDevice =>
      cases p with
      | user =>
          obtain ⟨-, hs'⟩ := Option.ite_none_right_eq_some.mp hstep
          obtain ⟨rfl, rfl⟩ := Prod.mk.inj (Option.some.inj hs')
          exact .openDevice
      | _ => cases hstep
  | close =>
      cases p with
      | user =>
          obtain ⟨rfl, rfl⟩ := Prod.mk.inj (Option.some.inj hstep)
          exact .close
      | _ => cases hstep

/-- An interrupt leaves a process in the middle of what it is doing. -/
theorem onProcess_activity (i : Interrupt) (p : Process) :
    (i.onProcess p).activity = p.activity := by
  cases p with
  | spinning cond pc => cases pc <;> rfl
  | _ => rfl

/-- What a process is in the middle of changes when a call begins and when it returns. -/
theorem process_activity {ptrs : Pointers} {choice : ProcessChoice} {h h' : Machine ι}
    (hstep : process ptrs c choice h p = some (h', p')) :
    p'.activity = p.activity ∨ p'.activity = .user ∨ choice = .openDevice ∨
      (∃ call, choice = .sleep call ∧ p'.activity = .asleep call) ∨
      ∃ cond, choice = .spinWhileGreater cond ∧ p'.activity = .spinning := by
  cases process_cases hstep with
  | openDevice => exact .inr (.inr (.inl rfl))
  | sleep call => exact .inr (.inr (.inr (.inl ⟨call, rfl, rfl⟩)))
  | spinWhileGreater cond => exact .inr (.inr (.inr (.inr ⟨cond, rfl, rfl⟩)))
  | interrupt i => exact .inl (onProcess_activity i p)
  | opened => exact .inr (.inl rfl)
  | woken => exact .inr (.inl rfl)
  | spun => exact .inr (.inl rfl)
  | _ => exact .inl rfl

end

section

variable (s : ModuleState ι)

/-- The block that `kmalloc_ptr` points to is live. -/
def HasBlock : Prop :=
  ∃ b, s.heap.Live b ∧ b.base = s.kmallocPtr ∧ b.size = blockSize

/-- `mwmon_mmap_area` is the first page boundary in it. -/
def AreaSet : Prop :=
  s.ptrs.mwmonMmapArea = (kmemMapperInit s.kmallocPtr s.ptrs).mwmonMmapArea

def Area2Set : Prop :=
  s.ptrs.mwmonMmapArea2 = s.ptrs.mwmonMmapArea + MONITORED_REGIONS_DISTANCE

def LintSet : Prop :=
  s.ptrs.mwmonLintVarAddr = s.ptrs.mwmonMmapArea + MWMON_LINT_VAR_OFFSET

/-- What holds at a stage. -/
def PageReady : ModuleStage → Prop
  | .unloaded => True
  | .initializing .kmalloc => True
  | .initializing .area => HasBlock s
  | .initializing .area2 => HasBlock s ∧ AreaSet s
  | .initializing (.fill _ _) => HasBlock s ∧ AreaSet s ∧ Area2Set s
  | .initializing .lint => HasBlock s ∧ AreaSet s ∧ Area2Set s
  | .live => (HasBlock s ∧ AreaSet s ∧ Area2Set s) ∧ LintSet s

end

section

variable {c : ι} {s s' : ModuleState ι} {answer : Addr} {pc : InitPc} {off : ℕ} {r : Region}

/-- Where the bytes of the page lie, as seen from the start of the block. -/
theorem pageByte_bounds (p : ℕ) (hoff : off < LEN) :
    p ≤ (p + PAGE_SIZE - 1) / PAGE_SIZE * PAGE_SIZE + off ∧
      (p + PAGE_SIZE - 1) / PAGE_SIZE * PAGE_SIZE + off < p + blockSize := by
  obtain ⟨hleft, hright⟩ := roundUp_bounds p
  refine ⟨Nat.le_add_right_of_le hleft, ?_⟩
  calc (p + PAGE_SIZE - 1) / PAGE_SIZE * PAGE_SIZE + off
      < p + PAGE_SIZE + LEN := Nat.add_lt_add hright hoff
    _ ≤ p + blockSize := by
      rw [Nat.add_assoc]
      exact Nat.add_le_add_left (by decide) p

omit [DecidableEq ι] in
/-- Every byte of the page is a byte of the block. -/
theorem pageByte_live (hblock : HasBlock s) (harea : AreaSet s) (hoff : off < LEN) :
    s.heap.LiveByte (s.ptrs.mwmonMmapArea + off) := by
  obtain ⟨b, hlive, hbase, hsize⟩ := hblock
  refine ⟨b, hlive, ?_⟩
  rw [Block.Covers, hbase, hsize, harea]
  exact pageByte_bounds s.kmallocPtr hoff

omit [DecidableEq ι] in
/-- So are the first ten bytes of the two regions. -/
theorem regionByte_live (hready : HasBlock s ∧ AreaSet s ∧ Area2Set s) (hoff : off < 10) :
    s.heap.LiveByte (r.byte s.ptrs + off) := by
  obtain ⟨hblock, harea, harea2⟩ := hready
  cases r with
  | first => exact pageByte_live hblock harea (Nat.lt_trans hoff (by decide))
  | second =>
      have hsum : MONITORED_REGIONS_DISTANCE + off < LEN := by
        unfold MONITORED_REGIONS_DISTANCE LEN
        omega
      rw [Region.byte, harea2, Nat.add_assoc]
      exact pageByte_live hblock harea hsum

omit [DecidableEq ι] in
/-- So is the `long` that counts. -/
theorem lintByte_live (hready : HasBlock s ∧ AreaSet s ∧ Area2Set s) (hlint : LintSet s)
    (hoff : off < 8) : s.heap.LiveByte (s.ptrs.mwmonLintVarAddr + off) := by
  have hsum : MWMON_LINT_VAR_OFFSET + off < LEN := by
    unfold MWMON_LINT_VAR_OFFSET LEN
    omega
  rw [hlint, Nat.add_assoc]
  exact pageByte_live hready.1 hready.2.1 hsum

omit [DecidableEq ι] in
/-- Where the pointers to the regions are set, they point into a live block. -/
theorem PageReady.of_areasSet {stage : ModuleStage} (hready : PageReady s stage)
    (hset : stage.AreasSet) : HasBlock s ∧ AreaSet s ∧ Area2Set s := by
  cases stage with
  | unloaded => cases hset
  | live => exact hready.1
  | initializing pc =>
      cases pc with
      | fill i r => exact hready
      | lint => exact hready
      | _ => cases hset

/-- The initialization sets up one stage after the other. -/
theorem kmemMapperInitStep_ready (hrun : kmemMapperInitStep c answer s pc = some s')
    (hready : PageReady s (.initializing pc)) : PageReady s' s'.stage := by
  cases pc with
  | kmalloc =>
      by_cases hanswer : answer = 0
      · rw [kmemMapperInitStep, if_pos hanswer] at hrun
        obtain rfl := Option.some.inj hrun
        exact trivial
      · rw [kmemMapperInitStep, if_neg hanswer] at hrun
        obtain ⟨-, hs'⟩ := Option.ite_none_right_eq_some.mp hrun
        obtain rfl := Option.some.inj hs'
        exact ⟨_, Heap.live_alloc.mpr (.inl rfl), rfl, rfl⟩
  | area =>
      obtain rfl := Option.some.inj hrun
      exact ⟨hready, rfl⟩
  | area2 =>
      obtain rfl := Option.some.inj hrun
      exact ⟨hready.1, hready.2, rfl⟩
  | fill i r =>
      obtain rfl := Option.some.inj hrun
      dsimp only
      split
      · exact hready
      · exact hready
  | lint =>
      obtain rfl := Option.some.inj hrun
      exact ⟨hready, rfl⟩

/-- It never takes a pointer back that it has set. -/
theorem kmemMapperInitStep_areasSet (hrun : kmemMapperInitStep c answer s pc = some s')
    (hset : (ModuleStage.initializing pc).AreasSet) : s'.stage.AreasSet := by
  cases pc with
  | fill i r =>
      obtain rfl := Option.some.inj hrun
      dsimp only
      split <;> exact trivial
  | lint =>
      obtain rfl := Option.some.inj hrun
      exact trivial
  | _ => cases hset

theorem kmemMapperInitStep_holders (hrun : kmemMapperInitStep c answer s pc = some s') :
    s'.holders = s.holders := by
  cases pc with
  | kmalloc =>
      by_cases hanswer : answer = 0
      · rw [kmemMapperInitStep, if_pos hanswer] at hrun
        obtain rfl := Option.some.inj hrun
        rfl
      · rw [kmemMapperInitStep, if_neg hanswer] at hrun
        obtain ⟨-, hs'⟩ := Option.ite_none_right_eq_some.mp hrun
        obtain rfl := Option.some.inj hs'
        rfl
  | _ =>
      obtain rfl := Option.some.inj hrun
      rfl

end

/-! ## The invariant -/

/-- What a process relies on while it is in the middle of something. -/
def Activity.Needs : Activity → ModuleStage → Prop
  | .user, _ => True
  | .opening, stage => stage.AreasSet
  | .asleep call, stage => call.OnPage → stage.AreasSet
  | .spinning, stage => stage = .live

/-- What holds in runs that respect the life of the page. -/
structure ModuleInv (s : Config ι (ModuleState ι) Process) : Prop where
  page : PageReady s.shared s.shared.stage
  needs : ∀ i, (s.threads i).activity.Needs s.shared.stage
  holders : ∀ i, (s.threads i).activity = .opening → i ∈ s.shared.holders

/-- A stage that has set at least as much serves as well. -/
theorem Activity.Needs.mono {a : Activity} {stage stage' : ModuleStage} (hneeds : a.Needs stage)
    (hset : stage.AreasSet → stage'.AreasSet) (hlive : stage = .live → stage' = .live) :
    a.Needs stage' := by
  cases a with
  | user => exact trivial
  | opening => exact hset hneeds
  | asleep call => exact fun hpage => hset (hneeds hpage)
  | spinning => exact hlive hneeds

section

variable {s t : Config ι (ModuleState ι) Process} {label : ι × ModuleChoice}

omit [DecidableEq ι] in
theorem moduleInv_of_init (hinit : moduleInit s) : ModuleInv s := by
  obtain ⟨-, hstage, -, -, -, -, -, huser⟩ := hinit
  constructor
  case page =>
    rw [hstage]
    exact trivial
  case needs =>
    intro i
    rw [huser i]
    exact trivial
  case holders =>
    intro i hopening
    rw [huser i] at hopening
    cases hopening

/-- A move, given what it leaves to the mover and to the others. -/
theorem ModuleInv.of_move {who : ι} {shared : ModuleState ι} {own : Process}
    (hpage : PageReady shared shared.stage) (hneeds : own.activity.Needs shared.stage)
    (hneeds' : ∀ i ≠ who, (s.threads i).activity.Needs shared.stage)
    (hholds : own.activity = .opening → who ∈ shared.holders)
    (hholds' : ∀ i ≠ who, (s.threads i).activity = .opening → i ∈ shared.holders) :
    ModuleInv (s.move who shared own) := by
  constructor
  case page => exact hpage
  case needs =>
    intro i
    by_cases hi : i = who
    · subst i
      rw [Config.move_threads_self]
      exact hneeds
    · rw [Config.move_threads_of_ne hi]
      exact hneeds' i hi
  case holders =>
    intro i hopening
    by_cases hi : i = who
    · subst i
      rw [Config.move_threads_self] at hopening
      exact hholds hopening
    · rw [Config.move_threads_of_ne hi] at hopening
      exact hholds' i hi hopening

namespace ModuleInv

variable {who : ι} {shared : ModuleState ι} {own : Process}

/-- What the others need and hold, they need and hold as before. -/
theorem keep (hinv : ModuleInv s) (hpage : PageReady shared shared.stage)
    (hneeds : own.activity.Needs shared.stage)
    (hset : s.shared.stage.AreasSet → shared.stage.AreasSet)
    (hlive : s.shared.stage = .live → shared.stage = .live)
    (hholds : own.activity = .opening → who ∈ shared.holders)
    (hold : ∀ i ≠ who, i ∈ s.shared.holders → i ∈ shared.holders) :
    ModuleInv (s.move who shared own) :=
  of_move hpage hneeds (fun i _ => (hinv.needs i).mono hset hlive) hholds
    fun i hi hopening => hold i hi (hinv.holders i hopening)

/-- The module is unloaded while nobody is inside a call that uses the page. -/
theorem unload (hinv : ModuleInv s) (hallow : InLifetime s (who, .unload))
    (hholders : s.shared.holders = ∅) :
    ModuleInv (s.move who (kmemMapperExit s.shared) .user) := by
  refine of_move trivial trivial (fun i _ => ?_) (fun hopening => by cases hopening)
    fun i _ hopening => hinv.holders i hopening
  have hfree := hallow i
  cases hactivity : (s.threads i).activity with
  | user => exact trivial
  | opening =>
      have hmem := hinv.holders i hactivity
      rw [hholders] at hmem
      exact absurd hmem (Finset.notMem_empty i)
  | asleep call =>
      rw [hactivity] at hfree
      exact fun hpage => absurd hpage hfree
  | spinning =>
      rw [hactivity] at hfree
      exact absurd trivial hfree

/-- A process makes a system call, or goes on with what it is doing. -/
theorem act (hinv : ModuleInv s) {choice : ProcessChoice} (hchoice : choice ≠ .openDevice)
    (hallow : InLifetime s (who, .act choice)) {h' : Machine ι}
    (hprocess : process s.shared.ptrs who choice s.shared.machine (s.threads who) =
      some (h', own)) :
    ModuleInv (s.move who { s.shared with machine := h' } own) := by
  have hneeds : own.activity.Needs s.shared.stage ∧
      (own.activity = .opening → (s.threads who).activity = .opening) := by
    rcases process_activity hprocess with hsame | huser | hopen | ⟨call, rfl, hown⟩ |
      ⟨cond, rfl, hown⟩
    · rw [hsame]
      exact ⟨hinv.needs who, id⟩
    · rw [huser]
      exact ⟨trivial, fun hopening => by cases hopening⟩
    · exact absurd hopen hchoice
    · rw [hown]
      exact ⟨hallow, fun hopening => by cases hopening⟩
    · rw [hown]
      exact ⟨hallow, fun hopening => by cases hopening⟩
  exact hinv.keep hinv.page hneeds.1 id id
    (fun hopening => hinv.holders who (hneeds.2 hopening)) fun _ _ => id

/-- A step that respects the life of the page keeps the invariant. -/
theorem step (hinv : ModuleInv s) (hallow : InLifetime s label)
    (hstep : (moduleSystem ι).step s label t) : ModuleInv t := by
  obtain ⟨who, choice⟩ := label
  obtain ⟨shared, own, hrun, rfl⟩ := interleave_step_iff.mp hstep
  have hmove := moduleStep_cases hrun
  generalize hthread : s.threads who = p at hmove
  cases hmove with
  | load hstage =>
      refine hinv.keep trivial trivial ?_ ?_ (fun hopening => by cases hopening) fun _ _ => id
      · rw [hstage]
        exact fun hset => by cases hset
      · rw [hstage]
        exact fun hlive => by cases hlive
  | init answer pc _ hstage hinit =>
      have hpage := hinv.page
      rw [hstage] at hpage
      refine hinv.keep (kmemMapperInitStep_ready hinit hpage) trivial ?_ ?_
        (fun hopening => by cases hopening) ?_
      · rw [hstage]
        exact kmemMapperInitStep_areasSet hinit
      · rw [hstage]
        exact fun hlive => by cases hlive
      · rw [kmemMapperInitStep_holders hinit]
        exact fun _ _ => id
  | unload _ hholders => exact hinv.unload hallow hholders
  | openDevice =>
      exact hinv.keep hinv.page hallow id id (fun _ => Finset.mem_insert_self _ _)
        fun _ _ hmem => Finset.mem_insert_of_mem hmem
  | close =>
      exact hinv.keep hinv.page trivial id id (fun hopening => by cases hopening)
        fun _ hi hmem => Finset.mem_erase_of_ne_of_mem hi hmem
  | act _ _ choice h' hchoice hprocess =>
      rw [← hthread] at hprocess
      exact hinv.act hchoice hallow hprocess

end ModuleInv

theorem moduleInv_of_reachable (hreach : (moduleSystem ι).ReachableVia InLifetime s) :
    ModuleInv s :=
  hreach.invariant (fun _ => moduleInv_of_init) fun _ _ _ hinv hallow => hinv.step hallow

omit [DecidableEq ι] in
/-- What a process accesses is live if the stages have set up what it needs. -/
theorem Process.accesses_live {s : ModuleState ι} {p : Process} {a : Addr}
    (hready : PageReady s s.stage) (hneeds : p.activity.Needs s.stage)
    (ha : a ∈ p.accesses s.ptrs) : s.heap.LiveByte a := by
  cases p with
  | user => cases ha
  | opening i r =>
      obtain rfl := List.mem_singleton.mp ha
      exact regionByte_live (hready.of_areasSet hneeds) i.isLt
  | asleep call pc =>
      obtain ⟨⟨hpage, -⟩, ha⟩ := List.mem_ite_nil_right.mp ha
      obtain rfl := List.mem_singleton.mp ha
      have hregions := hready.of_areasSet (hneeds hpage)
      cases call with
      | mmapSleep => exact regionByte_live (r := .first) hregions (by decide : 0 < 10)
      | mmapSleep2 => exact regionByte_live (r := .second) hregions (by decide : 0 < 10)
      | _ => cases hpage
  | spinning cond pc =>
      have hlive : s.stage = .live := hneeds
      rw [hlive] at hready
      obtain ⟨hregions, hlint⟩ := hready
      cases pc with
      | test =>
          obtain ⟨off, hoff, rfl⟩ := List.mem_map.mp ha
          exact lintByte_live hregions hlint (List.mem_range.mp hoff)
      | monitor =>
          obtain rfl := List.mem_singleton.mp ha
          exact regionByte_live (r := .first) hregions (by decide : 0 < 10)
      | reset =>
          obtain rfl := List.mem_singleton.mp ha
          exact regionByte_live (r := .first) hregions (by decide : 0 < 10)
      | _ => cases ha

/-- In runs that respect the life of the page, whatever is accessed through the pointers
is a byte of a live block. -/
theorem moduleSystem_accesses_live (hreach : (moduleSystem ι).ReachableVia InLifetime s)
    (label : ι × ModuleChoice) :
    ∀ a ∈ pageAccesses s label, s.shared.heap.LiveByte a := by
  have hinv := moduleInv_of_reachable hreach
  obtain ⟨who, choice⟩ := label
  intro a ha
  cases choice with
  | init answer =>
      have hpage := hinv.page
      cases hstage : s.shared.stage with
      | initializing pc =>
          simp only [pageAccesses, hstage] at ha
          rw [hstage] at hpage
          cases pc with
          | fill i r =>
              obtain rfl := List.mem_singleton.mp ha
              exact regionByte_live hpage i.isLt
          | _ => cases ha
      | _ =>
          simp only [pageAccesses, hstage] at ha
          cases ha
  | act choice =>
      cases choice with
      | step => exact Process.accesses_live hinv.page (hinv.needs who) ha
      | _ => cases ha
  | _ => cases ha

end

/-- After boot, with two processes. -/
def moduleStart : Config (Fin 2) (ModuleState (Fin 2)) Process :=
  ⟨⟨⟨fun _ => MWMON_ORIGINAL_VAL, fun _ => none⟩, .empty, ⟨0, 0, 0, 0⟩, .unloaded, 0, false, ∅⟩,
    fun _ => .user⟩

/-- The states of a run from there. -/
def moduleRun (labels : List (Fin 2 × ModuleChoice)) :
    Config (Fin 2) (ModuleState (Fin 2)) Process :=
  System.exec (Program.next moduleStep) moduleStart labels

theorem moduleRun_reachable (labels : List (Fin 2 × ModuleChoice)) :
    (moduleSystem (Fin 2)).Reachable (moduleRun labels) :=
  System.reachable_exec _ (.of_init ⟨rfl, rfl, rfl, rfl, rfl, rfl, rfl, fun _ => rfl⟩)

/-- Process 1 loads the module, and the block is at 4096. -/
def loadModule : List (Fin 2 × ModuleChoice) :=
  (thread1, .load) :: List.replicate 24 (thread1, .init 4096)

/-- Process 0 enters `sys_mwmon_mmap_sleep` and takes four steps, up to MWAIT. -/
def fallAsleep : List (Fin 2 × ModuleChoice) :=
  (thread0, .act (.sleep .mmapSleep)) :: List.replicate 4 (thread0, .act .step)

/-- Before the module is loaded a sleep arms its monitor on address 0. A process that is
asleep when the module is unloaded looks at the freed page once it is awake. -/
theorem sleep_accesses_dead_byte :
    ((moduleSystem (Fin 2)).Reachable
        (moduleRun [(0, .act (.sleep .mmapSleep)), (0, .act .step)]) ∧
      pageAccesses (moduleRun [(0, .act (.sleep .mmapSleep)), (0, .act .step)])
        (0, .act .step) = [0] ∧
      ¬ (moduleRun [(0, .act (.sleep .mmapSleep)), (0, .act .step)]).shared.heap.LiveByte 0) ∧
    (moduleSystem (Fin 2)).Reachable (moduleRun (loadModule ++ fallAsleep ++
        [(1, .unload), (0, .act (.interrupt ⟨true, true⟩))])) ∧
      pageAccesses (moduleRun (loadModule ++ fallAsleep ++
        [(1, .unload), (0, .act (.interrupt ⟨true, true⟩))])) (0, .act .step) = [4096] ∧
      ¬ (moduleRun (loadModule ++ fallAsleep ++
        [(1, .unload), (0, .act (.interrupt ⟨true, true⟩))])).shared.heap.LiveByte 4096 := by
  refine ⟨⟨moduleRun_reachable _, by decide, by decide⟩, moduleRun_reachable _, by decide, ?_⟩
  decide

/-- A load that fails leaves the device registered: whoever opens it then stores to
address 0. -/
theorem open_accesses_dead_byte :
    (moduleSystem (Fin 2)).Reachable (moduleRun [(1, .load), (1, .init 0), (0, .openDevice)]) ∧
      pageAccesses (moduleRun [(1, .load), (1, .init 0), (0, .openDevice)])
        (0, .act .step) = [0] ∧
      ¬ (moduleRun [(1, .load), (1, .init 0), (0, .openDevice)]).shared.heap.LiveByte 0 :=
  ⟨moduleRun_reachable _, by decide, by decide⟩

/-- A process is about to arm its monitor, and the module is up. -/
def aboutToArm : Config (Fin 2) (ModuleState (Fin 2)) Process :=
  System.exec (System.guarded InLifetime (Program.next moduleStep)) moduleStart
    (loadModule ++ [(thread0, .act (.sleep .mmapSleep)), (thread0, .act .step)])

theorem aboutToArm_reachable : (moduleSystem (Fin 2)).ReachableVia InLifetime aboutToArm :=
  System.reachableVia_exec _ (.of_init ⟨rfl, rfl, rfl, rfl, rfl, rfl, rfl, fun _ => rfl⟩)

theorem moduleSystem_accesses_live_asleep : aboutToArm.shared.heap.LiveByte 4096 :=
  moduleSystem_accesses_live aboutToArm_reachable (thread0, .act .step) 4096 (by decide)

end Htsynch
