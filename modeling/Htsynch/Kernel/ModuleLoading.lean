/-
# What loading and unloading leave in the kernel

`kmem_mapper_init` takes four things in turn: a region of device numbers, a character
device, a block of memory, and the reserved mark on the block's page. Three of these can
fail, and the function returns at each failure. It gives back nothing of what it has
taken. When the region itself is not to be had it gives back a region all the same, and
that is somebody else's when one is registered for the same number and count.
`kmem_mapper_exit` gives back all four.

The kernel's own functions answer as they please, except that no region is registered
over another one.
-/

import Htsynch.Foundations.RangeTable
import Htsynch.Kernel.ModuleLifetime

namespace Htsynch

open Foundations

def KMEM_MAPPER_MAJOR : ℕ := 201
def EBUSY : ℤ := 16

/-- What the driver finds in the kernel it is built for and loaded into. -/
structure KernelSetting where
  map : DirectMap
  /-- `MKDEV`. -/
  mkdev : ℕ → ℕ → ℕ
  /-- Where the module's `kmem_mapper_cdev` is. -/
  kmemMapperCdev : Addr

/-- `MKDEV(kmem_mapper_major, kmem_mapper_minor)`. -/
def KernelSetting.devno (setting : KernelSetting) : ℕ := setting.mkdev KMEM_MAPPER_MAJOR 0

/-- The region that the driver asks for. -/
def KernelSetting.region (setting : KernelSetting) : Range String where
  first := setting.devno
  count := 1
  label := "kmem_mapper"
  count_pos := by decide

/-- What the functions of the kernel answer that can fail. -/
structure KernelAnswers where
  registerChrdevRegion : ℤ
  cdevAdd : ℤ
  kmalloc : Addr

/-- What `kmem_mapper_init` and `kmem_mapper_exit` read and write. -/
structure KernelState (ι : Type) where
  /-- The registered regions of device numbers, with the names of their drivers. -/
  chrdevs : RangeTable String
  /-- The addresses of the character devices that were added. -/
  cdevs : Finset Addr
  heap : Heap
  /-- The page frames that are marked reserved. -/
  reserved : Finset ℕ
  machine : Machine ι
  ptrs : Pointers
  /-- `kmalloc_ptr`. -/
  kmallocPtr : Addr

namespace KernelState

variable {ι : Type}

def registerChrdevRegion (answer : ℤ) (r : Range String) (k : KernelState ι) :
    ℤ × KernelState ι :=
  if answer < 0 then (answer, k)
  else
    match k.chrdevs.register r with
    | none => (-EBUSY, k)
    | some chrdevs => (0, { k with chrdevs })

def unregisterChrdevRegion (devno count : ℕ) (k : KernelState ι) : KernelState ι :=
  { k with chrdevs := k.chrdevs.unregister devno count }

def cdevAdd (answer : ℤ) (p : Addr) (k : KernelState ι) : ℤ × KernelState ι :=
  if answer < 0 then (answer, k) else (0, { k with cdevs := insert p k.cdevs })

def cdevDel (p : Addr) (k : KernelState ι) : KernelState ι :=
  { k with cdevs := k.cdevs.erase p }

def kmalloc (answer : Addr) (size : ℕ) (k : KernelState ι) : Addr × KernelState ι :=
  if answer = 0 then (0, k) else (answer, { k with heap := k.heap.alloc answer size })

def kfree (p : Addr) (k : KernelState ι) : KernelState ι :=
  { k with heap := k.heap.free p }

/-- `SetPageReserved`, for each of the frames. -/
def setPageReserved (frames : List ℕ) (k : KernelState ι) : KernelState ι :=
  { k with reserved := k.reserved ∪ frames.toFinset }

/-- `ClearPageReserved`, for each of the frames. -/
def clearPageReserved (frames : List ℕ) (k : KernelState ι) : KernelState ι :=
  { k with reserved := k.reserved \ frames.toFinset }

/-- The driver's region is to be had. -/
def CanRegister (setting : KernelSetting) (answers : KernelAnswers) (k : KernelState ι) : Prop :=
  0 ≤ answers.registerChrdevRegion ∧ k.chrdevs.Free setting.region

instance (setting : KernelSetting) (answers : KernelAnswers) (k : KernelState ι) :
    Decidable (k.CanRegister setting answers) :=
  inferInstanceAs (Decidable (_ ∧ _))

section

variable {setting : KernelSetting} {answers : KernelAnswers} {k : KernelState ι}

theorem registerChrdevRegion_of_can (hcan : k.CanRegister setting answers) :
    k.registerChrdevRegion answers.registerChrdevRegion setting.region =
      (0, { k with chrdevs := k.chrdevs.insert setting.region hcan.2 }) := by
  rw [registerChrdevRegion, if_neg (Int.not_lt.mpr hcan.1), RangeTable.register_of_free hcan.2]

/-- A call that fails registers nothing. -/
theorem registerChrdevRegion_of_cannot (hcannot : ¬ k.CanRegister setting answers) :
    ∃ ret < 0,
      k.registerChrdevRegion answers.registerChrdevRegion setting.region = (ret, k) := by
  by_cases hanswer : answers.registerChrdevRegion < 0
  · exact ⟨answers.registerChrdevRegion, hanswer, if_pos hanswer⟩
  · have hfull : ¬ k.chrdevs.Free setting.region := fun hfree =>
      hcannot ⟨Int.not_lt.mp hanswer, hfree⟩
    refine ⟨-EBUSY, by decide, ?_⟩
    rw [registerChrdevRegion, if_neg hanswer, RangeTable.register_of_not_free hfull]

end

variable [DecidableEq ι]

/-- The two stores of the loop over the regions, which is that of `kmem_mapper_open`. -/
def fillBytes (c : ι) (ptrs : Pointers) (h : Machine ι) (i : Fin 10) : Machine ι :=
  (kmemMapperOpen ptrs c i .second (kmemMapperOpen ptrs c i .first h).1).1

/-- The loop over the first ten bytes of the regions. -/
def fillAreas (c : ι) (ptrs : Pointers) (h : Machine ι) : Machine ι :=
  (List.finRange 10).foldl (fillBytes c ptrs) h

/-- What `kmem_mapper_init` does with its block. -/
def setUpAreas (setting : KernelSetting) (c : ι) (k : KernelState ι) : KernelState ι :=
  let ptrs := Htsynch.kmemMapperInit k.kmallocPtr k.ptrs
  setPageReserved (reservedFrames setting.map ptrs)
    { k with ptrs, machine := fillAreas c ptrs k.machine }

/-- `kmem_mapper_init`, on processor `c`: what it returns, and what it leaves. -/
def kmemMapperInit (setting : KernelSetting) (c : ι) (answers : KernelAnswers)
    (k : KernelState ι) : ℤ × KernelState ι :=
  let registered := k.registerChrdevRegion answers.registerChrdevRegion setting.region
  if registered.1 < 0 then
    (registered.1, registered.2.unregisterChrdevRegion setting.devno 1)
  else
    let added := registered.2.cdevAdd answers.cdevAdd setting.kmemMapperCdev
    if added.1 < 0 then added
    else
      let allocated := added.2.kmalloc answers.kmalloc blockSize
      let k : KernelState ι := { allocated.2 with kmallocPtr := allocated.1 }
      if k.kmallocPtr = 0 then (-1, k) else (0, k.setUpAreas setting c)

/-- `kmem_mapper_exit`. -/
def kmemMapperExit (setting : KernelSetting) (k : KernelState ι) : KernelState ι :=
  (((k.clearPageReserved (reservedFrames setting.map k.ptrs)).kfree k.kmallocPtr).cdevDel
    setting.kmemMapperCdev).unregisterChrdevRegion setting.devno 1

/-- The four things that the driver takes are as they were. -/
structure SameRegistries (k k' : KernelState ι) : Prop where
  chrdevs : k'.chrdevs = k.chrdevs
  cdevs : k'.cdevs = k.cdevs
  live : ∀ b, k'.heap.Live b ↔ k.heap.Live b
  reserved : k'.reserved = k.reserved

/-- A load that ends there and fails has left nothing, and one that succeeds leaves nothing
when it is undone. -/
structure EndsCleanly (setting : KernelSetting) (k : KernelState ι) (o : ℤ × KernelState ι) :
    Prop where
  failed : o.1 ≠ 0 → SameRegistries k o.2
  undone : o.1 = 0 → SameRegistries k (o.2.kmemMapperExit setting)

/-- Loading is all or nothing, and unloading undoes it. -/
def LoadsCleanly (setting : KernelSetting) (c : ι) (answers : KernelAnswers)
    (k : KernelState ι) : Prop :=
  EndsCleanly setting k (k.kmemMapperInit setting c answers)

/-- The frame of the first page that begins in a block. -/
def firstFrame (setting : KernelSetting) (p : Addr) : ℕ :=
  setting.map.virtToPhys (roundUp PAGE_SIZE p) >>> PAGE_SHIFT

/-! ## Where a load ends -/

section

variable {setting : KernelSetting} {c : ι} {answers : KernelAnswers} {k : KernelState ι}

/-- What is left when nothing has failed, before the block is set up. -/
def withBlock (k : KernelState ι) (hcan : k.CanRegister setting answers) : KernelState ι :=
  { k with
    chrdevs := k.chrdevs.insert setting.region hcan.2
    cdevs := insert setting.kmemMapperCdev k.cdevs
    heap := k.heap.alloc answers.kmalloc blockSize
    kmallocPtr := answers.kmalloc }

/-- What `kmem_mapper_init` returns and leaves at each of its ends. -/
inductive Loading (setting : KernelSetting) (c : ι) (answers : KernelAnswers)
    (k : KernelState ι) : ℤ × KernelState ι → Prop
  | noRegion (ret : ℤ) (hcannot : ¬ k.CanRegister setting answers) (hret : ret < 0) :
      Loading setting c answers k (ret, k.unregisterChrdevRegion setting.devno 1)
  | noDevice (hcan : k.CanRegister setting answers) (hadd : answers.cdevAdd < 0) :
      Loading setting c answers k
        (answers.cdevAdd, { k with chrdevs := k.chrdevs.insert setting.region hcan.2 })
  | noMemory (hcan : k.CanRegister setting answers) (hadd : 0 ≤ answers.cdevAdd)
      (hkmalloc : answers.kmalloc = 0) :
      Loading setting c answers k
        (-1, { k with
          chrdevs := k.chrdevs.insert setting.region hcan.2
          cdevs := insert setting.kmemMapperCdev k.cdevs
          kmallocPtr := 0 })
  | loaded (hcan : k.CanRegister setting answers) (hadd : 0 ≤ answers.cdevAdd)
      (hkmalloc : answers.kmalloc ≠ 0) :
      Loading setting c answers k
        (0, setUpAreas setting c (k.withBlock hcan))

/-- These are all the ends that there are. -/
theorem kmemMapperInit_cases (setting : KernelSetting) (c : ι) (answers : KernelAnswers)
    (k : KernelState ι) :
    Loading setting c answers k (k.kmemMapperInit setting c answers) := by
  by_cases hcan : k.CanRegister setting answers
  · have hregistered := registerChrdevRegion_of_can hcan
    by_cases hadd : answers.cdevAdd < 0
    · have hend : k.kmemMapperInit setting c answers = (answers.cdevAdd,
          { k with chrdevs := k.chrdevs.insert setting.region hcan.2 }) := by
        simp [kmemMapperInit, hregistered, cdevAdd, hadd]
      rw [hend]
      exact .noDevice hcan hadd
    · by_cases hkmalloc : answers.kmalloc = 0
      · have hend : k.kmemMapperInit setting c answers = (-1, { k with
            chrdevs := k.chrdevs.insert setting.region hcan.2
            cdevs := insert setting.kmemMapperCdev k.cdevs
            kmallocPtr := 0 }) := by
          simp [kmemMapperInit, hregistered, cdevAdd, hadd, kmalloc, hkmalloc]
        rw [hend]
        exact .noMemory hcan (Int.not_lt.mp hadd) hkmalloc
      · have hend : k.kmemMapperInit setting c answers = (0,
            setUpAreas setting c (k.withBlock hcan)) := by
          simp [kmemMapperInit, hregistered, cdevAdd, hadd, kmalloc, hkmalloc, withBlock]
        rw [hend]
        exact .loaded hcan (Int.not_lt.mp hadd) hkmalloc
  · obtain ⟨ret, hret, hfailed⟩ := registerChrdevRegion_of_cannot hcan
    have hend : k.kmemMapperInit setting c answers =
        (ret, k.unregisterChrdevRegion setting.devno 1) := by
      simp [kmemMapperInit, hfailed, hret]
    rw [hend]
    exact .noRegion ret hcan hret

/-! ## Which ends are clean -/

omit [DecidableEq ι] in
/-- Giving a region back that was not to be had is harmless when nobody has it. -/
theorem endsCleanly_noRegion_iff {ret : ℤ} (hret : ret < 0) :
    EndsCleanly setting k (ret, k.unregisterChrdevRegion setting.devno 1) ↔
      ¬ k.chrdevs.TakenAt setting.devno 1 := by
  constructor
  · intro hclean
    exact RangeTable.unregister_eq_self_iff.mp (hclean.failed (Int.ne_of_lt hret)).chrdevs
  · intro hnone
    constructor
    case failed =>
      exact fun _ => ⟨RangeTable.unregister_eq_self_iff.mpr hnone, rfl, fun _ => Iff.rfl, rfl⟩
    case undone => exact fun hzero => absurd hzero (Int.ne_of_lt hret)

omit [DecidableEq ι] in
/-- A load that fails and keeps its region is not clean. -/
theorem not_endsCleanly_of_region {o : ℤ × KernelState ι} (hret : o.1 ≠ 0)
    (hcan : k.CanRegister setting answers)
    (hkept : o.2.chrdevs = k.chrdevs.insert setting.region hcan.2) :
    ¬ EndsCleanly setting k o := fun hclean =>
  RangeTable.insert_ne hcan.2 (hkept.symm.trans (hclean.failed hret).chrdevs)

/-- Unloading takes the device away, wherever it came from. -/
theorem exit_loaded_cdevs (hcan : k.CanRegister setting answers) :
    ((setUpAreas setting c (k.withBlock hcan)).kmemMapperExit setting).cdevs =
      k.cdevs.erase setting.kmemMapperCdev :=
  Finset.erase_insert_eq_erase _ _

/-- So it does with the mark of the page. -/
theorem exit_loaded_reserved (hcan : k.CanRegister setting answers) :
    ((setUpAreas setting c (k.withBlock hcan)).kmemMapperExit setting).reserved =
      k.reserved.erase (firstFrame setting answers.kmalloc) := by
  have hframes : reservedFrames setting.map (Htsynch.kmemMapperInit answers.kmalloc k.ptrs) =
      [firstFrame setting answers.kmalloc] := reservedFrames_eq
  have hmarks : ((setUpAreas setting c (k.withBlock hcan)).kmemMapperExit setting).reserved =
      (k.reserved ∪ [firstFrame setting answers.kmalloc].toFinset) \
        [firstFrame setting answers.kmalloc].toFinset := by
    rw [← hframes]
    rfl
  rw [hmarks, Finset.union_sdiff_right, List.toFinset_cons, List.toFinset_nil,
    Finset.insert_empty, Finset.sdiff_singleton_eq_erase]

/-- Unloading restores all that loading has changed, if neither was there before. -/
theorem endsCleanly_loaded_iff (hcan : k.CanRegister setting answers)
    (hkmalloc : answers.kmalloc ≠ 0) :
    EndsCleanly setting k (0, setUpAreas setting c (k.withBlock hcan)) ↔
      setting.kmemMapperCdev ∉ k.cdevs ∧ firstFrame setting answers.kmalloc ∉ k.reserved := by
  constructor
  · intro hclean
    obtain ⟨-, hcdevs, -, hreserved⟩ := hclean.undone rfl
    rw [exit_loaded_cdevs hcan] at hcdevs
    rw [exit_loaded_reserved hcan] at hreserved
    exact ⟨Finset.erase_eq_self.mp hcdevs, Finset.erase_eq_self.mp hreserved⟩
  · rintro ⟨hcdev, hframe⟩
    constructor
    case failed => exact fun hne => absurd rfl hne
    case undone =>
      intro _
      constructor
      case chrdevs => exact RangeTable.unregister_insert hcan.2
      case cdevs =>
        rw [exit_loaded_cdevs hcan]
        exact Finset.erase_eq_of_notMem hcdev
      case live => exact fun b => Heap.live_free_alloc hkmalloc
      case reserved =>
        rw [exit_loaded_reserved hcan]
        exact Finset.erase_eq_of_notMem hframe

/-- Where the region was to be had, every end keeps it. -/
theorem Loading.chrdevs {o : ℤ × KernelState ι} (hend : Loading setting c answers k o)
    (hcan : k.CanRegister setting answers) :
    o.2.chrdevs = k.chrdevs.insert setting.region hcan.2 := by
  cases hend with
  | noRegion ret hcannot => exact absurd hcan hcannot
  | noDevice => rfl
  | noMemory => rfl
  | loaded => rfl

/-- A load that stumbles over its own region takes it away, and fails whatever the kernel
answers; the load after it has a chance again. -/
theorem reload_fails (hcan : k.CanRegister setting answers) (answers' : KernelAnswers) :
    ((k.kmemMapperInit setting c answers).2.kmemMapperInit setting c answers').1 < 0 ∧
      ((k.kmemMapperInit setting c answers).2.kmemMapperInit setting c answers').2.chrdevs =
        k.chrdevs := by
  have hkept := (kmemMapperInit_cases setting c answers k).chrdevs hcan
  generalize (k.kmemMapperInit setting c answers).2 = k' at hkept ⊢
  have hcannot : ¬ k'.CanRegister setting answers' := by
    rintro ⟨-, hfree⟩
    rw [hkept] at hfree
    exact RangeTable.not_free_insert setting.region.not_apart_self hfree
  generalize hend : k'.kmemMapperInit setting c answers' = o
  have hcases := kmemMapperInit_cases setting c answers' k'
  rw [hend] at hcases
  cases hcases with
  | noRegion ret _ hret =>
      refine ⟨hret, ?_⟩
      rw [unregisterChrdevRegion, hkept]
      exact RangeTable.unregister_insert hcan.2
  | noDevice hcan' => exact absurd hcan' hcannot
  | noMemory hcan' => exact absurd hcan' hcannot
  | loaded hcan' => exact absurd hcan' hcannot

/-! ## The steps of the module's life -/

/-- A step of the initialization, with the allocator's answer. -/
def InitStep (c : ι) (answer : Addr) (s s' : ModuleState ι) : Prop :=
  ∃ pc, s.stage = .initializing pc ∧ kmemMapperInitStep c answer s pc = some s'

/-- What the module and the system calls share, in a kernel where the module is at that
stage. -/
def shared (stage : ModuleStage) (registered : Bool) (holders : Finset ι)
    (k : KernelState ι) : ModuleState ι where
  machine := k.machine
  heap := k.heap
  ptrs := k.ptrs
  stage := stage
  kmallocPtr := k.kmallocPtr
  registered := registered
  holders := holders

/-- Two steps of the loop. -/
theorem initSteps_fillBytes (c : ι) (answer : Addr) {s : ModuleState ι} {i : Fin 10}
    (hstage : s.stage = .initializing (.fill i .first)) :
    Relation.ReflTransGen (InitStep c answer) s
      { s with
        machine := fillBytes c s.ptrs s.machine i
        stage :=
          if hnext : i.val + 1 < 10 then .initializing (.fill ⟨i.val + 1, hnext⟩ .first)
          else .initializing .lint } := by
  have hfirst : InitStep c answer s
      { s with
        machine := (kmemMapperOpen s.ptrs c i .first s.machine).1
        stage := .initializing (.fill i .second) } := ⟨_, hstage, rfl⟩
  refine .head hfirst (.single ⟨_, rfl, ?_⟩)
  by_cases hnext : i.val + 1 < 10
  · simp [kmemMapperInitStep, kmemMapperOpen, fillBytes, hnext]
  · simp [kmemMapperInitStep, kmemMapperOpen, fillBytes, hnext]

/-- The steps of the loop from byte `i` on, with `m` bytes to go after it. -/
theorem initSteps_fill (c : ι) (answer : Addr) {s : ModuleState ι} (m : ℕ) {i : ℕ}
    (hi : i + m + 1 = 10) (hstage : s.stage = .initializing (.fill ⟨i, by omega⟩ .first)) :
    Relation.ReflTransGen (InitStep c answer) s
      { s with
        machine := ((List.finRange 10).drop i).foldl (fillBytes c s.ptrs) s.machine
        stage := .initializing .lint } := by
  have hbytes := initSteps_fillBytes c answer hstage
  have hlen : i < (List.finRange 10).length := by
    rw [List.length_finRange]
    omega
  induction m generalizing i s with
  | zero =>
      have hlast : ¬ i + 1 < 10 := by omega
      have hrest : (List.finRange 10).drop i = [⟨i, by omega⟩] := by
        obtain rfl : i = 9 := by omega
        rfl
      rw [dif_neg hlast] at hbytes
      rw [hrest]
      exact hbytes
  | succ m ih =>
      have hnext : i + 1 < 10 := by omega
      rw [dif_pos hnext] at hbytes
      rw [List.drop_eq_getElem_cons hlen, List.getElem_finRange, List.foldl_cons]
      refine hbytes.trans ?_
      have hrest := ih (s := { s with
        machine := fillBytes c s.ptrs s.machine ⟨i, by omega⟩
        stage := .initializing (.fill ⟨i + 1, hnext⟩ .first) }) (i := i + 1) (by omega) rfl
        (initSteps_fillBytes c answer rfl) (by rw [List.length_finRange]; exact hnext)
      exact hrest

/-- The loop does not look at the other pointers. -/
theorem fillAreas_eq (c : ι) {ptrs ptrs' : Pointers} (h : Machine ι)
    (harea : ptrs'.mwmonMmapArea = ptrs.mwmonMmapArea)
    (harea2 : ptrs'.mwmonMmapArea2 = ptrs.mwmonMmapArea2) :
    fillAreas c ptrs' h = fillAreas c ptrs h := by
  have hbytes : fillBytes c ptrs' = fillBytes c ptrs := by
    funext h i
    simp only [fillBytes, kmemMapperOpen, harea, harea2]
  rw [fillAreas, fillAreas, hbytes]

/-- `setUpAreas` is what the steps of the initialization do after `kmalloc`. -/
theorem initSteps_setUpAreas (setting : KernelSetting) (c : ι) (answer : Addr)
    (registered : Bool) (holders : Finset ι) (k : KernelState ι) :
    Relation.ReflTransGen (InitStep c answer)
      (k.shared (.initializing .area) registered holders)
      ((k.setUpAreas setting c).shared .live registered holders) := by
  let ptrs := Htsynch.kmemMapperInit k.kmallocPtr k.ptrs
  let s := k.shared (.initializing .area) registered holders
  let s₁ : ModuleState ι := { s with
    ptrs := { s.ptrs with mwmonMmapArea := ptrs.mwmonMmapArea }
    stage := .initializing .area2 }
  let s₂ : ModuleState ι := { s₁ with
    ptrs := { s₁.ptrs with mwmonMmapArea2 := ptrs.mwmonMmapArea2 }
    stage := .initializing (.fill firstIndex .first) }
  have harea : InitStep c answer s s₁ := ⟨_, rfl, rfl⟩
  have harea2 : InitStep c answer s₁ s₂ := ⟨_, rfl, rfl⟩
  have hfill : Relation.ReflTransGen (InitStep c answer) s₂
      { s₂ with machine := fillAreas c s₂.ptrs k.machine, stage := .initializing .lint } :=
    initSteps_fill c answer 9 (Eq.refl 10) rfl
  have hsame : fillAreas c s₂.ptrs k.machine = fillAreas c ptrs k.machine :=
    fillAreas_eq c k.machine rfl rfl
  rw [hsame] at hfill
  have hlint : InitStep c answer
      { s₂ with machine := fillAreas c ptrs k.machine, stage := .initializing .lint }
      ((k.setUpAreas setting c).shared .live registered holders) := by
    refine ⟨.lint, rfl, ?_⟩
    simp only [kmemMapperInitStep, shared, setUpAreas, setPageReserved]
    rfl
  exact .head harea (.head harea2 (hfill.tail hlint))

/-- A load takes the steps that the initialization takes from `kmalloc` on, when the
allocator answers with a new block. -/
theorem initSteps_kmemMapperInit (registered : Bool) (holders : Finset ι)
    (hcan : k.CanRegister setting answers) (hadd : 0 ≤ answers.cdevAdd)
    (hfresh : k.heap.Fresh answers.kmalloc blockSize) :
    Relation.ReflTransGen (InitStep c answers.kmalloc)
      (k.shared (.initializing .kmalloc) registered holders)
      ((k.kmemMapperInit setting c answers).2.shared .live registered holders) := by
  generalize hend : k.kmemMapperInit setting c answers = o
  have hcases := kmemMapperInit_cases setting c answers k
  rw [hend] at hcases
  cases hcases with
  | noRegion ret hcannot => exact absurd hcan hcannot
  | noDevice _ hnone => exact absurd hnone (Int.not_lt.mpr hadd)
  | noMemory _ _ hnone => exact absurd hnone hfresh.1
  | loaded _ _ hsome =>
      refine .head ⟨.kmalloc, rfl, ?_⟩
        (initSteps_setUpAreas setting c answers.kmalloc registered holders _)
      rw [kmemMapperInitStep, if_neg hsome]
      exact if_pos hfresh

omit [DecidableEq ι] in
/-- An unload is the step of the module's life. -/
theorem shared_kmemMapperExit (registered : Bool) (holders : Finset ι) :
    (k.kmemMapperExit setting).shared .unloaded false holders =
      Htsynch.kmemMapperExit (k.shared .live registered holders) := rfl

end

end KernelState

open KernelState

/-- Loading is all or nothing in two cases. Either the region cannot be registered, and
nobody has a region with just that number and count; or nothing fails, and neither the
device was added nor the page marked before. -/
theorem loadsCleanly_iff {ι : Type} [DecidableEq ι] (setting : KernelSetting) (c : ι)
    (answers : KernelAnswers) (k : KernelState ι) :
    LoadsCleanly setting c answers k ↔
      (¬ k.CanRegister setting answers ∧ ¬ k.chrdevs.TakenAt setting.devno 1) ∨
        (k.CanRegister setting answers ∧ 0 ≤ answers.cdevAdd ∧ answers.kmalloc ≠ 0 ∧
          setting.kmemMapperCdev ∉ k.cdevs ∧
          firstFrame setting answers.kmalloc ∉ k.reserved) := by
  unfold LoadsCleanly
  generalize hend : k.kmemMapperInit setting c answers = o
  have hcases := kmemMapperInit_cases setting c answers k
  rw [hend] at hcases
  cases hcases with
  | noRegion ret hcannot hret =>
      rw [endsCleanly_noRegion_iff hret]
      simp [hcannot]
  | noDevice hcan hadd =>
      refine iff_of_false (not_endsCleanly_of_region (Int.ne_of_lt hadd) hcan rfl) ?_
      rintro (⟨hcannot, -⟩ | ⟨-, hadded, -⟩)
      · exact hcannot hcan
      · exact Int.not_lt.mpr hadded hadd
  | noMemory hcan hadd hkmalloc =>
      refine iff_of_false (not_endsCleanly_of_region (by decide : (-1 : ℤ) ≠ 0) hcan rfl) ?_
      rintro (⟨hcannot, -⟩ | ⟨-, -, hallocated, -⟩)
      · exact hcannot hcan
      · exact hallocated hkmalloc
  | loaded hcan hadd hkmalloc =>
      rw [endsCleanly_loaded_iff hcan hkmalloc]
      simp [hcan, hadd, hkmalloc]

/-- A kernel with 20 bits for the minor number. -/
def kernelSetting : KernelSetting := ⟨kernelMap, fun ma mi => ma <<< 20 ||| mi, 0xF8801000⟩

/-- The device number of `kmem_mapper`, under another name. -/
def otherRegion : Range String := ⟨kernelSetting.devno, 1, "other", by decide⟩

/-- Another driver is there, and nothing else. -/
def otherKernel : KernelState (Fin 2) where
  chrdevs := RangeTable.empty.insert otherRegion fun _ hmem => absurd hmem (Finset.notMem_empty _)
  cdevs := ∅
  heap := .empty
  reserved := ∅
  machine := kmemStart.shared
  ptrs := bootPointers
  kmallocPtr := 0

def willingAnswers : KernelAnswers := ⟨0, 0, 0xC0001000⟩

/-- The load fails because the device number is taken, and takes it from the other driver. -/
theorem other_region_removed :
    (otherKernel.kmemMapperInit kernelSetting thread0 willingAnswers).1 = -EBUSY ∧
      otherRegion ∈ otherKernel.chrdevs.ranges ∧
      otherRegion ∉
        (otherKernel.kmemMapperInit kernelSetting thread0 willingAnswers).2.chrdevs.ranges ∧
      ¬ LoadsCleanly kernelSetting thread0 willingAnswers otherKernel := by
  have hret : (otherKernel.kmemMapperInit kernelSetting thread0 willingAnswers).1 = -EBUSY := by
    decide
  have hbefore : otherRegion ∈ otherKernel.chrdevs.ranges := by decide
  have hafter : otherRegion ∉
      (otherKernel.kmemMapperInit kernelSetting thread0 willingAnswers).2.chrdevs.ranges := by
    decide
  refine ⟨hret, hbefore, hafter, fun hclean => hafter ?_⟩
  have hsame := (hclean.failed (by rw [hret]; decide)).chrdevs
  rw [hsame]
  exact hbefore

end Htsynch
