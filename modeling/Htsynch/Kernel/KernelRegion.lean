/-
# The region of the kernel-side sleep and notify calls

`sys_mwmon_kernel_init` allocates the monitored bytes, rounds their address up to
`MWMON_ALIGN_BOUNDARY` and keeps only the rounded address. `sys_mwmon_kernel_finalize`
frees what was kept, which is the base of the block only if nothing was rounded. Nor does
anything record whether there is a region: the calls may be made in any order, by any
process, and a region may be freed while somebody sleeps on it.

The discipline holds in runs that keep the order of the calls and free nobody's bed, as
long as the allocator's answers happen to be aligned.
-/

import Htsynch.Foundations.Alignment
import Htsynch.Foundations.Interleaving
import Htsynch.Foundations.LiveBlocks
import Htsynch.Kernel.Mwmon
import Mathlib.Data.Int.Notation

namespace Htsynch

open Foundations

def MWMON_ALIGN_BOUNDARY : ℕ := 64
def ENOMEM : ℤ := 12

/-- The next multiple of `alignment`. -/
def alignUp (alignment : ℕ) (p : Addr) : Addr := (p + alignment - 1) / alignment * alignment

/-- `my_kmalloc_align`, given what `kmalloc` answers to a request for
`size + alignment - 1` bytes. -/
def myKmallocAlign (alignment : ℕ) (answer : Addr) : Addr :=
  if answer = 0 then 0 else alignUp alignment answer

variable {ι : Type} [DecidableEq ι]

/-- `memset`. -/
def memset (c : ι) (p : Addr) (v : Byte) (n : ℕ) (h : Machine ι) : Machine ι :=
  (List.range n).foldl (fun h i => h.store c (p + i) v) h

/-- What the calls share. -/
structure KernelRegion (ι : Type) where
  machine : Machine ι
  heap : Heap
  ptrs : Pointers

/-- How many bytes `sys_mwmon_kernel_init` asks for. -/
def regionSize : ℕ := MWMON_MONITORED_MEM_BYTES + MWMON_ALIGN_BOUNDARY - 1

/-- `sys_mwmon_kernel_init`. -/
def sysMwmonKernelInit (c : ι) (answer : Addr) (s : KernelRegion ι) : ℤ × KernelRegion ι :=
  let heap := if answer = 0 then s.heap else s.heap.alloc answer regionSize
  let p := myKmallocAlign MWMON_ALIGN_BOUNDARY answer
  let ptrs := { s.ptrs with mwmonKernelMemory := p }
  if p = 0 then (-ENOMEM, ⟨s.machine, heap, ptrs⟩)
  else (0, ⟨memset c p MWMON_ORIGINAL_VAL MWMON_MONITORED_MEM_BYTES s.machine, heap, ptrs⟩)

/-- `sys_mwmon_kernel_finalize`. -/
def sysMwmonKernelFinalize (s : KernelRegion ι) : ℤ × KernelRegion ι :=
  (0, { s with heap := s.heap.free s.ptrs.mwmonKernelMemory })

/-- The calls a process may make, and what may happen while it sleeps. -/
inductive RegionChoice
  /-- `sys_mwmon_kernel_init`, with the allocator's answer. -/
  | init (answer : Addr)
  | notify
  | finalize
  | sleep
  | step
  | interrupt (i : Interrupt)
  deriving DecidableEq

/-- One step of a process. Only a sleep takes more than one: its place, if there is one. -/
def regionCall : Program ι (KernelRegion ι) (Option SleepPc) RegionChoice
  | c, .init answer, s, none =>
      if answer = 0 ∨ s.heap.Fresh answer regionSize then
        some ((sysMwmonKernelInit c answer s).2, none)
      else none
  | c, .notify, s, none =>
      some ({ s with machine := sysMwmonKernelNotify s.ptrs c s.machine }, none)
  | _, .finalize, s, none => some ((sysMwmonKernelFinalize s).2, none)
  | _, .sleep, s, none => some (s, some .irqDisable)
  | c, .step, s, some pc =>
      (sysMwmonKernelSleep s.ptrs c pc s.machine).map fun r =>
        ({ s with machine := r.1 },
          match r.2 with
          | .goto pc' => some pc'
          | .returned => none)
  | c, .interrupt i, s, place =>
      some ({ s with machine := i.onMachine c s.machine }, place.map i.onSleeper)
  | _, _, _, _ => none

/-- After boot: no region, and nobody in a call. -/
def regionInit (s : Config ι (KernelRegion ι) (Option SleepPc)) : Prop :=
  s.shared.heap = .empty ∧ s.shared.ptrs.mwmonKernelMemory = 0 ∧ ∀ i, s.threads i = none

/-- Any number of processes that make the calls. -/
def regionSystem (ι : Type) [DecidableEq ι] :
    System (Config ι (KernelRegion ι) (Option SleepPc)) (ι × RegionChoice) :=
  interleave regionInit regionCall

/-- Whether a step of a sleep call touches the byte it sleeps on. -/
def SleepPc.Touches : SleepPc → Prop
  | .monitor => True
  | .check => True
  | .recheck => True
  | .reset => True
  | _ => False

instance : DecidablePred SleepPc.Touches := fun pc => by
  cases pc <;> unfold SleepPc.Touches <;> infer_instance

/-- The step touches the first byte of the region. -/
def TouchesRegion (s : Config ι (KernelRegion ι) (Option SleepPc)) : ι × RegionChoice → Prop
  | (_, .notify) => True
  | (i, .step) => ∃ pc, s.threads i = some pc ∧ pc.Touches
  | _ => False

/-- A step keeps the discipline: `finalize` frees 0 or the base of a live block, no block
has been freed twice, every block that is still live can be reached from the pointer,
and a byte that a sleep or a notification touches is live. -/
structure KeepsDiscipline (s : Config ι (KernelRegion ι) (Option SleepPc))
    (label : ι × RegionChoice) (t : Config ι (KernelRegion ι) (Option SleepPc)) : Prop where
  kfree : label.2 = .finalize → s.shared.heap.MayFree s.shared.ptrs.mwmonKernelMemory
  once : t.shared.heap.frees.Nodup
  reachable : ∀ b, t.shared.heap.Live b → b.Covers t.shared.ptrs.mwmonKernelMemory
  touches : TouchesRegion s label → s.shared.heap.LiveByte s.shared.ptrs.mwmonKernelMemory

/-- There is a region. -/
def RegionLive (s : Config ι (KernelRegion ι) (Option SleepPc)) : Prop :=
  ∃ b, s.shared.heap.Live b

/-- The calls in order: `init` when there is no region, a sleep or a notification when
there is one, and `finalize` when the pointer is 0, or when the region's block is aligned
and nobody sleeps. -/
def InOrder (s : Config ι (KernelRegion ι) (Option SleepPc)) : ι × RegionChoice → Prop
  | (_, .init _) => ¬ RegionLive s
  | (_, .notify) => RegionLive s
  | (_, .sleep) => RegionLive s
  | (_, .finalize) => s.shared.ptrs.mwmonKernelMemory = 0 ∨
      (∀ i, s.threads i = none) ∧ ∃ b, s.shared.heap.Live b ∧ MWMON_ALIGN_BOUNDARY ∣ b.base
  | _ => True

/-- What a step does to the blocks and to the pointer. -/
inductive RegionMove (s : KernelRegion ι) :
    Option SleepPc → RegionChoice → KernelRegion ι → Option SleepPc → Prop
  | failed (s' : KernelRegion ι) (hheap : s'.heap = s.heap)
      (hpointer : s'.ptrs.mwmonKernelMemory = 0) : RegionMove s none (.init 0) s' none
  | init (answer : Addr) (hfresh : s.heap.Fresh answer regionSize) (s' : KernelRegion ι)
      (hheap : s'.heap = s.heap.alloc answer regionSize)
      (hpointer : s'.ptrs.mwmonKernelMemory = alignUp MWMON_ALIGN_BOUNDARY answer) :
      RegionMove s none (.init answer) s' none
  | finalize : RegionMove s none .finalize
      { s with heap := s.heap.free s.ptrs.mwmonKernelMemory } none
  | sleep : RegionMove s none .sleep s (some .irqDisable)
  | inside (place place' : Option SleepPc) (choice : RegionChoice) (s' : KernelRegion ι)
      (hheap : s'.heap = s.heap) (hptrs : s'.ptrs = s.ptrs)
      (hplace : place = none → place' = none) : RegionMove s place choice s' place'

section

variable {c : ι} {answer : Addr} {s s' : KernelRegion ι} {place place' : Option SleepPc}
  {choice : RegionChoice}

theorem sysMwmonKernelInit_heap : (sysMwmonKernelInit c answer s).2.heap =
    if answer = 0 then s.heap else s.heap.alloc answer regionSize := by
  by_cases hp : myKmallocAlign MWMON_ALIGN_BOUNDARY answer = 0 <;>
    simp [sysMwmonKernelInit, hp]

theorem sysMwmonKernelInit_pointer :
    (sysMwmonKernelInit c answer s).2.ptrs.mwmonKernelMemory =
      myKmallocAlign MWMON_ALIGN_BOUNDARY answer := by
  by_cases hp : myKmallocAlign MWMON_ALIGN_BOUNDARY answer = 0 <;>
    simp [sysMwmonKernelInit, hp]

theorem regionCall_cases (hstep : regionCall c choice s place = some (s', place')) :
    RegionMove s place choice s' place' := by
  cases place with
  | none =>
      cases choice with
      | init answer =>
          obtain ⟨hanswer, hs'⟩ := Option.ite_none_right_eq_some.mp hstep
          obtain ⟨rfl, rfl⟩ := Prod.mk.inj (Option.some.inj hs')
          by_cases hzero : answer = 0
          · subst hzero
            exact .failed _ (by rw [sysMwmonKernelInit_heap, if_pos rfl])
              (by rw [sysMwmonKernelInit_pointer, myKmallocAlign, if_pos rfl])
          · exact .init answer (hanswer.resolve_left hzero) _
              (by rw [sysMwmonKernelInit_heap, if_neg hzero])
              (by rw [sysMwmonKernelInit_pointer, myKmallocAlign, if_neg hzero])
      | notify =>
          obtain ⟨rfl, rfl⟩ := Prod.mk.inj (Option.some.inj hstep)
          exact .inside _ _ _ _ rfl rfl id
      | finalize =>
          obtain ⟨rfl, rfl⟩ := Prod.mk.inj (Option.some.inj hstep)
          exact .finalize
      | sleep =>
          obtain ⟨rfl, rfl⟩ := Prod.mk.inj (Option.some.inj hstep)
          exact .sleep
      | step => cases hstep
      | interrupt i =>
          obtain ⟨rfl, rfl⟩ := Prod.mk.inj (Option.some.inj hstep)
          exact .inside _ _ _ _ rfl rfl fun _ => rfl
  | some pc =>
      cases choice with
      | step =>
          obtain ⟨r, -, hr⟩ := Option.map_eq_some_iff.mp hstep
          obtain ⟨rfl, -⟩ := Prod.mk.inj hr
          exact .inside _ _ _ _ rfl rfl fun hnone => by cases hnone
      | interrupt i =>
          obtain ⟨rfl, rfl⟩ := Prod.mk.inj (Option.some.inj hstep)
          exact .inside _ _ _ _ rfl rfl fun hnone => by cases hnone
      | _ => cases hstep

end

/-! ## The invariant -/

/-- Rounding up moves an address by less than the alignment. -/
theorem alignUp_bounds (p : ℕ) :
    p ≤ alignUp MWMON_ALIGN_BOUNDARY p ∧
      alignUp MWMON_ALIGN_BOUNDARY p < p + MWMON_ALIGN_BOUNDARY := by
  have hpos : 0 < MWMON_ALIGN_BOUNDARY := by decide
  exact ⟨le_roundUp hpos p, roundUp_lt hpos p⟩

/-- An address is left as it is exactly when it is aligned. -/
theorem alignUp_eq_iff (p : ℕ) :
    alignUp MWMON_ALIGN_BOUNDARY p = p ↔ MWMON_ALIGN_BOUNDARY ∣ p :=
  roundUp_eq_iff (by decide : 0 < MWMON_ALIGN_BOUNDARY)

/-- What holds in runs that keep the order. -/
structure RegionInv (s : Config ι (KernelRegion ι) (Option SleepPc)) : Prop where
  /-- There is at most one region. -/
  unique : ∀ b b', s.shared.heap.Live b → s.shared.heap.Live b' → b = b'
  /-- The pointer is its base, rounded up. -/
  pointer : ∀ b, s.shared.heap.Live b → b.base ≠ 0 ∧ b.size = regionSize ∧
    s.shared.ptrs.mwmonKernelMemory = alignUp MWMON_ALIGN_BOUNDARY b.base
  once : s.shared.heap.frees.Nodup
  asleep : ∀ i pc, s.threads i = some pc → RegionLive s

variable {s t : Config ι (KernelRegion ι) (Option SleepPc)} {label : ι × RegionChoice}

omit [DecidableEq ι] in
/-- The rounded address is inside the block. -/
theorem RegionInv.covers (hinv : RegionInv s) {b : Block} (hlive : s.shared.heap.Live b) :
    b.Covers s.shared.ptrs.mwmonKernelMemory := by
  obtain ⟨-, hsize, hpointer⟩ := hinv.pointer b hlive
  have hbounds := alignUp_bounds b.base
  rw [Block.Covers, hsize, hpointer]
  exact ⟨hbounds.1, Nat.lt_of_lt_of_le hbounds.2 (Nat.add_le_add_left (by decide) _)⟩

omit [DecidableEq ι] in
/-- The pointer is the base of the block exactly when there was nothing to round. -/
theorem RegionInv.pointer_eq_iff (hinv : RegionInv s) {b : Block}
    (hlive : s.shared.heap.Live b) :
    b.base = s.shared.ptrs.mwmonKernelMemory ↔ MWMON_ALIGN_BOUNDARY ∣ b.base := by
  rw [(hinv.pointer b hlive).2.2, eq_comm, alignUp_eq_iff]

omit [DecidableEq ι] in
/-- After boot there is nothing to hold. -/
theorem regionInv_of_init (hinit : regionInit s) : RegionInv s := by
  obtain ⟨hheap, -, hnone⟩ := hinit
  constructor
  case unique =>
    intro b b' hlive
    rw [hheap] at hlive
    exact absurd hlive Heap.not_live_empty
  case pointer =>
    intro b hlive
    rw [hheap] at hlive
    exact absurd hlive Heap.not_live_empty
  case once =>
    rw [hheap]
    exact List.nodup_nil
  case asleep =>
    intro i pc hasleep
    rw [hnone i] at hasleep
    cases hasleep

omit [DecidableEq ι] in
/-- What `finalize` frees in order it may free. -/
theorem RegionInv.mayFree (hinv : RegionInv s) {i : ι} (hallow : InOrder s (i, .finalize)) :
    s.shared.heap.MayFree s.shared.ptrs.mwmonKernelMemory := by
  rcases hallow with hzero | ⟨-, b, hlive, haligned⟩
  · exact .inl hzero
  · exact .inr ⟨b, hlive, (hinv.pointer_eq_iff hlive).mpr haligned⟩

/-- Who does not go to sleep in a step was asleep before it. -/
theorem asleep_before {who i : ι} {shared : KernelRegion ι} {own : Option SleepPc} {pc : SleepPc}
    (hown : s.threads who = none → own = none)
    (hasleep : (s.move who shared own).threads i = some pc) : ∃ j pc', s.threads j = some pc' := by
  by_cases hi : i = who
  · subst i
    rw [Config.move_threads_self] at hasleep
    cases hbefore : s.threads who with
    | none =>
        rw [hown hbefore] at hasleep
        cases hasleep
    | some pc' => exact ⟨who, pc', hbefore⟩
  · rw [Config.move_threads_of_ne hi] at hasleep
    exact ⟨i, pc, hasleep⟩

namespace RegionInv

variable {who : ι} {shared : KernelRegion ι} {own : Option SleepPc}

/-- A step that neither allocates nor frees. -/
theorem keep (hinv : RegionInv s) (hheap : shared.heap = s.shared.heap)
    (hptrs : RegionLive s →
      shared.ptrs.mwmonKernelMemory = s.shared.ptrs.mwmonKernelMemory)
    (hown : s.threads who = none → own = none) : RegionInv (s.move who shared own) := by
  constructor
  case unique =>
    rw [Config.move_shared, hheap]
    exact hinv.unique
  case pointer =>
    rw [Config.move_shared, hheap]
    intro b hlive
    rw [hptrs ⟨b, hlive⟩]
    exact hinv.pointer b hlive
  case once =>
    rw [Config.move_shared, hheap]
    exact hinv.once
  case asleep =>
    intro i pc hasleep
    obtain ⟨j, pc', hbefore⟩ := asleep_before hown hasleep
    obtain ⟨b, hb⟩ := hinv.asleep j pc' hbefore
    exact ⟨b, by rwa [Config.move_shared, hheap]⟩

/-- A region is allocated while there is none. -/
theorem alloc (hinv : RegionInv s) (hnone : ¬ RegionLive s) {answer : Addr}
    (hanswer : answer ≠ 0) (hheap : shared.heap = s.shared.heap.alloc answer regionSize)
    (hpointer : shared.ptrs.mwmonKernelMemory = alignUp MWMON_ALIGN_BOUNDARY answer)
    (hown : s.threads who = none → own = none) : RegionInv (s.move who shared own) := by
  have honly {b : Block} (hlive : (s.shared.heap.alloc answer regionSize).Live b) :
      b = ⟨s.shared.heap.blocks.length, answer, regionSize⟩ :=
    (Heap.live_alloc.mp hlive).resolve_right fun hold => hnone ⟨b, hold⟩
  constructor
  case unique =>
    rw [Config.move_shared, hheap]
    exact fun b b' hlive hlive' => (honly hlive).trans (honly hlive').symm
  case pointer =>
    rw [Config.move_shared, hheap, hpointer]
    intro b hlive
    rw [honly hlive]
    exact ⟨hanswer, rfl, rfl⟩
  case once =>
    rw [Config.move_shared, hheap]
    exact hinv.once
  case asleep =>
    intro i pc hasleep
    obtain ⟨j, pc', hbefore⟩ := asleep_before hown hasleep
    exact absurd (hinv.asleep j pc' hbefore) hnone

/-- `finalize` frees the region while nobody is asleep, or frees nothing. -/
theorem finalize (hinv : RegionInv s) (hallow : InOrder s (who, .finalize))
    (hown : s.threads who = none → own = none) :
    RegionInv (s.move who
      { s.shared with heap := s.shared.heap.free s.shared.ptrs.mwmonKernelMemory } own) := by
  have hmay := hinv.mayFree hallow
  constructor
  case unique => exact fun b b' hlive hlive' => hinv.unique b b' hlive.of_free hlive'.of_free
  case pointer => exact fun b hlive => hinv.pointer b hlive.of_free
  case once => exact hmay.nodup hinv.once
  case asleep =>
    intro i pc hasleep
    obtain ⟨j, pc', hbefore⟩ := asleep_before hown hasleep
    rcases hallow with hzero | ⟨hnobody, -⟩
    · obtain ⟨b, hb⟩ := hinv.asleep j pc' hbefore
      refine ⟨b, ?_⟩
      rw [Config.move_shared, hzero, Heap.free_zero]
      exact hb
    · rw [hnobody j] at hbefore
      cases hbefore

/-- A step in order keeps the invariant. -/
theorem step (hinv : RegionInv s) (hallow : InOrder s label)
    (hstep : (regionSystem ι).step s label t) : RegionInv t := by
  obtain ⟨who, choice⟩ := label
  obtain ⟨shared, own, hrun, rfl⟩ := interleave_step_iff.mp hstep
  have hmove := regionCall_cases hrun
  generalize hplace : s.threads who = place at hmove
  cases hmove with
  | failed _ hheap =>
      have hnone : ¬ RegionLive s := hallow
      exact hinv.keep hheap (fun hlive => absurd hlive hnone) fun _ => rfl
  | init answer hfresh _ hheap hpointer =>
      exact hinv.alloc hallow hfresh.1 hheap hpointer fun _ => rfl
  | finalize => exact hinv.finalize hallow fun _ => rfl
  | sleep => exact ⟨hinv.unique, hinv.pointer, hinv.once, fun _ _ _ => hallow⟩
  | inside _ _ _ _ hheap hptrs hown =>
      rw [← hplace] at hown
      exact hinv.keep hheap (fun _ => by rw [hptrs]) hown

end RegionInv

theorem regionInv_of_reachable (hreach : (regionSystem ι).ReachableVia InOrder s) :
    RegionInv s :=
  hreach.invariant (fun _ => regionInv_of_init) fun _ _ _ hinv hallow => hinv.step hallow

/-- In a run that keeps the order every step keeps the discipline. -/
theorem regionSystem_disciplined (hreach : (regionSystem ι).ReachableVia InOrder s)
    (hallow : InOrder s label) (hstep : (regionSystem ι).step s label t) :
    KeepsDiscipline s label t := by
  have hinv := regionInv_of_reachable hreach
  have hinv' := hinv.step hallow hstep
  constructor
  case kfree =>
    obtain ⟨who, choice⟩ := label
    rintro rfl
    exact hinv.mayFree hallow
  case once => exact hinv'.once
  case reachable => exact fun b hlive => hinv'.covers hlive
  case touches =>
    have hlive : TouchesRegion s label → RegionLive s := by
      obtain ⟨who, choice⟩ := label
      intro htouches
      cases choice with
      | notify => exact hallow
      | step =>
          obtain ⟨pc, hasleep, -⟩ := htouches
          exact hinv.asleep who pc hasleep
      | _ => cases htouches
    intro htouches
    obtain ⟨b, hb⟩ := hlive htouches
    exact ⟨b, hb, hinv.covers hb⟩

/-- In such a run what `finalize` would free is a base only if the block is aligned. -/
theorem finalize_mayFree_iff (hreach : (regionSystem ι).ReachableVia InOrder s) {b : Block}
    (hlive : s.shared.heap.Live b) :
    s.shared.heap.MayFree s.shared.ptrs.mwmonKernelMemory ↔ MWMON_ALIGN_BOUNDARY ∣ b.base := by
  have hinv := regionInv_of_reachable hreach
  constructor
  · rintro (hzero | ⟨b', hlive', hbase⟩)
    · obtain ⟨hne, -, hpointer⟩ := hinv.pointer b hlive
      have hle := (alignUp_bounds b.base).1
      rw [← hpointer, hzero] at hle
      exact absurd (Nat.le_zero.mp hle) hne
    · rw [hinv.unique b b' hlive hlive']
      exact (hinv.pointer_eq_iff hlive').mp hbase
  · intro haligned
    exact .inr ⟨b, hlive, (hinv.pointer_eq_iff hlive).mpr haligned⟩

/-- After boot, with two processes. -/
def regionStart : Config (Fin 2) (KernelRegion (Fin 2)) (Option SleepPc) :=
  ⟨⟨⟨fun _ => MWMON_ORIGINAL_VAL, fun _ => none⟩, .empty, ⟨0, 0, 0, 0⟩⟩, fun _ => none⟩

/-- The states of a run from there. -/
def regionRun (labels : List (Fin 2 × RegionChoice)) :
    Config (Fin 2) (KernelRegion (Fin 2)) (Option SleepPc) :=
  System.exec (Program.next regionCall) regionStart labels

theorem regionRun_reachable (labels : List (Fin 2 × RegionChoice)) :
    (regionSystem (Fin 2)).Reachable (regionRun labels) :=
  System.reachable_exec _ (.of_init ⟨rfl, rfl, fun _ => rfl⟩)

/-- The calls of the test program, in its order, when `kmalloc` answers 4097: `finalize`
frees 4160. -/
theorem finalize_frees_no_base :
    (regionSystem (Fin 2)).Reachable (regionRun [(0, .init 4097)]) ∧
      (regionSystem (Fin 2)).step (regionRun [(0, .init 4097)]) (0, .finalize)
        (regionRun [(0, .init 4097), (0, .finalize)]) ∧
      (regionRun [(0, .init 4097)]).shared.ptrs.mwmonKernelMemory = 4160 ∧
      ¬ (regionRun [(0, .init 4097)]).shared.heap.MayFree 4160 ∧
      ¬ KeepsDiscipline (regionRun [(0, .init 4097)]) (0, .finalize)
        (regionRun [(0, .init 4097), (0, .finalize)]) := by
  have hpointer : (regionRun [(0, .init 4097)]).shared.ptrs.mwmonKernelMemory = 4160 := by
    decide
  have hmisuse : ¬ (regionRun [(0, .init 4097)]).shared.heap.MayFree 4160 := by
    decide
  refine ⟨regionRun_reachable _, rfl, hpointer, hmisuse, fun hkeeps => hmisuse ?_⟩
  have hkfree := hkeeps.kfree rfl
  rwa [hpointer] at hkfree

/-- The same calls when `kmalloc` answers 4096. -/
theorem regionSystem_disciplined_aligned :
    KeepsDiscipline (regionRun [(0, .init 4096)]) (0, .finalize)
      (regionRun [(0, .init 4096), (0, .finalize)]) := by
  have hstart : (regionSystem (Fin 2)).ReachableVia InOrder regionStart :=
    .of_init ⟨rfl, rfl, fun _ => rfl⟩
  have hnone : InOrder regionStart (0, .init 4096) := fun ⟨_, hlive⟩ => Heap.not_live_empty hlive
  have hloaded : (regionSystem (Fin 2)).ReachableVia InOrder (regionRun [(0, .init 4096)]) :=
    hstart.step hnone rfl
  have haligned : InOrder (regionRun [(0, .init 4096)]) (0, .finalize) :=
    .inr ⟨by decide, ⟨0, 4096, regionSize⟩, by decide, by decide⟩
  exact regionSystem_disciplined hloaded haligned rfl

end Htsynch
