/-
# Which page frames the mmap handler maps

`kmem_mapper_init` rounds the address of its block up to a page and marks the pages of
the next `LEN` bytes reserved, so that they can be mapped. `kmem_mapper_mmap` maps as
many frames as the user asks for, starting with the first of them. It looks neither at
the length of the request nor at its offset, so that a request longer than `LEN` gets
frames that were not reserved, and a request longer than the rest of the block gets
memory that is not the driver's.

`remap_pfn_range` is not part of the sources. It is a parameter, and what is used of it
is that it maps consecutive frames when it succeeds.
-/

import Htsynch.Foundations.Alignment
import Htsynch.Kernel.KmemMapper
import Mathlib.Data.Int.Notation

namespace Htsynch

open Foundations

def PAGE_SHIFT : ℕ := 12
def LEN : ℕ := 4096
def EAGAIN : ℤ := 11

/-- The part of the kernel's address space in which `kmalloc` allocates: physical memory,
shifted by a number of whole pages. -/
structure DirectMap where
  pageOffset : Addr
  aligned : PAGE_SIZE ∣ pageOffset

/-- `virt_to_phys`. -/
def DirectMap.virtToPhys (map : DirectMap) (a : Addr) : ℕ := a - map.pageOffset

/-- What the handler reads of a `struct vm_area_struct`. -/
structure VmArea where
  vmStart : ℕ
  vmEnd : ℕ
  vmPgoff : ℕ
  deriving DecidableEq

/-- A range that the kernel passes to a handler: whole pages, in order. -/
structure VmArea.Valid (vma : VmArea) : Prop where
  start_aligned : PAGE_SIZE ∣ vma.vmStart
  end_aligned : PAGE_SIZE ∣ vma.vmEnd
  ordered : vma.vmStart ≤ vma.vmEnd

/-- `remap_pfn_range`: its result, and the frames it has mapped. -/
abbrev RemapPfnRange := VmArea → (addr pfn size : ℕ) → ℤ × List ℕ

/-- On success it maps `size / PAGE_SIZE` consecutive frames from `pfn` on. -/
def RemapPfnRange.MapsRange (remap : RemapPfnRange) : Prop :=
  ∀ vma addr pfn size, (remap vma addr pfn size).1 = 0 →
    (remap vma addr pfn size).2 = List.range' pfn (size / PAGE_SIZE)

/-- `kmem_mapper_mmap`. -/
def kmemMapperMmap (map : DirectMap) (remap : RemapPfnRange) (ptrs : Pointers) (vma : VmArea) :
    ℤ × List ℕ :=
  let ret := remap vma vma.vmStart (map.virtToPhys ptrs.mwmonMmapArea >>> PAGE_SHIFT)
    (vma.vmEnd - vma.vmStart)
  if ret.1 ≠ 0 then (-EAGAIN, ret.2) else (0, ret.2)

/-- The loop of `kmem_mapper_init` that marks pages reserved. -/
def reservePages (map : DirectMap) (virtAddr stop : ℕ) : List ℕ :=
  if virtAddr < stop then
    (map.virtToPhys virtAddr >>> PAGE_SHIFT) :: reservePages map (virtAddr + PAGE_SIZE) stop
  else []
termination_by stop - virtAddr
decreasing_by
  have : 0 < PAGE_SIZE := by decide
  omega

/-- The frames of the pages that `kmem_mapper_init` has marked reserved. -/
def reservedFrames (map : DirectMap) (ptrs : Pointers) : List ℕ :=
  reservePages map ptrs.mwmonMmapArea (ptrs.mwmonMmapArea + LEN)

/-- The frame lies inside the bytes from `a` on. -/
def FrameWithin (map : DirectMap) (a len f : ℕ) : Prop :=
  map.virtToPhys a ≤ f * PAGE_SIZE ∧ (f + 1) * PAGE_SIZE ≤ map.virtToPhys a + len

/-- The handler has mapped only memory of the driver's block, and of that only pages that
were marked reserved. -/
structure MapsOwnMemory (map : DirectMap) (remap : RemapPfnRange) (kmallocPtr : Addr)
    (ptrs : Pointers) (vma : VmArea) : Prop where
  block : ∀ f ∈ (kmemMapperMmap map remap (kmemMapperInit kmallocPtr ptrs) vma).2,
    FrameWithin map kmallocPtr (LEN + 2 * PAGE_SIZE) f
  reserved : ∀ f ∈ (kmemMapperMmap map remap (kmemMapperInit kmallocPtr ptrs) vma).2,
    f ∈ reservedFrames map (kmemMapperInit kmallocPtr ptrs) ∧
      FrameWithin map (kmemMapperInit kmallocPtr ptrs).mwmonMmapArea LEN f

section

variable {map : DirectMap} {remap : RemapPfnRange} {kmallocPtr : Addr} {ptrs : Pointers}
  {vma : VmArea} {f : ℕ}

/-- Rounding up to a page moves an address by less than a page. -/
theorem roundUp_bounds (p : ℕ) :
    p ≤ (p + PAGE_SIZE - 1) / PAGE_SIZE * PAGE_SIZE ∧
      (p + PAGE_SIZE - 1) / PAGE_SIZE * PAGE_SIZE < p + PAGE_SIZE := by
  have hpos : 0 < PAGE_SIZE := by decide
  exact ⟨le_roundUp hpos p, roundUp_lt hpos p⟩

/-- The area begins at most a page after the block. -/
theorem areaShift_le (kmallocPtr : Addr) (ptrs : Pointers) :
    (kmemMapperInit kmallocPtr ptrs).mwmonMmapArea - kmallocPtr ≤ PAGE_SIZE :=
  Nat.sub_le_iff_le_add'.mpr (Nat.le_of_lt (roundUp_bounds kmallocPtr).2)

/-- The first frame that the handler maps. -/
def areaFrame (map : DirectMap) (ptrs : Pointers) : ℕ :=
  map.virtToPhys ptrs.mwmonMmapArea >>> PAGE_SHIFT

/-- The area fills its first frame from the start. -/
theorem areaFrame_mul (map : DirectMap) (kmallocPtr : Addr) (ptrs : Pointers) :
    areaFrame map (kmemMapperInit kmallocPtr ptrs) * PAGE_SIZE =
      map.virtToPhys (kmemMapperInit kmallocPtr ptrs).mwmonMmapArea := by
  obtain ⟨offset, hoffset⟩ := map.aligned
  have harea : map.virtToPhys (kmemMapperInit kmallocPtr ptrs).mwmonMmapArea =
      ((kmallocPtr + PAGE_SIZE - 1) / PAGE_SIZE - offset) * PAGE_SIZE := by
    rw [Nat.sub_mul, Nat.mul_comm offset, ← hoffset]
    rfl
  have hshift : PAGE_SIZE = 2 ^ PAGE_SHIFT := rfl
  rw [areaFrame, harea, Nat.shiftRight_eq_div_pow, ← hshift,
    Nat.mul_div_cancel _ (by decide : 0 < PAGE_SIZE)]

/-- On success the handler has mapped as many frames as there are pages in the range. -/
theorem kmemMapperMmap_frames (hremap : remap.MapsRange)
    (hret : (kmemMapperMmap map remap ptrs vma).1 = 0) :
    (kmemMapperMmap map remap ptrs vma).2 =
      List.range' (areaFrame map ptrs) ((vma.vmEnd - vma.vmStart) / PAGE_SIZE) := by
  by_cases hdone : (remap vma vma.vmStart (areaFrame map ptrs) (vma.vmEnd - vma.vmStart)).1 = 0
  · have hmapped : kmemMapperMmap map remap ptrs vma =
        (0, (remap vma vma.vmStart (areaFrame map ptrs) (vma.vmEnd - vma.vmStart)).2) :=
      if_neg (not_not.mpr hdone)
    rw [hmapped]
    exact hremap _ _ _ _ hdone
  · have hfailed : kmemMapperMmap map remap ptrs vma =
        (-EAGAIN, (remap vma vma.vmStart (areaFrame map ptrs) (vma.vmEnd - vma.vmStart)).2) :=
      if_pos hdone
    rw [hfailed] at hret
    exact absurd hret (Int.neg_ne_zero.mpr (by decide : EAGAIN ≠ 0))

/-- `LEN` bytes are one page. -/
theorem reservedFrames_eq : reservedFrames map ptrs = [areaFrame map ptrs] := by
  have hfirst : ptrs.mwmonMmapArea < ptrs.mwmonMmapArea + LEN :=
    Nat.lt_add_of_pos_right (by decide)
  have hlast : ¬ ptrs.mwmonMmapArea + PAGE_SIZE < ptrs.mwmonMmapArea + LEN := Nat.lt_irrefl _
  rw [reservedFrames, reservePages, if_pos hfirst, reservePages, if_neg hlast, areaFrame]

/-- Where a page of the area lies, as seen from the start of the block. -/
theorem areaFrame_offset (map : DirectMap) (kmallocPtr : Addr) (ptrs : Pointers)
    (hdirect : map.pageOffset ≤ kmallocPtr) :
    areaFrame map (kmemMapperInit kmallocPtr ptrs) * PAGE_SIZE = map.virtToPhys kmallocPtr +
      ((kmemMapperInit kmallocPtr ptrs).mwmonMmapArea - kmallocPtr) := by
  have hround : kmallocPtr ≤ (kmemMapperInit kmallocPtr ptrs).mwmonMmapArea :=
    (roundUp_bounds kmallocPtr).1
  rw [areaFrame_mul, DirectMap.virtToPhys, DirectMap.virtToPhys, Nat.add_comm,
    Nat.sub_add_sub_cancel hround hdirect]

/-- A page that begins at `offset` inside `len` bytes. -/
theorem frameWithin_iff {a : Addr} {first offset len k : ℕ}
    (hfirst : first * PAGE_SIZE = map.virtToPhys a + offset) :
    FrameWithin map a len (first + k) ↔ offset + (k + 1) * PAGE_SIZE ≤ len := by
  have hpage : (first + k) * PAGE_SIZE = map.virtToPhys a + offset + k * PAGE_SIZE := by
    rw [Nat.add_mul, hfirst]
  have hnext : (first + k + 1) * PAGE_SIZE =
      map.virtToPhys a + offset + (k + 1) * PAGE_SIZE := by
    rw [Nat.add_assoc, Nat.add_mul, hfirst]
  rw [FrameWithin, hpage, hnext]
  omega

/-- Of consecutive pages all lie inside `len` bytes when the last one does. -/
theorem forall_frameWithin_iff {a : Addr} {first offset len n : ℕ}
    (hfirst : first * PAGE_SIZE = map.virtToPhys a + offset) (hoffset : offset ≤ len) :
    (∀ f ∈ List.range' first n, FrameWithin map a len f) ↔ offset + n * PAGE_SIZE ≤ len := by
  constructor
  · intro hall
    cases n with
    | zero => simpa using hoffset
    | succ k =>
        refine (frameWithin_iff hfirst).mp (hall (first + k) ?_)
        exact List.mem_range'_1.mpr ⟨Nat.le_add_right _ _, by omega⟩
  · intro hlast f hf
    obtain ⟨k, rfl⟩ := Nat.exists_eq_add_of_le (List.mem_range'_1.mp hf).1
    have hk : k + 1 ≤ n := by
      have := (List.mem_range'_1.mp hf).2
      omega
    have hpages : offset + (k + 1) * PAGE_SIZE ≤ offset + n * PAGE_SIZE :=
      Nat.add_le_add_left (Nat.mul_le_mul_right _ hk) _
    exact (frameWithin_iff hfirst).mpr (Nat.le_trans hpages hlast)

/-- The pages of a range. -/
theorem VmArea.Valid.pages (hvma : vma.Valid) :
    (vma.vmEnd - vma.vmStart) / PAGE_SIZE * PAGE_SIZE = vma.vmEnd - vma.vmStart :=
  Nat.div_mul_cancel (Nat.dvd_sub hvma.end_aligned hvma.start_aligned)

/-- What the handler maps lies inside the block just when the rest of the block is as
long as the range. -/
theorem mapsBlock_iff (hremap : remap.MapsRange) (hdirect : map.pageOffset ≤ kmallocPtr)
    (hvma : vma.Valid)
    (hret : (kmemMapperMmap map remap (kmemMapperInit kmallocPtr ptrs) vma).1 = 0) :
    (∀ f ∈ (kmemMapperMmap map remap (kmemMapperInit kmallocPtr ptrs) vma).2,
        FrameWithin map kmallocPtr (LEN + 2 * PAGE_SIZE) f) ↔
      (kmemMapperInit kmallocPtr ptrs).mwmonMmapArea - kmallocPtr + (vma.vmEnd - vma.vmStart) ≤
        LEN + 2 * PAGE_SIZE := by
  have hshift := areaShift_le kmallocPtr ptrs
  rw [kmemMapperMmap_frames hremap hret,
    forall_frameWithin_iff (areaFrame_offset map kmallocPtr ptrs hdirect)
      (Nat.le_trans hshift (by decide)), hvma.pages]

/-- It lies inside the reserved bytes just when the range is no longer than they are. -/
theorem mapsReserved_iff (hremap : remap.MapsRange) (hvma : vma.Valid)
    (hret : (kmemMapperMmap map remap (kmemMapperInit kmallocPtr ptrs) vma).1 = 0) :
    (∀ f ∈ (kmemMapperMmap map remap (kmemMapperInit kmallocPtr ptrs) vma).2,
        FrameWithin map (kmemMapperInit kmallocPtr ptrs).mwmonMmapArea LEN f) ↔
      vma.vmEnd - vma.vmStart ≤ LEN := by
  rw [kmemMapperMmap_frames hremap hret,
    forall_frameWithin_iff (areaFrame_mul map kmallocPtr ptrs) (Nat.zero_le _),
    hvma.pages, Nat.zero_add]

/-- A page inside the reserved bytes was marked reserved. -/
theorem mem_reservedFrames
    (hf : FrameWithin map (kmemMapperInit kmallocPtr ptrs).mwmonMmapArea LEN f) :
    f ∈ reservedFrames map (kmemMapperInit kmallocPtr ptrs) := by
  have honly (first : ℕ) (hleft : first * PAGE_SIZE ≤ f * PAGE_SIZE)
      (hright : (f + 1) * PAGE_SIZE ≤ first * PAGE_SIZE + LEN) : f = first := by
    unfold PAGE_SIZE at hleft hright
    unfold LEN at hright
    omega
  obtain ⟨hleft, hright⟩ := hf
  rw [← areaFrame_mul] at hleft hright
  rw [reservedFrames_eq, List.mem_singleton]
  exact honly _ hleft hright

/-- The handler keeps to the reserved pages of the driver's block for ranges of up to
`LEN` bytes, and for no others. -/
theorem mapsOwnMemory_iff (hremap : remap.MapsRange) (hdirect : map.pageOffset ≤ kmallocPtr)
    (hvma : vma.Valid)
    (hret : (kmemMapperMmap map remap (kmemMapperInit kmallocPtr ptrs) vma).1 = 0) :
    MapsOwnMemory map remap kmallocPtr ptrs vma ↔ vma.vmEnd - vma.vmStart ≤ LEN := by
  have hshift := areaShift_le kmallocPtr ptrs
  constructor
  · intro hown
    exact (mapsReserved_iff hremap hvma hret).mp fun f hf => (hown.reserved f hf).2
  · intro hlen
    constructor
    case block =>
      refine (mapsBlock_iff hremap hdirect hvma hret).mpr ?_
      exact Nat.le_trans (Nat.add_le_add hshift hlen) (by decide)
    case reserved =>
      intro f hf
      have hwithin := (mapsReserved_iff hremap hvma hret).mpr hlen f hf
      exact ⟨mem_reservedFrames hwithin, hwithin⟩

end

/-- Physical memory is seen from address `0xC0000000` on. -/
def kernelMap : DirectMap := ⟨0xC0000000, by decide⟩

/-- Maps whatever it is asked to map. -/
def remapAll : RemapPfnRange := fun _ _ pfn size => (0, List.range' pfn (size / PAGE_SIZE))

theorem remapAll_mapsRange : remapAll.MapsRange := fun _ _ _ _ _ => rfl

/-- The range that the test program asks for. -/
def onePage : VmArea := ⟨8192, 12288, 1⟩

theorem onePage_valid : onePage.Valid := by
  constructor <;> decide

theorem mapsOwnMemory_iff_onePage :
    MapsOwnMemory kernelMap remapAll 0xC0001001 bootPointers onePage ↔ 12288 - 8192 ≤ LEN :=
  mapsOwnMemory_iff remapAll_mapsRange (by decide) onePage_valid rfl

/-- The pointers for a block that begins with frame 1. -/
def pagePointers : Pointers := kmemMapperInit 0xC0001000 bootPointers

/-- A range of four pages. -/
def fourPages : VmArea := ⟨8192, 24576, 0⟩

/-- With a block of frames 1 to 3 the handler maps frame 4, and says that all went
well. -/
theorem mmap_beyond_block :
    remapAll.MapsRange ∧ fourPages.Valid ∧
      (kmemMapperMmap kernelMap remapAll pagePointers fourPages).1 = 0 ∧
      4 ∈ (kmemMapperMmap kernelMap remapAll pagePointers fourPages).2 ∧
      ¬ FrameWithin kernelMap 0xC0001000 (LEN + 2 * PAGE_SIZE) 4 ∧
      ¬ MapsOwnMemory kernelMap remapAll 0xC0001000 bootPointers fourPages := by
  have hvalid : fourPages.Valid := by
    constructor <;> decide
  have hmapped : 4 ∈ (kmemMapperMmap kernelMap remapAll pagePointers fourPages).2 := by
    decide
  have houtside : ¬ FrameWithin kernelMap 0xC0001000 (LEN + 2 * PAGE_SIZE) 4 := by
    rintro ⟨-, hend⟩
    exact absurd hend (by decide)
  exact ⟨remapAll_mapsRange, hvalid, rfl, hmapped, houtside,
    fun hown => houtside (hown.block 4 hmapped)⟩

end Htsynch
