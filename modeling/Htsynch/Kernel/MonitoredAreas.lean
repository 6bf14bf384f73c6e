/-
# Where the monitored areas lie

Three functions round the address of a block up to an alignment: `malloc_aligned` of the
test programs in `size_t`, `my_kmalloc_align` of the kernel with an `int` alignment whose
mask is extended with its sign, and `kmem_mapper_init` to a page. The rounding is a sum
and a mask on 64-bit words. What it makes of a block is what the other modules of the
kernel compute with numbers, as long as the block does not reach the end of the address
space.
-/

import Htsynch.Foundations.Alignment
import Htsynch.Kernel.KernelRegion
import Htsynch.Kernel.KmemMmap
import Htsynch.X86
import Mathlib.Order.Interval.Set.Basic

namespace Htsynch

open Foundations

namespace Lp64

/-- `malloc_aligned`, or `none` where it exits. -/
def mallocAligned (malloc : Quad → Quad) (size alignment : Quad) : Option Quad :=
  let p := malloc (size + alignment - 1)
  if p = 0 then none else some ((p + alignment - 1) &&& ~~~(alignment - 1))

/-- `my_kmalloc_align`. Its `int` arguments become `size_t` and `unsigned long` with their
sign, and so does the mask. -/
def myKmallocAlign (kmalloc : Quad → Quad) (alignment size : Word) : Quad :=
  let p := kmalloc ((size + alignment - 1).signExtend 64)
  if p = 0 then 0
  else (p + alignment.signExtend 64 - 1) &&& (~~~(alignment - 1)).signExtend 64

/-- `PAGE_SIZE` is an `unsigned long`. -/
def pageSize : Quad := BitVec.ofNat 64 PAGE_SIZE

/-- `PAGE_MASK`. -/
def pageMask : Quad := ~~~(pageSize - 1)

/-- The pointers that `kmem_mapper_init` sets. -/
structure AreaPointers where
  mwmonMmapArea : Quad
  mwmonMmapArea2 : Quad
  mwmonLintVarAddr : Quad
  deriving DecidableEq

/-- The assignments to the pointers in `kmem_mapper_init`. -/
def kmemMapperInit (kmallocPtr : Quad) : AreaPointers :=
  let mwmonMmapArea := (kmallocPtr + pageSize - 1) &&& pageMask
  ⟨mwmonMmapArea, mwmonMmapArea + BitVec.ofNat 64 MONITORED_REGIONS_DISTANCE,
    mwmonMmapArea + BitVec.ofNat 64 MWMON_LINT_VAR_OFFSET⟩

end Lp64

/-- A block that an allocator hands out lies in the address space. -/
def InAddressSpace (base : Quad) (size : ℕ) : Prop := base.toNat + size ≤ 2 ^ 64

instance (base : Quad) (size : ℕ) : Decidable (InAddressSpace base size) :=
  inferInstanceAs (Decidable (_ ≤ _))

/-- What is wanted of a pointer `q` to `s` bytes with alignment `a`, in a block of `n` bytes
at `p`. -/
structure AlignedWithin (p n a s q : ℕ) : Prop where
  dvd : a ∣ q
  le : p ≤ q
  lt : q < p + a
  block : n = s + a - 1
  inside : q + s ≤ p + n

/-- The bytes of the two monitored lines and of the `long`. -/
def areaRanges (ptrs : Lp64.AreaPointers) : List (Set ℕ) :=
  [Set.Ico ptrs.mwmonMmapArea.toNat (ptrs.mwmonMmapArea.toNat + MWMON_MONITORED_MEM_BYTES),
    Set.Ico ptrs.mwmonMmapArea2.toNat (ptrs.mwmonMmapArea2.toNat + MWMON_MONITORED_MEM_BYTES),
    Set.Ico ptrs.mwmonLintVarAddr.toNat (ptrs.mwmonLintVarAddr.toNat + 8)]

/-- What is wanted of the page of `kmem_mapper`, in its block at `p`. -/
structure AreasPlaced (p : ℕ) (ptrs : Lp64.AreaPointers) : Prop where
  aligned : PAGE_SIZE ∣ ptrs.mwmonMmapArea.toNat
  inside : Set.Ico ptrs.mwmonMmapArea.toNat (ptrs.mwmonMmapArea.toNat + LEN) ⊆
    Set.Ico p (p + (LEN + 2 * PAGE_SIZE))
  second : ptrs.mwmonMmapArea2.toNat = ptrs.mwmonMmapArea.toNat + MONITORED_REGIONS_DISTANCE
  lint : ptrs.mwmonLintVarAddr.toNat = ptrs.mwmonMmapArea.toNat + MWMON_LINT_VAR_OFFSET
  contained : ∀ r ∈ areaRanges ptrs,
    r ⊆ Set.Ico ptrs.mwmonMmapArea.toNat (ptrs.mwmonMmapArea.toNat + LEN)
  disjoint : (areaRanges ptrs).Pairwise fun r r' => ∀ b ∈ r, b ∉ r'

theorem alignedWithin_roundUp {p a : ℕ} (s : ℕ) (ha : 0 < a) :
    AlignedWithin p (s + a - 1) a s (roundUp a p) := by
  have hle := roundUp_le_add a p
  exact ⟨dvd_roundUp a p, le_roundUp ha p, roundUp_lt ha p, rfl, by omega⟩

/-- What is returned when there is no block. -/
theorem alignedWithin_zero {a : ℕ} (s : ℕ) (ha : 0 < a) : AlignedWithin 0 (s + a - 1) a s 0 :=
  ⟨Nat.dvd_zero a, Nat.le_refl 0, by omega, rfl, by omega⟩

/-- Of two ranges one of which ends before the other begins, no byte is in both. -/
theorem not_mem_Ico_of_apart {a b c d x : ℕ} (hapart : b ≤ c ∨ d ≤ a) (hx : x ∈ Set.Ico a b) :
    x ∉ Set.Ico c d := by
  rintro ⟨hleft, hright⟩
  have hlo : a ≤ x := hx.1
  have hhi : x < b := hx.2
  omega

/-- Three ranges at fixed offsets in the first page boundary's page. -/
theorem areasPlaced_of_offsets {p : ℕ} {ptrs : Lp64.AreaPointers}
    (haligned : PAGE_SIZE ∣ ptrs.mwmonMmapArea.toNat) (hle : p ≤ ptrs.mwmonMmapArea.toNat)
    (hlt : ptrs.mwmonMmapArea.toNat < p + PAGE_SIZE)
    (hsecond : ptrs.mwmonMmapArea2.toNat = ptrs.mwmonMmapArea.toNat + MONITORED_REGIONS_DISTANCE)
    (hlint : ptrs.mwmonLintVarAddr.toNat = ptrs.mwmonMmapArea.toNat + MWMON_LINT_VAR_OFFSET) :
    AreasPlaced p ptrs := by
  have hpage : PAGE_SIZE = 4096 := rfl
  have hlen : LEN = 4096 := rfl
  have hline : MWMON_MONITORED_MEM_BYTES = 64 := rfl
  have hdistance : MONITORED_REGIONS_DISTANCE = 512 := rfl
  have hoffset : MWMON_LINT_VAR_OFFSET = 128 := rfl
  refine ⟨haligned, Set.Ico_subset_Ico hle (by omega), hsecond, hlint, ?_, ?_⟩
  · intro r hr
    simp only [areaRanges, List.mem_cons, List.not_mem_nil, or_false] at hr
    rcases hr with rfl | rfl | rfl
    · exact Set.Ico_subset_Ico (by omega) (by omega)
    · exact Set.Ico_subset_Ico (by omega) (by omega)
    · exact Set.Ico_subset_Ico (by omega) (by omega)
  · simp only [areaRanges, List.pairwise_cons, List.mem_cons, List.not_mem_nil, or_false,
      forall_eq_or_imp, forall_eq]
    refine ⟨⟨?_, ?_⟩, ?_, fun _ hnone => hnone.elim, List.Pairwise.nil⟩
    · exact fun _ => not_mem_Ico_of_apart (by omega)
    · exact fun _ => not_mem_Ico_of_apart (by omega)
    · exact fun _ => not_mem_Ico_of_apart (by omega)

/-- With the alignment and the size of a line, the whole line of the pointer is in the
block. -/
theorem AlignedWithin.line_subset {p n q : ℕ}
    (h : AlignedWithin p n MWMON_ALIGN_BOUNDARY MWMON_MONITORED_MEM_BYTES q) {b : ℕ}
    (hline : (Lines.line b : ℕ) = Lines.line q) : b ∈ Set.Ico p (p + n) := by
  obtain ⟨m, rfl⟩ := h.dvd
  have hb : b / 64 = 64 * m / 64 := hline
  have hle := h.le
  have hinside := h.inside
  unfold MWMON_ALIGN_BOUNDARY at hle hinside
  unfold MWMON_MONITORED_MEM_BYTES at hinside
  exact ⟨by omega, by omega⟩

namespace Lp64

/-- `malloc_aligned` of a block that does not reach the end of the address space. -/
theorem mallocAligned_aligned (malloc : Quad → Quad) {size alignment p : Quad} {k : ℕ}
    (ha : alignment.toNat = 2 ^ k) (hp : malloc (size + alignment - 1) = p) (hsome : p ≠ 0)
    (hfits : p.toNat + size.toNat + alignment.toNat - 1 < 2 ^ 64) :
    ∃ q, mallocAligned malloc size alignment = some q ∧
      AlignedWithin p.toNat (size + alignment - 1).toNat alignment.toNat size.toNat q.toNat := by
  have hpos : 0 < alignment.toNat := by
    rw [ha]
    exact Nat.two_pow_pos k
  have hrequest : (size + alignment - 1).toNat = size.toNat + alignment.toNat - 1 :=
    toNat_add_sub_one ha (by omega)
  have hround : (roundUpMask alignment p).toNat = roundUp alignment.toNat p.toNat :=
    toNat_roundUpMask ha (by omega)
  refine ⟨roundUpMask alignment p, ?_, ?_⟩
  · rw [mallocAligned, hp, if_neg hsome]
    rfl
  · rw [hround, hrequest]
    exact alignedWithin_roundUp size.toNat hpos

/-- An `int` that is a natural number. -/
theorem toNat_of_toInt {x : Word} {n : ℕ} (hx : x.toInt = n) : x.toNat = n ∧ n < 2 ^ 31 := by
  have hmsb : x.msb = false := by
    rw [BitVec.msb_eq_toInt, decide_eq_false_iff_not, hx]
    exact Int.not_lt.mpr (Int.natCast_nonneg n)
  rw [BitVec.toInt_eq_toNat_of_msb hmsb] at hx
  obtain rfl := Int.ofNat.inj hx
  have hlt := BitVec.msb_eq_false_iff_two_mul_lt.mp hmsb
  exact ⟨rfl, by omega⟩

/-- It is extended with zeros. -/
theorem signExtend_toNat {x : Word} (hx : x.toNat < 2 ^ 31) :
    (x.signExtend 64).toNat = x.toNat := by
  have hmsb : x.msb = false := BitVec.msb_eq_false_iff_two_mul_lt.mpr (by omega)
  rw [BitVec.signExtend_eq_setWidth_of_msb_false hmsb, BitVec.toNat_setWidth]
  exact Nat.mod_eq_of_lt (Nat.lt_trans x.isLt (by decide))

theorem signExtend_toNat_of_toInt {x : Word} {n : ℕ} (hx : x.toInt = n) :
    (x.signExtend 64).toNat = n := by
  obtain ⟨hnat, hlt⟩ := toNat_of_toInt hx
  rw [signExtend_toNat (by rwa [hnat]), hnat]

section

variable {alignment size : Word} {a s k : ℕ}

/-- The mask of an `int` alignment is the mask of the extended alignment. -/
theorem signExtend_mask (ha : alignment.toInt = a) (hpow : a = 2 ^ k) :
    (~~~(alignment - 1)).signExtend 64 = ~~~(alignment.signExtend 64 - 1) := by
  obtain ⟨hnat, hlt⟩ := toNat_of_toInt ha
  have hwide := signExtend_toNat_of_toInt ha
  rw [hpow] at hnat hwide hlt
  have hpred : (alignment - 1).signExtend 64 = alignment.signExtend 64 - 1 := by
    apply BitVec.eq_of_toNat_eq
    rw [signExtend_toNat (by rw [toNat_sub_one hnat]; omega), toNat_sub_one hnat,
      toNat_sub_one hwide]
  rw [BitVec.signExtend_not (by decide), hpred]

/-- The `int` that the kernel asks for is the number of bytes that the test program asks
for. -/
theorem request_eq (ha : alignment.toInt = a) (hpow : a = 2 ^ k) (hs : size.toInt = s)
    (hint : s + a - 1 < 2 ^ 31) :
    (size + alignment - 1).signExtend 64 = size.signExtend 64 + alignment.signExtend 64 - 1 := by
  have hanat := (toNat_of_toInt ha).1
  have hsnat := (toNat_of_toInt hs).1
  have hwidea := signExtend_toNat_of_toInt ha
  have hwides := signExtend_toNat_of_toInt hs
  have hsum : (size + alignment - 1).toNat = s + a - 1 := by
    rw [toNat_add_sub_one (hanat.trans hpow) (by rw [hsnat, hanat]; omega), hsnat, hanat]
  apply BitVec.eq_of_toNat_eq
  rw [signExtend_toNat (by rwa [hsum]), hsum,
    toNat_add_sub_one (hwidea.trans hpow) (by rw [hwides, hwidea]; omega), hwides, hwidea]

/-- The kernel's version computes what the test program's computes. -/
theorem mallocAligned_eq_some (kmalloc : Quad → Quad) (ha : alignment.toInt = a)
    (hpow : a = 2 ^ k) (hs : size.toInt = s) (hint : s + a - 1 < 2 ^ 31)
    (hsome : kmalloc ((size + alignment - 1).signExtend 64) ≠ 0) :
    mallocAligned kmalloc (size.signExtend 64) (alignment.signExtend 64) =
      some (myKmallocAlign kmalloc alignment size) := by
  rw [mallocAligned, myKmallocAlign, ← request_eq ha hpow hs hint, if_neg hsome, if_neg hsome,
    signExtend_mask ha hpow]

/-- `my_kmalloc_align` of a block that does not reach the end of the address space, or of
no block. -/
theorem myKmallocAlign_aligned (kmalloc : Quad → Quad) {p : Quad} (ha : alignment.toInt = a)
    (hpow : a = 2 ^ k) (hs : size.toInt = s) (hint : s + a - 1 < 2 ^ 31)
    (hp : kmalloc ((size + alignment - 1).signExtend 64) = p)
    (hfits : p.toNat + s + a - 1 < 2 ^ 64) :
    AlignedWithin p.toNat ((size + alignment - 1).signExtend 64).toNat a s
      (myKmallocAlign kmalloc alignment size).toNat := by
  have hwidea := signExtend_toNat_of_toInt ha
  have hwides := signExtend_toNat_of_toInt hs
  by_cases hsome : p = 0
  · have hpos : 0 < a := by
      rw [hpow]
      exact Nat.two_pow_pos k
    have hnone : myKmallocAlign kmalloc alignment size = 0 := by
      rw [myKmallocAlign, hp, if_pos hsome]
    have hrequest : ((size + alignment - 1).signExtend 64).toNat = s + a - 1 := by
      rw [request_eq ha hpow hs hint, toNat_add_sub_one (hwidea.trans hpow)
        (by rw [hwides, hwidea]; omega), hwides, hwidea]
    rw [hnone, hsome, hrequest]
    exact alignedWithin_zero s hpos
  · have hsame := mallocAligned_eq_some kmalloc ha hpow hs hint (by rwa [hp])
    rw [request_eq ha hpow hs hint] at hp ⊢
    obtain ⟨q, hq, haligned⟩ := mallocAligned_aligned kmalloc (hwidea.trans hpow) hp hsome
      (by rwa [hwides, hwidea])
    rw [hsame] at hq
    obtain rfl := Option.some.inj hq
    rwa [hwidea, hwides] at haligned

/-- On numbers it is the function of the other modules. -/
theorem myKmallocAlign_toNat (kmalloc : Quad → Quad) {p : Quad} (ha : alignment.toInt = a)
    (hpow : a = 2 ^ k) (hs : size.toInt = s) (hint : s + a - 1 < 2 ^ 31)
    (hp : kmalloc ((size + alignment - 1).signExtend 64) = p)
    (hfits : p.toNat + s + a - 1 < 2 ^ 64) :
    (myKmallocAlign kmalloc alignment size).toNat = Htsynch.myKmallocAlign a p.toNat := by
  have haligned := myKmallocAlign_aligned kmalloc ha hpow hs hint hp hfits
  have hround := eq_roundUp haligned.dvd haligned.le haligned.lt
  by_cases hsome : p = 0
  · rw [myKmallocAlign, hp, if_pos hsome, hsome]
    rfl
  · have hnat : p.toNat ≠ 0 := fun hzero => hsome (BitVec.eq_of_toNat_eq hzero)
    rw [hround, Htsynch.myKmallocAlign, if_neg hnat]
    rfl

end

section

variable {kmallocPtr : Quad}

/-- The pointers on the words are those of the other modules, if the block does not reach
beyond the end of the address space. -/
theorem kmemMapperInit_toNat (ptrs : Pointers)
    (hfits : InAddressSpace kmallocPtr (LEN + 2 * PAGE_SIZE)) :
    (kmemMapperInit kmallocPtr).mwmonMmapArea.toNat =
        (Htsynch.kmemMapperInit kmallocPtr.toNat ptrs).mwmonMmapArea ∧
      (kmemMapperInit kmallocPtr).mwmonMmapArea2.toNat =
        (Htsynch.kmemMapperInit kmallocPtr.toNat ptrs).mwmonMmapArea2 ∧
      (kmemMapperInit kmallocPtr).mwmonLintVarAddr.toNat =
        (Htsynch.kmemMapperInit kmallocPtr.toNat ptrs).mwmonLintVarAddr := by
  have hpage : pageSize.toNat = 4096 := rfl
  have hspace : kmallocPtr.toNat + (4096 + 2 * 4096) ≤ 2 ^ 64 := hfits
  have hround : (roundUpMask pageSize kmallocPtr).toNat = roundUp PAGE_SIZE kmallocPtr.toNat :=
    toNat_roundUpMask (k := PAGE_SHIFT) rfl (by rw [hpage]; omega)
  have hlt : roundUp PAGE_SIZE kmallocPtr.toNat < kmallocPtr.toNat + 4096 :=
    roundUp_lt (by decide) _
  have hoffset {off : ℕ} (hoff : off < 4096) :
      (roundUpMask pageSize kmallocPtr + BitVec.ofNat 64 off).toNat =
        roundUp PAGE_SIZE kmallocPtr.toNat + off := by
    rw [BitVec.toNat_add, hround, BitVec.toNat_ofNat, Nat.mod_eq_of_lt (by omega : off < 2 ^ 64)]
    exact Nat.mod_eq_of_lt (by omega)
  exact ⟨hround, hoffset (by decide), hoffset (by decide)⟩

theorem kmemMapperInit_placed
    (hfits : InAddressSpace kmallocPtr (LEN + 2 * PAGE_SIZE)) :
    AreasPlaced kmallocPtr.toNat (kmemMapperInit kmallocPtr) := by
  obtain ⟨harea, hsecond, hlint⟩ := kmemMapperInit_toNat bootPointers hfits
  apply areasPlaced_of_offsets
  · rw [harea]
    exact dvd_roundUp PAGE_SIZE _
  · rw [harea]
    exact le_roundUp (a := PAGE_SIZE) (by decide) _
  · rw [harea]
    exact roundUp_lt (a := PAGE_SIZE) (by decide) _
  · rw [hsecond, harea]
    rfl
  · rw [hlint, harea]
    rfl

/-- For the alignment and the size of a line the two agree, and the whole line of the
pointer is in the block. -/
theorem line_inside (alloc : Quad → Quad) {p : Quad} (hp : alloc 127 = p) (hsome : p ≠ 0)
    (hfits : p.toNat + 127 < 2 ^ 64) :
    ∃ q, mallocAligned alloc (BitVec.ofNat 64 MWMON_MONITORED_MEM_BYTES)
        (BitVec.ofNat 64 MWMON_ALIGN_BOUNDARY) = some q ∧
      myKmallocAlign alloc (BitVec.ofNat 32 MWMON_ALIGN_BOUNDARY)
        (BitVec.ofNat 32 MWMON_MONITORED_MEM_BYTES) = q ∧
      ∀ b : Addr, (Lines.line b : ℕ) = Lines.line q.toNat →
        b ∈ Set.Ico p.toNat (p.toNat + 127) := by
  have halignment : (BitVec.ofNat 64 MWMON_ALIGN_BOUNDARY).toNat = 2 ^ 6 := rfl
  have halignment' : (BitVec.ofNat 32 MWMON_ALIGN_BOUNDARY).toInt = (64 : ℕ) := rfl
  have hsize : (BitVec.ofNat 32 MWMON_MONITORED_MEM_BYTES).toInt = (64 : ℕ) := rfl
  have hrequest : alloc (BitVec.ofNat 64 MWMON_MONITORED_MEM_BYTES +
      BitVec.ofNat 64 MWMON_ALIGN_BOUNDARY - 1) = p := hp
  obtain ⟨q, hq, haligned⟩ := mallocAligned_aligned alloc halignment hrequest hsome hfits
  have hsame := mallocAligned_eq_some (k := 6) alloc halignment' rfl hsize (by decide)
    (by rw [← hp] at hsome; exact hsome)
  exact ⟨q, hq, Option.some.inj (hsame.symm.trans hq), fun b => haligned.line_subset⟩

end

end Lp64

/-- The pointers of `malloc_aligned` and `my_kmalloc_align` are aligned and inside their
blocks, for every alignment that is a power of two, and so are the lines for the alignment
and the size of a line; and the page of the driver with its two lines and its `long` is
inside its block. -/
theorem monitored_areas_placed (alloc : Quad → Quad) :
    (∀ (size alignment p : Quad) (k : ℕ), alignment.toNat = 2 ^ k →
      alloc (size + alignment - 1) = p → p ≠ 0 →
      p.toNat + size.toNat + alignment.toNat - 1 < 2 ^ 64 →
      ∃ q, Lp64.mallocAligned alloc size alignment = some q ∧
        AlignedWithin p.toNat (size + alignment - 1).toNat alignment.toNat size.toNat q.toNat) ∧
    (∀ (alignment size : Word) (p : Quad) (a s k : ℕ), alignment.toInt = a → a = 2 ^ k →
      size.toInt = s → s + a - 1 < 2 ^ 31 →
      alloc ((size + alignment - 1).signExtend 64) = p → p.toNat + s + a - 1 < 2 ^ 64 →
      AlignedWithin p.toNat ((size + alignment - 1).signExtend 64).toNat a s
          (Lp64.myKmallocAlign alloc alignment size).toNat ∧
        (p ≠ 0 → Lp64.mallocAligned alloc (size.signExtend 64) (alignment.signExtend 64) =
          some (Lp64.myKmallocAlign alloc alignment size))) ∧
    (∀ p : Quad, alloc 127 = p → p ≠ 0 → p.toNat + 127 < 2 ^ 64 →
      ∃ q, Lp64.mallocAligned alloc (BitVec.ofNat 64 MWMON_MONITORED_MEM_BYTES)
          (BitVec.ofNat 64 MWMON_ALIGN_BOUNDARY) = some q ∧
        Lp64.myKmallocAlign alloc (BitVec.ofNat 32 MWMON_ALIGN_BOUNDARY)
          (BitVec.ofNat 32 MWMON_MONITORED_MEM_BYTES) = q ∧
        ∀ b : Addr, (Lines.line b : ℕ) = Lines.line q.toNat →
          b ∈ Set.Ico p.toNat (p.toNat + 127)) ∧
    ∀ kmallocPtr : Quad, InAddressSpace kmallocPtr (LEN + 2 * PAGE_SIZE) →
      AreasPlaced kmallocPtr.toNat (Lp64.kmemMapperInit kmallocPtr) := by
  refine ⟨?_, ?_, ?_, ?_⟩
  · intro size alignment p k ha hp hsome hfits
    exact Lp64.mallocAligned_aligned alloc ha hp hsome hfits
  · intro alignment size p a s k ha hpow hs hint hp hfits
    refine ⟨Lp64.myKmallocAlign_aligned alloc ha hpow hs hint hp hfits, fun hsome => ?_⟩
    exact Lp64.mallocAligned_eq_some alloc ha hpow hs hint (by rwa [hp])
  · exact fun p hp hsome hfits => Lp64.line_inside alloc hp hsome hfits
  · exact fun kmallocPtr hfits => Lp64.kmemMapperInit_placed hfits

/-- The addresses for a `kmalloc` and a `malloc` that answer 4097. -/
theorem monitored_areas_placed_unaligned :
    (∃ q, Lp64.mallocAligned (fun _ => 4097) 64 64 = some q ∧
        AlignedWithin 4097 127 64 64 q.toNat) ∧
      AlignedWithin 4097 127 64 64 (Lp64.myKmallocAlign (fun _ => 4097) 64 64).toNat ∧
      AreasPlaced 4097 (Lp64.kmemMapperInit 4097) := by
  obtain ⟨huser, hkernel, -, hpage⟩ := monitored_areas_placed fun _ => 4097
  refine ⟨?_, ?_, ?_⟩
  · exact huser 64 64 4097 6 rfl rfl (by decide) (by decide)
  · exact (hkernel 64 64 4097 64 64 6 rfl rfl rfl (by decide) rfl (by decide)).1
  · exact hpage 4097 (by decide)

end Htsynch
