/-
# Sets of processors

A set of processors is one `unsigned long`, with a bit for each. `MY_CPU_ISSET` shifts an
`unsigned long`, but returns an `int`, and so finds none of the upper 32 processors.
`MY_CPU_SET` shifts an `int`: the processor takes the count modulo 32, and from bit 31 the
sign is copied to all bits above. The sets are right as long as no processor above 30 is
put in.
-/

import Htsynch.Foundations.BitSets
import Htsynch.X86

namespace Htsynch

open Foundations

/-- `sizeof(my_cpuset_t) * 8`. -/
def MY_CPU_SETSIZE : ℕ := 8 * 8

/-- `1 << cpu_no` of an `int`: `shll` takes the count modulo 32. -/
def shll (cpuNo : Word) : Word := 1#32 <<< (cpuNo.toNat % 32)

/-- `(unsigned long) 1 << cpu_no`: `shlq` takes the count modulo 64. -/
def shlq (cpuNo : Word) : Quad := 1#64 <<< (cpuNo.toNat % 64)

/-- `MY_CPU_ZERO`. -/
def myCpuZero (_cpuset : Quad) : Quad := 0

/-- `MY_CPU_SET`: the `int` becomes an `unsigned long` with its sign. -/
def myCpuSet (cpuNo : Word) (cpuset : Quad) : Quad := cpuset ||| (shll cpuNo).signExtend 64

/-- `MY_CPU_ISSET`: what is returned is an `int`. -/
def myCpuIsset (cpuNo : Word) (cpuset : Quad) : Word := (shlq cpuNo &&& cpuset).setWidth 32

/-- What `sched_setaffinity` is called with; the mask is what its pointer points to. -/
structure AffinityCall where
  pid : Word
  len : Word
  mask : Quad
  deriving DecidableEq

/-- `my_sched_setaffinity`: its call, and its result, if it does not exit. -/
def mySchedSetaffinity (answer : AffinityCall → Word) (pid : Word) (cpusetSize cpuset : Quad) :
    AffinityCall × Option Word :=
  let call := ⟨pid, cpusetSize.setWidth 32, cpuset⟩
  let res := answer call
  (call, if res = -1 then none else some res)

/-- A processor number below `MY_CPU_SETSIZE`, as the `int` that is passed. -/
structure CpuNo where
  val : Word
  lt : val.toNat < MY_CPU_SETSIZE
  deriving DecidableEq

/-- The number as it is passed. -/
def CpuNo.ofNat (k : ℕ) (hk : k < 64) : CpuNo := ⟨BitVec.ofNat 32 k, by
  rw [BitVec.toNat_ofNat, Nat.mod_eq_of_lt (by omega)]
  exact hk⟩

/-- The set of some processors, made from whatever was in the variable. -/
def cpusetOf (cpuset : Quad) (cpus : List CpuNo) : Quad :=
  cpus.foldl (fun cpuset c => myCpuSet c.val cpuset) (myCpuZero cpuset)

/-- The numbers of some processors. -/
def cpuNumbers (cpus : List CpuNo) : Set ℕ := {k | ∃ c ∈ cpus, c.val.toNat = k}

/-- The set of some processors contains those and no others, for `MY_CPU_ISSET` of a
processor and for the kernel. -/
structure BehavesAsSet (cpuset : Quad) (cpus : List CpuNo) (j : CpuNo) : Prop where
  isset : myCpuIsset j.val (cpusetOf cpuset cpus) ≠ 0 ↔ j ∈ cpus
  passed : ∀ answer pid, bits (mySchedSetaffinity answer pid 8 (cpusetOf cpuset cpus)).1.mask =
    cpuNumbers cpus

variable {cpuset : Quad} {cpus : List CpuNo} {c j : CpuNo} {k : ℕ}

theorem mem_cpuNumbers : j.val.toNat ∈ cpuNumbers cpus ↔ j ∈ cpus := by
  constructor
  · rintro ⟨c, hc, hval⟩
    have hsame : c = j := by
      cases c
      cases j
      congr
      exact BitVec.eq_of_toNat_eq hval
    rwa [← hsame]
  · exact fun hj => ⟨j, hj, rfl⟩

/-- The bits that `MY_CPU_SET` sets: one, and with the sign all above it. -/
theorem mem_bits_shll (c : Word) : k ∈ bits ((shll c).signExtend 64) ↔
    k = c.toNat % 32 ∨ c.toNat % 32 = 31 ∧ 32 ≤ k ∧ k < 64 := by
  have hlt : c.toNat % 32 < 32 := Nat.mod_lt _ (by decide)
  have hmsb : (shll c).msb = true ↔ c.toNat % 32 = 31 := by
    rw [shll, ← BitVec.twoPow_eq, BitVec.msb_twoPow]
    simp [hlt]
  rw [bits_signExtend _ (by decide), Set.mem_union, Set.mem_ofPred_eq, hmsb, shll,
    bits_one_shiftLeft hlt, Set.mem_singleton_iff]

theorem mem_bits_cpusetOf : k ∈ bits (cpusetOf cpuset cpus) ↔
    ∃ c ∈ cpus, k = c.val.toNat % 32 ∨ c.val.toNat % 32 = 31 ∧ 32 ≤ k ∧ k < 64 := by
  have hset : bits (cpusetOf cpuset cpus) =
      bits 0 ∪ {k | ∃ c ∈ cpus, k ∈ bits ((shll c.val).signExtend 64)} :=
    bits_foldl_or _ _ _
  rw [hset, bits_zero, Set.empty_union, Set.mem_ofPred_eq]
  simp only [mem_bits_shll]

/-- `MY_CPU_ISSET` finds what is in the lower half. -/
theorem myCpuIsset_ne_zero_iff {m : Quad} :
    myCpuIsset j.val m ≠ 0 ↔ j.val.toNat < 32 ∧ j.val.toNat ∈ bits m := by
  have hlt : j.val.toNat < 64 := j.lt
  rw [ne_zero_iff_nonempty, myCpuIsset, bits_setWidth, bits_and, shlq,
    Nat.mod_eq_of_lt hlt, bits_one_shiftLeft hlt]
  constructor
  · rintro ⟨k, ⟨hk, hm⟩, hlow⟩
    obtain rfl : k = j.val.toNat := hk
    exact ⟨hlow, hm⟩
  · rintro ⟨hlow, hm⟩
    exact ⟨_, ⟨rfl, hm⟩, hlow⟩

theorem bits_eq_of_below (hbelow : ∀ c ∈ cpus, c.val.toNat < 31) :
    bits (cpusetOf cpuset cpus) = cpuNumbers cpus := by
  ext k
  rw [mem_bits_cpusetOf, cpuNumbers, Set.mem_ofPred_eq]
  constructor
  · rintro ⟨c, hc, hk⟩
    have hlt := hbelow c hc
    exact ⟨c, hc, by omega⟩
  · rintro ⟨c, hc, rfl⟩
    have hlt := hbelow c hc
    exact ⟨c, hc, by omega⟩

theorem CpuNo.toNat_ofNat (hk : k < 64) : (CpuNo.ofNat k hk).val.toNat = k :=
  Nat.mod_eq_of_lt (by omega)

theorem bits_eq_of_all (hall : ∀ c, c ∈ cpus) :
    bits (cpusetOf cpuset cpus) = cpuNumbers cpus := by
  ext k
  rw [mem_bits_cpusetOf, cpuNumbers, Set.mem_ofPred_eq]
  constructor
  · rintro ⟨c, -, hk⟩
    have hlt : k < 64 := by omega
    exact ⟨.ofNat k hlt, hall _, CpuNo.toNat_ofNat hlt⟩
  · rintro ⟨c, hc, rfl⟩
    have hlt : c.val.toNat < 64 := c.lt
    by_cases hlow : c.val.toNat < 32
    · exact ⟨c, hc, by omega⟩
    · -- The bits of the upper half are copies of the sign.
      refine ⟨.ofNat 31 (by decide), hall _, ?_⟩
      rw [CpuNo.toNat_ofNat]
      omega

/-- A right mask with the sign in it is full. -/
theorem all_of_bits_eq (hbits : bits (cpusetOf cpuset cpus) = cpuNumbers cpus)
    (hc : c ∈ cpus) (hsign : c.val.toNat % 32 = 31) (d : CpuNo) : d ∈ cpus := by
  have hupper {k : ℕ} (hle : 32 ≤ k) (hlt : k < 64) : ∃ c ∈ cpus, c.val.toNat = k := by
    show k ∈ cpuNumbers cpus
    rw [← hbits, mem_bits_cpusetOf]
    exact ⟨c, hc, .inr ⟨hsign, hle, hlt⟩⟩
  have hlt : d.val.toNat < 64 := d.lt
  rw [← mem_cpuNumbers]
  by_cases hlow : d.val.toNat < 32
  · -- The processor 32 above it has set its bit.
    obtain ⟨c', hc', hval⟩ := hupper (k := d.val.toNat + 32) (by omega) (by omega)
    rw [← hbits, mem_bits_cpusetOf]
    exact ⟨c', hc', .inl (by omega)⟩
  · exact hupper (by omega) hlt

theorem bits_eq_iff : bits (cpusetOf cpuset cpus) = cpuNumbers cpus ↔
    (∀ c ∈ cpus, c.val.toNat < 31) ∨ ∀ c, c ∈ cpus := by
  constructor
  · intro hbits
    by_cases hsign : ∃ c ∈ cpus, c.val.toNat % 32 = 31
    · obtain ⟨c, hc, hsign⟩ := hsign
      exact .inr (all_of_bits_eq hbits hc hsign)
    · refine .inl fun c hc => ?_
      have hmem : c.val.toNat ∈ bits (cpusetOf cpuset cpus) := by
        rw [hbits]
        exact ⟨c, hc, rfl⟩
      obtain ⟨c', hc', hbit⟩ := mem_bits_cpusetOf.mp hmem
      have hother : c'.val.toNat % 32 ≠ 31 := fun h => hsign ⟨c', hc', h⟩
      omega
  · rintro (hbelow | hall)
    · exact bits_eq_of_below hbelow
    · exact bits_eq_of_all hall

/-- The sets behave as sets while no processor above 30 is put in, and when all are put in
and none of the upper half is asked for. -/
theorem behavesAsSet_iff (cpuset : Quad) (cpus : List CpuNo) (j : CpuNo) :
    BehavesAsSet cpuset cpus j ↔
      (∀ c ∈ cpus, c.val.toNat < 31) ∨ (∀ c, c ∈ cpus) ∧ j.val.toNat < 32 := by
  constructor
  · intro hset
    have hbits : bits (cpusetOf cpuset cpus) = cpuNumbers cpus := hset.passed (fun _ => 0) 0
    refine (bits_eq_iff.mp hbits).imp id fun hall => ⟨hall, ?_⟩
    exact (myCpuIsset_ne_zero_iff.mp (hset.isset.mpr (hall j))).1
  · intro hwhen
    have hbits : bits (cpusetOf cpuset cpus) = cpuNumbers cpus :=
      bits_eq_iff.mpr (hwhen.imp id And.left)
    refine ⟨?_, fun _ _ => hbits⟩
    rw [myCpuIsset_ne_zero_iff, hbits, mem_cpuNumbers]
    refine and_iff_right_of_imp fun hj => ?_
    rcases hwhen with hbelow | ⟨-, hlow⟩
    · exact Nat.lt_of_lt_of_le (hbelow j hj) (by decide)
    · exact hlow

/-- Processor 32 put in alone: the kernel is given the set of processor 0, and
`MY_CPU_ISSET` does not find 32. -/
theorem cpu32_sets_cpu0 :
    myCpuIsset 32 (cpusetOf 0 [⟨32, by decide⟩]) = 0 ∧ cpusetOf 0 [⟨32, by decide⟩] = 1 ∧
      ¬ BehavesAsSet 0 [⟨32, by decide⟩] ⟨32, by decide⟩ := by
  have hzero : myCpuIsset 32 (cpusetOf 0 [⟨32, by decide⟩]) = 0 := by decide
  refine ⟨hzero, by decide, fun hset => ?_⟩
  exact hset.isset.mpr (List.mem_singleton.mpr rfl) hzero

/-- Processor 31 brings along all above it. -/
example : cpusetOf 0 [⟨31, by decide⟩] = 0xffffffff80000000#64 := by decide

end Htsynch
