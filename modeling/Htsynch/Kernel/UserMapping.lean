/-
# The page as a process sees it

A process opens the device and maps at least one page of it. An access through the mapping
goes through the frame that `kmem_mapper_mmap` has put at its page, and the kernel sees the
same byte at the frame's own address. So the first page of the mapping is the monitored
page byte for byte.

The long and the two regions lie on three lines of it.
-/

import Htsynch.Kernel.KmemMmap
import Htsynch.Kernel.SpinWhileGreater

namespace Htsynch

open Foundations

/-- The kernel's address for a user address of a range, given the frames of its pages. -/
def DirectMap.translate (map : DirectMap) (vma : VmArea) (frames : List ℕ) (a : ℕ) :
    Option Addr :=
  if vma.vmStart ≤ a ∧ a < vma.vmEnd then
    frames[(a - vma.vmStart) / PAGE_SIZE]?.map fun f =>
      f * PAGE_SIZE + (a - vma.vmStart) % PAGE_SIZE + map.pageOffset
  else none

/-- A mapping of the device that was granted. -/
structure DeviceMapping where
  map : DirectMap
  remap : RemapPfnRange
  kmallocPtr : Addr
  /-- The pointers before the module is loaded. -/
  unloaded : Pointers
  vma : VmArea
  maps : remap.MapsRange
  direct : map.pageOffset ≤ kmallocPtr
  valid : vma.Valid
  page : PAGE_SIZE ≤ vma.vmEnd - vma.vmStart
  granted : (kmemMapperMmap map remap (kmemMapperInit kmallocPtr unloaded) vma).1 = 0

namespace DeviceMapping

variable (m : DeviceMapping)

/-- The pointers that the module exports. -/
def ptrs : Pointers := kmemMapperInit m.kmallocPtr m.unloaded

/-- `mmapped_device_memory`. -/
def mmappedDeviceMemory : ℕ := m.vma.vmStart

/-- `mmapped_device_memory2`. -/
def mmappedDeviceMemory2 : ℕ := m.mmappedDeviceMemory + MONITORED_REGIONS_DISTANCE

/-- `lint_counter_addr`. -/
def lintCounterAddr : ℕ := m.mmappedDeviceMemory + MWMON_LINT_VAR_OFFSET

/-- The pointer with which user space notifies a region. -/
def userByte : Region → ℕ
  | .first => m.mmappedDeviceMemory
  | .second => m.mmappedDeviceMemory2

/-- The byte behind a user address. -/
def translate (a : ℕ) : Option Addr :=
  m.map.translate m.vma (kmemMapperMmap m.map m.remap m.ptrs m.vma).2 a

section

variable {ι : Type} [DecidableEq ι]

/-- A store through the mapping. -/
def userStore (c : ι) (a : ℕ) (v : Byte) (h : Machine ι) : Option (Machine ι) :=
  (m.translate a).map fun p => h.store c p v

/-- A store of a `long int` through the mapping; it is aligned and lies on one page. -/
def userStoreLong (c : ι) (a : ℕ) (v : BitVec 64) (h : Machine ι) : Option (Machine ι) :=
  (m.translate a).map fun p => storeLong c p v h

end

/-- The frame at the first page of the mapping is the frame of the area. -/
theorem first_frame :
    (kmemMapperMmap m.map m.remap m.ptrs m.vma).2[0]? = some (areaFrame m.map m.ptrs) := by
  have hpages : 0 < (m.vma.vmEnd - m.vma.vmStart) / PAGE_SIZE :=
    Nat.div_pos m.page (by decide)
  have hframes : (kmemMapperMmap m.map m.remap m.ptrs m.vma).2 =
      List.range' (areaFrame m.map m.ptrs) ((m.vma.vmEnd - m.vma.vmStart) / PAGE_SIZE) :=
    kmemMapperMmap_frames m.maps m.granted
  rw [hframes, List.getElem?_range' hpages, Nat.mul_zero, Nat.add_zero]

/-- The first page of the mapping is the page from `mwmon_mmap_area` on. -/
theorem translate_offset (offset : ℕ) (hoffset : offset < PAGE_SIZE) :
    m.translate (m.mmappedDeviceMemory + offset) = some (m.ptrs.mwmonMmapArea + offset) := by
  have hbelow : m.map.pageOffset ≤ m.ptrs.mwmonMmapArea :=
    Nat.le_trans m.direct (roundUp_bounds m.kmallocPtr).1
  have hinside : m.vma.vmStart + offset < m.vma.vmEnd :=
    Nat.add_lt_of_lt_sub' (Nat.lt_of_lt_of_le hoffset m.page)
  have hphys : areaFrame m.map m.ptrs * PAGE_SIZE = m.ptrs.mwmonMmapArea - m.map.pageOffset :=
    areaFrame_mul m.map m.kmallocPtr m.unloaded
  rw [translate, mmappedDeviceMemory, DirectMap.translate,
    if_pos ⟨Nat.le_add_right _ _, hinside⟩, Nat.add_sub_cancel_left, Nat.div_eq_of_lt hoffset,
    Nat.mod_eq_of_lt hoffset, m.first_frame, Option.map_some, hphys, Nat.add_right_comm,
    Nat.sub_add_cancel hbelow]

/-- Kernel and user space name the first byte of a region differently. -/
theorem translate_userByte (r : Region) : m.translate (m.userByte r) = some (r.byte m.ptrs) := by
  cases r with
  | first =>
      have hfirst := m.translate_offset 0 (by decide)
      rw [Nat.add_zero, Nat.add_zero] at hfirst
      exact hfirst
  | second => exact m.translate_offset MONITORED_REGIONS_DISTANCE (by decide)

theorem translate_lintCounterAddr :
    m.translate m.lintCounterAddr = some m.ptrs.mwmonLintVarAddr :=
  m.translate_offset MWMON_LINT_VAR_OFFSET (by decide)

/-- The lines at the three offsets in a page. -/
theorem page_lines (page : ℕ) {i : ℕ} (hi : i < 8) :
    (page * PAGE_SIZE + MONITORED_REGIONS_DISTANCE) / MWMON_MONITORED_MEM_BYTES ≠
        page * PAGE_SIZE / MWMON_MONITORED_MEM_BYTES ∧
      (page * PAGE_SIZE + MWMON_LINT_VAR_OFFSET + i) / MWMON_MONITORED_MEM_BYTES ≠
        page * PAGE_SIZE / MWMON_MONITORED_MEM_BYTES ∧
      (page * PAGE_SIZE + MWMON_LINT_VAR_OFFSET + i) / MWMON_MONITORED_MEM_BYTES ≠
        (page * PAGE_SIZE + MONITORED_REGIONS_DISTANCE) / MWMON_MONITORED_MEM_BYTES := by
  unfold PAGE_SIZE MONITORED_REGIONS_DISTANCE MWMON_LINT_VAR_OFFSET MWMON_MONITORED_MEM_BYTES
  omega

/-- The first bytes of the regions are on different lines. -/
theorem line_byte_ne {r r' : Region} (hne : r' ≠ r) :
    Lines.line (r'.byte m.ptrs) ≠ Lines.line (r.byte m.ptrs) := by
  obtain ⟨hregions, -, -⟩ :=
    page_lines ((m.kmallocPtr + PAGE_SIZE - 1) / PAGE_SIZE) (i := 0) (by decide)
  cases r with
  | first =>
      cases r' with
      | first => exact absurd rfl hne
      | second => exact hregions
  | second =>
      cases r' with
      | first => exact Ne.symm hregions
      | second => exact absurd rfl hne

/-- The long is on neither of their lines. -/
theorem line_lint_ne (r : Region) {i : ℕ} (hi : i < 8) :
    Lines.line (m.ptrs.mwmonLintVarAddr + i) ≠ Lines.line (r.byte m.ptrs) := by
  obtain ⟨-, hfirst, hsecond⟩ :=
    page_lines ((m.kmallocPtr + PAGE_SIZE - 1) / PAGE_SIZE) hi
  cases r with
  | first => exact hfirst
  | second => exact hsecond

end DeviceMapping

end Htsynch
