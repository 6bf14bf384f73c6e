/-
# Blocks that are allocated and freed

An allocator hands out blocks at addresses of its choice, apart from those in use, and
takes a block back by its base address. Each block it has handed out is kept, with a
serial number, so that a block and a later one at the same place are told apart, and so
is each block that was given back, as often as it was.

Freeing an address that is no base frees nothing, and freeing the base of a block that
was freed before shows as a second entry for it. A caller that frees only bases of live
blocks frees nothing twice.
-/

import Mathlib.Data.List.Basic
import Mathlib.Data.Nat.Notation

namespace Htsynch.Foundations

/-- A block as it was handed out. -/
structure Block where
  serial : ℕ
  base : ℕ
  size : ℕ
  deriving DecidableEq

/-- The address is one of the block's bytes. -/
def Block.Covers (b : Block) (a : ℕ) : Prop := b.base ≤ a ∧ a < b.base + b.size

instance (b : Block) (a : ℕ) : Decidable (b.Covers a) := inferInstanceAs (Decidable (_ ∧ _))

/-- What an allocator has handed out, and what it was given back. -/
structure Heap where
  /-- All blocks, the latest first. -/
  blocks : List Block
  /-- The blocks given back, the latest first. -/
  frees : List Block
  serial_lt : ∀ b ∈ blocks, b.serial < blocks.length
  frees_subset : ∀ b ∈ frees, b ∈ blocks

namespace Heap

/-- Nothing was handed out yet. -/
def empty : Heap := ⟨[], [], by simp, by simp⟩

/-- A block that is in use. -/
def Live (h : Heap) (b : Block) : Prop := b ∈ h.blocks ∧ b ∉ h.frees

instance (h : Heap) (b : Block) : Decidable (h.Live b) := inferInstanceAs (Decidable (_ ∧ _))

/-- A byte of a block that is in use. -/
def LiveByte (h : Heap) (a : ℕ) : Prop := ∃ b, h.Live b ∧ b.Covers a

instance (h : Heap) (a : ℕ) : Decidable (h.LiveByte a) :=
  decidable_of_iff (∃ b ∈ h.blocks, b ∉ h.frees ∧ b.Covers a) <| by
    simp only [LiveByte, Live, and_assoc]

/-- Where a new block may be: not at address 0, and apart from the blocks in use. -/
def Fresh (h : Heap) (base size : ℕ) : Prop :=
  base ≠ 0 ∧ ∀ b ∈ h.blocks, b ∉ h.frees → b.base + b.size ≤ base ∨ base + size ≤ b.base

instance (h : Heap) (base size : ℕ) : Decidable (h.Fresh base size) :=
  inferInstanceAs (Decidable (_ ∧ _))

/-- Hand out a block. -/
def alloc (h : Heap) (base size : ℕ) : Heap where
  blocks := ⟨h.blocks.length, base, size⟩ :: h.blocks
  frees := h.frees
  serial_lt b hb := by
    rcases List.mem_cons.mp hb with rfl | hold
    · exact Nat.lt_succ_self _
    · exact Nat.lt_succ_of_lt (h.serial_lt b hold)
  frees_subset b hb := List.mem_cons_of_mem _ (h.frees_subset b hb)

/-- The block that an address gives back: the live one with that base, else the last one
that had it. -/
def target (h : Heap) (p : ℕ) : Option Block :=
  (h.blocks.find? fun b => b.base = p ∧ b ∉ h.frees).or (h.blocks.find? fun b => b.base = p)

theorem target_mem {h : Heap} {p : ℕ} {b : Block} (hb : h.target p = some b) : b ∈ h.blocks := by
  rcases Option.or_eq_some_iff.mp hb with hlive | ⟨-, hany⟩
  · exact List.mem_of_find?_eq_some hlive
  · exact List.mem_of_find?_eq_some hany

/-- Give back the block with base `p`; address 0 is no block. -/
def free (h : Heap) (p : ℕ) : Heap :=
  if p = 0 then h
  else
    { h with
      frees := (h.target p).toList ++ h.frees
      frees_subset := fun b hb => by
        rcases List.mem_append.mp hb with hnew | hold
        · exact target_mem (Option.mem_toList.mp hnew)
        · exact h.frees_subset b hold }

/-- What a caller may free: address 0, and the base of a live block. -/
def MayFree (h : Heap) (p : ℕ) : Prop := p = 0 ∨ ∃ b, h.Live b ∧ b.base = p

instance (h : Heap) (p : ℕ) : Decidable (h.MayFree p) :=
  decidable_of_iff (p = 0 ∨ ∃ b ∈ h.blocks, b ∉ h.frees ∧ b.base = p) <| by
    simp only [MayFree, Live, and_assoc]

variable {h : Heap} {b : Block} {a p base size : ℕ}

@[simp]
theorem not_live_empty : ¬ empty.Live b := by
  simp [Live, empty]

/-- The serial number of the next block is new. -/
theorem new_not_mem_blocks : (⟨h.blocks.length, base, size⟩ : Block) ∉ h.blocks := fun hmem =>
  Nat.lt_irrefl _ (h.serial_lt _ hmem)

theorem new_not_mem_frees : (⟨h.blocks.length, base, size⟩ : Block) ∉ h.frees := fun hfree =>
  new_not_mem_blocks (h.frees_subset _ hfree)

/-- A new block is live, and so are those that were. -/
theorem live_alloc :
    (h.alloc base size).Live b ↔ b = ⟨h.blocks.length, base, size⟩ ∨ h.Live b := by
  constructor
  · rintro ⟨hmem, hfree⟩
    exact (List.mem_cons.mp hmem).imp id fun hold => ⟨hold, hfree⟩
  · rintro (rfl | ⟨hmem, hfree⟩)
    · exact ⟨List.mem_cons_self, new_not_mem_frees⟩
    · exact ⟨List.mem_cons_of_mem _ hmem, hfree⟩

@[simp]
theorem frees_alloc : (h.alloc base size).frees = h.frees := rfl

@[simp]
theorem free_zero : h.free 0 = h := if_pos rfl

@[simp]
theorem blocks_free : (h.free p).blocks = h.blocks := by
  unfold free
  split <;> rfl

theorem frees_free (hp : p ≠ 0) : (h.free p).frees = (h.target p).toList ++ h.frees := by
  rw [free, if_neg hp]

/-- Freeing brings no block to life. -/
theorem Live.of_free (hlive : (h.free p).Live b) : h.Live b := by
  by_cases hp : p = 0
  · rwa [hp, free_zero] at hlive
  · obtain ⟨hmem, hfree⟩ := hlive
    rw [blocks_free] at hmem
    rw [frees_free hp] at hfree
    exact ⟨hmem, fun hold => hfree (List.mem_append_right _ hold)⟩

/-- The base of a live block gives back a live block with that base. -/
theorem target_of_live (hlive : h.Live b) : ∃ b', h.target b.base = some b' ∧
    h.Live b' ∧ b'.base = b.base := by
  have hsome : (h.blocks.find? fun b' => b'.base = b.base ∧ b' ∉ h.frees).isSome := by
    rw [List.find?_isSome]
    exact ⟨b, hlive.1, by simpa using hlive.2⟩
  obtain ⟨b', hb'⟩ := Option.isSome_iff_exists.mp hsome
  have hprop := List.find?_some hb'
  simp only [decide_eq_true_eq] at hprop
  exact ⟨b', by rw [target, hb', Option.some_or],
    ⟨List.mem_of_find?_eq_some hb', hprop.2⟩, hprop.1⟩

/-- The block given back is no longer live. -/
theorem not_live_free (hp : p ≠ 0) (htarget : h.target p = some b) : ¬ (h.free p).Live b := by
  rintro ⟨-, hfree⟩
  rw [frees_free hp, htarget] at hfree
  exact hfree List.mem_cons_self

/-- The base of a block that was just handed out gives back that block. -/
theorem target_alloc : (h.alloc base size).target base = some ⟨h.blocks.length, base, size⟩ := by
  have hfind : ((h.alloc base size).blocks.find? fun b => b.base = base ∧ b ∉ h.frees) =
      some ⟨h.blocks.length, base, size⟩ :=
    List.find?_cons_of_pos (by simpa using new_not_mem_frees)
  rw [target, frees_alloc, hfind, Option.some_or]

/-- Giving back what was just handed out leaves the blocks in use as they were. -/
theorem live_free_alloc (hbase : base ≠ 0) :
    ((h.alloc base size).free base).Live b ↔ h.Live b := by
  constructor
  · intro hlive
    rcases live_alloc.mp hlive.of_free with rfl | hold
    · exact absurd hlive (not_live_free hbase target_alloc)
    · exact hold
  · intro hold
    have hne : b ≠ ⟨h.blocks.length, base, size⟩ := by
      rintro rfl
      exact new_not_mem_blocks hold.1
    rw [Live, blocks_free, frees_free hbase, target_alloc, frees_alloc]
    refine ⟨List.mem_cons_of_mem _ hold.1, fun hfree => ?_⟩
    rcases List.mem_cons.mp hfree with hnew | hfreed
    · exact hne hnew
    · exact hold.2 hfreed

/-- Who frees only what may be freed frees nothing twice. -/
theorem MayFree.nodup (hmay : h.MayFree p) (honce : h.frees.Nodup) : (h.free p).frees.Nodup := by
  by_cases hp : p = 0
  · rwa [hp, free_zero]
  · obtain ⟨b, hlive, rfl⟩ := hmay.resolve_left hp
    obtain ⟨b', htarget, hlive', -⟩ := target_of_live hlive
    rw [frees_free hp, htarget]
    exact List.nodup_cons.mpr ⟨hlive'.2, honce⟩

end Heap

end Htsynch.Foundations
