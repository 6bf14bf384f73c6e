/-
# Which registers the halting wait survives

Between two comparisons `spin_on_condition_cpuhalt` makes a system call, and a system
call returns its result in `rax`. The asm block moves the call's number into `rax` as
well, but does not name the register among those it changes. The compiler is free to
keep `condition_val` or the address of `*spin_var` there, and from the second
comparison on the loop then compares with, or reads at, what `sys_cpu_halt` has
returned.
-/

import Htsynch.Synch.SpinWait
import Htsynch.Synch.WaitLoop

namespace Htsynch

open Foundations StateTransition

/-- The text of `spin_on_condition`. -/
def spinOnConditionText : List Insn := waitLoop .je .jne [.pause]

/-- The text of `spin_on_condition_cpuhalt`. -/
def spinOnConditionCpuhaltText : List Insn :=
  waitLoop .je .jne [.pause, .movRax NR_CPU_HALT, .syscall]

section

variable {a : Allocation 32} {env : Surroundings 32} {core : Core}

/-- The halting wait does what the pausing wait does: it returns on the first comparison
that finds the condition, where `spin_on_condition` returns too, and reads nothing but
`*spin_var`. -/
structure AgreesWithPause (a : Allocation 32) (env : Surroundings 32) (core : Core) : Prop where
  first : ∀ k, ReturnsAt spinOnConditionCpuhaltText a.operands env core k ↔
    FirstHit (fun k => env.mem k (address a core) = condition a core) k
  pause : ∀ k, ReturnsAt spinOnConditionCpuhaltText a.operands env core k ↔
    ReturnsAt spinOnConditionText (.passed (address a core) (condition a core)) env core k
  reads : ∀ s, Reaches (asmStep spinOnConditionCpuhaltText a.operands env) (asmStart core) s →
    ∀ b ∈ s.reads, b = address a core

/-- The text of the pausing wait leaves where the model of its instructions does. -/
theorem leaves_pause_iff {spinVar : Quad} {conditionVal : Word} {k : ℕ} :
    Leaves .je .jne [.pause] (.passed spinVar conditionVal) env core k ↔
      spinOnCondition (if k = 0 then .entry else .poll) (env.mem k spinVar) conditionVal =
        .done := by
  unfold Leaves
  by_cases hk : k = 0
  · simp [hk, flagsAt, addressAt, Operands.passed, spinOnCondition]
  · simp [hk, flagsAt, addressAt, Operands.passed, spinOnCondition, Bool.eq_false_iff]

/-- The pausing wait returns on the first comparison that finds the condition. -/
theorem returnsAt_pause {spinVar : Quad} {conditionVal : Word} {k : ℕ} :
    ReturnsAt spinOnConditionText (.passed spinVar conditionVal) env core k ↔
      FirstHit (fun k => env.mem k spinVar = conditionVal) k := by
  rw [spinOnConditionText, returnsAt_waitLoop]
  refine firstHit_congr (fun j => ?_) k
  rw [leaves_pause_iff]
  by_cases hj : j = 0 <;> simp [hj, spinOnCondition]

/-- A turn of the halting wait. -/
def haltTurn : List TurnInsn := [.pause, .movRax NR_CPU_HALT, .syscall]

/-- After a turn `rax` holds the result of the call, and no other register that the block
does not name has changed. -/
theorem coreAt_haltTurn (k : ℕ) {r : Reg} (hr : r ∉ Allocation.clobber) :
    (coreAt haltTurn env core (k + 1)).regs r = afterTurn (some env.cpuHalt) core.regs r := by
  refine coreAt_regs (fun _ => some env.cpuHalt) (fun k c => ?_) (fun _ => rfl) k
  cases r with
  | rax => simp [haltTurn, turnCore, TurnInsn.exec, syscallRegs, afterTurn]
  | rcx => simp [Allocation.clobber] at hr
  | r11 => simp [Allocation.clobber] at hr
  | _ => simp [haltTurn, turnCore, TurnInsn.exec, syscallRegs, afterTurn]

/-- The register of the address still holds it after a turn. -/
def AddressKept (a : Allocation 32) (env : Surroundings 32) (core : Core) : Prop :=
  a.spinVar = .rax → address a core = env.cpuHalt

/-- The place of the condition still holds it after a turn. -/
def ConditionKept (a : Allocation 32) (env : Surroundings 32) (core : Core) : Prop :=
  a.conditionVal = .reg .rax → condition a core = env.cpuHalt.low

theorem AddressKept.after_eq (h : AddressKept a env core) :
    a.addressAfter (some env.cpuHalt) (address a core) = address a core := by
  rw [Allocation.addressAfter]
  split
  · rename_i hrax
    exact (h hrax).symm
  · rfl

theorem ConditionKept.after_eq (h : ConditionKept a env core) :
    a.conditionAfter (some env.cpuHalt) (condition a core) = condition a core := by
  rw [Allocation.conditionAfter]
  split
  · rename_i hrax
    exact (h hrax).symm
  · rfl

/-- What later comparisons read, and what they compare it with. -/
theorem operandsAt_haltTurn (hperm : a.Permitted) (k : ℕ) :
    addressAt haltTurn a.operands env core (k + 1) =
        a.addressAfter (some env.cpuHalt) (address a core) ∧
      a.operands.conditionVal (coreAt haltTurn env core (k + 1)).regs =
        a.conditionAfter (some env.cpuHalt) (condition a core) := by
  refine operandsAt_turn (fun _ => some env.cpuHalt) (fun k r hr => ?_) k
  have hclobber : r ∉ Allocation.clobber := by
    rcases hr with rfl | hreg
    · exact hperm.spinVar
    · exact fun hr => hperm.conditionVal r hr hreg
  exact coreAt_haltTurn k hclobber

/-- Which comparisons the text of the halting wait leaves on. -/
abbrev HaltLeaves (a : Allocation 32) (env : Surroundings 32) (core : Core) (k : ℕ) : Prop :=
  Leaves .je .jne haltTurn a.operands env core k

theorem haltLeaves_zero :
    HaltLeaves a env core 0 ↔ env.mem 0 (address a core) = condition a core := by
  rw [HaltLeaves, Leaves, if_pos rfl, flagsAt, je_taken]
  rfl

theorem haltLeaves_succ (hperm : a.Permitted) (k : ℕ) :
    HaltLeaves a env core (k + 1) ↔
      env.mem (k + 1) (a.addressAfter (some env.cpuHalt) (address a core)) =
        a.conditionAfter (some env.cpuHalt) (condition a core) := by
  rw [HaltLeaves, Leaves, if_neg (Nat.succ_ne_zero k), flagsAt, Bool.eq_false_iff, ne_eq, jne_taken,
    not_not, (operandsAt_haltTurn hperm k).1, (operandsAt_haltTurn hperm k).2]

/-- The text of a copy of the halting wait leaves where the model of its instructions does,
when the call returns what `sys_cpu_halt` returns. -/
theorem leaves_halt_iff {code : Inlined} (hresult : env.cpuHalt = sysCpuHalt) {k : ℕ} :
    HaltLeaves code.toAllocation env core k ↔
      spinOnConditionCpuhalt code (env.mem k sysCpuHalt) (if k = 0 then .entry else .poll)
        (env.mem k (address code.toAllocation core)) (condition code.toAllocation core) =
          .done := by
  cases k with
  | zero => simp [haltLeaves_zero, spinOnConditionCpuhalt]
  | succ k =>
      rw [haltLeaves_succ code.permitted, hresult, Allocation.addressAfter]
      simp only [Nat.succ_ne_zero, if_false, spinOnConditionCpuhalt, Inlined.found, Inlined.sought,
        Option.getD_some]
      by_cases hrax : code.spinVar = .rax
      · simp [hrax]
      · simp [hrax]

theorem returnsAt_halt {k : ℕ} :
    ReturnsAt spinOnConditionCpuhaltText a.operands env core k ↔
      FirstHit (HaltLeaves a env core) k :=
  returnsAt_waitLoop

/-- Agreement is a matter of where the text leaves and of what it reads. -/
theorem agreesWithPause_iff_leaves :
    AgreesWithPause a env core ↔
      (∀ k, FirstHit (HaltLeaves a env core) k ↔
        FirstHit (fun k => env.mem k (address a core) = condition a core) k) ∧
      ∀ k, (∀ j < k, ¬ HaltLeaves a env core j) →
        addressAt haltTurn a.operands env core k = address a core := by
  constructor
  · intro hagrees
    refine ⟨fun k => returnsAt_halt.symm.trans (hagrees.first k), fun k hmiss => ?_⟩
    obtain ⟨s, hreach, hread⟩ := exists_read_iff.mpr ⟨k, rfl, hmiss⟩
    exact hagrees.reads s hreach _ hread
  · rintro ⟨hfirst, hreads⟩
    refine ⟨fun k => returnsAt_halt.trans (hfirst k),
      fun k => returnsAt_halt.trans ((hfirst k).trans returnsAt_pause.symm),
      fun s hreach b hb => ?_⟩
    obtain ⟨k, rfl, hmiss⟩ := exists_read_iff.mp ⟨s, hreach, hb⟩
    exact hreads k hmiss

/-- Where both operands keep, the texts leave on the same comparisons. -/
theorem agreesWithPause_of_kept (hperm : a.Permitted) (haddress : AddressKept a env core)
    (hcondition : ConditionKept a env core) : AgreesWithPause a env core := by
  refine agreesWithPause_iff_leaves.mpr ⟨firstHit_congr fun j => ?_, fun k _ => ?_⟩
  · cases j with
    | zero => exact haltLeaves_zero
    | succ j => rw [haltLeaves_succ hperm, haddress.after_eq, hcondition.after_eq]
  · cases k with
    | zero => rfl
    | succ k => rw [(operandsAt_haltTurn hperm k).1, haddress.after_eq]

/-- A comparison on entry that finds the condition makes no system call. -/
theorem agreesWithPause_of_entry (hentry : env.mem 0 (address a core) = condition a core) :
    AgreesWithPause a env core := by
  have hleaves : HaltLeaves a env core 0 := haltLeaves_zero.mpr hentry
  refine agreesWithPause_iff_leaves.mpr ⟨fun k => ?_, fun k hmiss => ?_⟩
  · constructor
    · intro hk
      obtain rfl : k = 0 := hk.unique ⟨hleaves, fun j hj => absurd hj (Nat.not_lt_zero j)⟩
      exact ⟨hentry, fun j hj => absurd hj (Nat.not_lt_zero j)⟩
    · intro hk
      obtain rfl : k = 0 :=
        FirstHit.unique hk ⟨hentry, fun j hj => absurd hj (Nat.not_lt_zero j)⟩
      exact ⟨hleaves, fun j hj => absurd hj (Nat.not_lt_zero j)⟩
  · cases k with
    | zero => rfl
    | succ k => exact absurd hleaves (hmiss 0 (Nat.succ_pos k))

/-- Where the address keeps and neither value ever turns up, both waits spin forever. -/
theorem agreesWithPause_of_never (hperm : a.Permitted) (haddress : AddressKept a env core)
    (hnever : ∀ k, env.mem (k + 1) (address a core) ≠ condition a core ∧
      env.mem (k + 1) (address a core) ≠ env.cpuHalt.low) : AgreesWithPause a env core := by
  refine agreesWithPause_iff_leaves.mpr ⟨firstHit_congr fun j => ?_, fun k _ => ?_⟩
  · cases j with
    | zero => exact haltLeaves_zero
    | succ j =>
        rw [haltLeaves_succ hperm, haddress.after_eq, Allocation.conditionAfter]
        refine iff_of_false (fun hleaves => ?_) (hnever j).1
        split at hleaves
        · exact (hnever j).2 hleaves
        · exact (hnever j).1 hleaves
  · cases k with
    | zero => rfl
    | succ k => rw [(operandsAt_haltTurn hperm k).1, haddress.after_eq]

/-- Agreement forces the address to keep, unless the comparison on entry finds the
condition. -/
theorem AgreesWithPause.addressKept (hagrees : AgreesWithPause a env core) (hperm : a.Permitted)
    (hentry : env.mem 0 (address a core) ≠ condition a core) : AddressKept a env core := by
  intro hrax
  have hread := (agreesWithPause_iff_leaves.mp hagrees).2 1 fun j hj => by
    obtain rfl : j = 0 := by omega
    exact fun hleaves => hentry (haltLeaves_zero.mp hleaves)
  rw [(operandsAt_haltTurn hperm 0).1, Allocation.addressAfter, if_pos hrax] at hread
  exact hread.symm

/-- Agreement forces the condition to keep, or neither value to turn up. -/
theorem AgreesWithPause.never (hagrees : AgreesWithPause a env core) (hperm : a.Permitted)
    (hentry : env.mem 0 (address a core) ≠ condition a core)
    (hlost : ¬ ConditionKept a env core) (k : ℕ) :
    env.mem (k + 1) (address a core) ≠ condition a core ∧
      env.mem (k + 1) (address a core) ≠ env.cpuHalt.low := by
  obtain ⟨hrax, hdiffer⟩ : a.conditionVal = .reg .rax ∧ condition a core ≠ env.cpuHalt.low := by
    simpa [ConditionKept] using hlost
  have haddress := hagrees.addressKept hperm hentry
  have hsought : a.conditionAfter (some env.cpuHalt) (condition a core) = env.cpuHalt.low :=
    if_pos hrax
  -- After the entry the two texts never leave on one and the same comparison.
  have hapart : ∀ j, FirstHit (HaltLeaves a env core) j →
      FirstHit (fun k => env.mem k (address a core) = condition a core) j → False := by
    intro j hleaves hwanted
    cases j with
    | zero => exact hentry hwanted.1
    | succ j =>
        have hresult := (haltLeaves_succ hperm j).mp hleaves.1
        rw [haddress.after_eq, hsought] at hresult
        exact hdiffer (hwanted.1.symm.trans hresult)
  have hsame := (agreesWithPause_iff_leaves.mp hagrees).1
  constructor
  · intro hwanted
    obtain ⟨j, -, hfirst⟩ :=
      @exists_firstHit_le (fun k => env.mem k (address a core) = condition a core) _ hwanted
    exact hapart j ((hsame j).mpr hfirst) hfirst
  · intro hresult
    have hleaves : HaltLeaves a env core (k + 1) := by
      rw [haltLeaves_succ hperm, haddress.after_eq, hsought]
      exact hresult
    obtain ⟨j, -, hfirst⟩ := exists_firstHit_le hleaves
    exact hapart j hfirst ((hsame j).mp hfirst)

/-- The halting wait agrees with the pausing wait exactly when the comparison on entry
finds the condition, or when the register of the address keeps it and that of the
condition does, or neither the condition nor the result of the call ever turns up. -/
theorem agreesWithPause_iff (hperm : a.Permitted) :
    AgreesWithPause a env core ↔
      env.mem 0 (address a core) = condition a core ∨
        (AddressKept a env core ∧
          (ConditionKept a env core ∨ ∀ k, env.mem (k + 1) (address a core) ≠ condition a core ∧
            env.mem (k + 1) (address a core) ≠ env.cpuHalt.low)) := by
  constructor
  · intro hagrees
    by_cases hentry : env.mem 0 (address a core) = condition a core
    · exact .inl hentry
    · refine .inr ⟨hagrees.addressKept hperm hentry, ?_⟩
      by_cases hkept : ConditionKept a env core
      · exact .inl hkept
      · exact .inr (hagrees.never hperm hentry hkept)
  · intro hcases
    by_cases hentry : env.mem 0 (address a core) = condition a core
    · exact agreesWithPause_of_entry hentry
    · obtain ⟨haddress, hkept | hnever⟩ := hcases.resolve_left hentry
      · exact agreesWithPause_of_kept hperm haddress hkept
      · exact agreesWithPause_of_never hperm haddress hnever

end

/-- Registers that hold the condition 1 in `rax` and the address 4096 in `rdi`. -/
def waitingForOne : Core := ⟨fun r => if r = .rax then 1 else 4096, 0⟩

/-- A variable that is 0 on entry and 1 ever after. -/
def releasedOnce : Surroundings 32 :=
  ⟨fun k _ => if k = 0 then 0 else 1, sysCpuHalt, fun _ => 0, fun _ => 0, fun _ => 0⟩

/-- With the condition in `rax` the halting wait never sees the release: it compares with
0, what `sys_cpu_halt` has returned. -/
theorem halt_misses_release :
    conditionInRax.Permitted ∧ condition conditionInRax waitingForOne = 1 ∧
      (∃ k, ReturnsAt spinOnConditionText (.passed 4096 1) releasedOnce waitingForOne k) ∧
      (¬ ∃ k, ReturnsAt spinOnConditionCpuhaltText conditionInRax.operands releasedOnce
        waitingForOne k) ∧
      ¬ AgreesWithPause conditionInRax releasedOnce waitingForOne := by
  have hpause : ReturnsAt spinOnConditionText (.passed 4096 1) releasedOnce waitingForOne 1 :=
    returnsAt_pause.mpr ⟨by decide, by decide⟩
  have hnever : ¬ ∃ k, ReturnsAt spinOnConditionCpuhaltText conditionInRax.operands releasedOnce
      waitingForOne k := by
    rintro ⟨k, hk⟩
    have hleaves := (returnsAt_halt.mp hk).1
    cases k with
    | zero => exact absurd (haltLeaves_zero.mp hleaves) (by decide)
    | succ k =>
        have hzero := (haltLeaves_succ conditionInRax_permitted k).mp hleaves
        simp [releasedOnce, conditionInRax, Allocation.conditionAfter, sysCpuHalt] at hzero
  refine ⟨conditionInRax_permitted, by decide, ⟨1, hpause⟩, hnever, fun hagrees => ?_⟩
  exact hnever ⟨1, (hagrees.pause 1).mpr hpause⟩

/-- With the condition as an immediate, as `NOTIFIED_VALUE` is, both waits return at the first
comparison after the release. -/
theorem agreesWithPause_immediate :
    ReturnsAt spinOnConditionCpuhaltText (Allocation.mk (.imm 1) .rdi).operands releasedOnce
        waitingForOne 1 ∧
      ReturnsAt spinOnConditionText (.passed 4096 1) releasedOnce waitingForOne 1 := by
  have hkept : AgreesWithPause ⟨.imm 1, .rdi⟩ releasedOnce waitingForOne :=
    (agreesWithPause_iff ⟨by decide, by decide⟩).mpr (.inr ⟨nofun, .inl nofun⟩)
  have hhalt : ReturnsAt spinOnConditionCpuhaltText (Allocation.mk (.imm 1) .rdi).operands
      releasedOnce waitingForOne 1 := (hkept.first 1).mpr ⟨by decide, by decide⟩
  exact ⟨hhalt, (hkept.pause 1).mp hhalt⟩

end Htsynch
