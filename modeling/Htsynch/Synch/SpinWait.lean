/-
# The equality wait loops of synch.h

Both loops compare `*spin_var` with `condition_val` once on entry and then once
for every turn. Between two comparisons `spin_on_condition` executes `pause`;
`spin_on_condition_cpuhalt` moreover enters `sys_cpu_halt` and stays there until
an interrupt arrives, which may be at any time.

The call returns its result in `rax`. The functions are inlined, and each copy of
the halting one has its operands where the compiler has put them: one that is in
`rax` is lost to the comparisons that follow the call.
-/

import Htsynch.Synch.WaitLoop

namespace Htsynch

/-- Where a thread is inside a wait loop. -/
inductive WaitPc
  /-- The comparison on entry. -/
  | entry
  /-- Label `1:`. -/
  | pause
  /-- Halted in `sys_cpu_halt`. -/
  | halted
  /-- The comparison at the end of a turn. -/
  | poll
  deriving DecidableEq

/-- What one instruction of a wait loop leads to. -/
inductive WaitOutcome
  | goto (pc : WaitPc)
  | done
  deriving DecidableEq

/-- A copy of `spin_on_condition_cpuhalt`. -/
structure Inlined extends Allocation 32 where
  permitted : toAllocation.Permitted
  deriving DecidableEq

namespace Inlined

/-- What a comparison finds after the call, if memory holds `stray` at the address that the
call has returned. -/
def found (code : Inlined) (stray spinVar : Word) : Word :=
  if code.spinVar = .rax then stray else spinVar

/-- What it compares that with. -/
def sought (code : Inlined) (conditionVal : Word) : Word :=
  code.conditionAfter (some sysCpuHalt) conditionVal

/-- Both operands survive the call. -/
def Keeps (code : Inlined) (conditionVal : Word) : Prop :=
  code.spinVar ≠ .rax ∧ (code.conditionVal = .reg .rax → conditionVal = sysCpuHalt.low)

instance (code : Inlined) (conditionVal : Word) : Decidable (code.Keeps conditionVal) :=
  inferInstanceAs (Decidable (_ ∧ _))

variable {code : Inlined} {stray spinVar conditionVal : Word}

theorem Keeps.found_eq (h : code.Keeps conditionVal) : code.found stray spinVar = spinVar :=
  if_neg h.1

theorem Keeps.sought_eq (h : code.Keeps conditionVal) :
    code.sought conditionVal = conditionVal := by
  rw [sought, Allocation.conditionAfter]
  split
  · rename_i hrax
    exact (h.2 hrax).symm
  · rfl

end Inlined

/-- The condition in `rax`, the address in `rdi`. -/
def conditionInRax : Allocation 32 := ⟨.reg .rax, .rdi⟩

theorem conditionInRax_permitted : conditionInRax.Permitted :=
  ⟨by decide, by decide⟩

/-- A copy with the condition in `rax`. -/
def senseInRax : Inlined := ⟨conditionInRax, conditionInRax_permitted⟩

/-- A copy whose operands the call preserves. -/
def senseInRbx : Inlined := ⟨⟨.reg .rbx, .rdi⟩, ⟨by decide, by decide⟩⟩

/-- `spin_on_condition`. -/
def spinOnCondition : WaitPc → Word → Word → WaitOutcome
  | .entry, spinVar, conditionVal =>
      if spinVar = conditionVal then .done else .goto .pause
  | .pause, _, _ => .goto .poll
  | .halted, _, _ => .goto .poll
  | .poll, spinVar, conditionVal =>
      if spinVar ≠ conditionVal then .goto .pause else .done

/-- `spin_on_condition_cpuhalt`. -/
def spinOnConditionCpuhalt (code : Inlined) (stray : Word) :
    WaitPc → Word → Word → WaitOutcome
  | .entry, spinVar, conditionVal =>
      if spinVar = conditionVal then .done else .goto .pause
  | .pause, _, _ => .goto .halted
  | .halted, _, _ => .goto .poll
  | .poll, spinVar, conditionVal =>
      if code.found stray spinVar ≠ code.sought conditionVal then .goto .pause else .done

variable {code : Inlined} {pc : WaitPc} {stray spinVar conditionVal : Word}

/-- The pausing loop ends only on a comparison that found the value. -/
theorem spinOnCondition_eq_done (h : spinOnCondition pc spinVar conditionVal = .done) :
    spinVar = conditionVal := by
  cases pc <;> simp_all [spinOnCondition]

/-- The halting loop ends on such a comparison, or on one after the call that found what it
was left to seek. -/
theorem spinOnConditionCpuhalt_eq_done
    (h : spinOnConditionCpuhalt code stray pc spinVar conditionVal = .done) :
    spinVar = conditionVal ∨
      pc = .poll ∧ code.found stray spinVar = code.sought conditionVal := by
  cases pc <;> simp_all [spinOnConditionCpuhalt]

/-- With operands that survive the call the last comparison is that of the pausing loop. -/
theorem Inlined.Keeps.poll_eq (h : code.Keeps conditionVal) :
    spinOnConditionCpuhalt code stray .poll spinVar conditionVal =
      spinOnCondition .poll spinVar conditionVal := by
  rw [spinOnConditionCpuhalt, h.found_eq, h.sought_eq, spinOnCondition]

end Htsynch
