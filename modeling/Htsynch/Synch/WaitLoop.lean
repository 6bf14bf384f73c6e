/-
# The wait loops as assembly text

All wait loops have one shape: a comparison and a conditional jump on entry, then
turns of a few instructions that each end with another comparison and a jump back.
They differ in the two jumps and in the instructions of a turn. The model runs the
text, instruction by instruction, on the registers; memory is seen by the
comparisons only, and may hold something else at each of them.

How the operands `%0` and `%1` are obtained from the registers is a parameter: the
text fixes neither, the compiler does.
-/

import Htsynch.Foundations.PollLoop
import Htsynch.X86

namespace Htsynch

open Foundations StateTransition

/-- The registers an operand may be kept in. -/
inductive Reg
  | rax | rbx | rcx | rdx | rsi | rdi | rbp | rsp
  | r8 | r9 | r10 | r11 | r12 | r13 | r14 | r15
  deriving DecidableEq

/-- The contents of the registers. -/
abbrev Regs := Reg → Quad

/-- The instructions of a turn other than its comparison and its jump. -/
inductive TurnInsn
  | pause
  /-- `movq $n, %rax`. -/
  | movRax (n : ℕ)
  | syscall
  /-- `incq %2`, the counter of the turns. -/
  | incCnt
  deriving DecidableEq

/-- The instructions of a wait loop. -/
inductive Insn
  /-- `cmpl %1, %0`, or `cmpq %1, %0`. -/
  | cmp
  | jump (cond : Jump) (target : ℕ)
  | turn (i : TurnInsn)
  deriving DecidableEq

/-- The text of a wait loop: label `1:` is instruction 2, label `2:` is its end. -/
def waitLoop (enter again : Jump) (turn : List TurnInsn) : List Insn :=
  [.cmp, .jump enter (turn.length + 4)] ++ turn.map .turn ++ [.cmp, .jump again 2]

/-- How the operands are obtained from the registers. -/
structure Operands (w : ℕ) where
  /-- The address of `%0`. -/
  spinVar : Regs → Quad
  /-- The value of `%1`. -/
  conditionVal : Regs → BitVec w

/-- The operands as C passes them in. -/
def Operands.passed {w : ℕ} (spinVar : Quad) (conditionVal : BitVec w) : Operands w :=
  ⟨fun _ => spinVar, fun _ => conditionVal⟩

/-- Where `%1` may be. -/
inductive ConditionOperand (w : ℕ)
  | imm (v : BitVec w)
  | reg (r : Reg)
  deriving DecidableEq

/-- The operands of an asm block as the compiler has placed them. -/
structure Allocation (w : ℕ) where
  conditionVal : ConditionOperand w
  /-- The register that holds the address of `*spin_var`. -/
  spinVar : Reg
  deriving DecidableEq

namespace Allocation

variable {w : ℕ}

/-- The registers of `__syscall_clobber`. -/
def clobber : List Reg := [.r11, .rcx]

/-- The compiler keeps no operand in a register that the block says it changes. -/
structure Permitted (a : Allocation w) : Prop where
  conditionVal : ∀ r ∈ clobber, a.conditionVal ≠ .reg r
  spinVar : a.spinVar ∉ clobber

/-- What the instructions read. -/
def operands (a : Allocation w) : Operands w where
  spinVar regs := regs a.spinVar
  conditionVal regs :=
    match a.conditionVal with
    | .imm v => v
    | .reg r => (regs r).setWidth w

/-- The address after a turn whose system call, if it makes one, has left `result` in
`rax`. -/
def addressAfter (a : Allocation w) (result : Option Quad) (address : Quad) : Quad :=
  if a.spinVar = .rax then result.getD address else address

/-- The condition after such a turn. -/
def conditionAfter (a : Allocation w) (result : Option Quad) (condition : BitVec w) :
    BitVec w :=
  if a.conditionVal = .reg .rax then (result.map (BitVec.setWidth w)).getD condition
  else condition

end Allocation

/-- What a wait loop does not decide itself: what memory holds at each comparison,
and what a system call made after `k` comparisons leaves in registers. -/
structure Surroundings (w : ℕ) where
  mem : ℕ → Quad → BitVec w
  /-- What `cpu_halt` returns. -/
  cpuHalt : Quad
  /-- What `ioctl` returns. -/
  ioctl : ℕ → Quad
  /-- The return address. -/
  rcx : ℕ → Quad
  /-- The saved flags. -/
  r11 : ℕ → Quad

/-- The number of `cpu_halt`. -/
def NR_CPU_HALT : ℕ := 256

/-- What `sys_cpu_halt` returns, once an interrupt has ended the `hlt`. -/
def sysCpuHalt : Quad := 0

/-- The registers and the counter. -/
structure Core where
  regs : Regs
  cnt : Quad

/-- The address of `*spin_var` on entry. -/
abbrev address {w : ℕ} (a : Allocation w) (core : Core) : Quad := a.operands.spinVar core.regs

/-- `condition_val` on entry. -/
abbrev condition {w : ℕ} (a : Allocation w) (core : Core) : BitVec w :=
  a.operands.conditionVal core.regs

section

variable {w : ℕ}

/-- A system call returns its result in `rax` and preserves all registers but `rax`,
`rcx` and `r11`. -/
def syscallRegs (env : Surroundings w) (k : ℕ) (regs : Regs) : Regs
  | .rax => if regs .rax = BitVec.ofNat 64 NR_CPU_HALT then env.cpuHalt else env.ioctl k
  | .rcx => env.rcx k
  | .r11 => env.r11 k
  | r => regs r

/-- One instruction of a turn, after `k` comparisons. -/
def TurnInsn.exec (env : Surroundings w) (k : ℕ) : TurnInsn → Core → Core
  | .pause, c => c
  | .movRax n, c => { c with regs := Function.update c.regs .rax (BitVec.ofNat 64 n) }
  | .syscall, c => { c with regs := syscallRegs env k c.regs }
  | .incCnt, c => { c with cnt := c.cnt + 1 }

/-- A turn, after `k` comparisons. -/
def turnCore (env : Surroundings w) (turn : List TurnInsn) (k : ℕ) (c : Core) : Core :=
  turn.foldl (fun c i => i.exec env k c) c

/-- The state of a wait loop. -/
structure Asm where
  pc : ℕ
  core : Core
  flags : Flags
  /-- The addresses the comparisons have read. -/
  reads : List Quad

/-- One instruction. -/
def Insn.exec (ops : Operands w) (env : Surroundings w) : Insn → Asm → Asm
  | .cmp, s =>
      let a := ops.spinVar s.core.regs
      { s with
        pc := s.pc + 1
        flags := cmpFlags (env.mem s.reads.length a) (ops.conditionVal s.core.regs)
        reads := s.reads ++ [a] }
  | .jump cond target, s => { s with pc := if cond.taken s.flags then target else s.pc + 1 }
  | .turn i, s => { s with pc := s.pc + 1, core := i.exec env s.reads.length s.core }

/-- One step of a program; behind its end there is none. -/
def asmStep (program : List Insn) (ops : Operands w) (env : Surroundings w) (s : Asm) :
    Option Asm :=
  program[s.pc]?.map fun i => i.exec ops env s

/-- A wait loop that has not begun. -/
def asmStart (core : Core) : Asm := ⟨0, core, ⟨false, false, false⟩, []⟩

/-- The program returns after `k + 1` comparisons. -/
def ReturnsAt (program : List Insn) (ops : Operands w) (env : Surroundings w) (core : Core)
    (k : ℕ) : Prop :=
  ∃ s ∈ eval (asmStep program ops env) (asmStart core), s.reads.length = k + 1

variable (enter again : Jump) (turn : List TurnInsn) (ops : Operands w) (env : Surroundings w)
  (core : Core)

/-- Registers and counter at comparison `k`. -/
def coreAt : ℕ → Core
  | 0 => core
  | k + 1 => turnCore env turn (k + 1) (coreAt k)

/-- The address that comparison `k` reads. -/
def addressAt (k : ℕ) : Quad := ops.spinVar (coreAt turn env core k).regs

/-- The flags of comparison `k`. -/
def flagsAt (k : ℕ) : Flags :=
  cmpFlags (env.mem k (addressAt turn ops env core k))
    (ops.conditionVal (coreAt turn env core k).regs)

/-- Comparison `k` ends the loop. -/
def Leaves (k : ℕ) : Prop :=
  if k = 0 then enter.taken (flagsAt turn ops env core k) = true
  else again.taken (flagsAt turn ops env core k) = false

instance : DecidablePred (Leaves enter again turn ops env core) :=
  fun _ => inferInstanceAs (Decidable (ite _ _ _))

/-- The registers after a turn, if all that it does to them is to leave a result in `rax`. -/
def afterTurn (result : Option Quad) (regs : Regs) (r : Reg) : Quad :=
  if r = .rax then result.getD (regs r) else regs r

/-- About to make comparison `k`. -/
structure About (k : ℕ) (s : Asm) : Prop where
  pc_eq : s.pc = if k = 0 then 0 else turn.length + 2
  core_eq : s.core = coreAt turn env core k
  reads_eq : s.reads = (List.range k).map (addressAt turn ops env core)

/-- Behind the end after comparison `k`. -/
structure EndedBy (k : ℕ) (s : Asm) : Prop where
  pc_eq : s.pc = turn.length + 4
  core_eq : s.core = coreAt turn env core k
  reads_eq : s.reads = (List.range (k + 1)).map (addressAt turn ops env core)

variable {enter again turn ops env core} {k : ℕ} {s : Asm}

/-- What every turn does to a register, all of them have done to it together. -/
theorem coreAt_regs (result : ℕ → Option Quad) {r : Reg}
    (hturn : ∀ k c, (turnCore env turn k c).regs r = afterTurn (result k) c.regs r)
    (hmakes : ∀ k, (result k).isSome = (result 0).isSome) (k : ℕ) :
    (coreAt turn env core (k + 1)).regs r = afterTurn (result (k + 1)) core.regs r := by
  induction k with
  | zero => exact hturn 1 core
  | succ k ih =>
      rw [coreAt, hturn, afterTurn, afterTurn, ih, afterTurn]
      by_cases hr : r = .rax
      · simp only [if_pos hr]
        have hsame := (hmakes (k + 1 + 1)).trans (hmakes (k + 1)).symm
        cases hlast : result (k + 1 + 1) with
        | some q => rfl
        | none =>
            rw [hlast] at hsame
            have hnone : result (k + 1) = none :=
              Option.not_isSome_iff_eq_none.mp (by simp [← hsame])
            rw [hnone]
            rfl
      · simp only [if_neg hr]

theorem EndedBy.length_reads (hend : EndedBy turn ops env core k s) :
    s.reads.length = k + 1 := by
  simp [hend.reads_eq]

variable (ops env) in
/-- Running the instructions of a turn that lie ahead. -/
theorem reaches_turn (after : List Insn) :
    ∀ (ahead : List TurnInsn) (before : List Insn) (s : Asm), s.pc = before.length →
      Reaches (asmStep (before ++ ahead.map .turn ++ after) ops env) s
        { s with
          pc := s.pc + ahead.length
          core := turnCore env ahead s.reads.length s.core } := by
  intro ahead
  induction ahead with
  | nil => intro before s _; exact .refl
  | cons i ahead ih =>
      intro before s hpc
      have hfirst : asmStep (before ++ (i :: ahead).map .turn ++ after) ops env s =
          some ((Insn.turn i).exec ops env s) := by
        simp [asmStep, hpc]
      have hrest := ih (before ++ [.turn i]) ((Insn.turn i).exec ops env s)
        (by simp [Insn.exec, hpc])
      have hsame : before ++ [Insn.turn i] ++ ahead.map .turn ++ after =
          before ++ (i :: ahead).map .turn ++ after := by simp
      have hpc' : s.pc + 1 + ahead.length = s.pc + (ahead.length + 1) := by omega
      rw [hsame] at hrest
      simp only [Insn.exec, hpc'] at hrest
      exact Relation.ReflTransGen.head hfirst hrest

/-- A comparison. -/
theorem asmStep_cmp {program : List Insn} (hfetch : program[s.pc]? = some .cmp)
    (hcore : s.core = coreAt turn env core k)
    (hreads : s.reads = (List.range k).map (addressAt turn ops env core)) :
    asmStep program ops env s =
      some { s with
        pc := s.pc + 1
        flags := flagsAt turn ops env core k
        reads := (List.range (k + 1)).map (addressAt turn ops env core) } := by
  simp [asmStep, hfetch, Insn.exec, hcore, hreads, flagsAt, addressAt, List.range_succ]

/-- The jump after a comparison. -/
theorem asmStep_jump {program : List Insn} {cond : Jump} {target pc : ℕ}
    (hfetch : program[s.pc]? = some (.jump cond target))
    (hpc : (if cond.taken s.flags then target else s.pc + 1) = pc) :
    asmStep program ops env s = some { s with pc := pc } := by
  simp [asmStep, hfetch, Insn.exec, hpc]

variable (enter again) in
/-- A comparison and its jump: the loop is left, or a turn begins. -/
theorem About.compare (habout : About turn ops env core k s) :
    Reaches₁ (asmStep (waitLoop enter again turn) ops env) s
      { s with
        pc := if Leaves enter again turn ops env core k then turn.length + 4 else 2
        flags := flagsAt turn ops env core k
        reads := (List.range (k + 1)).map (addressAt turn ops env core) } := by
  have hcmp : (waitLoop enter again turn)[s.pc]? = some .cmp := by
    rw [habout.pc_eq]
    by_cases hk : k = 0 <;> simp [waitLoop, hk]
  refine Relation.TransGen.tail (.single (asmStep_cmp hcmp habout.core_eq habout.reads_eq)) ?_
  by_cases hk : k = 0
  · have hjump : (waitLoop enter again turn)[s.pc + 1]? =
        some (.jump enter (turn.length + 4)) := by
      simp [waitLoop, habout.pc_eq, hk]
    refine asmStep_jump hjump ?_
    simp [Leaves, habout.pc_eq, hk]
  · have hjump : (waitLoop enter again turn)[s.pc + 1]? = some (.jump again 2) := by
      simp [waitLoop, habout.pc_eq, hk]
    refine asmStep_jump hjump ?_
    cases htaken : again.taken (flagsAt turn ops env core k) <;>
      simp [Leaves, habout.pc_eq, hk, htaken]

variable (enter again turn ops env core) in
/-- The text polls: one comparison after the other, until one of them leaves. -/
theorem polls_waitLoop :
    RepeatsPoll (Leaves enter again turn ops env core) (asmStep (waitLoop enter again turn) ops env)
      (About turn ops env core) (EndedBy turn ops env core) where
  miss k s habout hmiss := by
    have hcompare := habout.compare enter again
    rw [if_neg hmiss] at hcompare
    have hturn := reaches_turn ops env [.cmp, .jump again 2] turn
      [.cmp, .jump enter (turn.length + 4)]
      { s with
        pc := 2
        flags := flagsAt turn ops env core k
        reads := (List.range (k + 1)).map (addressAt turn ops env core) } rfl
    refine ⟨_, ⟨?_, ?_, ?_⟩, hcompare.trans_left hturn⟩
    · simp [Nat.add_comm]
    · simp [habout.core_eq, coreAt]
    · rfl
  last k s habout hlast := by
    have hcompare := habout.compare enter again
    rw [if_pos hlast] at hcompare
    refine ⟨_, ?_, hcompare⟩
    exact ⟨rfl, habout.core_eq, rfl⟩
  stop k s hend := by
    simp [asmStep, waitLoop, hend.pc_eq]

theorem about_asmStart : About turn ops env core 0 (asmStart core) := ⟨rfl, rfl, rfl⟩

/-- What a turn that overwrites at most `rax` leaves of the operands. -/
theorem operandsAt_turn {a : Allocation w} (result : ℕ → Option Quad)
    (hregs : ∀ k r, a.spinVar = r ∨ a.conditionVal = .reg r →
      (coreAt turn env core (k + 1)).regs r = afterTurn (result (k + 1)) core.regs r) (k : ℕ) :
    addressAt turn a.operands env core (k + 1) =
        a.addressAfter (result (k + 1)) (address a core) ∧
      a.operands.conditionVal (coreAt turn env core (k + 1)).regs =
        a.conditionAfter (result (k + 1)) (condition a core) := by
  constructor
  · refine (hregs k _ (.inl rfl)).trans ?_
    rw [afterTurn, Allocation.addressAfter]
    split
    · rfl
    · rfl
  · rw [Allocation.conditionAfter]
    cases hplace : a.conditionVal with
    | imm v => simp [condition, Allocation.operands, hplace]
    | reg r =>
        simp only [condition, Allocation.operands, hplace, hregs k r (.inr hplace), afterTurn,
          ConditionOperand.reg.injEq]
        split
        · rename_i hrax
          cases result (k + 1) <;> simp [hrax]
        · rfl

/-- A wait loop returns at the first comparison that leaves, and only there. -/
theorem returnsAt_waitLoop :
    ReturnsAt (waitLoop enter again turn) ops env core k ↔
      FirstHit (Leaves enter again turn ops env core) k := by
  have hpolls := polls_waitLoop enter again turn ops env core
  exact hpolls.exists_mem_eval_iff about_asmStart fun _ _ hend => hend.length_reads

/-- Comparisons only add to what has been read. -/
theorem reads_subset {program : List Insn} {t : Asm}
    (hreach : Reaches (asmStep program ops env) s t) :
    s.reads ⊆ t.reads := by
  induction hreach with
  | refl => exact List.Subset.refl _
  | @tail t u _ hstep ih =>
      refine List.Subset.trans ih ?_
      obtain ⟨i, -, rfl⟩ := Option.map_eq_some_iff.mp hstep
      cases i with
      | cmp => exact List.subset_append_left _ _
      | jump cond target => exact List.Subset.refl _
      | turn i => exact List.Subset.refl _

/-- What a wait loop reads: the address of each comparison that no earlier one has made
superfluous. -/
theorem exists_read_iff {a : Quad} :
    (∃ s, Reaches (asmStep (waitLoop enter again turn) ops env) (asmStart core) s ∧ a ∈ s.reads) ↔
      ∃ k, a = addressAt turn ops env core k ∧
        ∀ j < k, ¬ Leaves enter again turn ops env core j := by
  have hstart : Polling.At (About turn ops env core) (EndedBy turn ops env core) (.about 0)
      (asmStart core) := about_asmStart
  constructor
  · rintro ⟨s, hreach, ha⟩
    obtain ⟨place, t, hst, hplace, habstract⟩ :=
      tr_reaches_rev (polls_waitLoop enter again turn ops env core).respects hstart hreach
    have ht := reads_subset hst ha
    rcases Polling.reaches_cases habstract with ⟨k, rfl, hmiss⟩ | ⟨k, rfl, -, hmiss⟩
    · rw [hplace.reads_eq] at ht
      obtain ⟨j, hj, rfl⟩ := List.mem_map.mp ht
      exact ⟨j, rfl, fun i hi => hmiss i (hi.trans (List.mem_range.mp hj))⟩
    · rw [hplace.reads_eq] at ht
      obtain ⟨j, hj, rfl⟩ := List.mem_map.mp ht
      have hjk := List.mem_range.mp hj
      exact ⟨j, rfl, fun i hi => hmiss i (by omega)⟩
  · rintro ⟨k, rfl, hmiss⟩
    obtain ⟨s, habout, hreach⟩ := tr_reaches
      (polls_waitLoop enter again turn ops env core).respects hstart (Polling.reaches_about hmiss)
    exact ⟨_, hreach.trans (habout.compare enter again).to_reflTransGen, by
      simp [List.range_succ]⟩

end

end Htsynch
