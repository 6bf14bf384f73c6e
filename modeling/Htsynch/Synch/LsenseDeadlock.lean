/-
# When the sense-reversing barrier of synch.h can deadlock

Every thread that reads the full count takes the releasing branch, so a thread may
store `current_count = 0` after another one has completed the round. Arrivals of
the next round that were counted in between are lost, that round never completes,
and everybody waits for its sense.

A halting waiter that has lost its sense to `sys_cpu_halt` can be left behind as well: it
goes on comparing with 0 what its sense, 1, is published in.

A run in which no reset loses arrivals keeps the count exact, and whoever reads it
full releases the round. If nobody halts who would lose an operand, such a run never
deadlocks.
-/

import Htsynch.Synch.LsenseRendezvous

namespace Htsynch

open Foundations

/-- The thread polls `release_flag`. -/
def LsensePc.polling : LsensePc → Bool
  | .wait _ => true
  | _ => false

variable {n : ThreadCount} {code : Fin n.val → ℕ → Inlined} {round rounds : ℕ}
  {v : LsenseVariant} {s : Config (Fin n.val) SpinBarrier LsenseThread} {who : Fin n.val}
  {sb : SpinBarrier} {own : LsenseThread}

/-- The thread polls, and nothing lets it go as long as the flag is what it is. From the call
on it compares with what the call leaves; at label 1 it counts as not having made one. -/
def LsenseVariant.WaitsInVain (v : LsenseVariant) (code : Inlined) (flag : Word)
    (t : LsenseThread) : Prop :=
  t.pc.polling = true ∧
    if v.halts = true ∧ t.pc.called = true then
      code.spinVar = .rax ∨ flag ≠ code.sought t.lsense
    else flag ≠ t.lsense

instance (v : LsenseVariant) (code : Inlined) (flag : Word) (t : LsenseThread) :
    Decidable (v.WaitsInVain code flag t) :=
  inferInstanceAs (Decidable (_ ∧ ite _ _ _))

/-- Some thread has calls left, and every such thread waits for another value of the flag than
it has. -/
def LsenseDeadlock (v : LsenseVariant) (code : Fin n.val → ℕ → Inlined) (rounds : ℕ)
    (s : Config (Fin n.val) SpinBarrier LsenseThread) : Prop :=
  (∃ i, (s.threads i).calls < rounds) ∧
    ∀ i, (s.threads i).calls < rounds →
      v.WaitsInVain (code i (s.threads i).calls) s.shared.releaseFlag (s.threads i)

instance (v : LsenseVariant) (code : Fin n.val → ℕ → Inlined) :
    Decidable (LsenseDeadlock v code rounds s) := by
  unfold LsenseDeadlock
  infer_instance

/-- A reset executed now finds no arrivals or all of them. -/
def ResetLosesNothing (s : Config (Fin n.val) SpinBarrier LsenseThread)
    (label : Fin n.val × Word) : Prop :=
  (s.threads label.1).pc = .reset →
    s.shared.currentCount = 0 ∨ s.shared.currentCount = s.shared.nthreads

instance : ∀ (s : Config (Fin n.val) SpinBarrier LsenseThread) (label : Fin n.val × Word),
    Decidable (ResetLosesNothing s label) :=
  fun _ _ => inferInstanceAs (Decidable (_ → _))

/-- A thread that calls `sys_cpu_halt` now keeps its operands. -/
def HaltLosesNothing (v : LsenseVariant) (code : Fin n.val → ℕ → Inlined)
    (s : Config (Fin n.val) SpinBarrier LsenseThread) (label : Fin n.val × Word) : Prop :=
  v.halts = true → (s.threads label.1).pc = .wait .pause →
    (code label.1 (s.threads label.1).calls).Keeps (s.threads label.1).lsense

instance (v : LsenseVariant) (code : Fin n.val → ℕ → Inlined) :
    ∀ (s : Config (Fin n.val) SpinBarrier LsenseThread) (label : Fin n.val × Word),
      Decidable (HaltLosesNothing v code s label) :=
  fun _ _ => inferInstanceAs (Decidable (_ → _))

/-- Neither arrivals nor operands are lost. -/
def LosesNothing (v : LsenseVariant) (code : Fin n.val → ℕ → Inlined)
    (s : Config (Fin n.val) SpinBarrier LsenseThread) (label : Fin n.val × Word) : Prop :=
  ResetLosesNothing s label ∧ HaltLosesNothing v code s label

instance (v : LsenseVariant) (code : Fin n.val → ℕ → Inlined) :
    ∀ (s : Config (Fin n.val) SpinBarrier LsenseThread) (label : Fin n.val × Word),
      Decidable (LosesNothing v code s label) :=
  fun _ _ => inferInstanceAs (Decidable (_ ∧ _))

/-- If the thread has called `sys_cpu_halt`, its operands have survived. -/
def LsenseVariant.Kept (v : LsenseVariant) (code : Inlined) (t : LsenseThread) : Prop :=
  v.halts = true → t.pc.called = true → code.Keeps t.lsense

namespace LsenseVariant.Kept

variable {copy : Inlined} {stray flag : Word} {t : LsenseThread}

theorem leavesOnSense (h : v.Kept copy t) : v.LeavesOnSense copy stray flag t :=
  .of_keeps fun hhalts hpc => h hhalts (by rw [hpc]; rfl)

/-- A thread that has kept its operands waits in vain only for its sense. -/
theorem flag_ne (h : v.Kept copy t) (hvain : v.WaitsInVain copy flag t) : flag ≠ t.lsense := by
  obtain ⟨-, hvain⟩ := hvain
  split at hvain
  · rename_i hcalled
    have hkeeps := h hcalled.1 hcalled.2
    rw [hkeeps.sought_eq] at hvain
    exact hvain.resolve_left hkeeps.1
  · exact hvain

/-- Away from the call there is nothing to keep. -/
theorem of_not_called (hpc : t.pc.called = false) : v.Kept copy t :=
  fun _ hcalled => absurd (hcalled.symm.trans hpc) Bool.noConfusion

end LsenseVariant.Kept

/-- A step that does not lose operands leaves them kept. -/
theorem LsenseMove.kept {copy : ℕ → Inlined} {t : LsenseThread}
    (hmove : LsenseMove v rounds s.shared t sb own) (hkept : v.Kept (copy t.calls) t)
    (hallow : v.halts = true → t.pc = .wait .pause → (copy t.calls).Keeps t.lsense) :
    v.Kept (copy own.calls) own := by
  cases hmove with
  | poll pc pc' hpc hcalled =>
      intro hhalts hnext
      rcases hcalled hnext with rfl | rfl
      · exact hallow hhalts hpc
      · exact hkept hhalts (by rw [hpc]; rfl)
  | publish =>
      refine .of_not_called ?_
      cases v <;> rfl
  | _ => exact .of_not_called rfl

theorem LsenseMove.within {t : LsenseThread} (hmove : LsenseMove v rounds s.shared t sb own)
    (h : t.Within rounds) : own.Within rounds := by
  cases hmove with
  | enter hpc hcalls => exact ⟨h.calls_le, fun _ => hcalls⟩
  | arrive hpc => exact h.arrive _ (by rw [hpc]; rfl)
  | full hpc => exact h.goto _ (by rw [hpc]; rfl)
  | short hpc => exact h.goto _ (by rw [hpc]; rfl)
  | reset hpc => exact h.goto _ (by rw [hpc]; rfl)
  | publish hpc =>
      cases v with
      | pause => exact h.ret _ (by rw [hpc]; rfl) rfl
      | cpuhalt => exact h.ret _ (by rw [hpc]; rfl) rfl
      | cpuhaltSendIPI => exact h.goto _ (by rw [hpc]; rfl)
  | woken hpc => exact h.ret _ (by rw [hpc]; rfl) rfl
  | poll pc pc' hpc => exact h.goto _ (by rw [hpc]; rfl)
  | leave pc hpc => exact h.ret _ (by rw [hpc]; rfl) rfl

/-- The thread is about to reset the count if it is full. -/
def LsensePc.Attends (pc : LsensePc) : Prop := pc = .read ∨ pc = .reset

/-- The invariant of runs in which no reset loses arrivals. -/
structure LsenseExact (n : ThreadCount) (rounds round : ℕ)
    (s : Config (Fin n.val) SpinBarrier LsenseThread) : Prop
    extends LsenseInv n round s where
  within : ∀ i, (s.threads i).Within rounds
  /-- The count is exact, or it is already reset and the release is on its way. -/
  count_eq : s.shared.currentCount.toNat = census (SenseThread.Arrived round) s.threads ∨
    s.shared.currentCount = 0 ∧
      ∃ i, (s.threads i).pc = .release ∧ (s.threads i).Arrived round
  /-- A full count is about to be reset. -/
  attended : s.shared.currentCount = n.word → ∃ i, (s.threads i).pc.Attends

namespace LsenseExact

theorem init (hinit : lsenseInit n s) : LsenseExact n rounds 0 s := by
  have hnone : ∀ i, ¬ (s.threads i).Arrived 0 := by
    intro i
    rw [hinit.2 i]
    decide
  have hzero : s.shared.currentCount = 0 := by
    rw [hinit.1]
    rfl
  refine ⟨.init hinit, fun i => ?_, .inl ?_, fun hfull => ?_⟩
  · rw [hinit.2 i]
    exact ⟨Nat.zero_le _, nofun⟩
  · rw [hzero, census_eq_zero_iff.mpr hnone]
    rfl
  · exact absurd (hfull.symm.trans hzero) ThreadCount.word_ne_zero

/-- Steps that touch neither the count nor an arrival, by threads that leave no
duty behind. -/
theorem stay (h : LsenseExact n rounds round s)
    (hnext : LsenseInv n round (s.move who sb own)) (hwithin : own.Within rounds)
    (harr : own.arrivals = (s.threads who).arrivals)
    (hcount : sb.currentCount = s.shared.currentCount)
    (hrelease : (s.threads who).pc = .release → ¬ (s.threads who).Arrived round)
    (hattends : s.shared.currentCount = n.word → (s.threads who).pc.Attends →
      own.pc.Attends) :
    LsenseExact n rounds round (s.move who sb own) := by
  have hsame : ∀ j, ((s.move who sb own).threads j).Arrived round ↔
      (s.threads j).Arrived round := by
    intro j
    have harr' : ((s.move who sb own).threads j).arrivals = (s.threads j).arrivals :=
      Config.move_threads_eq_of_eq harr j
    unfold SenseThread.Arrived
    rw [harr']
  refine ⟨hnext, fun i => ?_, ?_, fun hfull => ?_⟩
  · exact Config.move_cases i (fun _ => hwithin) (fun _ => h.within i)
  · rw [Config.move_shared, hcount, census_congr hsame]
    refine h.count_eq.imp id fun ⟨hzero, i, hpc, harrived⟩ => ⟨hzero, i, ?_⟩
    have hi : i ≠ who := by
      intro heq
      subst i
      exact hrelease hpc harrived
    rw [Config.move_threads_of_ne hi]
    exact ⟨hpc, harrived⟩
  · rw [Config.move_shared, hcount] at hfull
    obtain ⟨i, hi⟩ := h.attended hfull
    by_cases hwho : i = who
    · subst i
      exact ⟨who, by simpa using hattends hfull hi⟩
    · exact ⟨i, by rwa [Config.move_threads_of_ne hwho]⟩

/-- An arrival is counted: whoever makes the count full is about to read it. -/
theorem arrive (h : LsenseExact n rounds round s) (hpc : (s.threads who).pc = .arrive)
    (hwithin : ((s.threads who).arrive .read).Within rounds) :
    LsenseExact n rounds round (s.move who
      { s.shared with currentCount := incl s.shared.currentCount }
      ((s.threads who).arrive .read)) := by
  obtain ⟨-, hout, hin⟩ := (h.thread_ok who).arrive .read (by rw [hpc]; rfl)
    (by rw [hpc]; rfl) rfl
  have hexact : s.shared.currentCount.toNat =
      census (SenseThread.Arrived round) s.threads := by
    rcases h.count_eq with hcount | ⟨-, i, hi, harrived⟩
    · exact hcount
    · exact absurd (h.full i (.inr hi) harrived who) hout
  have hint := n.isInt
  have hroom := h.count_le_val
  refine ⟨h.toLsenseInv.arrive hpc, fun i => ?_, .inl ?_, fun _ => ⟨who, .inl (by simp)⟩⟩
  · exact Config.move_cases i (fun _ => hwithin) (fun _ => h.within i)
  · rw [Config.move, census_update_enter hout hin, ← hexact]
    exact incl_toNat (by omega)

/-- A reset that loses nothing. -/
theorem reset (h : LsenseExact n rounds round s) (hpc : (s.threads who).pc = .reset)
    (hnext : LsenseInv n round (s.move who { s.shared with currentCount := 0 }
      ((s.threads who).goto .release)))
    (hwithin : ((s.threads who).goto .release).Within rounds)
    (hloses : s.shared.currentCount = 0 ∨ s.shared.currentCount = s.shared.nthreads) :
    LsenseExact n rounds round (s.move who { s.shared with currentCount := 0 }
      ((s.threads who).goto .release)) := by
  rcases hloses with hzero | hfull
  · -- the round is complete already, or its release is on its way
    have hcount : ({ s.shared with currentCount := 0 } : SpinBarrier).currentCount =
        s.shared.currentCount := hzero.symm
    apply h.stay hnext hwithin rfl hcount
    · simp [hpc]
    · intro hword
      exact absurd (hword.symm.trans hzero) ThreadCount.word_ne_zero
  · have hall := h.all_arrived_of_count_eq hfull
    refine ⟨hnext, fun i => ?_, .inr ⟨rfl, who, ?_⟩, fun hword => ?_⟩
    · exact Config.move_cases i (fun _ => hwithin) (fun _ => h.within i)
    · rw [Config.move_threads_self]
      exact ⟨rfl, hall who⟩
    · exact absurd hword.symm ThreadCount.word_ne_zero

/-- The store that completes a round. -/
theorem release (h : LsenseExact n rounds round s) (hpc : (s.threads who).pc = .release)
    (harrived : (s.threads who).Arrived round)
    (hwithin : (v.released (s.threads who)).Within rounds) :
    LsenseExact n rounds (round + 1) (s.move who
      { s.shared with releaseFlag := (s.threads who).lsense }
      (v.released (s.threads who))) := by
  have hzero := h.cleared who hpc harrived
  have hnext := h.toLsenseInv.release (v := v) hpc harrived
  have hnone : ∀ i, ¬ ((s.move who { s.shared with releaseFlag := (s.threads who).lsense }
      (v.released (s.threads who))).threads i).Arrived (round + 1) := by
    intro i
    have hall := h.full who (.inr hpc) harrived
    refine Config.move_cases i (fun _ => ?_) (fun _ => ((h.thread_ok i).succ (hall i)).2)
    unfold SenseThread.Arrived
    rw [LsenseInv.released_arrivals]
    exact ((h.thread_ok who).succ harrived).2
  refine ⟨hnext, fun i => ?_, .inl ?_, fun hword => ?_⟩
  · exact Config.move_cases i (fun _ => hwithin) (fun _ => h.within i)
  · rw [census_eq_zero_iff.mpr hnone]
    show s.shared.currentCount.toNat = 0
    rw [hzero]
    rfl
  · exact absurd (hword.symm.trans hzero) ThreadCount.word_ne_zero

/-- Every step that loses no arrivals keeps the invariant. -/
theorem step {stray : Word} (h : LsenseExact n rounds round s)
    (hallow : ResetLosesNothing s (who, stray))
    (hmove : LsenseMove v rounds s.shared (s.threads who) sb own) :
    ∃ round', LsenseExact n rounds round' (s.move who sb own) := by
  have hwithin := hmove.within (h.within who)
  by_cases htime : (s.threads who).pc = .release ∧ (s.threads who).Arrived round
  · obtain ⟨hpc, harrived⟩ := htime
    obtain ⟨rfl, rfl⟩ := hmove.of_release hpc
    exact ⟨round + 1, h.release hpc harrived hwithin⟩
  · have hlate := not_and.mp htime
    have hnext := h.toLsenseInv.keep hmove hlate
    refine ⟨round, ?_⟩
    cases hmove with
    | enter hpc => exact h.stay hnext hwithin rfl rfl hlate (by simp [LsensePc.Attends, hpc])
    | arrive hpc => exact h.arrive hpc hwithin
    | full hpc => exact h.stay hnext hwithin rfl rfl hlate (fun _ _ => .inr rfl)
    | short hpc hcount =>
        apply h.stay hnext hwithin rfl rfl hlate
        intro hfull
        exact absurd (hfull.trans h.nthreads_eq.symm) hcount
    | reset hpc => exact h.reset hpc hnext hwithin (hallow hpc)
    | publish hpc =>
        apply h.stay hnext hwithin _ rfl hlate (by simp [LsensePc.Attends, hpc])
        cases v <;> rfl
    | woken hpc => exact h.stay hnext hwithin rfl rfl hlate (by simp [LsensePc.Attends, hpc])
    | poll pc pc' hpc =>
        exact h.stay hnext hwithin rfl rfl hlate (by simp [LsensePc.Attends, hpc])
    | leave pc hpc =>
        exact h.stay hnext hwithin rfl rfl hlate (by simp [LsensePc.Attends, hpc])

/-- A thread that waits for another value of the flag has arrived in the round in
progress. -/
theorem arrived_of_polling (h : LsenseExact n rounds round s)
    (hpolls : (s.threads who).pc.polling = true)
    (hflag : s.shared.releaseFlag ≠ (s.threads who).lsense) :
    (s.threads who).Arrived round := by
  rw [h.flag_eq] at hflag
  cases hpc : (s.threads who).pc with
  | wait pc =>
      exact (h.thread_ok who).arrived_of_unpublished (by rw [hpc]; rfl) (by rw [hpc]; rfl) hflag
  | _ => simp [LsensePc.polling, hpc] at hpolls

/-- Somebody can always leave the wait loop or is not in it. -/
theorem not_stuck (h : LsenseExact n rounds round s) (hactive : ∃ i, (s.threads i).calls < rounds) :
    ∃ i, (s.threads i).calls < rounds ∧
      ¬ ((s.threads i).pc.polling = true ∧ s.shared.releaseFlag ≠ (s.threads i).lsense) := by
  by_contra hnone
  push Not at hnone
  obtain ⟨i, hi⟩ := hactive
  have hround : round < rounds := by
    obtain ⟨hpolls, hflag⟩ := hnone i hi
    exact (h.thread_ok i).round_lt (h.arrived_of_polling hpolls hflag) hi
  have hunfinished : ∀ j, (s.threads j).calls < rounds :=
    fun j => ((h.thread_ok j).calls_le).trans_lt hround
  have hpolls : ∀ j, (s.threads j).pc.polling = true := fun j => (hnone j (hunfinished j)).1
  have hall : ∀ j, (s.threads j).Arrived round :=
    fun j => h.arrived_of_polling (hpolls j) (hnone j (hunfinished j)).2
  have hfull : s.shared.currentCount = n.word := by
    rcases h.count_eq with hcount | ⟨-, j, hpc, -⟩
    · rw [census_eq_card_iff.mpr hall, Fintype.card_fin] at hcount
      exact ThreadCount.eq_word_iff.mpr hcount
    · simpa [LsensePc.polling, hpc] using hpolls j
  obtain ⟨j, hpc | hpc⟩ := h.attended hfull
  · simpa [LsensePc.polling, hpc] using hpolls j
  · simpa [LsensePc.polling, hpc] using hpolls j

end LsenseExact

/-- What is known of every state of a run that loses nothing. -/
def LsenseSound (v : LsenseVariant) (code : Fin n.val → ℕ → Inlined) (rounds : ℕ)
    (s : Config (Fin n.val) SpinBarrier LsenseThread) : Prop :=
  (∃ round, LsenseExact n rounds round s) ∧
    ∀ i, v.Kept (code i (s.threads i).calls) (s.threads i)

namespace LsenseSound

theorem init (hinit : lsenseInit n s) : LsenseSound v code rounds s := by
  refine ⟨⟨0, .init hinit⟩, fun i => .of_not_called ?_⟩
  rw [hinit.2 i]
  rfl

/-- Every step that loses nothing keeps it. -/
theorem step {stray : Word} (h : LsenseSound v code rounds s)
    (hallow : LosesNothing v code s (who, stray))
    (hstep : lsenseBarrier code rounds v who stray s.shared (s.threads who) = some (sb, own)) :
    LsenseSound v code rounds (s.move who sb own) := by
  obtain ⟨⟨round, hexact⟩, hkept⟩ := h
  have hmove := lsenseBarrier_cases (hkept who).leavesOnSense hstep
  refine ⟨hexact.step hallow.1 hmove, fun i => ?_⟩
  by_cases hi : i = who
  · subst i
    rw [Config.move_threads_self]
    exact hmove.kept (hkept who) hallow.2
  · rw [Config.move_threads_of_ne hi]
    exact hkept i

theorem of_reachable
    (hreach : (lsenseSystem v n code rounds).ReachableVia (LosesNothing v code) s) :
    LsenseSound v code rounds s := by
  refine interleave_invariant_via (P := LsenseSound v code rounds) (fun s => .init) ?_ hreach
  intro s who stray sb own h hallow hstep
  rw [LsenseVariant.program_eq] at hstep
  exact h.step hallow hstep

end LsenseSound

/-- Runs in which neither arrivals nor operands are lost never deadlock. -/
theorem lsenseSystem_not_deadlock
    (hreach : (lsenseSystem v n code rounds).ReachableVia (LosesNothing v code) s) :
    ¬ LsenseDeadlock v code rounds s := by
  rintro ⟨hactive, hvain⟩
  obtain ⟨⟨round, hexact⟩, hkept⟩ := LsenseSound.of_reachable hreach
  obtain ⟨i, hi, hfree⟩ := hexact.not_stuck hactive
  exact hfree ⟨(hvain i hi).1, (hkept i).flag_ne (hvain i hi)⟩

/-- Both threads complete the first round one after the other, and are in the
second round. The copies of the halting loop keep their senses in `rbx`. -/
theorem lsenseSystem_not_deadlock_orderly :
    let s := System.exec (System.guarded (LosesNothing .cpuhalt fun _ _ => senseInRbx)
        (spinBarrierLsenseCpuhalt (fun _ _ => senseInRbx) 2).next) (lsenseStart .two)
      (List.map (·, 0) [0, 0, 0, 0, 0, 1, 1, 1, 1, 1, 0, 0, 0, 0, 0, 0, 0, 1])
    ((s.threads 0).pc = .wait .halted ∧ (s.threads 0).calls = 1 ∧ (s.threads 1).pc = .arrive) ∧
      ¬ LsenseDeadlock .cpuhalt (fun _ _ => senseInRbx) 2 s :=
  ⟨by decide, lsenseSystem_not_deadlock (v := .cpuhalt)
    (System.reachableVia_exec _ (.of_init lsenseStart_init))⟩

set_option maxRecDepth 2000 in
/-- Both threads read the full count of the first round. Thread 1 resets it after
thread 0 has arrived for the second round, then arrives itself and counts to one.
The last variant takes one more step to return.

In the fourth run thread 0 halts in the second round with its sense 1 in `rax`, and goes on
comparing with 0 after thread 1 has published 1 and finished. -/
theorem lsenseSystem_deadlocks :
    (∃ s, (lsenseSystem .pause .two (fun _ _ => senseInRbx) 2).Reachable s ∧
      LsenseDeadlock .pause (fun _ _ => senseInRbx) 2 s) ∧
    (∃ s, (lsenseSystem .cpuhalt .two (fun _ _ => senseInRbx) 2).Reachable s ∧
      LsenseDeadlock .cpuhalt (fun _ _ => senseInRbx) 2 s) ∧
    (∃ s, (lsenseSystem .cpuhaltSendIPI .two (fun _ _ => senseInRbx) 2).Reachable s ∧
      LsenseDeadlock .cpuhaltSendIPI (fun _ _ => senseInRbx) 2 s) ∧
    ∃ s, (lsenseSystem .cpuhalt .two (fun _ _ => senseInRax) 2).ReachableVia
      ResetLosesNothing s ∧
      LsenseDeadlock .cpuhalt (fun _ _ => senseInRax) 2 s := by
  refine ⟨⟨_, System.reachable_exec
      (List.map (·, 0) [0, 0, 1, 1, 0, 1, 0, 0, 0, 0, 0, 1, 1, 1, 1, 1])
      (.of_init lsenseStart_init), ?_⟩,
    ⟨_, System.reachable_exec
      (List.map (·, 0) [0, 0, 1, 1, 0, 1, 0, 0, 0, 0, 0, 1, 1, 1, 1, 1])
      (.of_init lsenseStart_init), ?_⟩,
    ⟨_, System.reachable_exec
      (List.map (·, 0) [0, 0, 1, 1, 0, 1, 0, 0, 0, 0, 0, 0, 1, 1, 1, 1, 1, 1])
      (.of_init lsenseStart_init), ?_⟩,
    ⟨_, System.reachableVia_exec
      (List.map (·, 0) [0, 0, 0, 0, 0, 1, 1, 1, 1, 1, 0, 0, 0, 0, 0, 0, 0, 1, 1, 1, 1, 1, 0])
      (.of_init lsenseStart_init), ?_⟩⟩
  · decide
  · decide
  · decide
  · decide

end Htsynch
