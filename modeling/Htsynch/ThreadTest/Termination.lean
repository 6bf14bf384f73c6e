/-
# When the test programs come to an end

`mwmon_mmap_spin_while_greater` arms a monitor on a line that nobody may write to any more, so
that only an interrupt leads on from its MWAIT. In a fair run in which interrupts keep coming
both threads get to their end, unless the kernel is the one on which the number of the last
call is that of `mwmon_mmap_sleep2`.
-/

import Htsynch.ThreadTest.Progress

namespace Htsynch

open Foundations

variable {b : ThreadTest} {c : TestId} {sh sh' : TestShared} {t t' : TestThread}

/-- Who has to act: a thread, or whatever brings interrupts to its processor. -/
inductive TestParty
  | thread (i : TestId)
  | processor (i : TestId)

/-- The steps each of them owns; an interrupt counts if it ends an MWAIT. -/
def TestOwns : TestParty → TestId × Option Interrupt → Prop
  | .thread i, label => label = (i, none)
  | .processor i, label => ∃ intr : Interrupt, label = (i, some intr) ∧ intr.wakes = true

/-- An interrupt that ends an MWAIT and leaves the monitor armed. -/
def tick : Interrupt := ⟨false, true⟩

/-- A thread that need not wait, or the next interrupt if it is in an MWAIT. -/
def TestHelps (b : ThreadTest) (s : Config TestId TestShared TestThread) : TestParty → Prop
  | .thread i => (testLoops b).Helps s i ∧ ¬ (s.threads i).AtMwait
  | .processor i => (testLoops b).Helps s i ∧ (s.threads i).AtMwait

section

variable {h : Machine TestId} {s : Config TestId TestShared TestThread}

/-- Whoever helps can act. -/
theorem TestHelps.able {party : TestParty} (hreach : (b.system h).Reachable s)
    (hmatch : b.CallsMatch) (hhelps : TestHelps b s party) :
    (b.system h).Able (TestOwns party) s := by
  cases party with
  | thread i =>
      obtain ⟨⟨hactive, hfree⟩, hat⟩ := hhelps
      have hok := ThreadTest.threads_ok hreach i
      have hsome : (b.thread i none s.shared (s.threads i)).isSome := by
        by_cases hrole : i.val = 0
        · rw [ThreadTest.thread, if_pos hrole]
          exact sleeper_isSome hrole hok (ThreadTest.watches_of_reachable hreach i) hmatch
            hactive hfree hat
        · rw [ThreadTest.thread, if_neg hrole]
          exact notifier_isSome hrole hok hactive
      obtain ⟨r, hrun⟩ := Option.isSome_iff_exists.mp hsome
      exact ⟨(i, none), _, rfl, interleave_step_iff.mpr ⟨_, _, hrun, rfl⟩⟩
  | processor i =>
      have hrun : b.thread i (some tick) s.shared (s.threads i) =
          some ({ s.shared with machine := tick.onMachine i s.shared.machine },
            (s.threads i).interrupted tick) := rfl
      exact ⟨(i, some tick), _, ⟨tick, rfl, rfl⟩, interleave_step_iff.mpr ⟨_, _, hrun, rfl⟩⟩

/-- No interrupt leads into the MWAIT. -/
theorem TestThread.AtMwait.of_interrupted {i : Interrupt} (hat : (t.interrupted i).AtMwait) :
    t.AtMwait := by
  obtain ⟨cond, reads, hactivity⟩ := hat
  rcases i.onSpinActivity_cases t.kernel.activity with hsame | ⟨_, -, hwake⟩ |
      ⟨_, _, -, -, htest⟩
  · exact ⟨cond, reads, hsame.symm.trans hactivity⟩
  · cases hwake.symm.trans hactivity
  · cases htest.symm.trans hactivity

/-- One that does not end it leaves the thread there. -/
theorem TestThread.AtMwait.interrupted {i : Interrupt} (hat : t.AtMwait) (hwakes : i.wakes ≠ true) :
    (t.interrupted i).AtMwait := by
  obtain ⟨cond, reads, hactivity⟩ := hat
  rcases i.onSpinActivity_cases t.kernel.activity with hsame | ⟨_, hasleep, -⟩ |
      ⟨_, _, hends, -, -⟩
  · exact ⟨cond, reads, hsame.trans hactivity⟩
  · cases hasleep.symm.trans hactivity
  · exact absurd hends hwakes

/-- Where a number is printed there are less than twenty. -/
theorem printed_lt {i : TestId} (hreach : (b.system h).Reachable s)
    (hplace : (s.threads i).place = .print) : (s.threads i).printed.length < 20 := by
  have hok := ThreadTest.threads_ok hreach i
  have hcounts := hok.counts (by rw [hplace]; exact Nat.succ_ne_zero 1)
  have hof := hok.place_of
  rw [hplace] at hof
  obtain rfl := ThreadTest.eq_ta1 hof
  have hcounted := ThreadTest.counted_of_reachable hcounts hreach
  rw [hplace] at hcounted
  cases hcounted with
  | before _ hearly =>
      exact absurd hearly (TestPlace.not_early rfl fun hclear => TestPlace.noConfusion hclear)
  | print k hk _ hprinted =>
      rw [hprinted, numbers_length]
      exact hk

/-- What the descent asks of a step of a thread. -/
theorem TestHelps.thread_down {party : TestParty} {who : TestId} {sh : TestShared}
    {own : TestThread} (hreach : (b.system h).Reachable s) (hhelps : TestHelps b s party)
    (hmove : TestMove b who s.shared (s.threads who) sh own) :
    (testLoops b).rank (s.move who sh own) < (testLoops b).rank s ∨
      ¬ TestOwns party (who, none) ∧
        (testLoops b).rank (s.move who sh own) = (testLoops b).rank s ∧
          TestHelps b (s.move who sh own) party := by
  have hadvances : (testLoops b).Advances True who s.shared (s.threads who) sh own := by
    refine hmove.advances (ThreadTest.threads_ok hreach who) (fun sb own' hrun => ?_)
      fun hplace => ?_
    · obtain ⟨round, holder, hinv⟩ :=
        Spin.spinInv_of_reachable (ThreadTest.barrierView_reachable hreach)
      exact hinv.advances hrun
    · exact printed_lt hreach hplace
  have hother {i : TestId} (hi : (testLoops b).Helps s i) :
      (testLoops b).rank (s.move who sh own) < (testLoops b).rank s ∨
        i ≠ who ∧ (testLoops b).rank (s.move who sh own) = (testLoops b).rank s ∧
          (testLoops b).Helps (s.move who sh own) i :=
    (hadvances.down hi).imp id fun ⟨hmine, hrank, hnext⟩ =>
      ⟨fun heq => hmine heq trivial, hrank, hnext⟩
  cases party with
  | thread i =>
      obtain ⟨hi, hat⟩ := hhelps
      refine (hother hi).imp id fun ⟨hne, hrank, hnext⟩ => ⟨?_, hrank, hnext, ?_⟩
      · exact fun hown => hne (congrArg Prod.fst hown).symm
      · rwa [Config.move_threads_of_ne hne]
  | processor i =>
      obtain ⟨hi, hat⟩ := hhelps
      refine (hother hi).imp id fun ⟨hne, hrank, hnext⟩ => ⟨?_, hrank, hnext, ?_⟩
      · rintro ⟨intr, hown, -⟩
        exact hne (congrArg Prod.fst hown).symm
      · rwa [Config.move_threads_of_ne hne]

/-- What it asks of an interrupt. -/
theorem TestHelps.interrupt_down {party : TestParty} {who : TestId} {intr : Interrupt}
    (hhelps : TestHelps b s party) :
    let s' := s.move who { s.shared with machine := intr.onMachine who s.shared.machine }
      ((s.threads who).interrupted intr)
    (testLoops b).rank s' < (testLoops b).rank s ∨
      ¬ TestOwns party (who, some intr) ∧ (testLoops b).rank s' = (testLoops b).rank s ∧
        TestHelps b s' party := by
  intro s'
  have hadvances : (testLoops b).Advances False who s.shared (s.threads who)
      { s.shared with machine := intr.onMachine who s.shared.machine }
      ((s.threads who).interrupted intr) := interrupt_advances not_false intr
  have hkeep {i : TestId} (hi : (testLoops b).Helps s i) :
      (testLoops b).rank s' < (testLoops b).rank s ∨
        (testLoops b).rank s' = (testLoops b).rank s ∧ (testLoops b).Helps s' i :=
    (hadvances.down hi).imp id And.right
  cases party with
  | thread i =>
      obtain ⟨hi, hat⟩ := hhelps
      refine (hkeep hi).imp id fun ⟨hrank, hnext⟩ => ⟨?_, hrank, hnext, ?_⟩
      · intro hown
        have heq : (who, some intr) = (i, none) := hown
        cases (Prod.mk.inj heq).2
      · refine Config.move_cases (motive := fun t : TestThread => ¬ t.AtMwait) i
          (fun heq hafter => ?_) (fun _ => hat)
        subst heq
        exact hat hafter.of_interrupted
  | processor i =>
      obtain ⟨hi, hat⟩ := hhelps
      by_cases hends : i = who ∧ intr.wakes = true
      · obtain ⟨rfl, hwakes⟩ := hends
        exact .inl (Loops.rank_lt_of_turns rfl
          (testLoops_unmoved Interrupt.onMachine_mem (.refl _ _))
          (interrupted_turns_lt hwakes hat hi.2))
      · refine (hkeep hi).imp id fun ⟨hrank, hnext⟩ => ⟨?_, hrank, hnext, ?_⟩
        · rintro ⟨intr', hown, hwakes⟩
          obtain ⟨rfl, hintr⟩ := Prod.mk.inj hown
          obtain rfl := Option.some.inj hintr
          exact hends ⟨rfl, hwakes⟩
        · refine Config.move_cases (motive := TestThread.AtMwait) i (fun heq => ?_) (fun _ => hat)
          subst heq
          exact hat.interrupted fun hwakes => hends ⟨rfl, hwakes⟩

/-- A program whose calls are the ones that are meant makes progress. -/
theorem test_descent (hmatch : b.CallsMatch) :
    System.Descent (b.system h) (fun _ _ => True) TestOwns (b.system h).Reachable
      (fun s => ∀ i, (s.threads i).place = .exited) (testLoops b).rank (TestHelps b) where
  helper s hreach hgoal := by
    obtain ⟨i, hi⟩ := not_forall.mp hgoal
    obtain ⟨j, hj⟩ := exists_helps hreach hmatch hi
    by_cases hat : (s.threads j).AtMwait
    · exact ⟨.processor j, hj, hat⟩
    · exact ⟨.thread j, hj, hat⟩
  able s party hreach hhelps := hhelps.able hreach hmatch
  down := by
    rintro s party ⟨who, choice⟩ t hreach hhelps - hstep
    obtain ⟨sh, own, hrun, rfl⟩ := interleave_step_iff.mp hstep
    cases choice with
    | none => exact hhelps.thread_down hreach (ThreadTest.thread_cases hrun)
    | some intr =>
        obtain ⟨rfl, rfl⟩ := ThreadTest.thread_some hrun
        exact hhelps.interrupt_down

end

namespace ThreadTest

variable {m : DeviceMapping} {h : Machine TestId} {s : Config TestId TestShared TestThread}

/-- The kernel on which the number of the last call stands for `mwmon_mmap_sleep2`. -/
abbrev strayTest (m : DeviceMapping) : ThreadTest := .kmonUnot (.v2_6_13_1 .twopackages) m

/-- It is the only one on which the calls are not the ones that are meant. -/
theorem callsMatch_iff : b.CallsMatch ↔ ∀ m, b ≠ strayTest m := by
  constructor
  case mp =>
    rintro hmatch m rfl
    cases hmatch rfl 0
  case mpr =>
    intro hne
    cases b with
    | kmonKnot => exact fun hcounts => Bool.noConfusion hcounts
    | umonUnot => exact fun hcounts => Bool.noConfusion hcounts
    | kmonUnot kernel m =>
        cases kernel with
        | v2_6_24_2 => exact fun hcounts => Bool.noConfusion hcounts
        | v2_6_13_1 version =>
            cases version with
            | onepackageonly => exact fun _ _ => rfl
            | twopackages => exact absurd rfl (hne m)

/-- Opening the device prepares the second region too. -/
theorem main_area2 (c : TestId) (h : Machine TestId) :
    ((strayTest m).main c h).mem m.ptrs.mwmonMmapArea2 = MWMON_ORIGINAL_VAL := by
  have hfill (i : Fin 10) (h : Machine TestId) :
      KernelState.fillBytes c m.ptrs h i =
        (h.store c (m.ptrs.mwmonMmapArea + i) MWMON_ORIGINAL_VAL).store c
          (m.ptrs.mwmonMmapArea2 + i) MWMON_ORIGINAL_VAL := rfl
  have hkeep (a : Addr) (h : Machine TestId)
      (hmem : h.mem m.ptrs.mwmonMmapArea2 = MWMON_ORIGINAL_VAL) :
      (h.store c a MWMON_ORIGINAL_VAL).mem m.ptrs.mwmonMmapArea2 = MWMON_ORIGINAL_VAL := by
    by_cases ha : m.ptrs.mwmonMmapArea2 = a
    · subst ha
      exact Hardware.store_mem_self
    · rwa [Hardware.store_mem_of_ne ha]
  have hset (a : Addr) (h : Machine TestId) :
      (h.store c (a + 0) MWMON_ORIGINAL_VAL).mem a = MWMON_ORIGINAL_VAL := Hardware.store_mem_self
  have hloop : ((List.finRange 10).foldl (KernelState.fillBytes c m.ptrs) h).mem
      m.ptrs.mwmonMmapArea2 = MWMON_ORIGINAL_VAL := by
    refine foldl_establishes
      (P := fun h : Machine TestId => h.mem m.ptrs.mwmonMmapArea2 = MWMON_ORIGINAL_VAL)
      (fun h i hmem => ?_) (fun h => ?_) h (List.mem_finRange (0 : Fin 10))
    · rw [hfill]
      exact hkeep _ _ (hkeep _ h hmem)
    · rw [hfill]
      exact hset m.ptrs.mwmonMmapArea2 _
  exact hloop

end ThreadTest

/-- The sleeper of that kernel is not behind its first call of the second part. -/
inductive Strays (counts : Bool) : TestPlace → SpinActivity → Prop
  | before (place : TestPlace) (activity : SpinActivity) (hstage : place.stage counts ≤ 1) :
      Strays counts place activity
  | calls (activity : SpinActivity) : Strays counts (.second 10) activity
  | sleeps (pc : SleepPc) (hpc : pc ≠ .reset) :
      Strays counts (.spinning 10) (.asleep .mmapSleep2 pc)

/-- An interrupt does not lead out of that call. -/
theorem Strays.interrupt {counts : Bool} {place : TestPlace} {activity : SpinActivity}
    (h : Strays counts place activity) (i : Interrupt) :
    Strays counts place (i.onSpinActivity activity) := by
  cases h with
  | before _ _ hstage => exact .before _ _ hstage
  | calls => exact .calls _
  | sleeps pc hpc =>
      refine .sleeps _ fun hreset => hpc ?_
      have hboth : i.onSpinActivity (.asleep .mmapSleep2 pc) = .asleep .mmapSleep2 .reset :=
        congrArg (SpinActivity.asleep .mmapSleep2) hreset
      exact (SpinActivity.asleep.inj (Interrupt.onSpinActivity_eq_reset hboth)).2

/-- Nothing but that call stores to the second region. -/
theorem TestMove.area2_eq (hcounts : b.counts = true)
    (hmove : TestMove b c sh t sh' t')
    (hbyte : sh.machine.mem b.ptrs.mwmonMmapArea2 = MWMON_ORIGINAL_VAL) :
    sh'.machine.mem b.ptrs.mwmonMmapArea2 = MWMON_ORIGINAL_VAL := by
  have htarget (c : TestId) (v : Byte) :
      (sh.machine.store c b.target v).mem b.ptrs.mwmonMmapArea2 = MWMON_ORIGINAL_VAL := by
    rwa [Hardware.store_mem_of_ne (b.area2_ne_target hcounts)]
  have hlong (v : BitVec 64) :
      (storeLong c b.ptrs.mwmonLintVarAddr v sh.machine).mem b.ptrs.mwmonMmapArea2 =
        MWMON_ORIGINAL_VAL := by
    rw [storeLong_mem, writeLong, if_neg]
    · exact hbyte
    · rintro ⟨hle, hlt⟩
      obtain ⟨i, hi⟩ := Nat.exists_eq_add_of_le hle
      rw [hi] at hlt
      exact b.lint_ne_area2 hcounts (Nat.add_lt_add_iff_left.mp hlt) hi.symm
  cases hmove with
  | notify => exact htarget _ _
  | clear => exact hlong _
  | store => exact hlong _
  | call i back machine kernel hrole hplace hrun =>
      cases callRun_of_step hrun with
      | sleeps call pc pc' h' hactivity hsleep =>
          exact (congrFun (hsleep.mem_eq rfl) _).trans hbyte
      | spins cond place place' reads h' hactivity hspin =>
          exact (congrFun (hspin.mem_eq rfl) _).trans hbyte
      | returns =>
          rw [← b.target_of_counts hcounts]
          exact htarget _ _
      | awakes call hactivity =>
          by_cases ha : b.ptrs.mwmonMmapArea2 = call.target b.ptrs
          · have hself := sh.machine.store_mem_self (c := c) (a := call.target b.ptrs)
              (v := MWMON_ORIGINAL_VAL)
            rwa [← ha] at hself ⊢
          · exact (Hardware.store_mem_of_ne ha).trans hbyte
  | _ => exact hbyte

/-- A step of the sleeper. -/
theorem Strays.step {m : DeviceMapping} (hrole : c.val = 0)
    (hbyte : sh.machine.mem m.ptrs.mwmonMmapArea2 = MWMON_ORIGINAL_VAL)
    (h : Strays true t.place t.kernel.activity)
    (hmove : TestMove (.strayTest m) c sh t sh' t') :
    Strays true t'.place t'.kernel.activity := by
  cases hmove with
  | turn i hplace => exact .before _ _ (Nat.zero_le 1)
  | finish i hplace => exact .before _ _ (Nat.zero_le 1)
  | sleep _ hplace => exact .before _ _ (Nat.zero_le 1)
  | look hplace => exact .before _ _ le_rfl
  | barrier next sb own hplace hnext hrun =>
      obtain ⟨-, rfl⟩ := hnext.resolve_right fun hne => hne.1 hrole
      show Strays true (if own.pc = .outside then TestPlace.second 10 else .barrier) _
      split
      · exact .calls _
      · exact .before _ _ le_rfl
  | spin i cond _ hplace hi hcall => cases hcall
  | stray i call _ hplace hi hcall =>
      cases hcall
      rw [hplace] at h
      cases h with
      | before _ _ hstage => exact absurd hstage (show ¬ 2 ≤ 1 by decide)
      | calls => exact .sleeps _ (by simp)
  | leave i _ hplace hi =>
      rw [hplace] at h
      cases h with
      | before _ _ hstage => exact absurd hstage (show ¬ 2 ≤ 1 by decide)
      | calls => exact absurd (show 10 < 20 by decide) hi
  | call i back machine kernel _ hplace hrun =>
      rcases hplace with ⟨hplace, rfl⟩ | ⟨hplace, rfl⟩
      · show Strays true (if _ then TestPlace.loop (i + 1) else t.place) _
        split
        · exact .before _ _ (Nat.zero_le 1)
        · rw [hplace]
          exact .before _ _ (Nat.zero_le 1)
      · generalize hactivity : t.kernel.activity = activity at h
        rw [hplace] at h
        cases h with
        | before _ _ hstage => exact absurd hstage (show ¬ 2 ≤ 1 by decide)
        | sleeps pc hpc =>
            cases callRun_of_step hrun with
            | sleeps call pc₀ pc' h' hactivity' hsleep =>
                obtain ⟨rfl, rfl⟩ := SpinActivity.asleep.inj (hactivity'.symm.trans hactivity)
                rw [if_neg (by simp)]
                rw [hplace]
                refine .sleeps pc' ?_
                rintro rfl
                have hnotified := hsleep.notified rfl
                exact original_ne_notified (hbyte.symm.trans hnotified)
            | awakes call hactivity' =>
                exact absurd (SpinActivity.asleep.inj (hactivity.symm.trans hactivity')).2 hpc
            | spins _ _ _ _ _ hactivity' => cases hactivity.symm.trans hactivity'
            | returns _ _ hactivity' => cases hactivity.symm.trans hactivity'
  | notify hne => exact absurd hrole hne
  | clear hne => exact absurd hrole hne
  | test hne => exact absurd hrole hne
  | print hne => exact absurd hrole hne
  | load hne => exact absurd hrole hne
  | store v hne => exact absurd hrole hne

namespace ThreadTest

variable {m : DeviceMapping} {h : Machine TestId} {s : Config TestId TestShared TestThread}

/-- On that kernel the sleeper does not get past its first call of the second part. -/
theorem strays_of_reachable (c : TestId)
    (hreach : ((strayTest m).system ((strayTest m).main c h)).Reachable s) :
    s.shared.machine.mem m.ptrs.mwmonMmapArea2 = MWMON_ORIGINAL_VAL ∧
      Strays true (s.threads ta0).place (s.threads ta0).kernel.activity := by
  refine invariant (P := fun s => s.shared.machine.mem m.ptrs.mwmonMmapArea2 = MWMON_ORIGINAL_VAL ∧
    Strays true (s.threads ta0).place (s.threads ta0).kernel.activity) ?_ ?_ ?_ hreach
  · intro s hinit
    rw [hinit.1, hinit.2.2 ta0]
    exact ⟨main_area2 c h, .before _ _ (Nat.zero_le 1)⟩
  · rintro s who sh own hreach ⟨hbyte, hstrays⟩ hmove
    refine ⟨hmove.area2_eq rfl hbyte, ?_⟩
    refine Config.move_cases (motive := fun t : TestThread => Strays true t.place
      t.kernel.activity) ta0 (fun heq => ?_) (fun _ => hstrays)
    subst heq
    exact hstrays.step rfl hbyte hmove
  · rintro s who i ⟨hbyte, hstrays⟩
    refine ⟨(congrFun Interrupt.onMachine_mem _).trans hbyte, ?_⟩
    refine Config.move_cases (motive := fun t : TestThread => Strays true t.place
      t.kernel.activity) ta0 (fun heq => ?_) (fun _ => hstrays)
    subst heq
    exact hstrays.interrupt i

theorem not_exited_of_strays {activity : SpinActivity}
    (hstrays : Strays true .exited activity) : False := by
  cases hstrays with
  | before _ _ hstage => exact absurd hstage (show ¬ 2 ≤ 1 by decide)

end ThreadTest

/-- In a fair run both threads come to their end exactly if the number of the last call
stands for the call that is meant on the kernel that is running. -/
theorem threadTest_terminates_iff (b : ThreadTest) (c : TestId) (h : Machine TestId)
    (e : System.Execution (b.system (b.main c h)) fun _ _ => True) (hfair : e.Fair TestOwns) :
    (∃ m, ∀ i, ((e.state m).threads i).place = .exited) ↔ b.CallsMatch := by
  constructor
  case mp =>
    rintro ⟨k, hexited⟩
    refine ThreadTest.callsMatch_iff.mpr ?_
    rintro m rfl
    have hstrays := (ThreadTest.strays_of_reachable c (e.reachable k)).2
    rw [hexited ta0] at hstrays
    exact ThreadTest.not_exited_of_strays hstrays
  case mpr =>
    intro hmatch
    obtain ⟨k, -, hexited⟩ := (test_descent hmatch).eventually hfair (fun n => e.reachable n) 0
    exact ⟨k, hexited⟩

/-- A tick does nothing to a thread that is not in the kernel. -/
theorem tick_of_user {i : TestId} {s : Config TestId TestShared TestThread}
    (huser : (s.threads i).kernel.activity = .user) :
    b.thread.next s (i, some tick) = some s := by
  have hsame : tick.onSpinActivity (s.threads i).kernel.activity =
      (s.threads i).kernel.activity := by
    rw [huser]
    rfl
  have hrun : b.thread i (some tick) s.shared (s.threads i) = some (s.shared, s.threads i) := by
    show some (s.shared, { s.threads i with kernel := { (s.threads i).kernel with
      activity := tick.onSpinActivity (s.threads i).kernel.activity } }) = _
    rw [hsame]
  show (b.thread i (some tick) s.shared (s.threads i)).map _ = some s
  rw [hrun]
  exact congrArg some Config.move_eq_self

/-- Nobody moves a thread that has come to its end. -/
theorem not_able_of_exited {h : Machine TestId} {i : TestId}
    {s : Config TestId TestShared TestThread} (hexited : (s.threads i).place = .exited) :
    ¬ (b.system h).Able (TestOwns (.thread i)) s := by
  rintro ⟨_, t, rfl, hstep⟩
  obtain ⟨sh, own, hrun, -⟩ := interleave_step_iff.mp hstep
  rw [ThreadTest.thread, ThreadTest.sleeper, ThreadTest.notifier, hexited, ite_self] at hrun
  cases hrun

/-- A tick on each processor. -/
def ticks : List (TestId × Option Interrupt) := [(ta0, some tick), (ta1, some tick)]

/-- A schedule is fair that brings both threads to their end and then only has ticks. -/
theorem fair_of_exited {h : Machine TestId} {s t : Config TestId TestShared TestThread}
    {hinit : ThreadTest.init h s} {first : List (TestId × Option Interrupt)}
    (hfirst : System.exec b.thread.next s first = t)
    (hexited : ∀ i, (t.threads i).place = .exited ∧ (t.threads i).kernel.activity = .user) :
    (System.scheduled (fun _ _ => True) b.thread.next s hinit
      (System.lasso first ticks)).Fair TestOwns := by
  have htick (i : TestId) := tick_of_user (b := b) (hexited i).2
  rw [← System.guarded_true b.thread.next] at hfirst htick
  have hone := System.exec_cons (htick ta0) []
  have hboth := (System.exec_cons (htick ta0) [(ta1, some tick)]).trans
    (System.exec_cons (htick ta1) [])
  refine System.fair_lasso (by rw [hfirst]; exact hboth) fun party => ?_
  rw [hfirst]
  cases party with
  | thread i => exact ⟨0, _, rfl, .inl (not_able_of_exited (hexited i).1)⟩
  | processor i =>
      rcases ThreadTest.eq_ta0_or_ta1 i with rfl | rfl
      · exact ⟨0, _, rfl, .inr ⟨⟨tick, rfl, rfl⟩, Option.isSome_of_eq_some (htick ta0)⟩⟩
      · refine ⟨1, _, rfl, .inr ⟨⟨tick, rfl, rfl⟩, ?_⟩⟩
        rw [show ticks.take 1 = [(ta0, some tick)] from rfl, hone]
        exact Option.isSome_of_eq_some (htick ta1)

/-- The program on the memory that `mwmon_kernel_init` has prepared. -/
def knotTest : ThreadTest := .kmonKnot .twopackages examplePointers

def knotStart : Config TestId TestShared TestThread :=
  ⟨⟨knotTest.main ta0 ⟨fun _ => 0, fun _ => none⟩, ThreadTest.barrierStart⟩, fun _ => .start⟩

/-- The notifier runs to its end, and then the sleeper. -/
def knotSteps : List (TestId × Option Interrupt) :=
  List.replicate 21 (ta1, none) ++ List.replicate 26 (ta0, none)

def knotRun : System.Execution (knotTest.system (knotTest.main ta0 ⟨fun _ => 0, fun _ => none⟩))
    fun _ _ => True :=
  System.scheduled _ _ knotStart ⟨rfl, ⟨_, rfl⟩, fun _ => rfl⟩ (System.lasso knotSteps ticks)

set_option maxRecDepth 8000 in
theorem knot_exited (i : TestId) :
    ((System.exec knotTest.thread.next knotStart knotSteps).threads i).place = .exited ∧
    ((System.exec knotTest.thread.next knotStart knotSteps).threads i).kernel.activity = .user := by
  revert i
  decide

/-- Both threads of `thread_test_kmon_knot.c` come to their end. -/
theorem threadTest_terminates_knot :
    ∃ m, ∀ i, ((knotRun.state m).threads i).place = .exited :=
  (threadTest_terminates_iff knotTest ta0 ⟨fun _ => 0, fun _ => none⟩ knotRun
    (fair_of_exited rfl knot_exited)).mpr fun hcounts => Bool.noConfusion hcounts

end Htsynch
