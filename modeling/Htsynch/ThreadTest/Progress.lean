/-
# The two threads never both wait

A thread that is not at its end and need not wait can move. And there is always one: the
notifier waits at the barrier only, before it the sleeper is let out of its sleep call by the
notification, and behind it the calls return when the notifier has counted to twenty, if they
are the calls that are meant.
-/

import Htsynch.ThreadTest.Turns

namespace Htsynch

open Foundations

variable {b : ThreadTest} {c : TestId} {sh sh' : TestShared} {t t' : TestThread}

/-- What a sleeping thread knows of its monitor. -/
def TestThread.Watches (b : ThreadTest) (i : TestId) (h : Machine TestId) (t : TestThread) :
    Prop :=
  ∀ call pc, t.kernel.activity = .asleep call pc → SleepWatch (call.target b.ptrs) i h pc

/-- The steps of the other thread keep a watch. -/
theorem TestMove.watch_other {i : TestId} {p : Addr} {pc : SleepPc}
    (hwatch : SleepWatch p i sh.machine pc) (hne : i ≠ c) (hmove : TestMove b c sh t sh' t') :
    SleepWatch p i sh'.machine pc := by
  cases hmove with
  | notify => exact hwatch.store hne
  | clear => exact hwatch.storeLong hne
  | store => exact hwatch.storeLong hne
  | call j back machine kernel hrole hplace hrun =>
      cases callRun_of_step hrun with
      | sleeps call pc pc' h' hactivity hsleep => exact hwatch.other hne hsleep
      | awakes => exact hwatch.store hne
      | returns => exact hwatch.store hne
      | spins cond place place' reads h' hactivity hspin =>
          cases hspin with
          | arm => exact hwatch.monitor hne
          | _ => exact hwatch
  | _ => exact hwatch

/-- So do the thread's own. -/
theorem TestMove.watches (hok : t.Ok b c) (hwatch : t.Watches b c sh.machine)
    (hmove : TestMove b c sh t sh' t') : t'.Watches b c sh'.machine := by
  have huser (hplace : t.place.called = false) (hkernel : t'.kernel = t.kernel) :
      t'.Watches b c sh'.machine := by
    intro call pc hactivity
    rw [hkernel, hok.fits.user_of hplace] at hactivity
    cases hactivity
  cases hmove with
  | sleep =>
      intro call pc hactivity
      cases hactivity
      exact trivial
  | stray =>
      intro call pc hactivity
      cases hactivity
      exact trivial
  | spin =>
      intro call pc hactivity
      cases hactivity
  | call j back machine kernel hrole hplace hrun =>
      intro call pc hnew
      cases callRun_of_step hrun with
      | sleeps call' pc' pc'' h' hactivity hsleep =>
          obtain ⟨rfl, rfl⟩ := SpinActivity.asleep.inj hnew
          exact (hwatch _ _ hactivity).step hsleep rfl
      | awakes => cases hnew
      | returns => cases hnew
      | spins => cases hnew
  | turn i hplace => exact huser (by rw [hplace]; rfl) rfl
  | finish i hplace => exact huser (by rw [hplace]; rfl) rfl
  | notify hrole hplace => exact huser (by rw [hplace]; rfl) rfl
  | look hplace => exact huser (by rw [hplace]; rfl) rfl
  | barrier next sb own hplace => exact huser (by rw [hplace]; rfl) rfl
  | leave i hrole hplace => exact huser (by rw [hplace]; rfl) rfl
  | clear hrole hplace => exact huser (by rw [hplace]; rfl) rfl
  | test hrole hplace => exact huser (by rw [hplace]; rfl) rfl
  | print hrole hplace => exact huser (by rw [hplace]; rfl) rfl
  | load hrole hplace => exact huser (by rw [hplace]; rfl) rfl
  | store v hrole hplace => exact huser (by rw [hplace]; rfl) rfl

namespace ThreadTest

variable {h : Machine TestId} {s : Config TestId TestShared TestThread}

theorem watches_of_reachable (hreach : (b.system h).Reachable s) (i : TestId) :
    (s.threads i).Watches b i s.shared.machine := by
  refine invariant (P := fun s => ∀ i, (s.threads i).Watches b i s.shared.machine)
    ?_ ?_ ?_ hreach i
  · intro s hinit i call pc hactivity
    rw [hinit.2.2 i] at hactivity
    cases hactivity
  · intro s who sh own hreach hwatch hmove i
    refine Config.move_cases (motive := fun t => TestThread.Watches b i sh.machine t) i
      (fun heq => ?_) (fun hne call pc hactivity => ?_)
    · subst heq
      exact hmove.watches (threads_ok hreach i) (hwatch i)
    · exact hmove.watch_other (hwatch i call pc hactivity) hne
  · intro s who i hwatch j
    refine Config.move_cases (motive := fun t => TestThread.Watches b j
      (i.onMachine who s.shared.machine) t) j (fun heq call pc hactivity => ?_)
      (fun _ call pc hactivity => (hwatch j call pc hactivity).interrupt)
    subst heq
    rcases i.onSpinActivity_cases (s.threads j).kernel.activity with hsame | ⟨_, -, hwake⟩ |
        ⟨_, _, -, -, htest⟩
    · exact (hwatch j call pc (hsame.symm.trans hactivity)).interrupt
    · obtain ⟨-, rfl⟩ := SpinActivity.asleep.inj (hwake.symm.trans hactivity)
      exact trivial
    · cases htest.symm.trans hactivity

end ThreadTest

/-- A thread in a call that need not wait goes on in it. -/
theorem inKernel_isSome (hok : t.Ok b c) (hwatch : t.Watches b c sh.machine)
    (hcalled : t.place.called = true) (hfree : ¬ t.Stuck b sh) (hat : ¬ t.AtMwait) :
    (spinThread b.kernel.version b.ptrs c .step sh.machine t.kernel).isSome := by
  have hfits := hok.fits
  cases hactivity : t.kernel.activity with
  | user =>
      rw [hactivity] at hfits
      exact Bool.noConfusion (hfits.not_called.symm.trans hcalled)
  | asleep call pc =>
      simp only [spinThread, hactivity, SleepCall.run_eq, Option.isSome_map]
      cases pc with
      | mwait =>
          have hbyte : sh.machine.mem (call.target b.ptrs) = MWMON_NOTIFIED_VAL := by
            by_contra hne
            refine hfree ?_
            simp only [TestThread.Stuck, hactivity]
            exact ⟨by simp, hne⟩
          have hunblocked : ¬ sh.machine.Blocks c :=
            Hardware.Watched.not_blocks (hwatch _ _ hactivity) hbyte
          simp [mwmonSleep, hunblocked]
      | _ => rfl
  | spinning cond place reads =>
      rw [hactivity] at hfits
      simp only [spinThread, hactivity, Option.isSome_map]
      refine spinWhileGreater_isSome hfits.on fun hmwait => ?_
      exact absurd ⟨cond, reads, by rw [hactivity, hmwait]⟩ hat

theorem lintCounter_isSome (hcounts : b.counts = true) :
    b.lintCounter = some b.ptrs.mwmonLintVarAddr := by
  obtain ⟨version, m, rfl⟩ := ThreadTest.counts_cases hcounts
  exact m.translate_lintCounterAddr

theorem atBarrier_isSome {next : TestPlace} (hok : t.Ok b c) (hplace : t.place = .barrier) :
    (ThreadTest.atBarrier c next sh t).isSome := by
  have hcalls : t.barrier.calls < 1 := by
    rw [hok.inside (by rw [hplace]; rfl)]
    exact Nat.one_pos
  rw [ThreadTest.atBarrier, Option.isSome_map]
  exact Spin.lsenseBarrier_isSome hcalls

theorem inCall_isSome {back : TestPlace}
    (hrun : (spinThread b.kernel.version b.ptrs c .step sh.machine t.kernel).isSome) :
    (b.inCall c back sh t).isSome := by
  rwa [ThreadTest.inCall, Option.isSome_map, ThreadTest.inKernel, Option.isSome_map]

/-- A sleeper that need not wait can move. -/
theorem sleeper_isSome (hrole : c.val = 0) (hok : t.Ok b c) (hwatch : t.Watches b c sh.machine)
    (hmatch : b.CallsMatch) (hactive : t.place ≠ .exited) (hfree : ¬ t.Stuck b sh)
    (hat : ¬ t.AtMwait) : (b.sleeper c sh t).isSome := by
  have hof := hok.place_of
  cases hplace : t.place with
  | loop i =>
      have huser := hok.fits.user_of (by rw [hplace]; rfl)
      by_cases hi : i < END_TIME
      · by_cases htime : i = SLEEP_TIME
        · subst htime
          simp [ThreadTest.sleeper, hplace, hi, ThreadTest.enter, b.sleepCall_eq,
            ThreadTest.inKernel, spinThread, huser]
        · simp [ThreadTest.sleeper, hplace, hi, htime]
      · simp [ThreadTest.sleeper, hplace, hi]
  | asleep i =>
      simp only [ThreadTest.sleeper, hplace]
      exact inCall_isSome (inKernel_isSome hok hwatch (by rw [hplace]; rfl) hfree hat)
  | look =>
      rw [hplace] at hof
      simp [ThreadTest.sleeper, hplace, ThreadTest.look, b.userByte_eq hof]
  | barrier =>
      simp only [ThreadTest.sleeper, hplace]
      exact atBarrier_isSome hok hplace
  | second i =>
      have huser := hok.fits.user_of (by rw [hplace]; rfl)
      have hcounts := hok.counts (by rw [hplace]; exact Nat.succ_ne_zero 1)
      by_cases hi : i < 20
      · simp [ThreadTest.sleeper, hplace, hi, ThreadTest.enter, hmatch hcounts i,
          ThreadTest.inKernel, spinThread, huser]
      · simp [ThreadTest.sleeper, hplace, hi]
  | spinning i =>
      simp only [ThreadTest.sleeper, hplace]
      exact inCall_isSome (inKernel_isSome hok hwatch (by rw [hplace]; rfl) hfree hat)
  | exited => exact absurd hplace hactive
  | _ =>
      rw [hplace] at hof
      exact absurd hrole hof

/-- The notifier can move until it is at its end. -/
theorem notifier_isSome (hrole : c.val ≠ 0) (hok : t.Ok b c) (hactive : t.place ≠ .exited) :
    (b.notifier c sh t).isSome := by
  have hof := hok.place_of
  have hlint (hstage : t.place.stage b.counts = 2) :=
    lintCounter_isSome (hok.counts (hstage.symm ▸ Nat.succ_ne_zero 1))
  cases hplace : t.place with
  | loop i =>
      have huser := hok.fits.user_of (by rw [hplace]; rfl)
      by_cases hi : i < END_TIME
      · by_cases htime : i = NOTIFY_TIME
        · subst htime
          obtain ⟨choice, hcall, hrun⟩ := b.inKernel_notification c sh huser
          simp [ThreadTest.notifier, hplace, hi, ThreadTest.enter, hcall, hrun]
        · simp [ThreadTest.notifier, hplace, hi, htime]
      · simp [ThreadTest.notifier, hplace, hi]
  | look =>
      rw [hplace] at hof
      simp [ThreadTest.notifier, hplace, ThreadTest.look, b.userByte_eq hof]
  | barrier =>
      simp only [ThreadTest.notifier, hplace]
      exact atBarrier_isSome hok hplace
  | clear => simp [ThreadTest.notifier, hplace, hlint (by rw [hplace]; rfl)]
  | test => simp [ThreadTest.notifier, hplace, hlint (by rw [hplace]; rfl)]
  | print => simp [ThreadTest.notifier, hplace, hlint (by rw [hplace]; rfl)]
  | load => simp [ThreadTest.notifier, hplace, hlint (by rw [hplace]; rfl)]
  | store v => simp [ThreadTest.notifier, hplace, hlint (by rw [hplace]; rfl)]
  | exited => exact absurd hplace hactive
  | _ =>
      rw [hplace] at hof
      exact absurd hof.1 hrole

theorem TestPlace.eq_barrier {place : TestPlace} {counts : Bool}
    (hstage : place.stage counts = 1) : place = .barrier := by
  cases place with
  | barrier => rfl
  | exited => cases counts <;> cases hstage
  | _ => cases hstage

theorem TestPlace.stage_cases (place : TestPlace) (counts : Bool) :
    place.stage counts = 0 ∨ place.stage counts = 1 ∨ place.stage counts = 2 := by
  cases place with
  | exited => cases counts <;> simp [stage]
  | _ => simp [stage]

theorem TestPlace.stage_exited (hcounts : b.counts = true) :
    TestPlace.exited.stage b.counts = 2 := by
  rw [hcounts]
  rfl

section

variable {h : Machine TestId} {s : Config TestId TestShared TestThread} {i : TestId}

/-- Outside the kernel a thread waits at the barrier only. -/
theorem at_barrier_of_stuck (hreach : (b.system h).Reachable s)
    (huser : (s.threads i).kernel.activity = .user) (hstuck : (s.threads i).Stuck b s.shared) :
    (s.threads i).place = .barrier := by
  have hok := ThreadTest.threads_ok hreach i
  have hspin := (stuck_iff_of_user huser).mp hstuck
  have hin : CallSite.inCall (s.threads i).barrier.pc = true := by
    cases hpc : (s.threads i).barrier.pc with
    | outside => simp [Spin.Stuck, hpc] at hspin
    | _ => rfl
  obtain ⟨round, holder, hinv⟩ :=
    Spin.spinInv_of_reachable (ThreadTest.barrierView_reachable hreach)
  have hcalls : (s.threads i).barrier.calls < 1 := (hinv.within i).calls_lt hin
  rcases (s.threads i).place.stage_cases b.counts with hzero | hone | htwo
  · rw [hok.before hzero] at hin
    cases hin
  · exact TestPlace.eq_barrier hone
  · exact absurd (hok.behind htwo) hcalls.ne

/-- While a thread has not passed the barrier somebody at it need not wait, or has not got
there yet. -/
theorem exists_free_at_barrier (hreach : (b.system h).Reachable s)
    (hplace : (s.threads i).place = .barrier) :
    ∃ j, (s.threads j).place.stage b.counts ≤ 1 ∧
      ¬ Spin.Stuck s.shared.barrier (s.threads j).barrier := by
  obtain ⟨round, holder, hinv⟩ :=
    Spin.spinInv_of_reachable (ThreadTest.barrierView_reachable hreach)
  have hcalls : (s.threads i).barrier.calls < 1 := by
    rw [(ThreadTest.threads_ok hreach i).inside (by rw [hplace]; rfl)]
    exact Nat.one_pos
  by_contra hnone
  refine hinv.not_deadlock ⟨⟨i, hcalls⟩, fun j hj => by_contra fun hfree => hnone ⟨j, ?_, hfree⟩⟩
  have hcalls' : (s.threads j).barrier.calls < 1 := hj
  rcases (s.threads j).place.stage_cases b.counts with hzero | hone | htwo
  · exact hzero.trans_le (Nat.zero_le 1)
  · exact hone.le
  · exact absurd ((ThreadTest.threads_ok hreach j).behind htwo) hcalls'.ne

/-- Once the notification is out the sleeper need not wait in its sleep call. -/
theorem not_stuck_asleep (hreach : (b.system h).Reachable s) (hgiven : Given (s.threads ta1))
    {k : ℕ} (hplace : (s.threads ta0).place = .asleep k) :
    ¬ (s.threads ta0).Stuck b s.shared := by
  have hok := ThreadTest.threads_ok hreach ta0
  have hfits := hok.fits
  have hof := hok.place_of
  have hnot : ¬ Taken (s.threads ta0) := by
    rw [Taken, hplace]
    rw [hplace] at hof
    rw [hof.2]
    exact Nat.lt_irrefl SLEEP_TIME
  have hbyte := (ThreadTest.byteInv_of_reachable hreach).waiting hgiven hnot
  intro hstuck
  unfold TestThread.Stuck at hstuck
  rw [hplace] at hfits
  cases hactivity : (s.threads ta0).kernel.activity with
  | user =>
      rw [hactivity] at hfits
      exact Bool.noConfusion hfits.not_called
  | asleep call pc =>
      rw [hactivity] at hfits hstuck
      cases hfits with
      | asleep =>
          rw [← b.call_target] at hbyte
          exact hstuck.2 hbyte
  | spinning cond place reads =>
      rw [hactivity] at hfits
      cases hfits

/-- Once the notifier is at its end the sleeper need not wait in its last call. -/
theorem not_stuck_spinning (hreach : (b.system h).Reachable s) (hmatch : b.CallsMatch)
    (hexited : (s.threads ta1).place = .exited) {k : ℕ}
    (hplace : (s.threads ta0).place = .spinning k) :
    ¬ (s.threads ta0).Stuck b s.shared := by
  have hok := ThreadTest.threads_ok hreach ta0
  have hfits := hok.fits
  have hof := hok.place_of
  have hcounts := hok.counts (by rw [hplace]; exact Nat.succ_ne_zero 1)
  have hlong : readLong s.shared.machine.mem b.ptrs.mwmonLintVarAddr = BitVec.ofNat 64 20 := by
    have hcounted := ThreadTest.counted_of_reachable hcounts hreach
    rw [hexited] at hcounted
    cases hcounted with
    | before _ hearly =>
        exact absurd hearly (TestPlace.not_early (TestPlace.stage_exited hcounts)
          fun hclear => TestPlace.noConfusion hclear)
    | done hlong => exact hlong
  intro hstuck
  unfold TestThread.Stuck at hstuck
  rw [hplace] at hfits hof
  cases hactivity : (s.threads ta0).kernel.activity with
  | user =>
      rw [hactivity] at hfits
      exact Bool.noConfusion hfits.not_called
  | asleep call pc =>
      rw [hactivity] at hfits
      cases hfits with
      | stray _ _ hcall => cases (hmatch hcounts k).symm.trans hcall
  | spinning cond place reads =>
      rw [hactivity] at hfits hstuck
      cases hfits with
      | spinning _ _ _ _ hcall =>
          cases (hmatch hcounts k).symm.trans hcall
          have hless := hstuck.2
          rw [hlong, toInt_number le_rfl, toInt_number hof.2.2.le] at hless
          exact absurd (Int.ofNat_lt.mp hless) (not_lt.mpr hof.2.2.le)

/-- As long as a thread is not at its end one that is not need not wait. -/
theorem exists_helps (hreach : (b.system h).Reachable s) (hmatch : b.CallsMatch)
    (hactive : (s.threads i).place ≠ .exited) : ∃ j, (testLoops b).Helps s j := by
  by_contra hnone
  have hstuck (j : TestId) (hj : (s.threads j).place ≠ .exited) :
      (s.threads j).Stuck b s.shared :=
    by_contra fun hfree => hnone ⟨j, hj, hfree⟩
  have hok (j : TestId) := ThreadTest.threads_ok hreach j
  have hbarrier (j : TestId) : (s.threads j).place ≠ .barrier := by
    intro hplace
    have hcounts := (hok j).counts (by rw [hplace]; exact Nat.one_ne_zero)
    obtain ⟨k, hstage, hfree⟩ := exists_free_at_barrier hreach hplace
    have hk : (s.threads k).place ≠ .exited := by
      intro hexited
      rw [hexited, TestPlace.stage_exited hcounts] at hstage
      exact absurd hstage (by decide)
    refine hnone ⟨k, hk, fun hwaits => ?_⟩
    cases hin : (s.threads k).place with
    | asleep n =>
        -- it is the sleeper, and the notifier is at the barrier
        have hof := (hok k).place_of
        rw [hin] at hof
        obtain rfl := ThreadTest.eq_ta0 hof.1
        obtain rfl : j = ta1 := ThreadTest.eq_ta1 fun hzero => by
          rw [ThreadTest.eq_ta0 hzero, hin] at hplace
          cases hplace
        refine not_stuck_asleep hreach ?_ hin hwaits
        rw [Given, hplace]
        exact trivial
    | spinning n =>
        rw [hin] at hstage
        exact absurd hstage (show ¬ 2 ≤ 1 by decide)
    | _ =>
        have huser := (hok k).fits.user_of (by rw [hin]; rfl)
        exact hfree ((stuck_iff_of_user huser).mp hwaits)
  have hnotifier : (s.threads ta1).place = .exited := by
    by_contra hne
    have hof := (hok ta1).place_of
    have hwaits := hstuck ta1 hne
    cases hin : (s.threads ta1).place with
    | asleep n =>
        rw [hin] at hof
        exact Nat.one_ne_zero hof.1
    | spinning n =>
        rw [hin] at hof
        exact Nat.one_ne_zero hof.1
    | _ =>
        have huser := (hok ta1).fits.user_of (by rw [hin]; rfl)
        exact hbarrier ta1 (at_barrier_of_stuck hreach huser hwaits)
  obtain rfl : i = ta0 := (ThreadTest.eq_ta0_or_ta1 i).resolve_right fun heq =>
    hactive (heq ▸ hnotifier)
  have hwaits := hstuck ta0 hactive
  cases hin : (s.threads ta0).place with
  | asleep n =>
      refine not_stuck_asleep hreach ?_ hin hwaits
      rw [Given, hnotifier]
      exact trivial
  | spinning n => exact not_stuck_spinning hreach hmatch hnotifier hin hwaits
  | _ =>
      have huser := (hok ta0).fits.user_of (by rw [hin]; rfl)
      exact hbarrier ta0 (at_barrier_of_stuck hreach huser hwaits)

end

end Htsynch
