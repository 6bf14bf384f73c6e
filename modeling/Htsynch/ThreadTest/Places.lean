/-
# Where the threads of a test program can be

Each thread keeps to the places of its own function, is in the kernel exactly where its
function makes a call, and is in the barrier exactly between the two parts. The barrier
sees nothing but the steps that the threads take in it.
-/

import Htsynch.Kernel.SpinSteps
import Htsynch.Spin.SpinTermination
import Htsynch.ThreadTest.Program

namespace Htsynch

open Foundations

namespace TestPlace

/-- The thread is in a system call. -/
def called : TestPlace → Bool
  | .asleep _ => true
  | .spinning _ => true
  | _ => false

/-- Where the thread is in respect of the barrier: before it, at it, or behind it. -/
def stage (counts : Bool) : TestPlace → ℕ
  | .loop _ => 0
  | .asleep _ => 0
  | .look => 0
  | .barrier => 1
  | .exited => if counts then 2 else 0
  | _ => 2

/-- The places of each function. -/
def Of (b : ThreadTest) (c : TestId) : TestPlace → Prop
  | .loop i => i ≤ END_TIME
  | .asleep i => c.val = 0 ∧ i = SLEEP_TIME
  | .second i => c.val = 0 ∧ 10 ≤ i ∧ i ≤ 20
  | .spinning i => c.val = 0 ∧ 10 ≤ i ∧ i < 20
  | .look => b.reports = true
  | .barrier => True
  | .exited => True
  | .clear => c.val ≠ 0
  | .test => c.val ≠ 0
  | .print => c.val ≠ 0
  | .load => c.val ≠ 0
  | .store _ => c.val ≠ 0

end TestPlace

/-- What a thread is doing in the kernel where it is. -/
inductive Fits (b : ThreadTest) : TestPlace → SpinActivity → Prop
  | user (place : TestPlace) (hplace : place.called = false) : Fits b place .user
  | asleep (pc : SleepPc) : Fits b (.asleep SLEEP_TIME) (.asleep b.call pc)
  | spinning (i : ℕ) (cond : BitVec 64) (place : SpinPlace) (reads : List (BitVec 64))
      (hcall : b.spinCall i = some (.spinWhileGreater cond)) (hon : place.On b.kernel.version) :
      Fits b (.spinning i) (.spinning cond place reads)
  | stray (i : ℕ) (pc : SleepPc) (hcall : b.spinCall i = some (.sleep .mmapSleep2)) :
      Fits b (.spinning i) (.asleep .mmapSleep2 pc)

namespace Fits

variable {b : ThreadTest} {place : TestPlace} {activity : SpinActivity}

/-- In user space a thread is not in the kernel. -/
theorem user_of (h : Fits b place activity) (hplace : place.called = false) :
    activity = .user := by
  cases h with
  | user => rfl
  | _ => cases hplace

theorem not_called (h : Fits b place .user) : place.called = false := by
  cases h with
  | user _ hplace => exact hplace

theorem on {cond : BitVec 64} {spinPlace : SpinPlace} {reads : List (BitVec 64)}
    (h : Fits b place (.spinning cond spinPlace reads)) : spinPlace.On b.kernel.version := by
  cases h with
  | spinning _ _ _ _ _ hon => exact hon

/-- Being interrupted a thread stays where it is in its function. -/
theorem interrupt (h : Fits b place activity) (i : Interrupt) :
    Fits b place (i.onSpinActivity activity) := by
  cases h with
  | user place hplace => exact .user place hplace
  | asleep pc => exact .asleep _
  | stray i pc hcall => exact .stray i _ hcall
  | spinning k cond place reads hcall hon =>
      cases place with
      | check => exact .spinning k cond _ reads hcall hon
      | shared pc =>
          cases pc with
          | mwait => exact .spinning k cond _ reads hcall (fun heq => SpinPlace.noConfusion heq)
          | _ => exact .spinning k cond _ reads hcall hon

/-- A call goes on where it is, or returns. -/
theorem call {c : TestId} {h h' : Machine TestId} {k k' : SpinThread}
    (hfits : Fits b place k.activity) (hrun : CallRun b.kernel.version b.ptrs c h k h' k') :
    k'.activity = .user ∨ k'.activity ≠ .user ∧ Fits b place k'.activity := by
  cases hrun with
  | sleeps call pc pc' h' hactivity hmove =>
      rw [hactivity] at hfits
      refine .inr ⟨by simp, ?_⟩
      cases hfits with
      | asleep => exact .asleep pc'
      | stray i _ hcall => exact .stray i pc' hcall
  | awakes => exact .inl rfl
  | spins cond place place' reads h' hactivity hrun =>
      rw [hactivity] at hfits
      refine .inr ⟨by simp, ?_⟩
      cases hfits with
      | spinning i _ _ _ hcall => exact .spinning i cond place' _ hcall (hrun.on rfl)
  | returns => exact .inl rfl

end Fits

namespace TestThread

/-- What is known of a thread from its own state. -/
structure Ok (b : ThreadTest) (c : TestId) (t : TestThread) : Prop where
  place_of : t.place.Of b c
  fits : Fits b t.place t.kernel.activity
  /-- Only in the second build of `thread_test_kmon_unot.c` there is a barrier. -/
  counts : t.place.stage b.counts ≠ 0 → b.counts = true
  before : t.place.stage b.counts = 0 → t.barrier = .start
  inside : t.place.stage b.counts = 1 → t.barrier.calls = 0
  behind : t.place.stage b.counts = 2 → t.barrier.calls = 1

variable {b : ThreadTest} {c : TestId} {sh sh' : TestShared} {t t' : TestThread}

theorem ok_start : start.Ok b c where
  place_of := Nat.zero_le _
  fits := .user _ rfl
  counts h := absurd rfl h
  before _ := rfl
  inside h := absurd h Nat.zero_ne_one
  behind h := absurd h.symm (Nat.succ_ne_zero 1)

namespace Ok

/-- A thread that goes on on the same side of the barrier. -/
theorem goes (h : t.Ok b c) (hof : t'.place.Of b c) (hfits : Fits b t'.place t'.kernel.activity)
    (hbarrier : t'.barrier = t.barrier)
    (hstage : t'.place.stage b.counts = t.place.stage b.counts) : t'.Ok b c where
  place_of := hof
  fits := hfits
  counts := hstage ▸ h.counts
  before := by rw [hstage, hbarrier]; exact h.before
  inside := by rw [hstage, hbarrier]; exact h.inside
  behind := by rw [hstage, hbarrier]; exact h.behind

/-- A thread in user space that does. -/
theorem walks (h : t.Ok b c) (hold : t.place.called = false) (hof : t'.place.Of b c)
    (hnew : t'.place.called = false) (hkernel : t'.kernel = t.kernel)
    (hbarrier : t'.barrier = t.barrier)
    (hstage : t'.place.stage b.counts = t.place.stage b.counts) : t'.Ok b c := by
  refine h.goes hof ?_ hbarrier hstage
  rw [hkernel, h.fits.user_of hold]
  exact .user _ hnew

theorem interrupt (h : t.Ok b c) (i : Interrupt) :
    TestThread.Ok b c { t with kernel :=
      { t.kernel with activity := i.onSpinActivity t.kernel.activity } } :=
  h.goes h.place_of (h.fits.interrupt i) rfl rfl

end Ok

end TestThread

/-- A call of the barrier is over exactly when its thread is outside again. -/
theorem Spin.SpinMove.calls_eq {rounds : ℕ} {sb sb' : Spin.SpinBarrier}
    {t t' : Spin.SpinThread} (hmove : Spin.SpinMove rounds sb t sb' t') :
    t'.pc = .outside ∧ t'.calls = t.calls + 1 ∨ t'.pc ≠ .outside ∧ t'.calls = t.calls := by
  cases hmove with
  | leave => exact .inl ⟨rfl, rfl⟩
  | _ => exact .inr ⟨fun h => Spin.SpinPc.noConfusion h, rfl⟩

namespace ThreadTest

variable (b : ThreadTest)

theorem afterLoop_stage : b.afterLoop.stage b.counts = 0 := by
  cases b <;> rfl

theorem afterLook_cases :
    b.counts = true ∧ b.afterLook = .barrier ∨ b.counts = false ∧ b.afterLook = .exited := by
  unfold afterLook
  cases hcounts : b.counts with
  | true => exact .inl ⟨rfl, rfl⟩
  | false => exact .inr ⟨rfl, rfl⟩

theorem afterLoop_cases :
    b.reports = true ∧ b.afterLoop = .look ∨ b.afterLoop = .exited := by
  unfold afterLoop
  cases b.reports with
  | true => exact .inl ⟨rfl, rfl⟩
  | false => exact .inr rfl

end ThreadTest

namespace TestThread.Ok

variable {b : ThreadTest} {c : TestId} {sh sh' : TestShared} {t t' : TestThread}

/-- A step keeps what is known of its thread. -/
theorem step (h : t.Ok b c) (hmove : TestMove b c sh t sh' t') : t'.Ok b c := by
  cases hmove with
  | turn i hplace hi =>
      exact h.walks (by rw [hplace]; rfl) (Nat.succ_le_of_lt hi) rfl rfl rfl (by rw [hplace]; rfl)
  | finish i hplace =>
      refine h.walks (by rw [hplace]; rfl) ?_ ?_ rfl rfl ?_
      · rcases b.afterLoop_cases with ⟨hreports, heq⟩ | heq
        · rw [goto_place, heq]
          exact hreports
        · rw [goto_place, heq]
          exact trivial
      · rcases b.afterLoop_cases with ⟨-, heq⟩ | heq <;> rw [goto_place, heq] <;> rfl
      · rw [goto_place, b.afterLoop_stage, hplace]
        rfl
  | sleep hrole hplace => exact h.goes ⟨hrole, rfl⟩ (.asleep _) rfl (by rw [hplace]; rfl)
  | notify hrole hplace =>
      have hof : (TestPlace.loop (NOTIFY_TIME + 1)).Of b c := show 11 ≤ 20 by decide
      exact h.walks (by rw [hplace]; rfl) hof rfl rfl rfl (by rw [hplace]; rfl)
  | look hplace =>
      have huser := h.fits.user_of (by rw [hplace]; rfl)
      rcases b.afterLook_cases with ⟨hcounts, heq⟩ | ⟨hcounts, heq⟩
      · have hstart := h.before (by rw [hplace]; rfl)
        rw [heq]
        exact
          { place_of := trivial
            fits := huser ▸ .user _ rfl
            counts := fun _ => hcounts
            before := fun hzero => absurd hzero Nat.one_ne_zero
            inside := fun _ => by rw [hstart]; rfl
            behind := fun htwo => absurd htwo (show ¬ 1 = 2 by decide) }
      · refine h.walks (by rw [hplace]; rfl) ?_ ?_ rfl rfl ?_
        · rw [heq]
          exact trivial
        · rw [heq]
          rfl
        · rw [heq, hplace, hcounts]
          rfl
  | barrier next sb own hplace hnext hrun =>
      have huser := h.fits.user_of (by rw [hplace]; rfl)
      have hcounts := h.counts (by rw [hplace]; exact Nat.one_ne_zero)
      have hcalls := h.inside (by rw [hplace]; rfl)
      rcases (Spin.lsenseBarrier_cases hrun).calls_eq with ⟨hout, hnew⟩ | ⟨hin, hnew⟩
      · rw [if_pos hout]
        have hstage : next.stage b.counts = 2 := by
          rcases hnext with ⟨-, rfl⟩ | ⟨-, rfl⟩ <;> rfl
        exact
          { place_of := by
              rcases hnext with ⟨hrole, rfl⟩ | ⟨hrole, rfl⟩
              · exact ⟨hrole, le_rfl, by decide⟩
              · exact hrole
            fits := by
              rcases hnext with ⟨-, rfl⟩ | ⟨-, rfl⟩ <;> exact huser ▸ .user _ rfl
            counts := fun _ => hcounts
            before := fun hzero => absurd (hstage.symm.trans hzero) (by decide)
            inside := fun hone => absurd (hstage.symm.trans hone) (by decide)
            behind := fun _ => by rw [hnew, hcalls] }
      · rw [if_neg hin]
        exact
          { place_of := trivial
            fits := huser ▸ .user _ rfl
            counts := fun _ => hcounts
            before := fun hzero => absurd hzero Nat.one_ne_zero
            inside := fun _ => hnew.trans hcalls
            behind := fun htwo => absurd htwo (show ¬ 1 = 2 by decide) }
  | spin i cond hrole hplace hi hcall =>
      have hof := h.place_of
      rw [hplace] at hof
      refine h.goes ⟨hrole, hof.2.1, hi⟩ ?_ rfl (by rw [hplace]; rfl)
      exact .spinning i cond _ [] hcall (fun heq => SpinPlace.noConfusion heq)
  | stray i call hrole hplace hi hcall =>
      have hof := h.place_of
      rw [hplace] at hof
      rcases ThreadTest.spinCall_cases hcall with heq | heq
      · cases heq
      · cases heq
        exact h.goes ⟨hrole, hof.2.1, hi⟩ (.stray i _ hcall) rfl (by rw [hplace]; rfl)
  | leave i hrole hplace hi =>
      have hcounts := h.counts (by rw [hplace]; exact Nat.succ_ne_zero 1)
      exact h.walks (by rw [hplace]; rfl) trivial rfl rfl rfl (by rw [hplace, hcounts]; rfl)
  | call i back machine kernel hrole hplace hrun =>
      rcases h.fits.call (callRun_of_step hrun) with huser | ⟨hin, hfits⟩
      · rw [if_pos huser]
        refine h.goes ?_ ?_ rfl ?_
        · rcases hplace with ⟨hplace, rfl⟩ | ⟨hplace, rfl⟩
          · have hof := h.place_of
            rw [hplace] at hof
            rw [hof.2]
            exact show 6 ≤ 20 by decide
          · have hof := h.place_of
            rw [hplace] at hof
            exact ⟨hrole, Nat.le_succ_of_le hof.2.1, hof.2.2⟩
        · rw [huser]
          rcases hplace with ⟨-, rfl⟩ | ⟨-, rfl⟩ <;> exact .user _ rfl
        · rcases hplace with ⟨hplace, rfl⟩ | ⟨hplace, rfl⟩ <;> rw [hplace] <;> rfl
      · rw [if_neg hin]
        exact h.goes h.place_of hfits rfl rfl
  | clear hrole hplace =>
      exact h.walks (by rw [hplace]; rfl) hrole rfl rfl rfl (by rw [hplace]; rfl)
  | test hrole hplace =>
      have hcounts := h.counts (by rw [hplace]; exact Nat.succ_ne_zero 1)
      refine h.walks (by rw [hplace]; rfl) ?_ ?_ rfl rfl ?_
      · rw [goto_place]
        split
        · exact hrole
        · exact trivial
      · rw [goto_place]
        split <;> rfl
      · rw [goto_place, hplace, hcounts]
        split <;> rfl
  | print hrole hplace =>
      exact h.walks (by rw [hplace]; rfl) hrole rfl rfl rfl (by rw [hplace]; rfl)
  | load hrole hplace =>
      exact h.walks (by rw [hplace]; rfl) hrole rfl rfl rfl (by rw [hplace]; rfl)
  | store v hrole hplace =>
      exact h.walks (by rw [hplace]; rfl) hrole rfl rfl rfl (by rw [hplace]; rfl)

end TestThread.Ok

/-- A step is one in the barrier, or it leaves the barrier alone. -/
theorem TestMove.barrier_step {b : ThreadTest} {c : TestId} {sh sh' : TestShared}
    {t t' : TestThread} (hmove : TestMove b c sh t sh' t') :
    sh'.barrier = sh.barrier ∧ t'.barrier = t.barrier ∨
      Spin.lsenseBarrier 1 c () sh.barrier t.barrier = some (sh'.barrier, t'.barrier) := by
  cases hmove with
  | barrier next sb own hplace hnext hrun => exact .inr hrun
  | _ => exact .inl ⟨rfl, rfl⟩

namespace ThreadTest

variable {b : ThreadTest} {h : Machine TestId} {s : Config TestId TestShared TestThread}

/-- There are two threads. -/
theorem eq_ta0_or_ta1 (i : TestId) : i = ta0 ∨ i = ta1 := by
  obtain ⟨k, hk⟩ := i
  have hlt : k < 2 := hk
  rcases Nat.lt_succ_iff_lt_or_eq.mp hlt with hzero | rfl
  · exact .inl (Fin.ext (Nat.lt_one_iff.mp hzero))
  · exact .inr rfl

theorem eq_ta0 {i : TestId} (hi : i.val = 0) : i = ta0 := Fin.ext hi

theorem eq_ta1 {i : TestId} (hi : i.val ≠ 0) : i = ta1 :=
  (eq_ta0_or_ta1 i).resolve_left fun heq => hi (by rw [heq]; rfl)

theorem ta0_ne_ta1 : ta0 ≠ ta1 := fun h => Nat.zero_ne_one (Fin.mk.inj h)

/-- What is known of the threads in every reachable state. -/
theorem threads_ok (hreach : (b.system h).Reachable s) (i : TestId) : (s.threads i).Ok b i := by
  refine invariant (P := fun s => ∀ i, (s.threads i).Ok b i) ?_ ?_ ?_ hreach i
  · intro s hinit i
    rw [hinit.2.2 i]
    exact TestThread.ok_start
  · intro s who sh own _ hok hmove i
    refine Config.move_cases (motive := TestThread.Ok b i) i (fun heq => ?_) (fun _ => hok i)
    rw [heq]
    exact (hok who).step hmove
  · intro s who i hok j
    refine Config.move_cases (motive := TestThread.Ok b j) j (fun heq => ?_) (fun _ => hok j)
    rw [heq]
    exact (hok who).interrupt i

/-- What the barrier sees of the program. -/
def barrierView (s : Config TestId TestShared TestThread) :
    Config TestId Spin.SpinBarrier Spin.SpinThread :=
  ⟨s.shared.barrier, fun i => (s.threads i).barrier⟩

/-- The barrier sees the steps that are taken in it. -/
theorem barrierView_move {who : TestId} {sh : TestShared} {own : TestThread} :
    barrierView (s.move who sh own) = (barrierView s).move who sh.barrier own.barrier := by
  have hthreads : (fun i => ((s.move who sh own).threads i).barrier) =
      Function.update (fun i => (s.threads i).barrier) who own.barrier := by
    funext i
    by_cases hi : i = who
    · subst i
      simp
    · rw [Config.move_threads_of_ne hi, Function.update_of_ne hi]
  exact congrArg (Config.mk sh.barrier) hthreads

/-- Other steps it does not see. -/
theorem barrierView_move_eq {who : TestId} {sh : TestShared} {own : TestThread}
    (hshared : sh.barrier = s.shared.barrier) (hown : own.barrier = (s.threads who).barrier) :
    barrierView (s.move who sh own) = barrierView s := by
  rw [barrierView_move, hshared, hown]
  exact Config.move_eq_self (s := barrierView s)

/-- The barrier of the program is a spin barrier that two threads call once. -/
theorem barrierView_reachable (hreach : (b.system h).Reachable s) :
    (Spin.spinSystem .inlined .two 1).Reachable (barrierView s) := by
  refine invariant (P := fun s => (Spin.spinSystem .inlined .two 1).Reachable (barrierView s))
    ?_ ?_ ?_ hreach
  · intro s hinit
    refine .of_init ⟨hinit.2.1, fun i => ?_⟩
    show (s.threads i).barrier = .start
    rw [hinit.2.2 i]
    rfl
  · intro s who sh own _ hview hmove
    rcases hmove.barrier_step with ⟨hshared, hown⟩ | hrun
    · rwa [barrierView_move_eq hshared hown]
    · have hstep : (Spin.SPIN_BARRIER_LSENSE 1).next (barrierView s) (who, ()) =
          some ((barrierView s).move who sh.barrier own.barrier) := by
        rw [Program.next]
        exact congrArg (Option.map _) hrun
      rw [barrierView_move]
      exact hview.step hstep
  · intro s who i hview
    have hsame : barrierView (s.move who
        { s.shared with machine := i.onMachine who s.shared.machine }
        { s.threads who with kernel := { (s.threads who).kernel with
          activity := i.onSpinActivity (s.threads who).kernel.activity } }) = barrierView s :=
      barrierView_move_eq rfl rfl
    rwa [hsame]

end ThreadTest

end Htsynch
