/-
# The sleeper waits for the notifier

In the first part of a test program there is one notification and one sleep call. However
the two are ordered, the notification stays in the byte until the call takes it, and the
call does not return without one. The one thing this rests on is the byte itself: it must
not hold the notified value from the start. `mwmon_kernel_init` and opening the device see
to that; `thread_test_umon_unot.c` leaves its memory as `malloc` has returned it.
-/

import Htsynch.ThreadTest.Places

namespace Htsynch

open Foundations

/-- Iteration `k` of the first loop is over. -/
def TestPlace.Passed (k : ℕ) : TestPlace → Prop
  | .loop i => k < i
  | .asleep i => k < i
  | _ => True

/-- The sleep call has returned. -/
def Taken (t : TestThread) : Prop := t.place.Passed SLEEP_TIME

/-- The notification is out. -/
def Given (t : TestThread) : Prop := t.place.Passed NOTIFY_TIME

/-- What the first part is for. -/
structure HandshakeCorrect (s : Config TestId TestShared TestThread) : Prop where
  /-- The sleeper goes on only after the notifier has notified it. -/
  ordered : Taken (s.threads ta0) → Given (s.threads ta1)
  sleeper_message : ∀ m, (s.threads ta0).message = some m → m = .originalValue
  notifier_message : (s.threads ta1).message ≠ some .illegalValue

/-- A step gives the notification, takes it, resets the byte at the end of a call of the
second part, or does not concern the byte. -/
inductive ByteStep (b : ThreadTest) (c : TestId) (sh : TestShared) (t : TestThread)
    (sh' : TestShared) (t' : TestThread) : Prop
  | gives (hrole : c.val ≠ 0) (hgiven : Given t') (hmessage : t'.message = t.message)
      (hold : ¬ Given t) (hmem : sh'.machine.mem b.target = MWMON_NOTIFIED_VAL)
  | takes (hrole : c.val = 0) (hreset : t.kernel.activity = .asleep b.call .reset)
      (htaken : Taken t') (hmessage : t'.message = t.message)
      (huser : t'.kernel.activity = .user)
      (hmem : sh'.machine.mem b.target = MWMON_ORIGINAL_VAL)
  | resets (hrole : c.val = 0) (hold : Taken t) (htaken : Taken t')
      (hmessage : t'.message = t.message) (huser : t'.kernel.activity = .user)
      (hmem : sh'.machine.mem b.target = MWMON_ORIGINAL_VAL)
  | keeps (hmem : sh'.machine.mem b.target = sh.machine.mem b.target)
      (htaken : c.val = 0 → (Taken t' ↔ Taken t)) (hgiven : c.val ≠ 0 → (Given t' ↔ Given t))
      (hreset : t'.kernel.activity = .asleep b.call .reset →
        sh.machine.mem b.target = MWMON_NOTIFIED_VAL)
      (hmessage : t'.message = t.message ∨ Taken t ∧ Given t ∧
        t'.message = some (message (sh.machine.mem b.target)))

namespace ThreadTest

variable {b : ThreadTest}

theorem counts_cases (hcounts : b.counts = true) :
    ∃ version m, b = .kmonUnot (.v2_6_13_1 version) m := by
  cases b with
  | kmonKnot => cases hcounts
  | umonUnot => cases hcounts
  | kmonUnot kernel m =>
      cases kernel with
      | v2_6_13_1 version => exact ⟨version, m, rfl⟩
      | v2_6_24_2 => cases hcounts

section

variable (hcounts : b.counts = true)

include hcounts

theorem target_of_counts : b.target = b.ptrs.mwmonMmapArea := by
  obtain ⟨version, m, rfl⟩ := counts_cases hcounts
  rfl

/-- The long is not on the line of the byte. -/
theorem lint_ne_target {i : ℕ} (hi : i < 8) : b.ptrs.mwmonLintVarAddr + i ≠ b.target := by
  obtain ⟨version, m, rfl⟩ := counts_cases hcounts
  intro heq
  exact m.line_lint_ne .first hi (congrArg Lines.line heq)

/-- Nor is the second region. -/
theorem area2_ne_target : b.ptrs.mwmonMmapArea2 ≠ b.target := by
  obtain ⟨version, m, rfl⟩ := counts_cases hcounts
  have hne : Lines.line (Region.second.byte m.ptrs) ≠ Lines.line (Region.first.byte m.ptrs) :=
    m.line_byte_ne (by decide)
  exact fun heq => hne (congrArg Lines.line heq)

/-- A store of the long leaves the byte. -/
theorem storeLong_target {c : TestId} {v : BitVec 64} {h : Machine TestId} :
    (storeLong c b.ptrs.mwmonLintVarAddr v h).mem b.target = h.mem b.target := by
  rw [storeLong_mem, writeLong, if_neg]
  rintro ⟨hle, hlt⟩
  obtain ⟨i, hi⟩ := Nat.exists_eq_add_of_le hle
  rw [hi] at hlt
  exact lint_ne_target hcounts (Nat.add_lt_add_iff_left.mp hlt) hi.symm

end

end ThreadTest

namespace TestMove

variable {b : ThreadTest} {c : TestId} {sh sh' : TestShared} {t t' : TestThread}

/-- A step of a call. -/
theorem byteStep_of_call (hok : t.Ok b c) {i : ℕ} {back : TestPlace}
    {machine : Machine TestId} {kernel : SpinThread} (hrole : c.val = 0)
    (hplace : t.place = .asleep i ∧ back = .loop (i + 1) ∨
      t.place = .spinning i ∧ back = .second (i + 1))
    (hrun : CallRun b.kernel.version b.ptrs c sh.machine t.kernel machine kernel) :
    ByteStep b c sh t { sh with machine := machine }
      { t with kernel := kernel, place := if kernel.activity = .user then back else t.place } := by
  have hnot : c.val ≠ 0 → False := fun hne => hne hrole
  cases hrun with
  | sleeps call pc pc' h' hactivity hmove =>
      refine .keeps (congrFun (hmove.mem_eq rfl) _) (fun _ => ?_) (fun hne => (hnot hne).elim) ?_
        (.inl rfl)
      · rw [if_neg (by simp)]
        rfl
      · intro hreset
        obtain ⟨rfl, rfl⟩ := SpinActivity.asleep.inj hreset
        rw [← b.call_target]
        exact hmove.notified rfl
  | awakes call hactivity =>
      have hfits := hok.fits
      rw [hactivity] at hfits
      rcases hplace with ⟨hplace, rfl⟩ | ⟨hplace, rfl⟩
      · rw [hplace] at hfits
        cases hfits with
        | asleep =>
            refine .takes hrole hactivity ?_ rfl rfl ?_
            · exact Nat.lt_succ_self SLEEP_TIME
            · rw [← b.call_target]
              exact Hardware.store_mem_self
      · have hcounts := hok.counts (by rw [hplace]; exact Nat.succ_ne_zero 1)
        rw [hplace] at hfits
        cases hfits with
        | stray =>
            refine .keeps (Hardware.store_mem_of_ne (Ne.symm (b.area2_ne_target hcounts)))
              (fun _ => ?_) (fun hne => (hnot hne).elim) (fun hreset => ?_) (.inl rfl)
            · rw [if_pos rfl, Taken, Taken, hplace]
              exact Iff.rfl
            · cases hreset
  | spins cond place place' reads h' hactivity hrun =>
      refine .keeps (congrFun (hrun.mem_eq rfl) _) (fun _ => ?_) (fun hne => (hnot hne).elim) ?_
        (.inl rfl)
      · rw [if_neg (by simp)]
        rfl
      · intro hreset
        cases hreset
  | returns cond reads hactivity =>
      have hfits := hok.fits
      rw [hactivity] at hfits
      rcases hplace with ⟨hplace, rfl⟩ | ⟨hplace, rfl⟩
      · rw [hplace] at hfits
        cases hfits
      · have hcounts := hok.counts (by rw [hplace]; exact Nat.succ_ne_zero 1)
        refine .resets hrole ?_ ?_ rfl rfl ?_
        · rw [Taken, hplace]
          exact trivial
        · rw [if_pos rfl]
          exact trivial
        · rw [b.target_of_counts hcounts]
          exact Hardware.store_mem_self

/-- A step that only goes on in user space. -/
theorem byteStep_of_walk (hmem : sh'.machine.mem b.target = sh.machine.mem b.target)
    (htaken : c.val = 0 → (Taken t' ↔ Taken t)) (hgiven : c.val ≠ 0 → (Given t' ↔ Given t))
    (huser : t'.kernel.activity = .user) (hmessage : t'.message = t.message) :
    ByteStep b c sh t sh' t' := by
  refine .keeps hmem htaken hgiven (fun hreset => ?_) (.inl hmessage)
  rw [huser] at hreset
  cases hreset

/-- Every step. -/
theorem byteStep (hok : t.Ok b c) (hmove : TestMove b c sh t sh' t') :
    ByteStep b c sh t sh' t' := by
  have hlate {place place' : TestPlace} {k : ℕ} (h : place.Passed k) (h' : place'.Passed k) :
      place'.Passed k ↔ place.Passed k := iff_of_true h' h
  cases hmove with
  | turn i hplace hi hsleeps hnotifies =>
      have huser := hok.fits.user_of (by rw [hplace]; rfl)
      refine byteStep_of_walk rfl (fun hrole => ?_) (fun hrole => ?_) huser rfl
      · have hne := hsleeps hrole
        rw [Taken, Taken, hplace, TestThread.goto_place, TestPlace.Passed, TestPlace.Passed]
        omega
      · have hne := hnotifies hrole
        rw [Given, Given, hplace, TestThread.goto_place, TestPlace.Passed, TestPlace.Passed]
        omega
  | finish i hplace hi =>
      have huser := hok.fits.user_of (by rw [hplace]; rfl)
      have hafter (k : ℕ) : b.afterLoop.Passed k := by
        rcases b.afterLoop_cases with ⟨-, heq⟩ | heq <;> rw [heq] <;> exact trivial
      have hbefore (k : ℕ) (hk : k < END_TIME) : t.place.Passed k := by
        rw [hplace]
        exact hk.trans_le (not_lt.mp hi)
      exact byteStep_of_walk rfl (fun _ => hlate (hbefore _ (by decide)) (hafter _))
        (fun _ => hlate (hbefore _ (by decide)) (hafter _)) huser rfl
  | sleep hrole hplace =>
      refine .keeps rfl (fun _ => ?_) (fun hne => absurd hrole hne) (fun hreset => ?_) (.inl rfl)
      · rw [Taken, Taken, hplace]
        exact Iff.rfl
      · cases hreset
  | notify hrole hplace =>
      refine .gives hrole (Nat.lt_succ_self NOTIFY_TIME) rfl ?_ Hardware.store_mem_self
      rw [Given, hplace]
      exact Nat.lt_irrefl NOTIFY_TIME
  | look hplace =>
      have huser := hok.fits.user_of (by rw [hplace]; rfl)
      have hold (k : ℕ) : t.place.Passed k := by
        rw [hplace]
        exact trivial
      have hafter (k : ℕ) : b.afterLook.Passed k := by
        rcases b.afterLook_cases with ⟨-, heq⟩ | ⟨-, heq⟩ <;> rw [heq] <;> exact trivial
      refine .keeps rfl (fun _ => hlate (hold _) (hafter _)) (fun _ => hlate (hold _) (hafter _))
        (fun hreset => ?_) (.inr ⟨hold _, hold _, rfl⟩)
      rw [show t.kernel.activity = .user from huser] at hreset
      cases hreset
  | barrier next sb own hplace hnext =>
      have huser := hok.fits.user_of (by rw [hplace]; rfl)
      have hold (k : ℕ) : t.place.Passed k := by
        rw [hplace]
        exact trivial
      have hafter (k : ℕ) :
          (if own.pc = .outside then next else TestPlace.barrier).Passed k := by
        split
        · rcases hnext with ⟨-, rfl⟩ | ⟨-, rfl⟩ <;> exact trivial
        · exact trivial
      exact byteStep_of_walk rfl (fun _ => hlate (hold _) (hafter _))
        (fun _ => hlate (hold _) (hafter _)) huser rfl
  | spin i cond hrole hplace =>
      refine .keeps rfl (fun _ => ?_) (fun hne => absurd hrole hne) (fun hreset => ?_) (.inl rfl)
      · rw [Taken, Taken, hplace]
        exact Iff.rfl
      · cases hreset
  | stray i call hrole hplace =>
      refine .keeps rfl (fun _ => ?_) (fun hne => absurd hrole hne) (fun hreset => ?_) (.inl rfl)
      · rw [Taken, Taken, hplace]
        exact Iff.rfl
      · cases hreset
  | call i back machine kernel hrole hplace hrun =>
      exact byteStep_of_call hok hrole hplace (callRun_of_step hrun)
  | leave i hrole hplace =>
      have huser := hok.fits.user_of (by rw [hplace]; rfl)
      refine byteStep_of_walk rfl (fun _ => ?_) (fun hne => absurd hrole hne) huser rfl
      rw [Taken, Taken, hplace]
      exact Iff.rfl
  | clear hrole hplace =>
      have huser := hok.fits.user_of (by rw [hplace]; rfl)
      have hcounts := hok.counts (by rw [hplace]; exact Nat.succ_ne_zero 1)
      refine byteStep_of_walk (b.storeLong_target hcounts) (fun heq => absurd heq hrole)
        (fun _ => ?_) huser rfl
      rw [Given, Given, hplace]
      exact Iff.rfl
  | test hrole hplace =>
      have huser := hok.fits.user_of (by rw [hplace]; rfl)
      refine byteStep_of_walk rfl (fun heq => absurd heq hrole) (fun _ => ?_) huser rfl
      rw [Given, Given, hplace, TestThread.goto_place]
      split <;> exact Iff.rfl
  | print hrole hplace =>
      have huser := hok.fits.user_of (by rw [hplace]; rfl)
      refine byteStep_of_walk rfl (fun heq => absurd heq hrole) (fun _ => ?_) huser rfl
      rw [Given, Given, hplace]
      exact Iff.rfl
  | load hrole hplace =>
      have huser := hok.fits.user_of (by rw [hplace]; rfl)
      refine byteStep_of_walk rfl (fun heq => absurd heq hrole) (fun _ => ?_) huser rfl
      rw [Given, Given, hplace]
      exact Iff.rfl
  | store v hrole hplace =>
      have huser := hok.fits.user_of (by rw [hplace]; rfl)
      have hcounts := hok.counts (by rw [hplace]; exact Nat.succ_ne_zero 1)
      refine byteStep_of_walk (b.storeLong_target hcounts) (fun heq => absurd heq hrole)
        (fun _ => ?_) huser rfl
      rw [Given, Given, hplace]
      exact Iff.rfl

end TestMove

theorem Interrupt.onSpinActivity_eq_reset {i : Interrupt} {activity : SpinActivity}
    {call : SleepCall} (h : i.onSpinActivity activity = .asleep call .reset) :
    activity = .asleep call .reset := by
  rcases i.onSpinActivity_cases activity with hsame | ⟨_, -, hwake⟩ | ⟨_, _, -, -, htest⟩
  · exact hsame.symm.trans h
  · cases hwake.symm.trans h
  · cases htest.symm.trans h

theorem message_ne_illegalValue {v : Byte}
    (h : v = MWMON_ORIGINAL_VAL ∨ v = MWMON_NOTIFIED_VAL) :
    message v ≠ .illegalValue := by
  rcases h with rfl | rfl <;> decide

/-- From the notification to the return of the call the byte holds the notified value, and
nowhere else, unless it held it from the start. -/
structure ByteInv (b : ThreadTest) (h : Machine TestId)
    (s : Config TestId TestShared TestThread) : Prop where
  waiting : Given (s.threads ta1) → ¬ Taken (s.threads ta0) →
    s.shared.machine.mem b.target = MWMON_NOTIFIED_VAL
  legal : Taken (s.threads ta0) ∨ Given (s.threads ta1) →
    s.shared.machine.mem b.target = MWMON_ORIGINAL_VAL ∨
      s.shared.machine.mem b.target = MWMON_NOTIFIED_VAL
  noticed : (s.threads ta0).kernel.activity = .asleep b.call .reset →
    s.shared.machine.mem b.target = MWMON_NOTIFIED_VAL
  silent : h.mem b.target ≠ MWMON_NOTIFIED_VAL → ¬ Given (s.threads ta1) →
    ¬ Taken (s.threads ta0) ∧ s.shared.machine.mem b.target ≠ MWMON_NOTIFIED_VAL
  taken : h.mem b.target ≠ MWMON_NOTIFIED_VAL → Taken (s.threads ta0) →
    s.shared.machine.mem b.target = MWMON_ORIGINAL_VAL
  messages : ∀ i, (s.threads i).message ≠ some .illegalValue
  original : h.mem b.target ≠ MWMON_NOTIFIED_VAL →
    ∀ m, (s.threads ta0).message = some m → m = .originalValue

namespace ByteInv

open ThreadTest

variable {b : ThreadTest} {h : Machine TestId} {s : Config TestId TestShared TestThread}
  {c : TestId} {sh : TestShared} {own : TestThread}

theorem of_init (hinit : init h s) : ByteInv b h s := by
  have hstart (i : TestId) : s.threads i = .start := hinit.2.2 i
  have hnot (k : ℕ) (i : TestId) : ¬ (s.threads i).place.Passed k := by
    rw [hstart i]
    exact Nat.not_lt_zero k
  exact
    { waiting := fun hgiven => absurd hgiven (hnot _ ta1)
      legal := fun hor => hor.elim (absurd · (hnot _ ta0)) (absurd · (hnot _ ta1))
      noticed := fun hreset => by
        rw [hstart ta0] at hreset
        cases hreset
      silent := fun hbyte _ => ⟨hnot _ ta0, by rwa [hinit.1]⟩
      taken := fun _ htaken => absurd htaken (hnot _ ta0)
      messages := fun i => by
        rw [hstart i]
        exact Option.some_ne_none _ |>.symm
      original := fun _ m hm => by
        rw [hstart ta0] at hm
        cases hm }

/-- A step that does not concern the byte. -/
theorem keeps (hinv : ByteInv b h s)
    (hmem : sh.machine.mem b.target = s.shared.machine.mem b.target)
    (htaken : c.val = 0 → (Taken own ↔ Taken (s.threads c)))
    (hgiven : c.val ≠ 0 → (Given own ↔ Given (s.threads c)))
    (hreset : c.val = 0 → own.kernel.activity = .asleep b.call .reset →
      s.shared.machine.mem b.target = MWMON_NOTIFIED_VAL)
    (hmessage : own.message = (s.threads c).message ∨
      Taken (s.threads c) ∧ Given (s.threads c) ∧
        own.message = some (message (s.shared.machine.mem b.target))) :
    ByteInv b h (s.move c sh own) := by
  have hT : Taken ((s.move c sh own).threads ta0) ↔ Taken (s.threads ta0) :=
    Config.move_cases (motive := fun t : TestThread => Taken t ↔ Taken (s.threads ta0)) ta0
      (fun heq => heq ▸ htaken (congrArg Fin.val heq.symm)) (fun _ => Iff.rfl)
  have hG : Given ((s.move c sh own).threads ta1) ↔ Given (s.threads ta1) :=
    Config.move_cases (motive := fun t : TestThread => Given t ↔ Given (s.threads ta1)) ta1
      (fun heq => heq ▸ hgiven (fun hzero => ta0_ne_ta1 ((eq_ta0 hzero).symm.trans heq.symm)))
      (fun _ => Iff.rfl)
  have hlegal (hboth : Taken (s.threads c) ∧ Given (s.threads c)) :
      message (s.shared.machine.mem b.target) ≠ .illegalValue := by
    refine message_ne_illegalValue (hinv.legal ?_)
    rcases eq_ta0_or_ta1 c with rfl | rfl
    · exact .inl hboth.1
    · exact .inr hboth.2
  refine ⟨?_, ?_, ?_, ?_, ?_, fun i => ?_, fun hbyte => ?_⟩
  · rw [hT, hG, Config.move_shared, hmem]
    exact hinv.waiting
  · rw [hT, hG, Config.move_shared, hmem]
    exact hinv.legal
  · rw [Config.move_shared, hmem]
    exact Config.move_cases
      (motive := fun t : TestThread => t.kernel.activity = .asleep b.call .reset →
        s.shared.machine.mem b.target = MWMON_NOTIFIED_VAL) ta0
      (fun heq => hreset (congrArg Fin.val heq.symm)) (fun _ => hinv.noticed)
  · rw [hT, hG, Config.move_shared, hmem]
    exact hinv.silent
  · rw [hT, Config.move_shared, hmem]
    exact hinv.taken
  · refine Config.move_cases (motive := fun t : TestThread => t.message ≠ some .illegalValue) i
      (fun _ => ?_) (fun _ => hinv.messages i)
    rcases hmessage with hsame | ⟨htaken, hgiven, hnew⟩
    · rw [hsame]
      exact hinv.messages c
    · rw [hnew]
      exact fun heq => hlegal ⟨htaken, hgiven⟩ (Option.some.inj heq)
  · refine Config.move_cases
      (motive := fun t : TestThread => ∀ m, t.message = some m → m = .originalValue) ta0
      (fun heq m hm => ?_) (fun _ => hinv.original hbyte)
    subst heq
    rcases hmessage with hsame | ⟨htaken, -, hnew⟩
    · exact hinv.original hbyte m (hsame.symm.trans hm)
    · rw [hnew, hinv.taken hbyte htaken] at hm
      exact (Option.some.inj hm).symm

/-- A step in which the sleeper puts back the original value. -/
theorem restores (hinv : ByteInv b h s) (hrole : c.val = 0)
    (hgiven : h.mem b.target ≠ MWMON_NOTIFIED_VAL → Given (s.threads ta1)) (htaken : Taken own)
    (hmessage : own.message = (s.threads c).message) (huser : own.kernel.activity = .user)
    (hmem : sh.machine.mem b.target = MWMON_ORIGINAL_VAL) : ByteInv b h (s.move c sh own) := by
  obtain rfl := eq_ta0 hrole
  have hT : Taken ((s.move ta0 sh own).threads ta0) := by
    rwa [Config.move_threads_self]
  have hother : (s.move ta0 sh own).threads ta1 = s.threads ta1 :=
    Config.move_threads_of_ne ta0_ne_ta1.symm
  refine ⟨fun _ hnot => absurd hT hnot, fun _ => .inl hmem, fun hreset => ?_,
    fun hbyte hnot => absurd (hother ▸ hgiven hbyte) hnot, fun _ _ => hmem,
    fun i => ?_, fun hbyte => ?_⟩
  · rw [Config.move_threads_self, huser] at hreset
    cases hreset
  · refine Config.move_cases (motive := fun t : TestThread => t.message ≠ some .illegalValue) i
      (fun _ => ?_) (fun _ => hinv.messages i)
    rw [hmessage]
    exact hinv.messages ta0
  · rw [Config.move_threads_self, hmessage]
    exact hinv.original hbyte

theorem step (hinv : ByteInv b h s)
    (hstep : ByteStep b c s.shared (s.threads c) sh own) : ByteInv b h (s.move c sh own) := by
  cases hstep with
  | gives hrole hgiven hmessage hold hmem =>
      obtain rfl := eq_ta1 hrole
      have hother : (s.move ta1 sh own).threads ta0 = s.threads ta0 :=
        Config.move_threads_of_ne ta0_ne_ta1
      have hnew : Given ((s.move ta1 sh own).threads ta1) := by
        rwa [Config.move_threads_self]
      refine ⟨fun _ _ => hmem, fun _ => .inr hmem, fun _ => hmem,
        fun _ hnot => absurd hnew hnot, fun hbyte htaken => ?_, fun i => ?_, ?_⟩
      · rw [hother] at htaken
        exact absurd htaken (hinv.silent hbyte hold).1
      · refine Config.move_cases (motive := fun t : TestThread => t.message ≠ some .illegalValue) i
          (fun _ => ?_) (fun _ => hinv.messages i)
        rw [hmessage]
        exact hinv.messages ta1
      · rw [hother]
        exact hinv.original
  | takes hrole hreset htaken hmessage huser hmem =>
      refine hinv.restores hrole (fun hbyte => ?_) htaken hmessage huser hmem
      obtain rfl := eq_ta0 hrole
      by_contra hnot
      exact (hinv.silent hbyte hnot).2 (hinv.noticed hreset)
  | resets hrole hold htaken hmessage huser hmem =>
      refine hinv.restores hrole (fun hbyte => ?_) htaken hmessage huser hmem
      obtain rfl := eq_ta0 hrole
      by_contra hnot
      exact (hinv.silent hbyte hnot).1 hold
  | keeps hmem htaken hgiven hreset hmessage =>
      exact hinv.keeps hmem htaken hgiven (fun _ => hreset) hmessage

end ByteInv

/-- What one step of a loop establishes and every step keeps holds behind the loop. -/
theorem foldl_establishes {α σ : Type} {P : σ → Prop} {f : σ → α → σ} {a : α}
    (hkeep : ∀ s b, P s → P (f s b)) (hset : ∀ s, P (f s a)) :
    ∀ {l : List α} (s : σ), a ∈ l → P (l.foldl f s) := by
  intro l
  induction l with
  | nil => exact fun s hmem => absurd hmem List.not_mem_nil
  | cons b l ih =>
      intro s hmem
      rcases List.mem_cons.mp hmem with rfl | hmem
      · exact List.foldlRecOn l f (hset s) fun s hs b _ => hkeep s b hs
      · exact ih _ hmem

namespace ThreadTest

variable {b : ThreadTest} {c : TestId} {h : Machine TestId}
  {s : Config TestId TestShared TestThread}

/-- Of the three programs two prepare the byte. -/
theorem main_target (c : TestId) (h : Machine TestId)
    (hprepares : ∀ version ptrs mwmonMemory, b ≠ .umonUnot version ptrs mwmonMemory) :
    (b.main c h).mem b.target = MWMON_ORIGINAL_VAL := by
  have hset (a : Addr) (h : Machine TestId) :
      (h.store c (a + 0) MWMON_ORIGINAL_VAL).mem a = MWMON_ORIGINAL_VAL :=
    Hardware.store_mem_self
  have hkeep (a a' : Addr) (h : Machine TestId) (hmem : h.mem a = MWMON_ORIGINAL_VAL) :
      (h.store c a' MWMON_ORIGINAL_VAL).mem a = MWMON_ORIGINAL_VAL := by
    by_cases ha : a = a'
    · subst ha
      exact Hardware.store_mem_self
    · rwa [Hardware.store_mem_of_ne ha]
  cases b with
  | kmonKnot version ptrs =>
      exact foldl_establishes (P := fun h => h.mem ptrs.mwmonKernelMemory = MWMON_ORIGINAL_VAL)
        (fun h i => hkeep _ _ h) (hset _) h
        (List.mem_range.mpr (show 0 < 64 by decide))
  | umonUnot version ptrs mwmonMemory => exact absurd rfl (hprepares version ptrs mwmonMemory)
  | kmonUnot kernel m =>
      have hfill (i : Fin 10) (h : Machine TestId) :
          KernelState.fillBytes c m.ptrs h i =
            (h.store c (m.ptrs.mwmonMmapArea + i) MWMON_ORIGINAL_VAL).store c
              (m.ptrs.mwmonMmapArea2 + i) MWMON_ORIGINAL_VAL := rfl
      have hloop : ((List.finRange 10).foldl (KernelState.fillBytes c m.ptrs) h).mem
          m.ptrs.mwmonMmapArea = MWMON_ORIGINAL_VAL := by
        refine foldl_establishes
          (P := fun h : Machine TestId => h.mem m.ptrs.mwmonMmapArea = MWMON_ORIGINAL_VAL)
          (fun h i hmem => ?_) (fun h => ?_) h (List.mem_finRange (0 : Fin 10))
        · rw [hfill]
          exact hkeep _ _ _ (hkeep _ _ h hmem)
        · rw [hfill]
          exact hkeep _ _ _ (hset m.ptrs.mwmonMmapArea h)
      exact hloop

/-- If the byte is notified from the start, the sleeper gets past its call alone. -/
theorem solo_sleeper (hbyte : h.mem b.target = MWMON_NOTIFIED_VAL) (sb : Spin.SpinBarrier) :
    b.thread.solo ta0 (List.replicate 11 none) (⟨h, sb⟩, .start) =
      some (⟨(h.monitor ta0 b.target).store ta0 b.target MWMON_ORIGINAL_VAL, sb⟩,
        TestThread.start.goto (.loop (SLEEP_TIME + 1))) := by
  simp [Program.solo, List.replicate, thread, ta0, sleeper, END_TIME, SLEEP_TIME, enter,
    sleepCall_eq, inKernel, inCall, spinThread, SleepCall.run_eq, call_target, mwmonSleep, hbyte,
    TestThread.start, TestThread.goto]

theorem byteInv_of_reachable (hreach : (b.system h).Reachable s) : ByteInv b h s := by
  refine invariant (P := ByteInv b h) ?_ ?_ ?_ hreach
  · exact fun s hinit => .of_init hinit
  · exact fun s who sh own hreach hinv hmove =>
      hinv.step (hmove.byteStep (threads_ok hreach who))
  · intro s who i hinv
    refine hinv.keeps (congrFun Interrupt.onMachine_mem _) (fun _ => Iff.rfl) (fun _ => Iff.rfl)
      (fun hrole hreset => ?_) (.inl rfl)
    obtain rfl := eq_ta0 hrole
    exact hinv.noticed (Interrupt.onSpinActivity_eq_reset hreset)

end ThreadTest

/-- The first part of a test program works, however the threads are scheduled and
interrupted, except where the memory of `thread_test_umon_unot.c` happens to hold the
notified value when `malloc` returns it. -/
theorem threadTest_handshake_iff (b : ThreadTest) (c : TestId) (h : Machine TestId) :
    (∀ s, (b.system (b.main c h)).Reachable s → HandshakeCorrect s) ↔
      ∀ version ptrs mwmonMemory, b = .umonUnot version ptrs mwmonMemory →
        h.mem mwmonMemory.toNat ≠ MWMON_NOTIFIED_VAL := by
  constructor
  case mp =>
    rintro hcorrect version ptrs mwmonMemory rfl hbyte
    have hinit : (ThreadTest.system (.umonUnot version ptrs mwmonMemory) h).Reachable
        ⟨⟨h, Spin.spinBarrierInit ⟨0, 0, 0, 0⟩ ThreadCount.two.word⟩, fun _ => .start⟩ :=
      .of_init ⟨rfl, ⟨_, rfl⟩, fun _ => rfl⟩
    have hpast := Program.reachable_solo _ hinit (ThreadTest.solo_sleeper hbyte _)
    have hgiven := (hcorrect _ hpast).ordered (by
      rw [Config.move_threads_self]
      exact Nat.lt_succ_self SLEEP_TIME)
    rw [Config.move_threads_of_ne ThreadTest.ta0_ne_ta1.symm] at hgiven
    exact Nat.not_lt_zero NOTIFY_TIME hgiven
  case mpr =>
    intro hfresh s hreach
    have hinv := ThreadTest.byteInv_of_reachable hreach
    have hbyte : (b.main c h).mem b.target ≠ MWMON_NOTIFIED_VAL := by
      by_cases hprepares : ∀ version ptrs mwmonMemory, b ≠ .umonUnot version ptrs mwmonMemory
      · rw [ThreadTest.main_target c h hprepares]
        decide
      · simp only [not_forall, not_not] at hprepares
        obtain ⟨version, ptrs, mwmonMemory, rfl⟩ := hprepares
        exact hfresh version ptrs mwmonMemory rfl
    exact
      { ordered := fun htaken => by_contra fun hnot => (hinv.silent hbyte hnot).1 htaken
        sleeper_message := hinv.original hbyte
        notifier_message := hinv.messages ta1 }

end Htsynch
