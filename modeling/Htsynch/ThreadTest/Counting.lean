/-
# The sleeper follows the notifier's count

In the second part of `thread_test_kmon_unot.c` the notifier counts in the long of the
page, and the sleeper waits for the numbers from ten on. The long belongs to the notifier
alone, but it is the notifier that sets it to zero, behind the barrier, and nothing sets it
to zero before. Whatever the long holds when the threads are started the sleeper may take
for the count.
-/

import Htsynch.ThreadTest.Handshake

namespace Htsynch

open Foundations

/-- The numbers that the notifier prints. -/
def numbers (k : ℕ) : List (BitVec 64) := (List.range k).map (BitVec.ofNat 64)

theorem numbers_succ (k : ℕ) : numbers (k + 1) = numbers k ++ [BitVec.ofNat 64 k] := by
  rw [numbers, List.range_succ, List.map_append]
  rfl

@[simp]
theorem numbers_length (k : ℕ) : (numbers k).length = k := by
  rw [numbers, List.length_map, List.length_range]

/-- A small number is itself as a `long int`. -/
theorem toInt_number {k : ℕ} (hk : k ≤ 20) : (BitVec.ofNat 64 k).toInt = k := by
  rw [BitVec.toInt_ofNat', Int.bmod_eq_of_le]
  · omega
  · omega

/-- The conditions that the sleeper waits for. -/
def conditions (k : ℕ) : List (BitVec 64) := (List.range k).map fun i => BitVec.ofNat 64 (10 + i)

theorem conditions_succ (k : ℕ) :
    conditions (k + 1) = conditions k ++ [BitVec.ofNat 64 (10 + k)] := by
  rw [conditions, List.range_succ, List.map_append]
  rfl

/-- How many of its calls have returned to the sleeper. -/
def TestPlace.polled : TestPlace → ℕ
  | .second i => i - 10
  | .spinning i => i - 10
  | .exited => 10
  | _ => 0

/-- What a thread stores to the long. -/
def TestPlace.stored : TestPlace → Option (BitVec 64)
  | .clear => some 0
  | .store v => some v
  | _ => none

/-- How far the notifier is in the second part: what it has printed and what the long
holds, when it has held `old` before. -/
inductive Counted (counts : Bool) (old long : BitVec 64) (printed : List (BitVec 64)) :
    TestPlace → Prop
  | before (place : TestPlace) (hearly : place.stage counts ≤ 1 ∨ place = .clear)
      (hlong : long = old) (hprinted : printed = []) : Counted counts old long printed place
  | test (k : ℕ) (hk : k ≤ 20) (hlong : long = BitVec.ofNat 64 k)
      (hprinted : printed = numbers k) : Counted counts old long printed .test
  | print (k : ℕ) (hk : k < 20) (hlong : long = BitVec.ofNat 64 k)
      (hprinted : printed = numbers k) : Counted counts old long printed .print
  | load (k : ℕ) (hk : k < 20) (hlong : long = BitVec.ofNat 64 k)
      (hprinted : printed = numbers (k + 1)) : Counted counts old long printed .load
  | store (k : ℕ) (hk : k < 20) (hlong : long = BitVec.ofNat 64 k)
      (hprinted : printed = numbers (k + 1)) :
      Counted counts old long printed (.store (BitVec.ofNat 64 (k + 1)))
  | done (hlong : long = BitVec.ofNat 64 20) (hprinted : printed = numbers 20) :
      Counted counts old long printed .exited

theorem TestPlace.not_early {counts : Bool} {place : TestPlace} (hstage : place.stage counts = 2)
    (hclear : place ≠ .clear) : ¬ (place.stage counts ≤ 1 ∨ place = .clear) := by
  rintro (hle | heq)
  · rw [hstage] at hle
    exact Nat.not_succ_le_self 1 hle
  · exact hclear heq

namespace Counted

variable {counts : Bool} {old long : BitVec 64} {printed : List (BitVec 64)} {place : TestPlace}

/-- Before the second part nothing is printed, and the long is as it was. -/
theorem of_early (h : Counted counts old long printed place) (hcounts : counts = true)
    (hstage : place.stage counts ≤ 1) : long = old ∧ printed = [] := by
  subst hcounts
  cases h with
  | before _ _ hlong hprinted => exact ⟨hlong, hprinted⟩
  | _ => exact absurd hstage (show ¬ 2 ≤ 1 by decide)

/-- The printed numbers are those from zero on. -/
theorem printed_eq (h : Counted counts old long printed place) :
    printed = numbers printed.length ∧ printed.length ≤ 20 := by
  have hof {k : ℕ} (hprinted : printed = numbers k) (hk : k ≤ 20) :
      printed = numbers printed.length ∧ printed.length ≤ 20 := by
    subst hprinted
    rw [numbers_length]
    exact ⟨rfl, hk⟩
  cases h with
  | before _ _ _ hprinted => exact hof (k := 0) hprinted (Nat.zero_le _)
  | test k hk _ hprinted => exact hof hprinted hk
  | print k hk _ hprinted => exact hof hprinted hk.le
  | load k hk _ hprinted => exact hof hprinted hk
  | store k hk _ hprinted => exact hof hprinted hk
  | done _ hprinted => exact hof hprinted le_rfl

/-- The long is not ahead of what is printed, once it has been set to zero. -/
theorem long_le (h : Counted counts old long printed place) :
    long = old ∨ long.toInt ≤ printed.length := by
  have hof {k n : ℕ} (hlong : long = BitVec.ofNat 64 k) (hprinted : printed = numbers n)
      (hk : k ≤ n) (hn : n ≤ 20) : long.toInt ≤ printed.length := by
    rw [hlong, hprinted, numbers_length, toInt_number (hk.trans hn)]
    exact Int.ofNat_le.mpr hk
  cases h with
  | before _ _ hlong _ => exact .inl hlong
  | test k hk hlong hprinted => exact .inr (hof hlong hprinted le_rfl hk)
  | print k hk hlong hprinted => exact .inr (hof hlong hprinted le_rfl hk.le)
  | load k hk hlong hprinted => exact .inr (hof hlong hprinted (Nat.le_succ k) hk)
  | store k hk hlong hprinted => exact .inr (hof hlong hprinted (Nat.le_succ k) hk)
  | done hlong hprinted => exact .inr (hof hlong hprinted le_rfl le_rfl)

end Counted

namespace ThreadTest

variable {b : ThreadTest} (hcounts : b.counts = true)

include hcounts

/-- The long is not on the line of the second region either. -/
theorem lint_ne_area2 {i : ℕ} (hi : i < 8) :
    b.ptrs.mwmonLintVarAddr + i ≠ b.ptrs.mwmonMmapArea2 := by
  obtain ⟨version, m, rfl⟩ := counts_cases hcounts
  intro heq
  exact m.line_lint_ne .second hi (congrArg Lines.line heq)

/-- Storing a byte of a region leaves the long. -/
theorem readLong_store {c : TestId} {a : Addr} {v : Byte} {h : Machine TestId}
    (ha : a = b.target ∨ a = b.ptrs.mwmonMmapArea2) :
    readLong (h.store c a v).mem b.ptrs.mwmonLintVarAddr =
      readLong h.mem b.ptrs.mwmonLintVarAddr := by
  refine readLong_congr fun i hi => Hardware.store_mem_of_ne ?_
  rcases ha with rfl | rfl
  · exact lint_ne_target hcounts hi
  · exact lint_ne_area2 hcounts hi

end ThreadTest

namespace TestMove

variable {b : ThreadTest} {c : TestId} {sh sh' : TestShared} {t t' : TestThread}

/-- Only the two stores of the notifier change the long. -/
theorem long_eq (hcounts : b.counts = true) (hok : t.Ok b c)
    (hmove : TestMove b c sh t sh' t') :
    readLong sh'.machine.mem b.ptrs.mwmonLintVarAddr =
      t.place.stored.getD (readLong sh.machine.mem b.ptrs.mwmonLintVarAddr) := by
  cases hmove with
  | notify hrole hplace =>
      rw [hplace]
      exact b.readLong_store hcounts (.inl rfl)
  | clear hrole hplace =>
      rw [hplace, storeLong_mem, readLong_writeLong]
      rfl
  | store v hrole hplace =>
      rw [hplace, storeLong_mem, readLong_writeLong]
      rfl
  | call i back machine kernel hrole hplace hrun =>
      have hstored : t.place.stored = none := by
        rcases hplace with ⟨hplace, -⟩ | ⟨hplace, -⟩ <;> rw [hplace] <;> rfl
      rw [hstored]
      cases callRun_of_step hrun with
      | sleeps call pc pc' h' hactivity hsleep => rw [hsleep.mem_eq rfl]; rfl
      | spins cond place place' reads h' hactivity hspin => rw [hspin.mem_eq rfl]; rfl
      | returns cond reads hactivity =>
          exact b.readLong_store hcounts (.inl (b.target_of_counts hcounts).symm)
      | awakes call hactivity =>
          refine b.readLong_store hcounts ?_
          have hfits := hok.fits
          rw [hactivity] at hfits
          rcases hplace with ⟨hplace, -⟩ | ⟨hplace, -⟩
          · rw [hplace] at hfits
            cases hfits with
            | asleep => exact .inl b.call_target
          · rw [hplace] at hfits
            cases hfits with
            | stray => exact .inr rfl
  | turn i hplace => rw [hplace]; rfl
  | finish i hplace => rw [hplace]; rfl
  | sleep hrole hplace => rw [hplace]; rfl
  | look hplace => rw [hplace]; rfl
  | barrier next sb own hplace => rw [hplace]; rfl
  | spin i cond hrole hplace => rw [hplace]; rfl
  | stray i call hrole hplace => rw [hplace]; rfl
  | leave i hrole hplace => rw [hplace]; rfl
  | test hrole hplace => rw [hplace]; rfl
  | print hrole hplace => rw [hplace]; rfl
  | load hrole hplace => rw [hplace]; rfl

/-- The sleeper stores nothing to it. -/
theorem stored_of_sleeper (hok : t.Ok b c) (hrole : c.val = 0) : t.place.stored = none := by
  have hof := hok.place_of
  cases hplace : t.place with
  | clear => rw [hplace] at hof; exact absurd hrole hof
  | store v => rw [hplace] at hof; exact absurd hrole hof
  | _ => rfl

theorem stored_of_early {place : TestPlace} {counts : Bool} (hstage : place.stage counts ≤ 1) :
    place.stored = none := by
  cases place with
  | clear => exact absurd hstage (show ¬ 2 ≤ 1 by decide)
  | store v => exact absurd hstage (show ¬ 2 ≤ 1 by decide)
  | _ => rfl

/-- The notifier goes on counting. -/
theorem counted (hcounts : b.counts = true) (hrole : c.val ≠ 0) (hok : t.Ok b c) {old : BitVec 64}
    (hcounted : Counted b.counts old (readLong sh.machine.mem b.ptrs.mwmonLintVarAddr) t.printed
      t.place)
    (hmove : TestMove b c sh t sh' t') :
    Counted b.counts old (readLong sh'.machine.mem b.ptrs.mwmonLintVarAddr) t'.printed
      t'.place := by
  have hlong := hmove.long_eq hcounts hok
  have hearly (hstage : t.place.stage b.counts ≤ 1)
      (hnext : t'.place.stage b.counts ≤ 1 ∨ t'.place = .clear)
      (hprinted : t'.printed = t.printed) :
      Counted b.counts old (readLong sh'.machine.mem b.ptrs.mwmonLintVarAddr) t'.printed
        t'.place := by
    obtain ⟨hold, hnone⟩ := hcounted.of_early hcounts hstage
    refine .before _ hnext ?_ (hprinted.trans hnone)
    rw [hlong, stored_of_early hstage]
    exact hold
  cases hmove with
  | turn i hplace => exact hearly (by rw [hplace]; exact Nat.zero_le 1) (.inl (Nat.zero_le 1)) rfl
  | finish i hplace =>
      refine hearly (by rw [hplace]; exact Nat.zero_le 1) (.inl ?_) rfl
      rw [TestThread.goto_place, b.afterLoop_stage]
      exact Nat.zero_le 1
  | notify _ hplace =>
      exact hearly (by rw [hplace]; exact Nat.zero_le 1) (.inl (Nat.zero_le 1)) rfl
  | look hplace =>
      refine hearly (by rw [hplace]; exact Nat.zero_le 1) (.inl ?_) rfl
      rcases b.afterLook_cases with ⟨-, heq⟩ | ⟨hnot, -⟩
      · rw [heq]
        exact le_rfl
      · exact absurd (hcounts.symm.trans hnot) Bool.noConfusion
  | barrier next sb own hplace hnext hrun =>
      refine hearly (by rw [hplace]; exact le_rfl) ?_ rfl
      show (if own.pc = .outside then next else TestPlace.barrier).stage b.counts ≤ 1 ∨
        (if own.pc = .outside then next else TestPlace.barrier) = .clear
      split
      · exact .inr ((hnext.resolve_left fun hzero => hrole hzero.1).2)
      · exact .inl le_rfl
  | clear _ hplace =>
      rw [hplace] at hcounted hlong
      have hprinted : t.printed = [] := by
        cases hcounted with
        | before _ _ _ hprinted => exact hprinted
      exact .test 0 (Nat.zero_le 20) hlong hprinted
  | test _ hplace =>
      rw [hplace] at hcounted
      cases hcounted with
      | before _ hstage =>
          exact absurd hstage (TestPlace.not_early rfl fun hclear => TestPlace.noConfusion hclear)
      | test k hk hold hprinted =>
          have hslt : (readLong sh.machine.mem b.ptrs.mwmonLintVarAddr).slt 20 = true ↔ k < 20 := by
            rw [hold, BitVec.slt_eq_decide, toInt_number hk, decide_eq_true_eq]
            exact Int.ofNat_lt
          rw [TestThread.goto_place]
          by_cases hless : k < 20
          · rw [if_pos (hslt.mpr hless)]
            exact .print k hless hold hprinted
          · obtain rfl : k = 20 := le_antisymm hk (not_lt.mp hless)
            rw [if_neg (mt hslt.mp hless)]
            exact .done hold hprinted
  | print _ hplace =>
      rw [hplace] at hcounted
      cases hcounted with
      | before _ hstage =>
          exact absurd hstage (TestPlace.not_early rfl fun hclear => TestPlace.noConfusion hclear)
      | print k hk hold hprinted =>
          refine .load k hk hold ?_
          rw [hprinted, hold, numbers_succ]
  | load _ hplace =>
      rw [hplace] at hcounted
      cases hcounted with
      | before _ hstage =>
          exact absurd hstage (TestPlace.not_early rfl fun hclear => TestPlace.noConfusion hclear)
      | load k hk hold hprinted =>
          have hnext : readLong sh.machine.mem b.ptrs.mwmonLintVarAddr + 1 =
              BitVec.ofNat 64 (k + 1) := by
            rw [hold, BitVec.ofNat_add]
            rfl
          rw [TestThread.goto_place, hnext]
          exact .store k hk hold hprinted
  | store v _ hplace =>
      rw [hplace] at hcounted hlong
      cases hcounted with
      | before _ hstage =>
          exact absurd hstage (TestPlace.not_early rfl fun hclear => TestPlace.noConfusion hclear)
      | store k hk hold hprinted => exact .test (k + 1) hk hlong hprinted
  | sleep hzero => exact absurd hzero hrole
  | spin i cond hzero => exact absurd hzero hrole
  | stray i call hzero => exact absurd hzero hrole
  | call i back machine kernel hzero => exact absurd hzero hrole
  | leave i hzero => exact absurd hzero hrole

/-! ## What the sleeper waits for -/

/-- The sleeper makes its calls one after the other. -/
theorem polled (hcounts : b.counts = true) (hmatch : b.CallsMatch) (hok : t.Ok b c)
    (hpolled : t.kernel.returns.map SpinReturn.localCondition = conditions t.place.polled)
    (hrole : c.val = 0) (hmove : TestMove b c sh t sh' t') :
    t'.kernel.returns.map SpinReturn.localCondition = conditions t'.place.polled := by
  cases hmove with
  | turn i hplace =>
      rw [hplace] at hpolled
      exact hpolled
  | finish i hplace =>
      rw [hplace] at hpolled
      have hstage := b.afterLoop_stage
      rcases b.afterLoop_cases with ⟨-, heq⟩ | heq
      · rw [TestThread.goto_place, heq]
        exact hpolled
      · rw [heq, hcounts] at hstage
        exact absurd hstage (Nat.succ_ne_zero 1)
  | sleep _ hplace =>
      rw [hplace] at hpolled
      exact hpolled
  | look hplace =>
      rw [hplace] at hpolled
      rcases b.afterLook_cases with ⟨-, heq⟩ | ⟨hnot, -⟩
      · rw [heq]
        exact hpolled
      · exact absurd (hcounts.symm.trans hnot) Bool.noConfusion
  | barrier next sb own hplace hnext hrun =>
      rw [hplace] at hpolled
      obtain ⟨-, rfl⟩ := hnext.resolve_right fun hne => hne.1 hrole
      show t.kernel.returns.map SpinReturn.localCondition =
        conditions (if own.pc = .outside then TestPlace.second 10 else .barrier).polled
      split
      · exact hpolled
      · exact hpolled
  | spin i cond _ hplace =>
      rw [hplace] at hpolled
      exact hpolled
  | stray i call _ hplace =>
      rw [hplace] at hpolled
      exact hpolled
  | leave i _ hplace hi =>
      have hof := hok.place_of
      rw [hplace] at hpolled hof
      obtain rfl : i = 20 := le_antisymm hof.2.2 (not_lt.mp hi)
      exact hpolled
  | call i back machine kernel _ hplace hrun =>
      have hfits := hok.fits
      have hof := hok.place_of
      cases callRun_of_step hrun with
      | sleeps call pc pc' h' hactivity hsleep =>
          rw [if_neg (by simp)]
          exact hpolled
      | spins cond place place' reads h' hactivity hspin =>
          rw [if_neg (by simp)]
          exact hpolled
      | awakes call hactivity =>
          rw [if_pos rfl]
          rw [hactivity] at hfits
          rcases hplace with ⟨hplace, rfl⟩ | ⟨hplace, rfl⟩
          · rw [hplace] at hpolled
            exact hpolled
          · rw [hplace] at hfits
            cases hfits with
            | stray _ _ hcall => cases (hmatch hcounts i).symm.trans hcall
      | returns cond reads hactivity =>
          rw [if_pos rfl]
          rw [hactivity] at hfits
          rcases hplace with ⟨hplace, rfl⟩ | ⟨hplace, rfl⟩
          · rw [hplace] at hfits
            cases hfits
          · rw [hplace] at hfits hpolled hof
            cases hfits with
            | spinning _ _ _ _ hcall =>
                cases (hmatch hcounts i).symm.trans hcall
                have hnext : (TestPlace.second (i + 1)).polled = i - 10 + 1 :=
                  Nat.sub_add_comm hof.2.1
                rw [hnext, conditions_succ, Nat.add_sub_cancel' hof.2.1, List.map_append, hpolled]
                rfl
  | notify hne => exact absurd hrole hne
  | clear hne => exact absurd hrole hne
  | test hne => exact absurd hrole hne
  | print hne => exact absurd hrole hne
  | load hne => exact absurd hrole hne
  | store v hne => exact absurd hrole hne

/-- While the byte has its original value no call is cut short. -/
theorem told (hok : t.Ok b c) (hbyte : Taken t → sh.machine.mem b.target = MWMON_ORIGINAL_VAL)
    (htold : t.kernel.Ok) (hmove : TestMove b c sh t sh' t') : t'.kernel.Ok := by
  cases hmove with
  | call i back machine kernel _ hplace hrun =>
      refine htold.step hrun fun _ _ hcheck => ?_
      have hfits := hok.fits
      rcases hplace with ⟨hplace, -⟩ | ⟨hplace, -⟩
      · rw [hplace] at hfits
        cases hactivity : t.kernel.activity with
        | spinning cond place reads => rw [hactivity] at hfits; cases hfits
        | _ => rw [hactivity] at hcheck; cases hcheck
      · have hcounts := hok.counts (by rw [hplace]; exact Nat.succ_ne_zero 1)
        have htaken : Taken t := by
          rw [Taken, hplace]
          exact trivial
        rw [← b.target_of_counts hcounts, hbyte htaken]
        decide
  | sleep => exact ⟨trivial, htold.returns⟩
  | stray => exact ⟨trivial, htold.returns⟩
  | spin => exact ⟨fun v hv => absurd hv List.not_mem_nil, htold.returns⟩
  | _ => exact htold

end TestMove

theorem Interrupt.onSpinActivity_eq_leaving {i : Interrupt} {activity : SpinActivity}
    {cond : BitVec 64} {reads : List (BitVec 64)}
    (h : i.onSpinActivity activity = .spinning cond (.shared .reset) reads) :
    activity = .spinning cond (.shared .reset) reads := by
  rcases i.onSpinActivity_cases activity with hsame | ⟨_, -, hwake⟩ | ⟨_, _, -, -, htest⟩
  · exact hsame.symm.trans h
  · cases hwake.symm.trans h
  · cases htest.symm.trans h

/-- No call has returned or is about to return before `n` numbers have been printed, if `n`
is less than its condition. -/
structure Follows (n : ℕ) (k : SpinThread) : Prop where
  returned : ∀ r ∈ k.returns, r.localCondition.toInt ≤ n
  leaving : ∀ cond reads, k.activity = .spinning cond (.shared .reset) reads → cond.toInt ≤ n

theorem Follows.mono {n n' : ℕ} {k : SpinThread} (h : Follows n k) (hle : n ≤ n') :
    Follows n' k where
  returned r hr := (h.returned r hr).trans (Int.ofNat_le.mpr hle)
  leaving cond reads hreset := (h.leaving cond reads hreset).trans (Int.ofNat_le.mpr hle)

/-- A step of the sleeper. -/
theorem TestMove.follows {b : ThreadTest} {c : TestId} {sh sh' : TestShared}
    {t t' : TestThread} (hmatch : b.CallsMatch) (hok : t.Ok b c)
    (hbyte : Taken t → sh.machine.mem b.target = MWMON_ORIGINAL_VAL) {n : ℕ} {old : BitVec 64}
    (hlong : readLong sh.machine.mem b.ptrs.mwmonLintVarAddr = old ∨
      (readLong sh.machine.mem b.ptrs.mwmonLintVarAddr).toInt ≤ n)
    (hold : old.toInt < 10) (h : Follows n t.kernel) (hmove : TestMove b c sh t sh' t') :
    Follows n t'.kernel := by
  cases hmove with
  | sleep => exact ⟨h.returned, fun _ _ hreset => SpinActivity.noConfusion hreset⟩
  | stray => exact ⟨h.returned, fun _ _ hreset => SpinActivity.noConfusion hreset⟩
  | spin =>
      refine ⟨h.returned, fun _ _ hreset => ?_⟩
      cases hreset
  | call i back machine kernel _ hplace hrun =>
      cases callRun_of_step hrun with
      | sleeps => exact ⟨h.returned, fun _ _ hreset => SpinActivity.noConfusion hreset⟩
      | awakes => exact ⟨h.returned, fun _ _ hreset => SpinActivity.noConfusion hreset⟩
      | returns cond reads hactivity =>
          refine ⟨fun r hr => ?_, fun _ _ hreset => SpinActivity.noConfusion hreset⟩
          rcases List.mem_append.mp hr with hr | hr
          · exact h.returned r hr
          · rw [List.mem_singleton.mp hr]
            exact h.leaving cond reads hactivity
      | spins cond place place' reads h' hactivity hspin =>
          refine ⟨h.returned, fun cond' reads' hreset => ?_⟩
          obtain ⟨rfl, rfl, -⟩ := SpinActivity.spinning.inj hreset
          have hfits := hok.fits
          have hof := hok.place_of
          rw [hactivity] at hfits
          rcases hplace with ⟨hplace, -⟩ | ⟨hplace, -⟩
          · rw [hplace] at hfits
            cases hfits
          have hcounts := hok.counts (by rw [hplace]; exact Nat.succ_ne_zero 1)
          have htaken : Taken t := by
            rw [Taken, hplace]
            exact trivial
          rw [hplace] at hfits hof
          cases hfits with
          | spinning _ _ _ _ hcall =>
              cases (hmatch hcounts i).symm.trans hcall
              cases hspin with
              | enough hread =>
                  rw [toInt_number hof.2.2.le] at hread ⊢
                  have hten : (10 : ℤ) ≤ i := Int.ofNat_le.mpr hof.2.1
                  rcases hlong with heq | hle
                  · rw [heq] at hread
                    exact absurd (hten.trans hread) (not_le.mpr hold)
                  · exact hread.trans hle
              | broken _ hnotified =>
                  rw [← b.target_of_counts hcounts, hbyte htaken] at hnotified
                  exact absurd hnotified (by decide)
              | enable _ hplace' =>
                  rcases hplace' with ⟨-, hplace'⟩ | hplace' <;> cases hplace'
  | _ => exact h

/-! ## Both threads -/

/-- What holds of the sleeper in the second part, when the long has begun with `old`. -/
structure FollowInv (old : BitVec 64) (s : Config TestId TestShared TestThread) : Prop where
  polled : (s.threads ta0).kernel.returns.map SpinReturn.localCondition =
    conditions (s.threads ta0).place.polled
  told : (s.threads ta0).kernel.Ok
  follows : old.toInt < 10 → Follows (s.threads ta1).printed.length (s.threads ta0).kernel

/-- Nothing printed is taken back. -/
theorem TestMove.printed_le {b : ThreadTest} {c : TestId} {sh sh' : TestShared}
    {t t' : TestThread} (hmove : TestMove b c sh t sh' t') :
    t.printed.length ≤ t'.printed.length := by
  cases hmove with
  | print => exact (List.length_append ..).symm ▸ Nat.le_add_right _ _
  | _ => exact le_rfl

namespace ThreadTest

variable {b : ThreadTest} {h : Machine TestId} {s : Config TestId TestShared TestThread}

/-- An interrupt leaves where the threads are in their functions, and what they have got. -/
theorem interrupt_keeps (s : Config TestId TestShared TestThread) (who : TestId)
    (sh : TestShared) (activity : SpinActivity) (j : TestId) :
    let s' := s.move who sh { s.threads who with kernel :=
      { (s.threads who).kernel with activity := activity } }
    (s'.threads j).place = (s.threads j).place ∧ (s'.threads j).printed = (s.threads j).printed ∧
      (s'.threads j).kernel.returns = (s.threads j).kernel.returns :=
  have hsame {β : Type} (f : TestThread → β)
      (hf : f { s.threads who with kernel :=
        { (s.threads who).kernel with activity := activity } } = f (s.threads who)) :
      f ((s.move who sh { s.threads who with kernel :=
        { (s.threads who).kernel with activity := activity } }).threads j) = f (s.threads j) :=
    Config.move_threads_eq_of_eq hf j
  ⟨hsame TestThread.place rfl, hsame TestThread.printed rfl, hsame (·.kernel.returns) rfl⟩

/-- However the sleeper goes on, the notifier counts. -/
theorem counted_of_reachable (hcounts : b.counts = true) (hreach : (b.system h).Reachable s) :
    Counted b.counts (readLong h.mem b.ptrs.mwmonLintVarAddr)
      (readLong s.shared.machine.mem b.ptrs.mwmonLintVarAddr)
      (s.threads ta1).printed (s.threads ta1).place := by
  refine invariant (P := fun s => Counted b.counts (readLong h.mem b.ptrs.mwmonLintVarAddr)
    (readLong s.shared.machine.mem b.ptrs.mwmonLintVarAddr)
    (s.threads ta1).printed (s.threads ta1).place) ?_ ?_ ?_ hreach
  · rintro s ⟨hmachine, -, hstart⟩
    rw [hmachine, hstart ta1]
    exact .before _ (.inl (Nat.zero_le 1)) rfl rfl
  · intro s who sh own hreach hcounted hmove
    have hok := threads_ok hreach who
    rcases eq_ta0_or_ta1 who with rfl | rfl
    · rw [Config.move_threads_of_ne ta0_ne_ta1.symm, Config.move_shared,
        hmove.long_eq hcounts hok, TestMove.stored_of_sleeper hok rfl]
      exact hcounted
    · rw [Config.move_threads_self]
      exact hmove.counted hcounts Nat.one_ne_zero hok hcounted
  · intro s who i hcounted
    obtain ⟨hplace, hprinted, -⟩ := interrupt_keeps s who
      { s.shared with machine := i.onMachine who s.shared.machine }
      (i.onSpinActivity (s.threads who).kernel.activity) ta1
    rw [hplace, hprinted, Config.move_shared]
    show Counted b.counts _ (readLong (i.onMachine who s.shared.machine).mem _) _ _
    rw [Interrupt.onMachine_mem]
    exact hcounted

theorem followInv_of_reachable (hcounts : b.counts = true) (hmatch : b.CallsMatch)
    (hbyte : h.mem b.target ≠ MWMON_NOTIFIED_VAL) (hreach : (b.system h).Reachable s) :
    FollowInv (readLong h.mem b.ptrs.mwmonLintVarAddr) s := by
  refine invariant (P := FollowInv (readLong h.mem b.ptrs.mwmonLintVarAddr)) ?_ ?_ ?_ hreach
  · rintro s ⟨-, -, hstart⟩
    refine ⟨?_, ?_, fun _ => ?_⟩
    · rw [hstart ta0]
      rfl
    · rw [hstart ta0]
      exact ⟨trivial, fun r hr => absurd hr List.not_mem_nil⟩
    · rw [hstart ta0]
      exact ⟨fun r hr => absurd hr List.not_mem_nil,
        fun _ _ hreset => SpinActivity.noConfusion hreset⟩
  · intro s who sh own hreach hinv hmove
    have hok := threads_ok hreach who
    rcases eq_ta0_or_ta1 who with rfl | rfl
    · have hother : (s.move ta0 sh own).threads ta1 = s.threads ta1 :=
        Config.move_threads_of_ne ta0_ne_ta1.symm
      have htaken := (byteInv_of_reachable hreach).taken hbyte
      have hlong := (counted_of_reachable hcounts hreach).long_le
      refine ⟨?_, ?_, fun hold => ?_⟩
      · rw [Config.move_threads_self]
        exact hmove.polled hcounts hmatch hok hinv.polled rfl
      · rw [Config.move_threads_self]
        exact hmove.told hok htaken hinv.told
      · rw [Config.move_threads_self, hother]
        exact hmove.follows hmatch hok htaken hlong hold (hinv.follows hold)
    · have hother : (s.move ta1 sh own).threads ta0 = s.threads ta0 :=
        Config.move_threads_of_ne ta0_ne_ta1
      refine ⟨?_, ?_, fun hold => ?_⟩
      · rw [hother]
        exact hinv.polled
      · rw [hother]
        exact hinv.told
      · rw [Config.move_threads_self, hother]
        exact (hinv.follows hold).mono hmove.printed_le
  · intro s who i hinv
    have hsame := interrupt_keeps s who
      { s.shared with machine := i.onMachine who s.shared.machine }
      (i.onSpinActivity (s.threads who).kernel.activity)
    refine ⟨?_, ?_, fun hold => ?_⟩
    · rw [(hsame ta0).1, (hsame ta0).2.2]
      exact hinv.polled
    · refine Config.move_cases (motive := fun t : TestThread => t.kernel.Ok) ta0 (fun heq => ?_)
        (fun _ => hinv.told)
      subst heq
      exact ⟨hinv.told.activity.interrupt, hinv.told.returns⟩
    · rw [(hsame ta1).2.1]
      refine Config.move_cases (motive := fun t : TestThread =>
        Follows (s.threads ta1).printed.length t.kernel) ta0 (fun heq => ?_)
        (fun _ => hinv.follows hold)
      subst heq
      exact ⟨(hinv.follows hold).returned, fun cond reads hreset =>
        (hinv.follows hold).leaving cond reads (Interrupt.onSpinActivity_eq_leaving hreset)⟩

end ThreadTest

/-- What the second part is for. -/
structure CountingCorrect (s : Config TestId TestShared TestThread) : Prop where
  /-- The notifier prints the numbers from zero to nineteen. -/
  printed_eq : (s.threads ta1).printed = numbers (s.threads ta1).printed.length
  printed_le : (s.threads ta1).printed.length ≤ 20
  /-- The sleeper waits for ten to nineteen. -/
  conditions_eq : (s.threads ta0).kernel.returns.map SpinReturn.localCondition =
    conditions (s.threads ta0).kernel.returns.length
  returns_le : (s.threads ta0).kernel.returns.length ≤ 10
  /-- Every call returns with its first test that has found its number reached. -/
  met : ∀ r ∈ (s.threads ta0).kernel.returns, r.Met

/-- Of the number that the sleeper has waited for the notifier has printed all before. -/
def SleeperFollows (s : Config TestId TestShared TestThread) : Prop :=
  ∀ r ∈ (s.threads ta0).kernel.returns,
    r.localCondition.toInt ≤ (s.threads ta1).printed.length

theorem countingCorrect {b : ThreadTest} {old long : BitVec 64}
    {s : Config TestId TestShared TestThread}
    (hcounted : Counted b.counts old long (s.threads ta1).printed (s.threads ta1).place)
    (hinv : FollowInv old s) (hok : (s.threads ta0).Ok b ta0) : CountingCorrect s := by
  have hlength : (s.threads ta0).kernel.returns.length = (s.threads ta0).place.polled := by
    have hmap := congrArg List.length hinv.polled
    rwa [List.length_map, conditions, List.length_map, List.length_range] at hmap
  refine ⟨hcounted.printed_eq.1, hcounted.printed_eq.2, ?_, ?_, hinv.told.returns⟩
  · rw [hlength]
    exact hinv.polled
  · have hof := hok.place_of
    rw [hlength]
    cases hplace : (s.threads ta0).place with
    | second i =>
        rw [hplace] at hof
        exact Nat.sub_le_sub_right hof.2.2 10
    | spinning i =>
        rw [hplace] at hof
        exact Nat.sub_le_sub_right hof.2.2.le 10
    | exited => exact le_rfl
    | _ => exact Nat.zero_le 10

namespace ThreadTest

variable {b : ThreadTest} {m : DeviceMapping} {h : Machine TestId} {c : TestId}

/-- Where the barrier leads to. -/
def behindBarrier (c : TestId) : TestPlace := if c.val = 0 then .second 10 else .clear

theorem thread_barrier {sh : TestShared} {t : TestThread} (hplace : t.place = .barrier) :
    b.thread c none sh t = atBarrier c (behindBarrier c) sh t := by
  by_cases hrole : c.val = 0
  · simp only [thread, if_pos hrole, sleeper, hplace, behindBarrier]
  · simp only [thread, if_neg hrole, notifier, hplace, behindBarrier]

/-- A thread that runs alone in the barrier runs alone in the program. -/
theorem solo_barrier {calls : List Unit} {sb sb' : Spin.SpinBarrier}
    {own own' : Spin.SpinThread} {t : TestThread} (hplace : t.place = .barrier)
    (hown : t.barrier = own) (hcalls : own.calls = 0)
    (hrun : (Spin.lsenseBarrier 1).solo c calls (sb, own) = some (sb', own')) :
    b.thread.solo c (calls.map fun _ => none) (⟨h, sb⟩, t) = some (⟨h, sb'⟩, { t with
      barrier := own'
      place := if own'.calls = 0 then .barrier else behindBarrier c }) := by
  induction calls generalizing sb own t with
  | nil =>
      obtain ⟨rfl, rfl⟩ := Prod.mk.inj (Option.some.inj hrun)
      subst hown
      rw [if_pos hcalls, ← hplace]
      rfl
  | cons u calls ih =>
      subst hown
      obtain ⟨⟨sb₁, own₁⟩, hstep, hrest⟩ := Option.bind_eq_some_iff.mp hrun
      have hmove : b.thread c none ⟨h, sb⟩ t = some (⟨h, sb₁⟩, { t with
          barrier := own₁
          place := if own₁.pc = .outside then behindBarrier c else t.place }) := by
        have hlift : Spin.SPIN_BARRIER_LSENSE 1 c () sb t.barrier = some (sb₁, own₁) := hstep
        rw [thread_barrier hplace, atBarrier, hlift]
        rfl
      refine Option.bind_eq_some_iff.mpr ⟨_, hmove, ?_⟩
      rcases (Spin.lsenseBarrier_cases hstep).calls_eq with ⟨hout, hnew⟩ | ⟨hin, hnew⟩
      · rw [hcalls] at hnew
        cases calls with
        | nil =>
            obtain ⟨rfl, rfl⟩ := Prod.mk.inj (Option.some.inj hrest)
            rw [if_pos hout, if_neg (by rw [hnew]; decide)]
            rfl
        | cons u calls =>
            simp [Program.solo, Spin.lsenseBarrier, hout, hnew] at hrest
      · rw [if_neg hin, hplace]
        exact ih rfl rfl (hnew.trans hcalls) hrest

/-- The program on the kernel that it is meant for. -/
abbrev countingTest (m : DeviceMapping) : ThreadTest := .kmonUnot (.v2_6_13_1 .onepackageonly) m

/-- The barrier as `main` leaves it. -/
def barrierStart : Spin.SpinBarrier := Spin.spinBarrierInit ⟨0, 0, 0, 0⟩ ThreadCount.two.word

/-- The notifier gets to the barrier and waits there. -/
theorem solo_notifier :
    ∃ choices own, (countingTest m).thread.solo ta1 choices (⟨h, barrierStart⟩, .start) =
        some (⟨h.store ta1 m.ptrs.mwmonMmapArea MWMON_NOTIFIED_VAL, ⟨0, 0, 1, 2⟩⟩, own) ∧
      own.printed = [] := by
  have hbyte : m.translate m.mmappedDeviceMemory = some m.ptrs.mwmonMmapArea :=
    m.translate_userByte .first
  have hcount : (countingTest m).thread.solo ta1 (List.replicate 10 none)
      (⟨h, barrierStart⟩, .start) =
        some (⟨h, barrierStart⟩, TestThread.start.goto (.loop 10)) := rfl
  have hnotify : (countingTest m).thread.solo ta1 [none]
      (⟨h, barrierStart⟩, TestThread.start.goto (.loop 10)) =
        some (⟨h.store ta1 m.ptrs.mwmonMmapArea MWMON_NOTIFIED_VAL, barrierStart⟩,
          TestThread.start.goto (.loop 11)) := by
    simp [Program.solo, thread, ta1, notifier, END_TIME, NOTIFY_TIME, enter, notification, hbyte,
      inKernel, spinThread, TestThread.start, TestThread.goto]
  have hrest : (countingTest m).thread.solo ta1 (List.replicate 10 none)
      (⟨h.store ta1 m.ptrs.mwmonMmapArea MWMON_NOTIFIED_VAL, barrierStart⟩,
        TestThread.start.goto (.loop 11)) =
      some (⟨h.store ta1 m.ptrs.mwmonMmapArea MWMON_NOTIFIED_VAL, barrierStart⟩,
        TestThread.start.goto .look) := rfl
  have hlook : (countingTest m).thread.solo ta1 [none]
      (⟨h.store ta1 m.ptrs.mwmonMmapArea MWMON_NOTIFIED_VAL, barrierStart⟩,
        TestThread.start.goto .look) =
      some (⟨h.store ta1 m.ptrs.mwmonMmapArea MWMON_NOTIFIED_VAL, barrierStart⟩,
        { TestThread.start with place := .barrier, message := some .notifiedValue }) := by
    simp [Program.solo, thread, ta1, notifier, look, userByte, hbyte, message, afterLook, counts,
      TestThread.start, TestThread.goto]
  have hbarrier : (Spin.lsenseBarrier 1).solo ta1 (List.replicate 6 ())
      (barrierStart, .start) = some (⟨0, 0, 1, 2⟩, ⟨.wait .entry, -1, 1, 0⟩) := by
    decide
  exact ⟨_, _, Program.solo_append hcount (Program.solo_append hnotify (Program.solo_append hrest
    (Program.solo_append hlook (solo_barrier rfl rfl rfl hbarrier)))), rfl⟩

/-- Now the sleeper gets past the barrier, and its first call returns if the long is ten. -/
theorem solo_first (hbyte : h.mem m.ptrs.mwmonMmapArea = MWMON_NOTIFIED_VAL)
    (hlong : 10 ≤ (readLong h.mem m.ptrs.mwmonLintVarAddr).toInt) :
    ∃ choices shared own, (countingTest m).thread.solo ta0 choices (⟨h, ⟨0, 0, 1, 2⟩⟩, .start) =
        some (shared, own) ∧ ∃ r ∈ own.kernel.returns, r.localCondition = 10 := by
  have hsleep := solo_sleeper (b := countingTest m) hbyte ⟨0, 0, 1, 2⟩
  have hkeep : readLong ((h.monitor ta0 m.ptrs.mwmonMmapArea).store ta0 m.ptrs.mwmonMmapArea
      MWMON_ORIGINAL_VAL).mem m.ptrs.mwmonLintVarAddr = readLong h.mem m.ptrs.mwmonLintVarAddr :=
    (countingTest m).readLong_store rfl (.inl rfl)
  change (countingTest m).thread.solo ta0 _ _ = some
    (⟨(h.monitor ta0 m.ptrs.mwmonMmapArea).store ta0 m.ptrs.mwmonMmapArea MWMON_ORIGINAL_VAL, _⟩,
      _) at hsleep
  generalize (h.monitor ta0 m.ptrs.mwmonMmapArea).store ta0 m.ptrs.mwmonMmapArea
      MWMON_ORIGINAL_VAL = h' at hsleep hkeep
  rw [← hkeep] at hlong
  have hcount : (countingTest m).thread.solo ta0 (List.replicate 15 none)
      (⟨h', ⟨0, 0, 1, 2⟩⟩, TestThread.start.goto (.loop (SLEEP_TIME + 1))) =
        some (⟨h', ⟨0, 0, 1, 2⟩⟩, TestThread.start.goto .look) := rfl
  have hlook : (countingTest m).thread.solo ta0 [none]
      (⟨h', ⟨0, 0, 1, 2⟩⟩, TestThread.start.goto .look) =
      some (⟨h', ⟨0, 0, 1, 2⟩⟩, { TestThread.start with
        place := .barrier, message := some (message (h'.mem m.ptrs.mwmonMmapArea)) }) := by
    have hbyte : m.translate m.mmappedDeviceMemory = some m.ptrs.mwmonMmapArea :=
      m.translate_userByte .first
    simp [Program.solo, thread, ta0, sleeper, look, userByte, hbyte, afterLook, counts,
      TestThread.start, TestThread.goto]
  have hbarrier : (Spin.lsenseBarrier 1).solo ta0 (List.replicate 9 ()) (⟨0, 0, 1, 2⟩, .start) =
      some (⟨0, -1, 0, 2⟩, ⟨.outside, -1, 1, 1⟩) := by
    decide
  have hcall (t : TestThread) (hplace : t.place = .second 10) (huser : t.kernel = ⟨.user, []⟩) :
      (countingTest m).thread.solo ta0 (List.replicate 3 none) (⟨h', ⟨0, -1, 0, 2⟩⟩, t) =
        some (⟨h'.store ta0 m.ptrs.mwmonMmapArea MWMON_ORIGINAL_VAL, ⟨0, -1, 0, 2⟩⟩, { t with
          place := .second 11
          kernel := ⟨.user, [⟨10, [readLong h'.mem m.ptrs.mwmonLintVarAddr]⟩]⟩ }) := by
    have hslt : (readLong h'.mem m.ptrs.mwmonLintVarAddr).slt (.ofNat 64 10) = false := by
      rw [BitVec.slt_eq_decide]
      exact decide_eq_false (not_lt.mpr hlong)
    simp [Program.solo, List.replicate, thread, ta0, sleeper, hplace, huser, enter, spinCall,
      kernel, PatchedKernel.sysCallTable, PatchedKernel.version,
      NR_MWMON_MMAP_SPIN_WHILE_GREATER, inKernel, inCall, spinThread,
      KernelVersion.spinWhileGreater, sysMwmonMmapSpinWhileGreaterOnepackageonly,
      sysMwmonMmapSpinWhileGreater, readsAfter, hslt, TestThread.goto, ptrs]
  exact ⟨_, _, _, Program.solo_append hsleep (Program.solo_append hcount (Program.solo_append hlook
    (Program.solo_append (solo_barrier rfl rfl rfl hbarrier) (hcall _ rfl rfl)))), _,
      List.mem_singleton_self _, rfl⟩

/-- Opening the device does not touch the long. -/
theorem main_long (c : TestId) (h : Machine TestId) :
    readLong ((countingTest m).main c h).mem m.ptrs.mwmonLintVarAddr =
      readLong h.mem m.ptrs.mwmonLintVarAddr := by
  have hfar (area : ℕ) {i j : ℕ} (hi : i < 10) (hj : j < 8) :
      area + MWMON_LINT_VAR_OFFSET + j ≠ area + i ∧
        area + MWMON_LINT_VAR_OFFSET + j ≠ area + MONITORED_REGIONS_DISTANCE + i := by
    unfold MWMON_LINT_VAR_OFFSET MONITORED_REGIONS_DISTANCE
    omega
  have hfill (h' : Machine TestId) (i : Fin 10) :
      readLong (KernelState.fillBytes c m.ptrs h' i).mem m.ptrs.mwmonLintVarAddr =
        readLong h'.mem m.ptrs.mwmonLintVarAddr := by
    refine readLong_congr fun j hj => ?_
    have hboth := hfar m.ptrs.mwmonMmapArea i.isLt hj
    have hfirst : m.ptrs.mwmonLintVarAddr + j ≠ Region.first.byte m.ptrs + i := hboth.1
    have hsecond : m.ptrs.mwmonLintVarAddr + j ≠ Region.second.byte m.ptrs + i := hboth.2
    rw [KernelState.fillBytes, kmemMapperOpen_mem, kmemMapperOpen_mem,
      Function.update_of_ne hsecond, Function.update_of_ne hfirst]
  have hloop : readLong ((List.finRange 10).foldl (KernelState.fillBytes c m.ptrs) h).mem
      m.ptrs.mwmonLintVarAddr = readLong h.mem m.ptrs.mwmonLintVarAddr :=
    List.foldlRecOn (motive := fun h' : Machine TestId => readLong h'.mem m.ptrs.mwmonLintVarAddr =
      readLong h.mem m.ptrs.mwmonLintVarAddr) _ _ rfl
      fun h' hsame i _ => (hfill h' i).trans hsame
  exact hloop

theorem main_initial (c : TestId) (h : Machine TestId) :
    ((countingTest m).system ((countingTest m).main c h)).Reachable
      ⟨⟨(countingTest m).main c h, barrierStart⟩, fun _ => .start⟩ :=
  .of_init ⟨rfl, ⟨_, rfl⟩, fun _ => rfl⟩

end ThreadTest

/-- On the onepackageonly kernel, however the threads are scheduled and interrupted, the
notifier counts to twenty and every call of the sleeper waits for its number, ten and up. But
when a call returns the notifier has got that far, in all runs, only if the long in the page
is below ten when the program is started. -/
theorem threadTest_counting (m : DeviceMapping) (c : TestId) (h : Machine TestId) :
    (∀ s, ((ThreadTest.countingTest m).system ((ThreadTest.countingTest m).main c h)).Reachable s →
      CountingCorrect s) ∧
    ((∀ s, ((ThreadTest.countingTest m).system
        ((ThreadTest.countingTest m).main c h)).Reachable s → SleeperFollows s) ↔
      (readLong h.mem m.ptrs.mwmonLintVarAddr).toInt < 10) := by
  have hbyte : ((ThreadTest.countingTest m).main c h).mem (ThreadTest.countingTest m).target =
      MWMON_ORIGINAL_VAL :=
    ThreadTest.main_target c h fun _ _ _ heq => ThreadTest.noConfusion heq
  have hinv (s) (hreach : ((ThreadTest.countingTest m).system
      ((ThreadTest.countingTest m).main c h)).Reachable s) :=
    ThreadTest.followInv_of_reachable rfl (fun _ _ => rfl) (by rw [hbyte]; decide) hreach
  refine ⟨fun s hreach => countingCorrect (ThreadTest.counted_of_reachable rfl hreach)
    (hinv s hreach) (ThreadTest.threads_ok hreach ta0), ?_⟩
  constructor
  case mp =>
    intro hfollows
    by_contra hten
    have hinit := ThreadTest.main_initial (m := m) c h
    obtain ⟨_, own, hwait, hprinted⟩ := ThreadTest.solo_notifier (m := m)
      (h := (ThreadTest.countingTest m).main c h)
    have hmiddle := Program.reachable_solo _ hinit hwait
    rw [← ThreadTest.main_long c] at hten
    have hkeep : readLong (((ThreadTest.countingTest m).main c h).store ta1 m.ptrs.mwmonMmapArea
        MWMON_NOTIFIED_VAL).mem m.ptrs.mwmonLintVarAddr =
          readLong ((ThreadTest.countingTest m).main c h).mem m.ptrs.mwmonLintVarAddr :=
      (ThreadTest.countingTest m).readLong_store rfl (.inl rfl)
    rw [← hkeep] at hten
    obtain ⟨_, shared, last, hrun, r, hr, hcond⟩ :=
      ThreadTest.solo_first (m := m) Hardware.store_mem_self (not_lt.mp hten)
    have hother : ((⟨⟨(ThreadTest.countingTest m).main c h, ThreadTest.barrierStart⟩,
        fun _ => TestThread.start⟩ : Config TestId TestShared TestThread).move ta1
          ⟨((ThreadTest.countingTest m).main c h).store ta1 m.ptrs.mwmonMmapArea
            MWMON_NOTIFIED_VAL, ⟨0, 0, 1, 2⟩⟩ own).threads ta0 = .start :=
      Config.move_threads_of_ne ThreadTest.ta0_ne_ta1
    rw [← hother] at hrun
    have hlast := hfollows _ (Program.reachable_solo _ hmiddle hrun) r
      (by rwa [Config.move_threads_self])
    rw [Config.move_threads_of_ne ThreadTest.ta0_ne_ta1.symm, Config.move_threads_self, hprinted,
      hcond] at hlast
    exact absurd hlast (by decide)
  case mpr =>
    intro hold s hreach
    rw [← ThreadTest.main_long c] at hold
    exact ((hinv s hreach).follows hold).returned

end Htsynch
