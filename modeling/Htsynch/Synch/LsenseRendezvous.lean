/-
# When the sense-reversing barrier of synch.h can be passed early

Let `round` be the number of rounds whose sense has been published. Every thread
has arrived `round` or `round + 1` times, and the count never exceeds the number
of threads that have arrived in the round in progress. So a thread that reads the
full count knows that everyone has arrived, and it stays that way until it has
published its sense. Late resets lower a count that is only an upper bound away
from being full, and late stores to the flag write the value it already has.

The argument does not need the reset to be exclusive: several threads may read
the full count and reset it. It needs a waiter to leave only on its sense, though. A
halting waiter whose sense is 1 and is kept in `rax` compares the flag with what
`sys_cpu_halt` has returned, which is what the flag shows before the round is complete.
-/

import Htsynch.Foundations.Census
import Htsynch.Foundations.Rendezvous
import Htsynch.Synch.LsenseBarrier

namespace Htsynch

open Foundations

/-- The sense that is published when `round` rounds are complete. -/
def sense (round : ℕ) : Word := if round % 2 = 0 then 1 else 0

theorem lnot_sense (round : ℕ) : lnot (sense round) = sense (round + 1) := by
  unfold lnot sense
  rcases Nat.mod_two_eq_zero_or_one round with h | h
  · have hsucc : (round + 1) % 2 = 1 := by omega
    simp [h, hsucc]
  · have hsucc : (round + 1) % 2 = 0 := by omega
    simp [h, hsucc]

theorem sense_succ_ne (round : ℕ) : sense (round + 1) ≠ sense round := by
  rw [← lnot_sense, lnot]
  by_cases hzero : sense round = 0
  · simp [hzero]
  · rw [if_neg hzero]
    exact Ne.symm hzero

/-- The thread has read the full count and not yet published its sense. -/
def LsensePc.Releasing (pc : LsensePc) : Prop := pc = .reset ∨ pc = .release

variable {n : ThreadCount} {code : Fin n.val → ℕ → Inlined} {round rounds : ℕ}
  {v : LsenseVariant} {s : Config (Fin n.val) SpinBarrier LsenseThread} {who : Fin n.val}
  {sb : SpinBarrier} {own : LsenseThread}

/-- The invariant of the barrier while `round` rounds are complete. -/
structure LsenseInv (n : ThreadCount) (round : ℕ)
    (s : Config (Fin n.val) SpinBarrier LsenseThread) : Prop where
  nthreads_eq : s.shared.nthreads = n.word
  flag_eq : s.shared.releaseFlag = sense round
  thread_ok : ∀ i, (s.threads i).Ok sense round
  ioctl_le : ∀ i, (s.threads i).pc = .ioctl → (s.threads i).arrivals ≤ round
  full : ∀ i, (s.threads i).pc.Releasing → (s.threads i).Arrived round →
    ∀ j, (s.threads j).Arrived round
  cleared : ∀ i, (s.threads i).pc = .release → (s.threads i).Arrived round →
    s.shared.currentCount = 0
  count_le : s.shared.currentCount.toNat ≤ census (SenseThread.Arrived round) s.threads

namespace LsenseInv

theorem init (hinit : lsenseInit n s) : LsenseInv n 0 s := by
  obtain ⟨hshared, hthreads⟩ := hinit
  constructor
  case nthreads_eq =>
    rw [hshared]
    rfl
  case flag_eq =>
    rw [hshared]
    rfl
  case thread_ok =>
    intro i
    rw [hthreads i]
    constructor <;> decide
  case ioctl_le =>
    intro i hioctl
    rw [hthreads i] at hioctl
    cases hioctl
  case full =>
    intro i hreleasing
    rw [hthreads i] at hreleasing
    rcases hreleasing with h | h <;> cases h
  case cleared =>
    intro i hrelease
    rw [hthreads i] at hrelease
    cases hrelease
  case count_le =>
    rw [hshared]
    exact Nat.zero_le _

/-- Arrivals never outnumber the threads. -/
theorem count_le_val (h : LsenseInv n round s) :
    s.shared.currentCount.toNat ≤ n.val := by
  have hcard : census (SenseThread.Arrived round) s.threads ≤ Fintype.card (Fin n.val) :=
    census_le_card
  rw [Fintype.card_fin] at hcard
  exact h.count_le.trans hcard

/-- The full count is only read when everyone has arrived. -/
theorem all_arrived_of_count_eq (h : LsenseInv n round s)
    (hcount : s.shared.currentCount = s.shared.nthreads) :
    ∀ j, (s.threads j).Arrived round := by
  rw [h.nthreads_eq, ThreadCount.eq_word_iff] at hcount
  have hle := h.count_le
  rw [hcount] at hle
  have hcard : census (SenseThread.Arrived round) s.threads = Fintype.card (Fin n.val) :=
    le_antisymm census_le_card (by simpa using hle)
  exact census_eq_card_iff.mp hcard

/-- A move that neither counts an arrival nor completes a round. -/
theorem quiet (h : LsenseInv n round s) (hok : own.Ok sense round)
    (harr : own.arrivals = (s.threads who).arrivals)
    (hioctl : own.pc = .ioctl → own.arrivals ≤ round)
    (hnthreads : sb.nthreads = s.shared.nthreads) (hflag : sb.releaseFlag = sense round)
    (hcount : sb.currentCount.toNat ≤ s.shared.currentCount.toNat)
    (hfull : own.pc.Releasing → own.Arrived round → ∀ j, (s.threads j).Arrived round)
    (hcleared : own.pc = .release → sb.currentCount = 0) :
    LsenseInv n round (s.move who sb own) := by
  have hsame : ∀ j, ((s.move who sb own).threads j).Arrived round ↔
      (s.threads j).Arrived round := by
    intro j
    have harr' : ((s.move who sb own).threads j).arrivals = (s.threads j).arrivals :=
      Config.move_threads_eq_of_eq harr j
    unfold SenseThread.Arrived
    rw [harr']
  have hzero : s.shared.currentCount = 0 → sb.currentCount = 0 := by
    intro hz
    rw [hz] at hcount
    exact BitVec.eq_of_toNat_eq (Nat.le_zero.mp hcount)
  constructor
  case nthreads_eq => rw [Config.move_shared, hnthreads, h.nthreads_eq]
  case flag_eq => exact hflag
  case thread_ok => exact fun i => Config.move_cases i (fun _ => hok) (fun _ => h.thread_ok i)
  case ioctl_le => exact fun i => Config.move_cases i (fun _ => hioctl) (fun _ => h.ioctl_le i)
  case full =>
    intro i
    refine Config.move_cases i (fun _ hpc harrived j => ?_) (fun _ hpc harrived j => ?_)
    · exact (hsame j).mpr (hfull hpc harrived j)
    · exact (hsame j).mpr (h.full i hpc harrived j)
  case cleared =>
    intro i
    refine Config.move_cases i (fun _ hpc _ => hcleared hpc) (fun _ hpc harrived => ?_)
    exact hzero (h.cleared i hpc harrived)
  case count_le =>
    rw [census_congr hsame]
    exact hcount.trans h.count_le

/-- Moving on inside the call, with the flag as it was. -/
theorem goto (h : LsenseInv n round s) (who : Fin n.val) (pc : LsensePc) (sb : SpinBarrier)
    (hin : CallSite.inCall (s.threads who).pc = CallSite.inCall pc)
    (hcounted : CallSite.counted (s.threads who).pc = CallSite.counted pc)
    (hioctl : pc = .ioctl → (s.threads who).arrivals ≤ round)
    (hflag : sb.releaseFlag = sense round)
    (hnthreads : sb.nthreads = s.shared.nthreads)
    (hcount : sb.currentCount.toNat ≤ s.shared.currentCount.toNat)
    (hfull : pc.Releasing → (s.threads who).Arrived round →
      ∀ j, (s.threads j).Arrived round)
    (hcleared : pc = .release → sb.currentCount = 0) :
    LsenseInv n round (s.move who sb ((s.threads who).goto pc)) :=
  h.quiet ((h.thread_ok who).goto pc hin hcounted) rfl hioctl hnthreads hflag hcount hfull
    hcleared

/-- Going into the wait loop or around it. -/
theorem wait (h : LsenseInv n round s) (pc : WaitPc)
    (hin : CallSite.inCall (s.threads who).pc = true)
    (hcounted : CallSite.counted (s.threads who).pc = true) :
    LsenseInv n round (s.move who s.shared ((s.threads who).goto (.wait pc))) := by
  have hgoto := h.goto who (.wait pc) s.shared hin hcounted nofun h.flag_eq rfl le_rfl
  apply hgoto
  · rintro (hrel | hrel) <;> cases hrel
  · nofun

/-- Returning after the round is complete. -/
theorem ret (h : LsenseInv n round s) (sb : SpinBarrier)
    (hin : CallSite.inCall (s.threads who).pc = true)
    (hcounted : CallSite.counted (s.threads who).pc = true)
    (hround : (s.threads who).arrivals ≤ round) (hflag : sb.releaseFlag = sense round)
    (hnthreads : sb.nthreads = s.shared.nthreads)
    (hcount : sb.currentCount = s.shared.currentCount) :
    LsenseInv n round (s.move who sb ((s.threads who).ret .outside)) := by
  have hok := (h.thread_ok who).ret .outside hin hcounted hround rfl rfl
  apply h.quiet hok rfl nofun hnthreads hflag (le_of_eq (by rw [hcount]))
  · rintro (hrel | hrel) <;> cases hrel
  · nofun

/-- Entering a call: the own sense becomes the one to be published next. -/
theorem enter (h : LsenseInv n round s) (hpc : (s.threads who).pc = .outside) :
    LsenseInv n round (s.move who s.shared
      ((s.threads who).enter .arrive (lnot (s.threads who).lsense))) := by
  have hflip : ∀ r, (s.threads who).lsense = sense r →
      lnot (s.threads who).lsense = sense (r + 1) := by
    intro r hr
    rw [hr, lnot_sense]
  have hok := (h.thread_ok who).enter .arrive (by rw [hpc]; rfl) (by rw [hpc]; rfl)
    rfl hflip
  apply h.quiet hok rfl nofun rfl h.flag_eq le_rfl
  · rintro (hrel | hrel) <;> cases hrel
  · nofun

/-- The `incl`: the count and the number of arrived threads grow together. -/
theorem arrive (h : LsenseInv n round s) (hpc : (s.threads who).pc = .arrive) :
    LsenseInv n round (s.move who
      { s.shared with currentCount := incl s.shared.currentCount }
      ((s.threads who).arrive .read)) := by
  obtain ⟨hok, hout, hin⟩ := (h.thread_ok who).arrive .read (by rw [hpc]; rfl)
    (by rw [hpc]; rfl) rfl
  have hroom : census (SenseThread.Arrived round) s.threads < n.val := by
    simpa using census_lt_card hout
  have hnobody : ∀ j, (s.threads j).pc.Releasing → ¬ (s.threads j).Arrived round :=
    fun j hj harrived => hout (h.full j hj harrived who)
  constructor
  case nthreads_eq => exact h.nthreads_eq
  case flag_eq => exact h.flag_eq
  case thread_ok => exact fun i => Config.move_cases i (fun _ => hok) (fun _ => h.thread_ok i)
  case ioctl_le =>
    intro i
    refine Config.move_cases i (fun _ hioctl => ?_) (fun _ => h.ioctl_le i)
    cases hioctl
  case full =>
    intro i
    refine Config.move_cases i (fun _ hrel => ?_)
      (fun _ hj harrived => absurd harrived (hnobody i hj))
    rcases hrel with hrel | hrel <;> cases hrel
  case cleared =>
    intro i
    refine Config.move_cases i (fun _ hrelease => ?_)
      (fun _ hj harrived => absurd harrived (hnobody i (.inr hj)))
    cases hrelease
  case count_le =>
    have hle := h.count_le
    have hint := n.isInt
    rw [Config.move, census_update_enter hout hin]
    show (incl s.shared.currentCount).toNat ≤ _
    rw [incl_toNat (by omega)]
    omega

theorem released_arrivals {t : LsenseThread} : (v.released t).arrivals = t.arrivals := by
  cases v <;> rfl

/-- The store that completes a round: everyone has arrived and the count is
reset, so the next round starts with nobody arrived. -/
theorem release (h : LsenseInv n round s) (hpc : (s.threads who).pc = .release)
    (harrived : (s.threads who).Arrived round) :
    LsenseInv n (round + 1) (s.move who
      { s.shared with releaseFlag := (s.threads who).lsense }
      (v.released (s.threads who))) := by
  have hall := h.full who (.inr hpc) harrived
  have hzero := h.cleared who hpc harrived
  have hround : (s.threads who).arrivals = round + 1 := harrived
  have hin : CallSite.inCall (s.threads who).pc = true := by rw [hpc]; rfl
  have hcounted : CallSite.counted (s.threads who).pc = true := by rw [hpc]; rfl
  obtain ⟨hnext, -⟩ := (h.thread_ok who).succ harrived
  have hok : (v.released (s.threads who)).Ok sense (round + 1) := by
    cases v with
    | pause => exact hnext.ret .outside hin hcounted hround.le rfl rfl
    | cpuhalt => exact hnext.ret .outside hin hcounted hround.le rfl rfl
    | cpuhaltSendIPI => exact hnext.goto .ioctl hin hcounted
  have hnone : ∀ j, ¬ ((s.move who { s.shared with releaseFlag := (s.threads who).lsense }
      (v.released (s.threads who))).threads j).Arrived (round + 1) := by
    intro j
    refine Config.move_cases j (fun _ => ?_) (fun _ => ((h.thread_ok j).succ (hall j)).2)
    unfold SenseThread.Arrived
    rw [released_arrivals, hround]
    exact Nat.succ_ne_self _ ∘ Eq.symm
  constructor
  case nthreads_eq => exact h.nthreads_eq
  case flag_eq =>
    show (s.threads who).lsense = sense (round + 1)
    rw [(h.thread_ok who).lsense_eq_of_counted hin hcounted, hround]
  case thread_ok =>
    intro j
    exact Config.move_cases j (fun _ => hok)
      (fun _ => ((h.thread_ok j).succ (hall j)).1)
  case ioctl_le =>
    intro j
    refine Config.move_cases j (fun _ _ => ?_) (fun _ _ => (hall j).le)
    rw [released_arrivals, hround]
  case full => exact fun i _ hi => absurd hi (hnone i)
  case cleared => exact fun i _ hi => absurd hi (hnone i)
  case count_le =>
    rw [Config.move_shared]
    show s.shared.currentCount.toNat ≤ _
    rw [hzero]
    exact Nat.zero_le _

/-- A thread that finds its sense published has arrived in a complete round. -/
theorem arrivals_le_of_flag (h : LsenseInv n round s)
    (hin : CallSite.inCall (s.threads who).pc = true)
    (hcounted : CallSite.counted (s.threads who).pc = true)
    (hflag : s.shared.releaseFlag = (s.threads who).lsense) :
    (s.threads who).arrivals ≤ round := by
  rw [h.flag_eq] at hflag
  exact (h.thread_ok who).arrivals_le_of_published sense_succ_ne hin hcounted hflag

/-- The store to the flag by a thread whose round is already complete writes the
value the flag has. -/
theorem flag_of_late (h : LsenseInv n round s) (hpc : (s.threads who).pc = .release)
    (hlate : ¬ (s.threads who).Arrived round) :
    (s.threads who).arrivals ≤ round ∧ (s.threads who).lsense = sense round := by
  have hok := h.thread_ok who
  have hround : (s.threads who).arrivals = round := by
    have hle := hok.arrivals_le
    have hge := hok.round_le
    unfold SenseThread.Arrived at hlate
    omega
  refine ⟨hround.le, ?_⟩
  rw [hok.lsense_eq_of_counted (by rw [hpc]; rfl) (by rw [hpc]; rfl), hround]

/-- The late store to the flag changes nothing but the thread. -/
theorem publish_late (h : LsenseInv n round s) (hpc : (s.threads who).pc = .release)
    (hlate : ¬ (s.threads who).Arrived round) :
    LsenseInv n round (s.move who
      { s.shared with releaseFlag := (s.threads who).lsense }
      (v.released (s.threads who))) := by
  obtain ⟨hround, hflag⟩ := h.flag_of_late hpc hlate
  have hret := h.ret { s.shared with releaseFlag := (s.threads who).lsense }
    (by rw [hpc]; rfl) (by rw [hpc]; rfl) hround hflag rfl rfl
  cases v with
  | pause => exact hret
  | cpuhalt => exact hret
  | cpuhaltSendIPI =>
      have hioctl := h.goto who .ioctl
        { s.shared with releaseFlag := (s.threads who).lsense } (by rw [hpc]; rfl)
        (by rw [hpc]; rfl) (fun _ => hround) hflag rfl le_rfl
      apply hioctl
      · rintro (hrel | hrel) <;> cases hrel
      · nofun

/-- Every step but the one that completes the round keeps the invariant. -/
theorem keep (h : LsenseInv n round s)
    (hmove : LsenseMove v rounds s.shared (s.threads who) sb own)
    (hlate : (s.threads who).pc = .release → ¬ (s.threads who).Arrived round) :
    LsenseInv n round (s.move who sb own) := by
  cases hmove with
  | enter hpc => exact h.enter hpc
  | arrive hpc => exact h.arrive hpc
  | full hpc hcount =>
      have hall := h.all_arrived_of_count_eq hcount
      exact h.goto who .reset s.shared (by rw [hpc]; rfl) (by rw [hpc]; rfl) nofun
        h.flag_eq rfl le_rfl (fun _ _ => hall) nofun
  | short hpc => exact h.wait .entry (by rw [hpc]; rfl) (by rw [hpc]; rfl)
  | reset hpc =>
      exact h.goto who .release { s.shared with currentCount := 0 } (by rw [hpc]; rfl)
        (by rw [hpc]; rfl) nofun h.flag_eq rfl (Nat.zero_le _)
        (fun _ => h.full who (.inl hpc)) (fun _ => rfl)
  | publish hpc => exact h.publish_late hpc (hlate hpc)
  | woken hpc =>
      exact h.ret s.shared (by rw [hpc]; rfl) (by rw [hpc]; rfl) (h.ioctl_le who hpc)
        h.flag_eq rfl rfl
  | poll pc pc' hpc => exact h.wait pc' (by rw [hpc]; rfl) (by rw [hpc]; rfl)
  | leave pc hpc hflag =>
      have hround := h.arrivals_le_of_flag (by rw [hpc]; rfl) (by rw [hpc]; rfl) hflag
      exact h.ret s.shared (by rw [hpc]; rfl) (by rw [hpc]; rfl) hround h.flag_eq rfl rfl

/-- Every step keeps the invariant, for the same number of complete rounds or
one more. -/
theorem step (h : LsenseInv n round s)
    (hmove : LsenseMove v rounds s.shared (s.threads who) sb own) :
    ∃ round', LsenseInv n round' (s.move who sb own) := by
  by_cases htime : (s.threads who).pc = .release ∧ (s.threads who).Arrived round
  · obtain ⟨hpc, harrived⟩ := htime
    obtain ⟨rfl, rfl⟩ := hmove.of_release hpc
    exact ⟨round + 1, h.release hpc harrived⟩
  · exact ⟨round, h.keep hmove (not_and.mp htime)⟩

/-- A thread that has arrived in a complete round may return. -/
theorem calls_lt (h : LsenseInv n round s)
    (hcounted : CallSite.counted (s.threads who).pc = true)
    (hround : (s.threads who).arrivals ≤ round) (j : Fin n.val) :
    (s.threads who).calls < (s.threads j).arrivals :=
  ((h.thread_ok who).calls_lt hcounted hround).trans_le (h.thread_ok j).round_le

/-- The thread that publishes may return, in time or late. -/
theorem calls_lt_of_release (h : LsenseInv n round s) (hpc : (s.threads who).pc = .release)
    (j : Fin n.val) : (s.threads who).calls < (s.threads j).arrivals := by
  by_cases harrived : (s.threads who).Arrived round
  · have hj : (s.threads j).arrivals = round + 1 := h.full who (.inr hpc) harrived j
    rw [hj, Nat.lt_succ_iff]
    exact (h.thread_ok who).calls_le
  · exact h.calls_lt (by rw [hpc]; rfl) (h.flag_of_late hpc harrived).1 j

/-- Every step is a step of the abstract barrier or none. -/
theorem conforms (h : LsenseInv n round s)
    (hmove : LsenseMove v rounds s.shared (s.threads who) sb own) :
    Rendezvous.Conforms SenseThread.arrivals SenseThread.calls s.threads who own := by
  cases hmove with
  | enter => exact .inl ⟨rfl, rfl⟩
  | arrive hpc =>
      obtain ⟨harr, hcalls⟩ :=
        (h.thread_ok who).arrivals_eq_of_not_counted (by rw [hpc]; rfl)
      exact .inr (.inl ⟨harr.trans hcalls.symm, rfl, rfl⟩)
  | full => exact .inl ⟨rfl, rfl⟩
  | short => exact .inl ⟨rfl, rfl⟩
  | reset => exact .inl ⟨rfl, rfl⟩
  | publish hpc =>
      have hleave := h.calls_lt_of_release hpc
      cases v with
      | pause => exact .inr (.inr ⟨rfl, rfl, hleave⟩)
      | cpuhalt => exact .inr (.inr ⟨rfl, rfl, hleave⟩)
      | cpuhaltSendIPI => exact .inl ⟨rfl, rfl⟩
  | woken hpc =>
      exact .inr (.inr ⟨rfl, rfl, h.calls_lt (by rw [hpc]; rfl) (h.ioctl_le who hpc)⟩)
  | poll => exact .inl ⟨rfl, rfl⟩
  | leave pc hpc hflag =>
      have hround := h.arrivals_le_of_flag (by rw [hpc]; rfl) (by rw [hpc]; rfl) hflag
      exact .inr (.inr ⟨rfl, rfl, h.calls_lt (by rw [hpc]; rfl) hround⟩)

end LsenseInv

/-- The thread that moves does not leave the wait loop but on its sense. -/
def LeavesOnSense (v : LsenseVariant) (code : Fin n.val → ℕ → Inlined)
    (s : Config (Fin n.val) SpinBarrier LsenseThread) (label : Fin n.val × Word) : Prop :=
  v.LeavesOnSense (code label.1 (s.threads label.1).calls) label.2 s.shared.releaseFlag
    (s.threads label.1)

instance (v : LsenseVariant) (code : Fin n.val → ℕ → Inlined) :
    ∀ (s : Config (Fin n.val) SpinBarrier LsenseThread) (label : Fin n.val × Word),
      Decidable (LeavesOnSense v code s label) :=
  fun _ _ => inferInstanceAs (Decidable (LsenseVariant.LeavesOnSense _ _ _ _ _))

/-- The three functions refine the abstract barrier. -/
theorem lsenseSystem_simulates_rendezvous :
    System.Simulates (lsenseSystem v n code rounds) (LeavesOnSense v code)
      (Rendezvous.system (Fin n.val)) (fun _ _ => True)
      (fun s a => (∃ round, LsenseInv n round s) ∧
        Rendezvous.Counts SenseThread.arrivals SenseThread.calls s a) := by
  apply Rendezvous.simulates
  · intro s hinit
    refine ⟨⟨0, .init hinit⟩, fun i => ?_⟩
    rw [hinit.2 i]
    exact ⟨rfl, rfl⟩
  · intro s who choice sb own hInv hleaves hstep
    obtain ⟨round, hround⟩ := hInv
    rw [LsenseVariant.program_eq] at hstep
    have hmove := lsenseBarrier_cases hleaves hstep
    exact ⟨hround.step hmove, hround.conforms hmove⟩

/-- While waiters leave on their senses only, no call returns before every thread has arrived
for it, and the count stays between zero and the number of threads. -/
theorem lsenseSystem_rendezvous
    (hreach : (lsenseSystem v n code rounds).ReachableVia (LeavesOnSense v code) s) :
    (∀ i j, (s.threads i).calls ≤ (s.threads j).arrivals) ∧
      0 ≤ s.shared.currentCount.toInt ∧ s.shared.currentCount.toInt ≤ n.val := by
  obtain ⟨a, ha, ⟨round, hround⟩, hcounts⟩ :=
    lsenseSystem_simulates_rendezvous.reachable hreach
  have hordered := Rendezvous.ordered_of_reachable ha
  have hle := hround.count_le_val
  constructor
  · intro i j
    rw [← (hcounts i).2, ← (hcounts j).1]
    exact hordered.left_le_arrived i j
  · rw [ThreadCount.toInt_eq_toNat hle]
    omega

/-- Thread 0 halts in the first round, and leaves when thread 1 has published 0. In the second
round it is thread 0 that publishes while thread 1 halts. -/
theorem lsenseSystem_rendezvous_halted :
    let s := System.exec (System.guarded (LeavesOnSense .cpuhalt fun _ _ => senseInRax)
        (spinBarrierLsenseCpuhalt (fun _ _ => senseInRax) 2).next) (lsenseStart .two)
      (List.map (·, 0) [0, 0, 0, 0, 0, 1, 1, 1, 1, 1, 0, 0, 1, 1, 1, 1, 1])
    ((s.threads 0).calls = 1 ∧ (s.threads 1).pc = .wait .halted ∧ (s.threads 1).calls = 1) ∧
      (∀ i j, (s.threads i).calls ≤ (s.threads j).arrivals) ∧
      0 ≤ s.shared.currentCount.toInt ∧ s.shared.currentCount.toInt ≤ (2 : ℕ) :=
  ⟨by decide, lsenseSystem_rendezvous (v := .cpuhalt)
    (System.reachableVia_exec _ (.of_init lsenseStart_init))⟩

/-- Thread 0 halts in the second round with its sense 1 in `rax`. It is woken before thread 1
has arrived, compares the flag with 0 and returns. -/
theorem lsenseSystem_passed_early :
    (∃ s, (lsenseSystem .cpuhalt .two (fun _ _ => senseInRax) 2).Reachable s ∧
      (s.threads 0).calls = 2 ∧ (s.threads 1).arrivals = 1) ∧
    ∃ s, (lsenseSystem .cpuhaltSendIPI .two (fun _ _ => senseInRax) 2).Reachable s ∧
      (s.threads 0).calls = 2 ∧ (s.threads 1).arrivals = 1 := by
  refine ⟨⟨_, System.reachable_exec
      (List.map (·, 0) [0, 0, 0, 0, 0, 1, 1, 1, 1, 1, 0, 0, 0, 0, 0, 0, 0, 0, 0])
      (.of_init lsenseStart_init), ?_⟩,
    ⟨_, System.reachable_exec
      (List.map (·, 0) [0, 0, 0, 0, 0, 1, 1, 1, 1, 1, 0, 0, 0, 0, 0, 0, 0, 0, 0])
      (.of_init lsenseStart_init), ?_⟩⟩
  · decide
  · decide

end Htsynch
