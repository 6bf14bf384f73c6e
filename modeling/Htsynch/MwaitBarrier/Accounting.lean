/-
# What every thread at the MWAIT barrier keeps track of

Whatever the other threads do, a thread's own counters follow from where it is in
its call, a sleeper keeps the watch on its byte, and what `atomic_dec_and_test`
returned in a round that is over is not changed any more. `BarrierBase` collects
these facts for a number of complete rounds; every step keeps it.
-/

import Htsynch.MwaitBarrier.Program

namespace Htsynch

open Foundations

variable {n : ThreadCount} {rounds round : ℕ}

namespace BarrierThread

/-- A thread's counters against its place in the barrier. -/
structure Ok (n : ThreadCount) (rounds : ℕ) (t : BarrierThread) : Prop where
  initCount_eq : t.pc ≠ .outside → t.initCount = n.word
  calls_lt : t.pc ≠ .outside → t.calls < rounds
  arrivals_eq : t.arrivals = t.calls + t.pc.counted.toNat
  results_length : t.results.length = t.calls + t.pc.tested.toNat

/-- The thread's last instruction read the lock word and found it taken. -/
def Polls (t : BarrierThread) : Prop := t.pc = .lock .poll

instance : DecidablePred Polls := fun t => inferInstanceAs (Decidable (t.pc = _))

namespace Ok

variable {t : BarrierThread}

theorem start : BarrierThread.start.Ok n rounds :=
  ⟨fun hout => absurd rfl hout, fun hout => absurd rfl hout, rfl, rfl⟩

theorem enter (hok : t.Ok n rounds) (hpc : t.pc = .outside) (hcalls : t.calls < rounds) :
    (t.enter n.word).Ok n rounds where
  initCount_eq _ := rfl
  calls_lt _ := hcalls
  arrivals_eq := by
    have harr := hok.arrivals_eq
    rwa [hpc] at harr
  results_length := by
    have hlen := hok.results_length
    rwa [hpc] at hlen

/-- Going on to a place where the counters are as before. -/
theorem goto (hok : t.Ok n rounds) (pc : BarrierPc) (hin : t.pc ≠ .outside)
    (hcounted : pc.counted = t.pc.counted) (htested : pc.tested = t.pc.tested) :
    (t.goto pc).Ok n rounds where
  initCount_eq _ := hok.initCount_eq hin
  calls_lt _ := hok.calls_lt hin
  arrivals_eq := by
    show t.arrivals = t.calls + pc.counted.toNat
    rw [hcounted]
    exact hok.arrivals_eq
  results_length := by
    show t.results.length = t.calls + pc.tested.toNat
    rw [htested]
    exact hok.results_length

theorem arrive (hok : t.Ok n rounds) {gathered : Word} (hpc : t.pc = .store gathered) :
    t.arrive.Ok n rounds where
  initCount_eq _ := hok.initCount_eq (by simp [hpc])
  calls_lt _ := hok.calls_lt (by simp [hpc])
  arrivals_eq := by
    have harr := hok.arrivals_eq
    rw [hpc] at harr
    exact congrArg (· + 1) harr
  results_length := by
    have hlen := hok.results_length
    rwa [hpc] at hlen

theorem leave (hok : t.Ok n rounds) (hpc : t.pc = .dec) : t.leave.Ok n rounds where
  initCount_eq hout := absurd rfl hout
  calls_lt hout := absurd rfl hout
  arrivals_eq := by
    have harr := hok.arrivals_eq
    rwa [hpc] at harr
  results_length := by
    have hlen := hok.results_length
    rw [hpc] at hlen
    show (t.results ++ [false]).length = t.calls + 1
    rw [List.length_append, hlen]
    rfl

theorem leaveLast (hok : t.Ok n rounds) (hpc : t.pc = .dec) : t.leaveLast.Ok n rounds where
  initCount_eq _ := hok.initCount_eq (by simp [hpc])
  calls_lt _ := hok.calls_lt (by simp [hpc])
  arrivals_eq := by
    have harr := hok.arrivals_eq
    rwa [hpc] at harr
  results_length := by
    have hlen := hok.results_length
    rw [hpc] at hlen
    show (t.results ++ [true]).length = t.calls + 1
    rw [List.length_append, hlen]
    rfl

theorem ret (hok : t.Ok n rounds) (hpc : t.pc = .unlockLast) : t.ret.Ok n rounds where
  initCount_eq hout := absurd rfl hout
  calls_lt hout := absurd rfl hout
  arrivals_eq := by
    have harr := hok.arrivals_eq
    rwa [hpc] at harr
  results_length := by
    have hlen := hok.results_length
    rwa [hpc] at hlen

end Ok

end BarrierThread

section

variable {ι : Type} [DecidableEq ι] {p : Addr} {c : ι} {sh sh' : BarrierShared ι}
  {t t' : BarrierThread}

namespace BarrierMove

/-- The step keeps the thread's counters in line with its place. -/
theorem ok (hmove : BarrierMove p rounds c sh t sh' t')
    (hcount : sh.barrier.initCount = n.word) (hok : t.Ok n rounds) : t'.Ok n rounds := by
  cases hmove with
  | interrupt i pc hpc =>
      rcases hpc with rfl | ⟨spc, hsleep, rfl⟩
      · exact hok
      · exact hok.goto _ (by simp [hsleep]) (by rw [hsleep]; rfl) (by rw [hsleep]; rfl)
  | enter hpc hcalls =>
      rw [hcount]
      exact hok.enter hpc hcalls
  | lose hpc => exact hok.goto _ (by simp [hpc]) (by rw [hpc]; rfl) (by rw [hpc]; rfl)
  | win hpc => exact hok.goto _ (by simp [hpc]) (by rw [hpc]; rfl) (by rw [hpc]; rfl)
  | spin pc hpc => exact hok.goto _ (by simp [hpc]) (by rw [hpc]; rfl) (by rw [hpc]; rfl)
  | load hpc => exact hok.goto _ (by simp [hpc]) (by rw [hpc]; rfl) (by rw [hpc]; rfl)
  | store gathered hpc => exact hok.arrive hpc
  | full hpc => exact hok.goto _ (by simp [hpc]) (by rw [hpc]; rfl) (by rw [hpc]; rfl)
  | short hpc => exact hok.goto _ (by simp [hpc]) (by rw [hpc]; rfl) (by rw [hpc]; rfl)
  | notify hpc => exact hok.goto _ (by simp [hpc]) (by rw [hpc]; rfl) (by rw [hpc]; rfl)
  | unlock hpc => exact hok.goto _ (by simp [hpc]) (by rw [hpc]; rfl) (by rw [hpc]; rfl)
  | sleep pc pc' machine hpc =>
      exact hok.goto _ (by simp [hpc]) (by rw [hpc]; rfl) (by rw [hpc]; rfl)
  | wake hpc => exact hok.goto _ (by simp [hpc]) (by rw [hpc]; rfl) (by rw [hpc]; rfl)
  | leave hpc => exact hok.leave hpc
  | leaveLast hpc => exact hok.leaveLast hpc
  | unlockLast hpc => exact hok.ret hpc

/-- Nobody changes the number of threads the barrier is made for. -/
theorem initCount_eq (hmove : BarrierMove p rounds c sh t sh' t') :
    sh'.barrier.initCount = sh.barrier.initCount := by
  cases hmove with
  | _ => rfl

theorem calls_le (hmove : BarrierMove p rounds c sh t sh' t') : t.calls ≤ t'.calls := by
  cases hmove with
  | leave => exact Nat.le_succ _
  | unlockLast => exact Nat.le_succ _
  | _ => exact le_rfl

/-- What was returned in earlier calls stays. -/
theorem results_getElem? (hmove : BarrierMove p rounds c sh t sh' t') {k : ℕ}
    (hk : k < t.results.length) : t'.results[k]? = t.results[k]? := by
  cases hmove with
  | leave => exact List.getElem?_append_left hk
  | leaveLast => exact List.getElem?_append_left hk
  | _ => rfl

/-- The step of a thread keeps its own watch. -/
theorem own_watch (hmove : BarrierMove p rounds c sh t sh' t')
    (hwatch : ∀ pc, t.pc = .sleep pc → SleepWatch p c sh.machine pc) :
    ∀ pc, t'.pc = .sleep pc → SleepWatch p c sh'.machine pc := by
  intro pc hasleep
  cases hmove with
  | interrupt i pc' hpc =>
      rcases hpc with rfl | ⟨spc, hsleep, rfl⟩
      · exact (hwatch pc hasleep).interrupt
      · cases hasleep
        exact (hwatch spc hsleep).interrupt.onSleeper
  | unlock =>
      cases hasleep
      exact trivial
  | sleep pc' pc'' machine hpc hsleep =>
      cases hasleep
      exact (hwatch pc' hpc).step hsleep rfl
  | _ => cases hasleep

/-- The step of a thread keeps the watch of another. -/
theorem other_watch (hmove : BarrierMove p rounds c sh t sh' t') {d : ι} (hne : d ≠ c)
    {pc : SleepPc} (hwatch : SleepWatch p d sh.machine pc) :
    SleepWatch p d sh'.machine pc := by
  cases hmove with
  | interrupt => exact hwatch.interrupt
  | notify => exact hwatch.store hne
  | wake => exact hwatch.store hne
  | sleep pc' pc'' machine hpc hsleep => exact hwatch.other hne hsleep
  | _ => exact hwatch

end BarrierMove

end

/-- The part of the barrier's invariant that no step has to look after. -/
structure BarrierBase (p : Addr) (n : ThreadCount) (rounds round : ℕ)
    (s : Config (Fin n.val) (BarrierShared (Fin n.val)) BarrierThread) : Prop where
  initCount_eq : s.shared.barrier.initCount = n.word
  thread_ok : ∀ i, (s.threads i).Ok n rounds
  watch : ∀ i pc, (s.threads i).pc = .sleep pc → SleepWatch p i s.shared.machine pc
  round_le : ∀ i, round ≤ (s.threads i).calls
  /-- In every complete round exactly one decrement reached zero. -/
  history : ∀ k < round, ∃! i, (s.threads i).results[k]? = some true

namespace BarrierBase

variable {r : Region} {ptrs : Pointers} {p : Addr}
  {s : Config (Fin n.val) (BarrierShared (Fin n.val)) BarrierThread} {who : Fin n.val}
  {sh : BarrierShared (Fin n.val)} {own : BarrierThread}

theorem init (hinit : barrierInit r ptrs n s) : BarrierBase (r.byte ptrs) n rounds 0 s := by
  obtain ⟨⟨b, hbarrier⟩, -, hthreads⟩ := hinit
  constructor
  case initCount_eq =>
    rw [hbarrier]
    rfl
  case thread_ok =>
    intro i
    rw [hthreads i]
    exact .start
  case watch =>
    intro i pc hpc
    rw [hthreads i] at hpc
    cases hpc
  case round_le => exact fun i => Nat.zero_le _
  case history => exact fun k hk => absurd hk (Nat.not_lt_zero k)

/-- Every result of a complete round is recorded. -/
theorem round_le_length (h : BarrierBase p n rounds round s) (i : Fin n.val) :
    round ≤ (s.threads i).results.length := by
  rw [(h.thread_ok i).results_length]
  exact (h.round_le i).trans (Nat.le_add_right _ _)

theorem step (h : BarrierBase p n rounds round s)
    (hmove : BarrierMove p rounds who s.shared (s.threads who) sh own) :
    BarrierBase p n rounds round (s.move who sh own) := by
  constructor
  case initCount_eq => exact hmove.initCount_eq.trans h.initCount_eq
  case thread_ok =>
    exact fun i => Config.move_cases i
      (fun _ => hmove.ok h.initCount_eq (h.thread_ok who)) (fun _ => h.thread_ok i)
  case watch =>
    intro i
    refine Config.move_cases i (fun hi => ?_)
      (fun hi pc hpc => hmove.other_watch hi (h.watch i pc hpc))
    subst i
    exact hmove.own_watch (h.watch who)
  case round_le =>
    exact fun i => Config.move_cases i (fun _ => (h.round_le who).trans hmove.calls_le)
      (fun _ => h.round_le i)
  case history =>
    intro k hk
    have hsame : ∀ j, ((s.move who sh own).threads j).results[k]? =
        (s.threads j).results[k]? := by
      apply Config.move_threads_eq_of_eq (f := fun t : BarrierThread => t.results[k]?)
      exact hmove.results_getElem? (hk.trans_le (h.round_le_length who))
    simpa only [hsame] using h.history k hk

/-- One more round is complete. -/
theorem succ (h : BarrierBase p n rounds round s)
    (hcalls : ∀ i, round + 1 ≤ (s.threads i).calls)
    (hlast : ∃! i, (s.threads i).results[round]? = some true) :
    BarrierBase p n rounds (round + 1) s where
  initCount_eq := h.initCount_eq
  thread_ok := h.thread_ok
  watch := h.watch
  round_le := hcalls
  history k hk := by
    rcases Nat.lt_succ_iff_lt_or_eq.mp hk with hlt | rfl
    · exact h.history k hlt
    · exact hlast

end BarrierBase

end Htsynch
