/-
# When the sleeper is served

A sleeper is lively if a set flag always lets it go on and its own steps bring it nearer
to clearing it, as long as what it knows of the shared state is sound. Then only overruns
can keep the two parties from finishing: every fair run in which each notification finds
the flag cleared ends with all notifications made and all waits served, and a run with an
overrun never does.
-/

import Htsynch.Foundations.BusyWaiting
import Htsynch.Foundations.Handshake

namespace Htsynch.Foundations

universe u v w

namespace Waiter

variable {Shared : Type u} {Pc : Type v} {Choice : Type w}

/-- Once the flag is set the sleeper's own steps lead to its end. -/
structure Lively (w : Waiter Shared Pc Choice) where
  /-- The choice under which a party takes a step of its own. -/
  own : Choice
  /-- What the sleeper knows in the midst of a wait. -/
  Sound : Shared → Pc → Prop
  /-- How far it is from clearing a flag that is set. -/
  turns : Pc → ℕ
  bound : ℕ
  turns_le : ∀ pc, turns pc ≤ bound
  sound_start : ∀ sh, Sound sh w.start
  sound_notify : ∀ {sh pc}, Sound sh pc → Sound (w.notify sh) pc
  sound_step : ∀ {c pc sh sh' pc'}, Sound sh pc → w.step c pc sh = some (sh', some pc') →
    Sound sh' pc'
  able : ∀ {pc sh}, Sound sh pc → w.Pending sh → (w.step own pc sh).isSome
  turns_step : ∀ {c pc sh sh' pc'}, w.step c pc sh = some (sh', some pc') → w.Pending sh →
    turns pc' ≤ turns pc ∧ (c = own → turns pc' < turns pc)

variable {w : Waiter Shared Pc Choice} (L : w.Lively) {k : ℕ}
  {s t : Config Role Shared (Party Pc)} {sharedInit : Shared → Prop}

/-- All notifications are made and all waits are over. -/
def Complete (k : ℕ) (s : Config Role Shared (Party Pc)) : Prop :=
  (s.threads .notifier).done = k ∧ (s.threads .sleeper).done = k

instance : Decidable (Complete k s) := inferInstanceAs (Decidable (_ ∧ _))

/-- Then nobody can move. -/
theorem Complete.not_able {own : Role → Role × Choice → Prop} (h : Complete k s)
    (hpc : (s.threads .sleeper).pc = none) (i : Role) :
    ¬ (interleave (Initial sharedInit) (w.program k)).Able (own i) s := by
  rintro ⟨⟨who, c⟩, t, -, hstep⟩
  obtain ⟨sh, party, hrun, -⟩ := interleave_step_iff.mp hstep
  cases who with
  | notifier => simp [program, h.1] at hrun
  | sleeper => simp [program, hpc, h.2] at hrun

namespace Lively

/-- What is left for the sleeper: two steps for each wait besides the turns. -/
def sleeperWork (k : ℕ) (t : Party Pc) : ℕ := 2 * (k - t.done) + t.pc.elim 1 fun _ => 0

open Classical in
/-- The turns left in the current wait, if the flag is set. -/
noncomputable def turnsLeft (s : Config Role Shared (Party Pc)) : ℕ :=
  if w.Pending s.shared then (s.threads .sleeper).pc.elim 0 L.turns else 0

/-- The notifications and waits left. -/
def work (k : ℕ) (s : Config Role Shared (Party Pc)) : ℕ :=
  k - (s.threads .notifier).done + sleeperWork k (s.threads .sleeper)

/-- The work left, and below it the turns. -/
noncomputable def rank (k : ℕ) (s : Config Role Shared (Party Pc)) : ℕ :=
  work k s * (L.bound + 1) + L.turnsLeft s

/-- The sleeper must go on while the flag is set, and the notifier while it is not. -/
def Helps (w : Waiter Shared Pc Choice) (k : ℕ) (s : Config Role Shared (Party Pc)) :
    Role → Prop
  | .sleeper => w.Pending s.shared
  | .notifier => ¬ w.Pending s.shared ∧ (s.threads .notifier).done < k

/-- What is known of the states of a run without overruns. -/
structure Served (k : ℕ) (s : Config Role Shared (Party Pc)) : Prop where
  posted_le : (s.threads .notifier).done ≤ k
  pending : w.Pending s.shared →
    (s.threads .notifier).done = (s.threads .sleeper).done + 1
  cleared : ¬ w.Pending s.shared →
    (s.threads .sleeper).done = (s.threads .notifier).done
  sound : ∀ pc, (s.threads .sleeper).pc = some pc → L.Sound s.shared pc
  clearing : ∀ pc, (s.threads .sleeper).pc = some pc → w.Clearing pc → w.Pending s.shared

variable {L} {who : Role} {c : Choice} {sh : Shared} {own : Party Pc}

theorem Served.init (hinit : ∀ sh, sharedInit sh → ¬ w.Pending sh) (hs : Initial sharedInit s) :
    L.Served k s := by
  obtain ⟨hshared, hparties⟩ := hs
  have hcleared := hinit _ hshared
  constructor
  case posted_le => rw [hparties]; exact Nat.zero_le k
  case pending => exact fun hpending => absurd hpending hcleared
  case cleared => intro _; rw [hparties, hparties]
  case sound => intro pc hpc; rw [hparties] at hpc; cases hpc
  case clearing => intro pc hpc; rw [hparties] at hpc; cases hpc

/-- A notification that finds the flag cleared. -/
theorem Served.notify (h : L.Served k s) (hcleared : ¬ w.Pending s.shared)
    (hleft : (s.threads .notifier).done < k) :
    L.Served k (s.move .notifier (w.notify s.shared)
      { s.threads .notifier with done := (s.threads .notifier).done + 1 }) where
  posted_le := by
    rw [Config.move_threads_self]
    exact hleft
  pending _ := by
    rw [Config.move_threads_self, Config.move_threads_of_ne Role.noConfusion,
      h.cleared hcleared]
  cleared hnot := absurd (w.notify_pending _) hnot
  sound pc hpc := by
    rw [Config.move_threads_of_ne Role.noConfusion] at hpc
    exact L.sound_notify (h.sound pc hpc)
  clearing _ _ _ := w.notify_pending _

/-- The sleeper begins a wait. -/
theorem Served.begin (h : L.Served k s) :
    L.Served k (s.move .sleeper s.shared { s.threads .sleeper with pc := some w.start }) where
  posted_le := by
    rw [Config.move_threads_of_ne Role.noConfusion]
    exact h.posted_le
  pending hpending := by
    rw [Config.move_threads_self, Config.move_threads_of_ne Role.noConfusion]
    exact h.pending hpending
  cleared hcleared := by
    rw [Config.move_threads_self, Config.move_threads_of_ne Role.noConfusion]
    exact h.cleared hcleared
  sound pc hpc := by
    rw [Config.move_threads_self] at hpc
    obtain rfl := Option.some.inj hpc
    exact L.sound_start s.shared
  clearing pc hpc hclearing := by
    rw [Config.move_threads_self] at hpc
    obtain rfl := Option.some.inj hpc
    exact absurd hclearing w.start_not_clearing

/-- The sleeper goes on in a wait. -/
theorem Served.wait (h : L.Served k s) {pc pc' : Pc} (hpc : (s.threads .sleeper).pc = some pc)
    (hstep : w.step c pc s.shared = some (sh, some pc')) :
    L.Served k (s.move .sleeper sh { s.threads .sleeper with pc := some pc' }) where
  posted_le := by
    rw [Config.move_threads_of_ne Role.noConfusion]
    exact h.posted_le
  pending hpending := by
    rw [Config.move_threads_self, Config.move_threads_of_ne Role.noConfusion]
    exact h.pending ((w.pending_of_step hstep).mp hpending)
  cleared hcleared := by
    rw [Config.move_threads_self, Config.move_threads_of_ne Role.noConfusion]
    exact h.cleared fun hpending => hcleared ((w.pending_of_step hstep).mpr hpending)
  sound pc'' hpc'' := by
    rw [Config.move_threads_self] at hpc''
    obtain rfl := Option.some.inj hpc''
    exact L.sound_step (h.sound pc hpc) hstep
  clearing pc'' hpc'' hclearing := by
    rw [Config.move_threads_self] at hpc''
    obtain rfl := Option.some.inj hpc''
    refine (w.pending_of_step hstep).mpr ?_
    exact (w.clearing_of_step hstep hclearing).elim (h.clearing pc hpc) id

/-- The sleeper clears the flag. -/
theorem Served.finish (h : L.Served k s)
    (hlast : (s.threads .notifier).done = (s.threads .sleeper).done + 1)
    (hcleared : ¬ w.Pending sh) :
    L.Served k (s.move .sleeper sh ⟨none, (s.threads .sleeper).done + 1⟩) where
  posted_le := by
    rw [Config.move_threads_of_ne Role.noConfusion]
    exact h.posted_le
  pending hpending := absurd hpending hcleared
  cleared _ := by
    rw [Config.move_threads_self, Config.move_threads_of_ne Role.noConfusion, hlast]
  sound pc hpc := by
    rw [Config.move_threads_self] at hpc
    cases hpc
  clearing pc hpc := by
    rw [Config.move_threads_self] at hpc
    cases hpc

/-- What one step of a party can be, with the step of the wait. -/
inductive Stepped (w : Waiter Shared Pc Choice) (k : ℕ) (c : Choice) (sh : Shared)
    (t : Party Pc) : Role → Shared → Party Pc → Prop
  | notify (hleft : t.done < k) :
      Stepped w k c sh t .notifier (w.notify sh) { t with done := t.done + 1 }
  | begin (hpc : t.pc = none) (hleft : t.done < k) :
      Stepped w k c sh t .sleeper sh { t with pc := some w.start }
  | wait (pc pc' : Pc) (sh' : Shared) (hpc : t.pc = some pc)
      (hstep : w.step c pc sh = some (sh', some pc')) :
      Stepped w k c sh t .sleeper sh' { t with pc := some pc' }
  | finish (pc : Pc) (sh' : Shared) (hpc : t.pc = some pc)
      (hstep : w.step c pc sh = some (sh', none)) :
      Stepped w k c sh t .sleeper sh' ⟨none, t.done + 1⟩

theorem program_stepped {sh' : Shared} {t t' : Party Pc}
    (hrun : w.program k who c sh t = some (sh', t')) : Stepped w k c sh t who sh' t' := by
  cases who with
  | notifier =>
      simp only [program, Option.ite_none_right_eq_some, Option.some.injEq,
        Prod.mk.injEq] at hrun
      obtain ⟨hleft, rfl, rfl⟩ := hrun
      exact .notify hleft
  | sleeper =>
      cases hpc : t.pc with
      | none =>
          simp only [program, hpc, Option.ite_none_right_eq_some, Option.some.injEq,
            Prod.mk.injEq] at hrun
          obtain ⟨hleft, rfl, rfl⟩ := hrun
          exact .begin hpc hleft
      | some pc =>
          simp only [program, hpc, Option.map_eq_some_iff, Prod.exists] at hrun
          obtain ⟨sh'', out, hstep, hout⟩ := hrun
          cases out with
          | some pc' =>
              obtain ⟨rfl, rfl⟩ := Prod.mk.inj hout
              exact .wait pc pc' _ hpc hstep
          | none =>
              obtain ⟨rfl, rfl⟩ := Prod.mk.inj hout
              exact .finish pc _ hpc hstep

/-- A step without an overrun. -/
theorem Served.step (h : L.Served k s) (hallow : w.FindsCleared s (who, c))
    (hstep : Stepped w k c s.shared (s.threads who) who sh own) :
    L.Served k (s.move who sh own) := by
  cases hstep with
  | notify hleft => exact h.notify (hallow rfl) hleft
  | begin => exact h.begin
  | wait pc pc' sh' hpc hstep => exact h.wait hpc hstep
  | finish pc sh' hpc hstep =>
      obtain ⟨hclearing, hcleared⟩ := w.clears hstep
      exact h.finish (h.pending (h.clearing pc hpc hclearing)) hcleared

theorem served_of_reachable (hinit : ∀ sh, sharedInit sh → ¬ w.Pending sh)
    (hreach : (interleave (Initial sharedInit) (w.program k)).ReachableVia w.FindsCleared s) :
    L.Served k s :=
  interleave_invariant_via (P := L.Served k) (fun _ => .init hinit)
    (fun _ _ _ _ _ h hallow hrun => h.step hallow (program_stepped hrun)) hreach

theorem turnsLeft_le : L.turnsLeft s ≤ L.bound := by
  unfold turnsLeft
  split
  · cases (s.threads .sleeper).pc with
    | none => exact Nat.zero_le _
    | some pc => exact L.turns_le pc
  · exact Nat.zero_le _

/-- Work that is done lowers the rank, whatever becomes of the turns. -/
theorem rank_lt_of_work (hwork : work k t < work k s) : L.rank k t < L.rank k s := by
  have hturns := L.turnsLeft_le (s := t)
  have hmul := Nat.mul_le_mul_right (L.bound + 1) hwork
  rw [Nat.succ_mul] at hmul
  unfold rank
  omega

/-- Both parties have steps left until they are complete. -/
theorem Served.complete (h : L.Served k s) (hcleared : ¬ w.Pending s.shared)
    (hposted : ¬ (s.threads .notifier).done < k) : Complete k s := by
  have hle := h.posted_le
  have heq := h.cleared hcleared
  exact ⟨by omega, by omega⟩

/-- A party that must go on can. -/
theorem Served.able (h : L.Served k s) {i : Role} (hi : Helps w k s i) :
    (interleave (Initial sharedInit) (w.program k)).Able (Owns (· = L.own) i) s := by
  have hsome : (w.program k i L.own s.shared (s.threads i)).isSome := by
    cases i with
    | notifier => simp [program, hi.2]
    | sleeper =>
        cases hpc : (s.threads .sleeper).pc with
        | none =>
            have hposted := h.pending hi
            have hle := h.posted_le
            have hless : (s.threads .sleeper).done < k := by omega
            simp [program, hpc, hless]
        | some pc =>
            have hable := L.able (h.sound pc hpc) hi
            simpa [program, hpc] using hable
  obtain ⟨⟨sh, own⟩, hrun⟩ := Option.isSome_iff_exists.mp hsome
  exact ⟨(i, L.own), s.move i sh own, ⟨rfl, rfl⟩, interleave_step_iff.mpr ⟨sh, own, hrun, rfl⟩⟩

/-- A step of a wait brings the sleeper nearer to its end, if the flag is set. -/
theorem wait_rank {pc pc' : Pc} (hpc : (s.threads .sleeper).pc = some pc)
    (hstep : w.step c pc s.shared = some (sh, some pc')) :
    L.rank k (s.move .sleeper sh { s.threads .sleeper with pc := some pc' }) ≤ L.rank k s ∧
      (w.Pending s.shared → c = L.own →
        L.rank k (s.move .sleeper sh { s.threads .sleeper with pc := some pc' }) <
          L.rank k s) := by
  have hwork : work k (s.move .sleeper sh { s.threads .sleeper with pc := some pc' }) =
      work k s := by
    simp [work, sleeperWork, hpc, Config.move_threads_of_ne]
  have hsame := w.pending_of_step hstep
  unfold rank turnsLeft
  rw [hwork, Config.move_shared, Config.move_threads_self, hpc]
  by_cases hpending : w.Pending s.shared
  · obtain ⟨hle, hlt⟩ := L.turns_step hstep hpending
    rw [if_pos hpending, if_pos (hsame.mpr hpending)]
    exact ⟨Nat.add_le_add_left hle _, fun _ hown => Nat.add_lt_add_left (hlt hown) _⟩
  · rw [if_neg hpending, if_neg fun h => hpending (hsame.mp h)]
    exact ⟨le_rfl, fun h => absurd h hpending⟩

/-- Without overruns the parties come nearer to the end. -/
theorem descent (L : w.Lively) (k : ℕ) :
    System.Descent (interleave (Initial sharedInit) (w.program k)) w.FindsCleared
      (Owns (· = L.own)) (L.Served k) (Complete k) (L.rank k) (Helps w k) where
  helper s h hleft := by
    by_cases hpending : w.Pending s.shared
    · exact ⟨.sleeper, hpending⟩
    · exact ⟨.notifier, hpending, by_contra fun hposted => hleft (h.complete hpending hposted)⟩
  able s i h hi := h.able hi
  down := by
    rintro s i ⟨who, c⟩ t h hi hallow hstep
    obtain ⟨sh, own, hrun, rfl⟩ := interleave_step_iff.mp hstep
    dsimp only at hrun ⊢
    cases program_stepped hrun with
    | notify hleft =>
        refine .inl (rank_lt_of_work ?_)
        simp only [work, Config.move_threads_self, Config.move_threads_of_ne, ne_eq,
          reduceCtorEq, not_false_eq_true]
        omega
    | begin hpc hleft =>
        refine .inl (rank_lt_of_work ?_)
        simp [work, sleeperWork, hpc, Config.move_threads_of_ne]
    | wait pc pc' sh' hpc hwait =>
        obtain ⟨hle, hlt⟩ := wait_rank (L := L) (k := k) hpc hwait
        rcases hle.lt_or_eq with hless | heq
        · exact .inl hless
        · refine .inr ⟨?_, heq, ?_⟩
          · rintro ⟨rfl, rfl⟩
            exact (hlt hi rfl).ne heq
          · cases i with
            | sleeper => exact (w.pending_of_step hwait).mpr hi
            | notifier =>
                refine ⟨fun hpending => hi.1 ((w.pending_of_step hwait).mp hpending), ?_⟩
                rw [Config.move_threads_of_ne Role.noConfusion]
                exact hi.2
    | finish pc sh' hpc hwait =>
        have hposted := h.pending (h.clearing pc hpc (w.clears hwait).1)
        have hle := h.posted_le
        refine .inl (rank_lt_of_work ?_)
        simp only [work, sleeperWork, hpc, Config.move_threads_self, Config.move_threads_of_ne,
          ne_eq, reduceCtorEq, not_false_eq_true, Option.elim_none, Option.elim_some]
        omega

/-- Once all notifications are made there are no more. -/
theorem posted_stays {label : Role × Choice} (hdone : ¬ (s.threads .notifier).done < k)
    (hstep : (interleave (Initial sharedInit) (w.program k)).step s label t) :
    ¬ (t.threads .notifier).done < k := by
  obtain ⟨who, c⟩ := label
  obtain ⟨sh, own, hrun, rfl⟩ := interleave_step_iff.mp hstep
  cases program_stepped hrun with
  | notify hleft => exact absurd hleft hdone
  | begin => rwa [Config.move_threads_of_ne Role.noConfusion]
  | wait => rwa [Config.move_threads_of_ne Role.noConfusion]
  | finish => rwa [Config.move_threads_of_ne Role.noConfusion]

/-- A fair run completes exactly if it has no overrun. -/
theorem completes_iff (L : w.Lively) (hinit : ∀ sh, sharedInit sh → ¬ w.Pending sh)
    (e : System.Execution (interleave (Initial sharedInit) (w.program k)) fun _ _ => True)
    (hfair : e.Fair (Owns (· = L.own))) :
    (∃ n, Complete k (e.state n)) ↔
      ∀ n l, e.label n = some l → w.FindsCleared (e.state n) l := by
  constructor
  · rintro ⟨n, hposted, htaken⟩ m ⟨who, c⟩ hl hwho hpending
    obtain rfl : who = .notifier := hwho
    rcases e.step m with ⟨hnone, -⟩ | ⟨l, hl', -, hstep⟩
    · rw [hl] at hnone
      cases hnone
    obtain rfl := Option.some.inj (hl.symm.trans hl')
    rcases Nat.lt_or_ge m n with hmn | hnm
    · have hbehind := done_lt_of_overrun hinit (e.reachable m) hpending hstep (e.reaches hmn)
      omega
    · have hdone : ¬ ((e.state m).threads .notifier).done < k :=
        e.stays (P := fun s => ¬ (s.threads .notifier).done < k)
          (fun _ _ _ hdone _ hstep => posted_stays hdone hstep) (by omega) hnm
      obtain ⟨sh, own, hrun, -⟩ := interleave_step_iff.mp hstep
      cases program_stepped hrun with
      | notify hleft => exact hdone hleft
  · intro hcleared
    have hallow (n : ℕ) (l : Role × Choice) (_ : 0 ≤ n) (hl : e.label n = some l) :=
      hcleared n l hl
    let e' := e.toPath.drop 0 hallow
    have hstart : (interleave (Initial sharedInit) (w.program k)).init (e'.state 0) := e.init
    obtain ⟨n, -, hdone⟩ := (L.descent k).eventually (hfair.drop hallow)
      (fun n => served_of_reachable hinit
        (System.Execution.reachableVia ⟨e', hstart⟩ n)) 0
    exact ⟨0 + n, hdone⟩

end Lively

end Waiter

end Htsynch.Foundations
