/-
# One notifier, one sleeper, one flag

The sleeper waits until it sees the flag pending and then clears it; the notifier
makes it pending without looking. Both do so the same number of times. Whatever the
flag is made of, this is an event with one slot: a notification that finds the flag
pending is lost. Without such overruns the sleeper is served as often as it was
notified, and with one it stays behind for good.
-/

import Htsynch.Foundations.Event
import Htsynch.Foundations.Interleaving

namespace Htsynch.Foundations

universe u v w

/-- How a sleeper waits for a flag in a shared state and clears it. -/
structure Waiter (Shared : Type u) (Pc : Type v) (Choice : Type w) where
  /-- Where a wait begins. -/
  start : Pc
  /-- One step of a wait; it is over when no place is left to go to. -/
  step : Choice → Pc → Shared → Option (Shared × Option Pc)
  /-- What the notifier does. -/
  notify : Shared → Shared
  /-- The flag is set. -/
  Pending : Shared → Prop
  /-- The sleeper has seen the flag and is about to clear it. -/
  Clearing : Pc → Prop
  notify_pending : ∀ sh, Pending (notify sh)
  start_not_clearing : ¬ Clearing start
  pending_of_step : ∀ {c pc sh sh' pc'}, step c pc sh = some (sh', some pc') →
    (Pending sh' ↔ Pending sh)
  clearing_of_step : ∀ {c pc sh sh' pc'}, step c pc sh = some (sh', some pc') →
    Clearing pc' → Clearing pc ∨ Pending sh
  clears : ∀ {c pc sh sh'}, step c pc sh = some (sh', none) → Clearing pc ∧ ¬ Pending sh'

/-- The two parties. -/
inductive Role
  | notifier
  | sleeper
  deriving DecidableEq

/-- A party: where it is in a wait, and how many notifications or waits it has
completed. -/
structure Party (Pc : Type u) where
  pc : Option Pc
  done : ℕ
  deriving DecidableEq

namespace Waiter

variable {Shared : Type u} {Pc : Type v} {Choice : Type w} (w : Waiter Shared Pc Choice)
  (k : ℕ)

/-- Both parties do their part `k` times. -/
def program : Program Role Shared (Party Pc) Choice
  | .notifier, _, sh, t =>
      if t.done < k then some (w.notify sh, { t with done := t.done + 1 }) else none
  | .sleeper, c, sh, t =>
      match t.pc with
      | none => if t.done < k then some (sh, { t with pc := some w.start }) else none
      | some pc =>
          (w.step c pc sh).map fun r =>
            match r.2 with
            | some pc' => (r.1, { t with pc := some pc' })
            | none => (r.1, ⟨none, t.done + 1⟩)

/-- Nobody has started and the shared state is as given. -/
def Initial (sharedInit : Shared → Prop) (s : Config Role Shared (Party Pc)) : Prop :=
  sharedInit s.shared ∧ ∀ r, s.threads r = ⟨none, 0⟩

/-- The notifier finds the flag cleared. -/
def FindsCleared (s : Config Role Shared (Party Pc)) (label : Role × Choice) : Prop :=
  label.1 = .notifier → ¬ w.Pending s.shared

instance [DecidablePred w.Pending] (s : Config Role Shared (Party Pc))
    (label : Role × Choice) : Decidable (w.FindsCleared s label) :=
  inferInstanceAs (Decidable (_ → ¬ _))

/-- What a state says about the event. -/
structure Describes (s : Config Role Shared (Party Pc)) (e : Event) : Prop where
  pending_iff : e.pending = true ↔ w.Pending s.shared
  posted_eq : e.posted = (s.threads .notifier).done
  taken_eq : e.taken = (s.threads .sleeper).done
  /-- Only the sleeper clears the flag. -/
  clearing : ∀ pc, (s.threads .sleeper).pc = some pc → w.Clearing pc → w.Pending s.shared

variable {w k} {s : Config Role Shared (Party Pc)} {sharedInit : Shared → Prop}

/-- What one step of a party can be. -/
inductive Move (w : Waiter Shared Pc Choice) (sh : Shared) (t : Party Pc) :
    Role → Shared → Party Pc → Prop
  | notify : Move w sh t .notifier (w.notify sh) { t with done := t.done + 1 }
  | begin (hpc : t.pc = none) : Move w sh t .sleeper sh { t with pc := some w.start }
  | wait (pc pc' : Pc) (sh' : Shared) (hpc : t.pc = some pc)
      (hpending : w.Pending sh' ↔ w.Pending sh)
      (hclearing : w.Clearing pc' → w.Clearing pc ∨ w.Pending sh) :
      Move w sh t .sleeper sh' { t with pc := some pc' }
  | finish (pc : Pc) (sh' : Shared) (hpc : t.pc = some pc) (hclearing : w.Clearing pc)
      (hcleared : ¬ w.Pending sh') : Move w sh t .sleeper sh' ⟨none, t.done + 1⟩

theorem program_cases {who : Role} {c : Choice} {sh sh' : Shared} {t t' : Party Pc}
    (hstep : w.program k who c sh t = some (sh', t')) : Move w sh t who sh' t' := by
  cases who with
  | notifier =>
      simp only [program, Option.ite_none_right_eq_some, Option.some.injEq,
        Prod.mk.injEq] at hstep
      obtain ⟨-, rfl, rfl⟩ := hstep
      exact .notify
  | sleeper =>
      cases hpc : t.pc with
      | none =>
          simp only [program, hpc, Option.ite_none_right_eq_some, Option.some.injEq,
            Prod.mk.injEq] at hstep
          obtain ⟨-, rfl, rfl⟩ := hstep
          exact .begin hpc
      | some pc =>
          simp only [program, hpc, Option.map_eq_some_iff, Prod.exists] at hstep
          obtain ⟨sh'', out, hrun, hout⟩ := hstep
          cases out with
          | some pc' =>
              obtain ⟨rfl, rfl⟩ := Prod.mk.inj hout
              exact .wait pc pc' _ hpc (w.pending_of_step hrun) (w.clearing_of_step hrun)
          | none =>
              obtain ⟨rfl, rfl⟩ := Prod.mk.inj hout
              obtain ⟨hclearing, hcleared⟩ := w.clears hrun
              exact .finish pc _ hpc hclearing hcleared

/-- A notification is a post, lost or not. -/
theorem Describes.notify {e : Event} (h : w.Describes s e) :
    w.Describes (s.move .notifier (w.notify s.shared)
        { s.threads .notifier with done := (s.threads .notifier).done + 1 })
      ⟨true, e.posted + 1, e.taken, e.lost + e.pending.toNat⟩ where
  pending_iff := iff_of_true rfl (w.notify_pending _)
  posted_eq := by simp [h.posted_eq]
  taken_eq := by simpa [Config.move] using h.taken_eq
  clearing := fun _ _ _ => w.notify_pending _

/-- Every step of a party is a step of the event or none. -/
theorem Move.exists_step {who : Role} {sh : Shared} {t : Party Pc}
    (hmove : Move w s.shared (s.threads who) who sh t) {e : Event} (h : w.Describes s e) :
    ∃ e', w.Describes (s.move who sh t) e' ∧
      (e' = e ∨ ∃ action, (action = .post → who = .notifier) ∧ Event.system.step e action e') := by
  cases hmove with
  | notify => exact ⟨_, h.notify, .inr ⟨.post, fun _ => rfl, rfl⟩⟩
  | begin hpc =>
      refine ⟨e, ⟨h.pending_iff, ?_, ?_, ?_⟩, .inl rfl⟩
      · simpa [Config.move] using h.posted_eq
      · simpa using h.taken_eq
      · intro pc hstart hclearing
        obtain rfl : w.start = pc := by simpa using hstart
        exact absurd hclearing w.start_not_clearing
  | wait pc pc' sh' hpc hpending hclearing =>
      refine ⟨e, ⟨h.pending_iff.trans hpending.symm, ?_, ?_, ?_⟩, .inl rfl⟩
      · simpa [Config.move] using h.posted_eq
      · simpa using h.taken_eq
      · intro pc'' hplace hclear
        obtain rfl : pc' = pc'' := by simpa using hplace
        rcases hclearing hclear with hold | hold
        · exact hpending.mpr (h.clearing pc hpc hold)
        · exact hpending.mpr hold
  | finish pc sh' hpc hclearing hcleared =>
      have hpending := h.pending_iff.mpr (h.clearing pc hpc hclearing)
      refine ⟨⟨false, e.posted, e.taken + 1, e.lost⟩, ⟨?_, ?_, ?_, ?_⟩,
        .inr ⟨.take, fun hpost => ?_, hpending, rfl⟩⟩
      · exact iff_of_false Bool.false_ne_true hcleared
      · simpa [Config.move] using h.posted_eq
      · simp [h.taken_eq]
      · intro pc' hplace
        simp at hplace
      · cases hpost

/-- The two parties refine the event, for every condition on their steps that
carries over to the posts. -/
theorem simulates_event (hinit : ∀ sh, sharedInit sh → ¬ w.Pending sh)
    {allow : Config Role Shared (Party Pc) → Role × Choice → Prop}
    {allow' : Event → Event.Action → Prop}
    (hallow : ∀ s e label action, w.Describes s e → allow s label →
      (action = .post → label.1 = .notifier) → allow' e action) :
    System.Simulates (interleave (Initial sharedInit) (w.program k)) allow
      Event.system allow' w.Describes where
  init s hs := by
    obtain ⟨hshared, hparties⟩ := hs
    refine ⟨⟨false, 0, 0, 0⟩, rfl, ⟨?_, ?_, ?_, ?_⟩⟩
    · exact iff_of_false nofun (hinit _ hshared)
    · rw [hparties]
    · rw [hparties]
    · intro pc hpc
      rw [hparties] at hpc
      cases hpc
  step s label t e hR hlabel hs := by
    obtain ⟨sh, own, hrun, rfl⟩ := interleave_step_iff.mp hs
    obtain ⟨e', hR', hsame | ⟨action, hpost, hstep⟩⟩ := (program_cases hrun).exists_step hR
    · exact ⟨e', hR', .inl hsame⟩
    · exact ⟨e', hR', .inr ⟨action, hallow s e label action hR hlabel hpost, hstep⟩⟩

/-- While the notifier always finds the flag cleared, a cleared flag means that the
sleeper was served as often as it was notified. -/
theorem done_eq_of_not_pending (hinit : ∀ sh, sharedInit sh → ¬ w.Pending sh)
    (hreach : (interleave (Initial sharedInit) (w.program k)).ReachableVia w.FindsCleared s)
    (hcleared : ¬ w.Pending s.shared) :
    (s.threads .sleeper).done = (s.threads .notifier).done := by
  have hsim : System.Simulates (interleave (Initial sharedInit) (w.program k)) w.FindsCleared
      Event.system Event.NoOverrun w.Describes := by
    apply simulates_event hinit
    intro s e label action hR hfinds hpost haction
    have hnot := hfinds (hpost haction)
    rw [← hR.pending_iff] at hnot
    simpa using hnot
  obtain ⟨e, he, hR⟩ := hsim.reachable hreach
  have hpending : e.pending = false := by
    rw [← hR.pending_iff] at hcleared
    simpa using hcleared
  rw [← hR.taken_eq, ← hR.posted_eq]
  exact Event.taken_eq_posted he hpending

/-- A notification that finds the flag pending leaves the sleeper behind for good. -/
theorem done_lt_of_overrun (hinit : ∀ sh, sharedInit sh → ¬ w.Pending sh)
    (hreach : (interleave (Initial sharedInit) (w.program k)).Reachable s)
    (hpending : w.Pending s.shared) {c : Choice} {t u : Config Role Shared (Party Pc)}
    (hstep : (w.program k).next s (.notifier, c) = some t)
    (hpath : Relation.ReflTransGen
      ((interleave (Initial sharedInit) (w.program k)).Next fun _ _ => True) t u) :
    (u.threads .sleeper).done < (u.threads .notifier).done := by
  have hsim : System.Simulates (interleave (Initial sharedInit) (w.program k))
      (fun _ _ => True) Event.system (fun _ _ => True) w.Describes :=
    simulates_event hinit fun _ _ _ _ _ _ _ => trivial
  obtain ⟨e, he, hR⟩ := hsim.reachable hreach
  obtain ⟨sh, own, hrun, rfl⟩ := interleave_step_iff.mp
    (show (interleave (Initial sharedInit) (w.program k)).step s _ t from hstep)
  cases program_cases hrun with
  | notify =>
      have hposted := he.step trivial (show Event.system.step e .post _ from rfl)
      obtain ⟨e', he', hR'⟩ := hsim.path hR.notify hpath
      have hlost : 0 < e'.lost := by
        apply Event.lost_pos_of_path _ he'
        simp [hR.pending_iff.mpr hpending]
      rw [← hR'.taken_eq, ← hR'.posted_eq]
      obtain ⟨start, hstart, hbefore⟩ := hposted
      exact Event.taken_lt_posted ⟨start, hstart, hbefore.trans he'⟩ hlost

end Waiter

end Htsynch.Foundations
