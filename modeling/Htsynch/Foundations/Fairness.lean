/-
# Fair runs

A run goes on for ever, and where nobody moves the state stays as it is. It is fair when
a party that can move from some time on moves again; how soon is left open. A party owns
some of the labels, and is only obliged to take a step that it owns.

`Descent` turns the absence of deadlock into progress. In every state that is not yet good
somebody helps: its own steps lower a rank, and whatever the others do either lowers the
rank too or leaves the rank and the helper alone. Every fair run then becomes good. The
rank may have two levels: work that is done once, and turns of a loop that are only known
to end while the shared state does not change.
-/

import Htsynch.Foundations.Interleaving
import Htsynch.Foundations.Unwinding
import Mathlib.Algebra.Order.BigOperators.Group.Finset
import Mathlib.Data.Fintype.BigOperators

namespace Htsynch.Foundations

universe u v w x y z

namespace System

variable {State : Type u} {Label : Type v} {ι : Type w}

/-- Somebody who owns the labels `mine` can move. -/
def Able (S : System State Label) (mine : Label → Prop) (s : State) : Prop :=
  ∃ l t, mine l ∧ S.step s l t

/-- An infinite run from anywhere. -/
structure Path (S : System State Label) (allow : State → Label → Prop) where
  state : ℕ → State
  /-- The label of the step at each time, if one is taken. -/
  label : ℕ → Option Label
  step : ∀ n, label n = none ∧ state (n + 1) = state n ∨
    ∃ l, label n = some l ∧ allow (state n) l ∧ S.step (state n) l (state (n + 1))

/-- An infinite run from a state the system may start in. -/
structure Execution (S : System State Label) (allow : State → Label → Prop)
    extends Path S allow where
  init : S.init (state 0)

variable {S : System State Label} {allow allow' : State → Label → Prop}
  {own : ι → Label → Prop}

namespace Path

/-- Whoever can move from some time on moves again. -/
def Fair (e : Path S allow) (own : ι → Label → Prop) : Prop :=
  ∀ i n, (∀ m, n ≤ m → S.Able (own i) (e.state m)) →
    ∃ m l, n ≤ m ∧ own i l ∧ e.label m = some l

/-- The run from a later time on, when its steps are known to be of another kind. -/
def drop (e : Path S allow) (start : ℕ)
    (hallow : ∀ m l, start ≤ m → e.label m = some l → allow' (e.state m) l) :
    Path S allow' where
  state n := e.state (start + n)
  label n := e.label (start + n)
  step n := (e.step (start + n)).imp id fun ⟨l, hl, _, hstep⟩ =>
    ⟨l, hl, hallow _ l (Nat.le_add_right start n) hl, hstep⟩

theorem Fair.drop {e : Path S allow} (hfair : e.Fair own) {start : ℕ}
    (hallow : ∀ m l, start ≤ m → e.label m = some l → allow' (e.state m) l) :
    (e.drop start hallow).Fair own := by
  intro i n hable
  obtain ⟨m, l, hm, hown, hl⟩ := hfair i (start + n) fun m hm => by
    have hlater := hable (m - start) (by omega)
    have hsum : start + (m - start) = m := by omega
    simpa only [Path.drop, hsum] using hlater
  refine ⟨m - start, l, by omega, hown, ?_⟩
  have hsum : start + (m - start) = m := by omega
  simpa only [Path.drop, hsum] using hl

/-- What every step keeps stays true. -/
theorem stays (e : Path S allow) {P : State → Prop}
    (hkeep : ∀ s l t, P s → allow s l → S.step s l t → P t) {m k : ℕ} (hm : P (e.state m))
    (hk : m ≤ k) : P (e.state k) := by
  induction k, hk using Nat.le_induction with
  | base => exact hm
  | succ k _ ih =>
      rcases e.step k with ⟨-, hsame⟩ | ⟨l, -, hallow, hstep⟩
      · rwa [hsame]
      · exact hkeep _ l _ ih hallow hstep

/-- Later states are reached from earlier ones. -/
theorem reaches (e : Path S allow) {m k : ℕ} (hk : m ≤ k) :
    Relation.ReflTransGen (S.Next allow) (e.state m) (e.state k) := by
  induction k, hk using Nat.le_induction with
  | base => exact .refl
  | succ k _ ih =>
      rcases e.step k with ⟨-, hsame⟩ | ⟨l, -, hallow, hstep⟩
      · rwa [hsame]
      · exact ih.tail ⟨l, hallow, hstep⟩

end Path

/-- Every state of a run is reachable. -/
theorem Execution.reachableVia (e : Execution S allow) (n : ℕ) :
    S.ReachableVia allow (e.state n) := by
  induction n with
  | zero => exact .of_init e.init
  | succ n ih =>
      rcases e.step n with ⟨-, hsame⟩ | ⟨l, -, hallow, hstep⟩
      · rwa [hsame]
      · exact ih.step hallow hstep

theorem Execution.reachable (e : Execution S allow) (n : ℕ) : S.Reachable (e.state n) :=
  (e.reachableVia n).reachable

/-- The same run, when its steps are known to be of another kind too. -/
def Execution.restrict (e : Execution S allow)
    (hallow : ∀ n l, e.label n = some l → allow' (e.state n) l) :
    Execution S fun s l => allow s l ∧ allow' s l where
  state := e.state
  label := e.label
  init := e.init
  step n := (e.step n).imp id fun ⟨l, hl, hold, hstep⟩ => ⟨l, hl, ⟨hold, hallow n l hl⟩, hstep⟩

theorem Path.Fair.restrict {e : Execution S allow} (hfair : e.Fair own)
    {hallow : ∀ n l, e.label n = some l → allow' (e.state n) l} :
    (e.restrict hallow).Fair own :=
  hfair

/-- Where the goal is not reached somebody helps, and nobody undoes it. -/
structure Descent (S : System State Label) (allow : State → Label → Prop)
    (own : ι → Label → Prop) (Inv Goal : State → Prop) (rank : State → ℕ)
    (Helps : State → ι → Prop) : Prop where
  helper : ∀ s, Inv s → ¬ Goal s → ∃ i, Helps s i
  able : ∀ s i, Inv s → Helps s i → S.Able (own i) s
  down : ∀ s i l t, Inv s → Helps s i → allow s l → S.step s l t →
    rank t < rank s ∨ ¬ own i l ∧ rank t = rank s ∧ Helps t i

namespace Descent

variable {Inv Goal : State → Prop} {rank : State → ℕ} {Helps : State → ι → Prop}
  {e : Path S allow}

/-- As long as the rank stays, so does the helper. -/
theorem helps (h : Descent S allow own Inv Goal rank Helps) (hinv : ∀ n, Inv (e.state n))
    {i : ι} {start : ℕ} (hi : Helps (e.state start) i)
    (hstay : ∀ m, start ≤ m → rank (e.state start) ≤ rank (e.state m)) {m : ℕ}
    (hm : start ≤ m) :
    Helps (e.state m) i ∧ rank (e.state m) = rank (e.state start) := by
  induction m, hm using Nat.le_induction with
  | base => exact ⟨hi, rfl⟩
  | succ m hm ih =>
      obtain ⟨hhelps, hrank⟩ := ih
      rcases e.step m with ⟨-, hsame⟩ | ⟨l, -, hallow, hstep⟩
      · rw [hsame]
        exact ⟨hhelps, hrank⟩
      · rcases h.down _ i l _ (hinv m) hhelps hallow hstep with hlt | ⟨-, heq, hnext⟩
        · have hle := hstay (m + 1) (Nat.le_succ_of_le hm)
          omega
        · exact ⟨hnext, heq.trans hrank⟩

/-- While somebody helps the rank does not stay. -/
theorem exists_lt (h : Descent S allow own Inv Goal rank Helps) (hfair : e.Fair own)
    (hinv : ∀ n, Inv (e.state n)) {i : ι} {start : ℕ} (hi : Helps (e.state start) i) :
    ∃ m, start ≤ m ∧ rank (e.state m) < rank (e.state start) := by
  by_contra hnone
  push Not at hnone
  have hhelps {m : ℕ} (hm : start ≤ m) := h.helps hinv hi hnone hm
  obtain ⟨m, l, hm, hown, hl⟩ :=
    hfair i start fun m hm => h.able _ i (hinv m) (hhelps hm).1
  rcases e.step m with ⟨hnone', -⟩ | ⟨l', hl', hallow, hstep⟩
  · rw [hl] at hnone'
    cases hnone'
  · obtain rfl : l = l' := Option.some.inj (hl.symm.trans hl')
    rcases h.down _ i l _ (hinv m) (hhelps hm).1 hallow hstep with hlt | ⟨hother, -⟩
    · have hle := hnone (m + 1) (Nat.le_succ_of_le hm)
      have heq := (hhelps hm).2
      omega
    · exact hother hown

/-- Every fair run reaches the goal, from any time on. -/
theorem eventually (h : Descent S allow own Inv Goal rank Helps) (hfair : e.Fair own)
    (hinv : ∀ n, Inv (e.state n)) (start : ℕ) : ∃ m, start ≤ m ∧ Goal (e.state m) := by
  by_cases hgoal : Goal (e.state start)
  · exact ⟨start, le_rfl, hgoal⟩
  obtain ⟨i, hi⟩ := h.helper _ (hinv start) hgoal
  obtain ⟨m, hm, hlt⟩ := h.exists_lt hfair hinv hi
  obtain ⟨k, hk, hdone⟩ := h.eventually hfair hinv m
  exact ⟨k, hm.trans hk, hdone⟩
termination_by rank (e.state start)

/-- Where every step is allowed some run reaches the goal. -/
theorem exists_path (h : Descent S allow own Inv Goal rank Helps) (hallow : ∀ s l, allow s l)
    {s : State} (hinv : ∀ t, Relation.ReflTransGen (S.Next allow) s t → Inv t) :
    ∃ t, Relation.ReflTransGen (S.Next allow) s t ∧ Goal t := by
  by_cases hgoal : Goal s
  · exact ⟨s, .refl, hgoal⟩
  have hs := hinv s .refl
  obtain ⟨i, hi⟩ := h.helper s hs hgoal
  obtain ⟨l, t, hown, hstep⟩ := h.able s i hs hi
  have hnext : S.Next allow s t := ⟨l, hallow s l, hstep⟩
  rcases h.down s i l t hs hi (hallow s l) hstep with hlt | ⟨hother, -⟩
  · obtain ⟨u, hpath, hdone⟩ := h.exists_path hallow fun u hu => hinv u (.head hnext hu)
    exact ⟨u, .head hnext hpath, hdone⟩
  · exact absurd hown hother
termination_by rank s

end Descent

namespace Unwinding

variable {State' : Type x} {Label' : Type y} {κ : Type z} {S' : System State' Label'}
  {proj : Label → Option Label'} {R : State' → State → Prop} {own' : κ → Label' → Prop}

/-- One time step of what is left. -/
theorem next (hunwind : Unwinding S S' proj R) (e : Path S allow) {n : ℕ} {s' : State'}
    (hs : R s' (e.state n)) :
    ∃ t', R t' (e.state (n + 1)) ∧
      ((e.label n).bind proj = none ∧ t' = s' ∨
        ∃ l', (e.label n).bind proj = some l' ∧ S'.step s' l' t') := by
  rcases e.step n with ⟨hl, hsame⟩ | ⟨l, hl, -, hstep⟩
  · exact ⟨s', hsame ▸ hs, .inl ⟨by rw [hl, Option.bind_none], rfl⟩⟩
  · rw [hl, Option.bind_some]
    cases hproj : proj l with
    | none => exact ⟨s', hunwind.erase hs hstep hproj, .inl ⟨rfl, rfl⟩⟩
    | some l' =>
        obtain ⟨t', hstep', ht⟩ := hunwind.keep hs hstep hproj
        exact ⟨t', ht, .inr ⟨l', rfl, hstep'⟩⟩

/-- What is left of an infinite run goes along with it. -/
theorem path (hunwind : Unwinding S S' proj R) (e : Path S allow) {start' : State'}
    (hstart : R start' (e.state 0)) :
    ∃ e' : Path S' fun _ _ => True, e'.state 0 = start' ∧ (∀ n, R (e'.state n) (e.state n)) ∧
      ∀ n, e'.label n = (e.label n).bind proj := by
  choose follow hfollow hmoves using fun (n : ℕ) (s' : { s' // R s' (e.state n) }) =>
    hunwind.next e s'.2
  let along : (n : ℕ) → { s' // R s' (e.state n) } :=
    fun n => Nat.rec ⟨start', hstart⟩ (fun n s' => ⟨follow n s', hfollow n s'⟩) n
  refine ⟨⟨fun n => (along n).1, fun n => (e.label n).bind proj, fun n => ?_⟩, rfl,
    fun n => (along n).2, fun _ => rfl⟩
  exact (hmoves n (along n)).imp id fun ⟨l', hl', hstep'⟩ => ⟨l', hl', trivial, hstep'⟩

/-- What is left of a fair run is fair to those whose steps are kept. -/
theorem fair_path (hunwind : Unwinding S S' proj R) {e : Path S allow} (hfair : e.Fair own)
    {start' : State'} (hstart : R start' (e.state 0)) (f : κ → ι)
    (hable : ∀ k s' s, R s' s → S'.Able (own' k) s' → S.Able (own (f k)) s)
    (hkept : ∀ k l, own (f k) l → ∃ l', proj l = some l' ∧ own' k l') :
    ∃ e' : Path S' fun _ _ => True, e'.state 0 = start' ∧ (∀ n, R (e'.state n) (e.state n)) ∧
      e'.Fair own' := by
  obtain ⟨e', hinit, hrel, hlabel⟩ := hunwind.path e hstart
  refine ⟨e', hinit, hrel, fun k n hcan => ?_⟩
  obtain ⟨m, l, hm, hown, hl⟩ :=
    hfair (f k) n fun m hm => hable k _ _ (hrel m) (hcan m hm)
  obtain ⟨l', hl', hown'⟩ := hkept k l hown
  exact ⟨m, l', hm, hown', by rw [hlabel, hl, Option.bind_some, hl']⟩

end Unwinding

section Schedule

variable {init : State → Prop} {next : State → Label → Option State}

/-- One step, or none where the label is not enabled. -/
def advance (next : State → Label → Option State) (s : State) : Option Label → State
  | none => s
  | some l => (next s l).getD s

/-- The states that a schedule leads through. -/
def stateAt (next : State → Label → Option State) (s : State) (labels : ℕ → Option Label) :
    ℕ → State
  | 0 => s
  | n + 1 => advance next (stateAt next s labels n) (labels n)

theorem stateAt_succ {s : State} {labels : ℕ → Option Label} (n : ℕ) :
    stateAt next s labels (n + 1) =
      stateAt next (advance next s (labels 0)) (fun k => labels (k + 1)) n := by
  induction n with
  | zero => rfl
  | succ n ih =>
      rw [stateAt, ih]
      rfl

/-- A list of labels leads where its replay leads. -/
theorem stateAt_of_length_le : ∀ (labels : List Label) {s : State} {n : ℕ},
    labels.length ≤ n → stateAt next s (labels[·]?) n = exec next s labels
  | [], s, n, _ => by
      induction n with
      | zero => rfl
      | succ n ih => rw [stateAt, ih (Nat.zero_le n)]; rfl
  | l :: ls, s, n, hn => by
      obtain ⟨m, rfl⟩ : ∃ m, n = m + 1 := ⟨n - 1, by simp at hn; omega⟩
      rw [stateAt_succ]
      exact stateAt_of_length_le ls (by simpa using hn)

/-- The run of a schedule; labels that are not enabled or not allowed are skipped. -/
def scheduled (allow : State → Label → Prop) [∀ s l, Decidable (allow s l)]
    (next : State → Label → Option State) (s : State) (hinit : init s)
    (labels : ℕ → Option Label) : Execution (ofNext init next) allow where
  state := stateAt (guarded allow next) s labels
  label n := (labels n).filter fun l =>
    (guarded allow next (stateAt (guarded allow next) s labels n) l).isSome
  init := hinit
  step n := by
    cases hl : labels n with
    | none => exact .inl ⟨rfl, by rw [stateAt, hl]; rfl⟩
    | some l =>
        cases hnext : guarded allow next (stateAt (guarded allow next) s labels n) l with
        | none =>
            refine .inl ⟨by simp [hnext], ?_⟩
            rw [stateAt, hl]
            simp [advance, hnext]
        | some t =>
            have htarget : stateAt (guarded allow next) s labels (n + 1) = t := by
              rw [stateAt, hl]
              simp [advance, hnext]
            rw [htarget]
            simp only [guarded, Option.ite_none_right_eq_some] at hnext
            exact .inr ⟨l, by simp [guarded, hnext], hnext.1, hnext.2⟩

/-- A schedule that ends where nobody can move is fair. -/
theorem fair_scheduled [∀ s l, Decidable (allow s l)] {s : State} {hinit : init s}
    {labels : List Label}
    (hend : ∀ i, ¬ (ofNext init next).Able (own i) (exec (guarded allow next) s labels)) :
    (scheduled allow next s hinit (labels[·]?)).Fair own := by
  intro i n hable
  have hlast := hable (max n labels.length) (le_max_left _ _)
  have hstate : (scheduled allow next s hinit (labels[·]?)).state (max n labels.length) =
      exec (guarded allow next) s labels :=
    stateAt_of_length_le labels (le_max_right _ _)
  rw [hstate] at hlast
  exact absurd hlast (hend i)

/-- A schedule leads on from where it has led. -/
theorem stateAt_add {s : State} {labels : ℕ → Option Label} (m n : ℕ) :
    stateAt next s labels (m + n) =
      stateAt next (stateAt next s labels m) (fun k => labels (m + k)) n := by
  induction n with
  | zero => rfl
  | succ n ih => rw [← Nat.add_assoc, stateAt, stateAt, ih]

/-- Two schedules lead to the same state as long as they agree. -/
theorem stateAt_congr {s : State} {labels labels' : ℕ → Option Label} {n : ℕ}
    (hsame : ∀ k < n, labels k = labels' k) :
    stateAt next s labels n = stateAt next s labels' n := by
  induction n with
  | zero => rfl
  | succ n ih =>
      rw [stateAt, stateAt, ih fun k hk => hsame k (Nat.lt_succ_of_lt hk),
        hsame n (Nat.lt_succ_self n)]

/-- The labels of `first` once, and those of `cycle` over and over. -/
def lasso (first cycle : List Label) (n : ℕ) : Option Label :=
  if n < first.length then first[n]? else cycle[(n - first.length) % cycle.length]?

variable {first cycle : List Label}

theorem lasso_cycle {k r : ℕ} (hr : r < cycle.length) :
    lasso first cycle (first.length + (k * cycle.length + r)) = cycle[r]? := by
  have hlt : ¬ first.length + (k * cycle.length + r) < first.length := by omega
  rw [lasso, if_neg hlt, Nat.add_sub_cancel_left, Nat.add_comm, Nat.add_mul_mod_self_right,
    Nat.mod_eq_of_lt hr]

/-- A cycle that leads back to where it began can be repeated for ever. -/
theorem stateAt_lasso {s : State}
    (hback : exec next (exec next s first) cycle = exec next s first) (k r : ℕ)
    (hr : r ≤ cycle.length) :
    stateAt next s (lasso first cycle) (first.length + (k * cycle.length + r)) =
      exec next (exec next s first) (cycle.take r) := by
  have hturn (k r : ℕ) (hr : r ≤ cycle.length) (t : State) :
      stateAt next t (fun m => lasso first cycle (first.length + k * cycle.length + m)) r =
        exec next t (cycle.take r) := by
    rw [← stateAt_of_length_le (cycle.take r) (List.length_take_le r cycle)]
    refine stateAt_congr fun m hm => ?_
    rw [Nat.add_assoc, lasso_cycle (by omega), List.getElem?_take_of_lt hm]
  have hstart : stateAt next s (lasso first cycle) first.length = exec next s first := by
    rw [← stateAt_of_length_le first le_rfl]
    exact stateAt_congr fun m hm => if_pos hm
  have hround : stateAt next s (lasso first cycle) (first.length + k * cycle.length) =
      exec next s first := by
    induction k with
    | zero => rw [Nat.zero_mul, Nat.add_zero, hstart]
    | succ k ih =>
        rw [Nat.succ_mul, ← Nat.add_assoc, stateAt_add, ih, hturn k _ le_rfl,
          List.take_length, hback]
  rw [← Nat.add_assoc, stateAt_add, hround, hturn k r hr]

/-- A cycle in which everybody takes a step of its own, or cannot, is fair. -/
theorem fair_lasso [∀ s l, Decidable (allow s l)] {s : State} {hinit : init s}
    (hback : exec (guarded allow next) (exec (guarded allow next) s first) cycle =
      exec (guarded allow next) s first)
    (hturn : ∀ i, ∃ r l, cycle[r]? = some l ∧
      (¬ (ofNext init next).Able (own i) (exec (guarded allow next)
          (exec (guarded allow next) s first) (cycle.take r)) ∨
        own i l ∧ (guarded allow next (exec (guarded allow next)
          (exec (guarded allow next) s first) (cycle.take r)) l).isSome)) :
    (scheduled allow next s hinit (lasso first cycle)).Fair own := by
  intro i n hable
  obtain ⟨r, l, hl, hmoves⟩ := hturn i
  have hr : r < cycle.length := (List.getElem?_eq_some_iff.mp hl).1
  have hlate : n ≤ first.length + (n * cycle.length + r) := by
    have hle := Nat.le_mul_of_pos_right n (Nat.zero_lt_of_lt hr)
    omega
  have hstate : stateAt (guarded allow next) s (lasso first cycle)
      (first.length + (n * cycle.length + r)) =
        exec (guarded allow next) (exec (guarded allow next) s first) (cycle.take r) :=
    stateAt_lasso hback n r hr.le
  rcases hmoves with hnot | ⟨hown, hsome⟩
  · have hlater := hable _ hlate
    rw [show (scheduled allow next s hinit (lasso first cycle)).state
      (first.length + (n * cycle.length + r)) = _ from hstate] at hlater
    exact absurd hlater hnot
  · refine ⟨_, l, hlate, hown, ?_⟩
    show (lasso first cycle _).filter _ = some l
    rw [lasso_cycle hr, hl, hstate, Option.filter_some, if_pos hsome]

end Schedule

end System

end Htsynch.Foundations
