/-
# What the spin locks promise to those who wait

As long as somebody tries to get the lock it is taken again and again: whoever holds it
releases it, and the thread that tries finds it free unless another one has been faster.
But that is all. The word does not record who came first, and the holder of the lock may
take it back each time before the other one looks.
-/

import Htsynch.Foundations.BusyWaiting
import Htsynch.Spin.LockFiles

namespace Htsynch

open Foundations

variable {V W : Type} {F : LockFile V W} {n : ℕ} {s t : Config (Fin n) W (FileUser V)}
  {who i j : Fin n} {holder : Option (Fin n)}

/-- Nobody gets the lock in the step. -/
def NoEntry (F : LockFile V W) (s : Config (Fin n) W (FileUser V))
    (label : Fin n × FileChoice V) : Prop :=
  ∀ t, (fileSystem F n).step s label t → ∀ j, (t.threads j).Holds → (s.threads j).Holds

/-- How far a thread is from an attempt that must win. -/
def entryRank (i : Fin n) (s : Config (Fin n) W (FileUser V)) : ℕ :=
  if ∃ j, (s.threads j).Holds then 2
  else if (s.threads i).Polls then 1
  else 0

/-- The holder must go on, or, where there is none, the thread that tries. -/
def EntryHelper (i : Fin n) (s : Config (Fin n) W (FileUser V)) (j : Fin n) : Prop :=
  (s.threads j).Holds ∨ (∀ k, ¬ (s.threads k).Holds) ∧ j = i

/-- A user that has begun can go on. -/
theorem fileUser_isSome {t : FileUser V} {w : W} (h : t.Holds ∨ t.Tries) :
    (fileUser F who .step w t).isSome := by
  rcases h with rfl | ⟨v, pc, rfl⟩
  · rfl
  · cases hout : (F.run v pc w).2 with
    | goto pc' => simp [fileUser, hout]
    | acquired => simp [fileUser, hout]

/-- Without an entry a thread that tries goes on trying. -/
theorem tries_step {label : Fin n × FileChoice V} (h : (s.threads i).Tries)
    (hallow : NoEntry F s label) (hstep : (fileSystem F n).step s label t) :
    (t.threads i).Tries := by
  have hentry := hallow t hstep
  obtain ⟨who, choice⟩ := label
  obtain ⟨w, own, hrun, rfl⟩ := interleave_step_iff.mp hstep
  dsimp only at hrun hentry ⊢
  by_cases hwho : i = who
  · subst hwho
    obtain ⟨v, pc, hpc⟩ := h
    rw [Config.move_threads_self]
    cases fileUser_cases hrun with
    | acquire v' ht => rw [hpc] at ht; cases ht
    | turn v' pc' pc'' => exact ⟨v', pc'', rfl⟩
    | win v' pc' ht =>
        have hheld := hentry i (by rw [Config.move_threads_self]; rfl)
        rw [FileUser.Holds, hpc] at hheld
        cases hheld
    | release ht => rw [hpc] at ht; cases ht
  · rwa [Config.move_threads_of_ne hwho]

section

variable {w : W} {own : FileUser V}

theorem holds_move (hholds : own.Holds ↔ (s.threads who).Holds) (k : Fin n) :
    ((s.move who w own).threads k).Holds ↔ (s.threads k).Holds :=
  iff_of_eq (Config.move_threads_eq_of_eq (propext hholds) k)

/-- The rank of a move that changes neither who holds the lock nor the thread that tries. -/
theorem entryRank_move (hholds : own.Holds ↔ (s.threads who).Holds)
    (hi : i = who → (own.Polls ↔ (s.threads who).Polls)) :
    entryRank i (s.move who w own) = entryRank i s := by
  have hpolls : ((s.move who w own).threads i).Polls ↔ (s.threads i).Polls :=
    Config.move_cases (motive := fun t : FileUser V => t.Polls ↔ (s.threads i).Polls) i
      (fun hk => hk ▸ hi hk) (fun _ => .rfl)
  simp only [entryRank, holds_move hholds, hpolls]

/-- A helper goes on helping when who holds the lock stays the same. -/
theorem EntryHelper.move (h : EntryHelper i s j) (hholds : own.Holds ↔ (s.threads who).Holds) :
    EntryHelper i (s.move who w own) j := by
  simpa only [EntryHelper, holds_move hholds] using h

end

/-- While nobody gets the lock, a thread that tries comes nearer to it. -/
theorem entry_descent (hfits : F.Fits n) :
    System.Descent (fileSystem F n) (NoEntry F) (Owns (· = .step))
      (fun s => (∃ holder, FileInv F holder s) ∧ (s.threads i).Tries) (fun _ => False)
      (entryRank i) (EntryHelper i) where
  helper s _ _ := by
    by_cases hheld : ∃ j, (s.threads j).Holds
    · obtain ⟨j, hj⟩ := hheld
      exact ⟨j, .inl hj⟩
    · exact ⟨i, .inr ⟨not_exists.mp hheld, rfl⟩⟩
  able s j hinv hj := by
    have hmoves : (s.threads j).Holds ∨ (s.threads j).Tries := by
      refine hj.imp id ?_
      rintro ⟨-, rfl⟩
      exact hinv.2
    obtain ⟨⟨w, own⟩, hrun⟩ := Option.isSome_iff_exists.mp (fileUser_isSome hmoves)
    exact ⟨(j, .step), s.move j w own, ⟨rfl, rfl⟩, interleave_step_iff.mpr ⟨w, own, hrun, rfl⟩⟩
  down := by
    rintro s j ⟨who, choice⟩ t ⟨⟨holder, h⟩, v, pc, htries⟩ hj hallow hstep
    have hentry := hallow t hstep
    obtain ⟨w, own, hrun, rfl⟩ := interleave_step_iff.mp hstep
    dsimp only at hrun hentry ⊢
    cases fileUser_cases hrun with
    | acquire v' ht =>
        have hnot : ¬ (s.threads who).Holds := by simp [FileUser.Holds, ht]
        refine .inr ⟨?_, entryRank_move ?_ ?_, hj.move ?_⟩
        · rintro ⟨-, hmine⟩
          cases hmine
        · exact iff_of_false (by simp [FileUser.Holds]) hnot
        · rintro rfl
          rw [htries] at ht
          cases ht
        · exact iff_of_false (by simp [FileUser.Holds]) hnot
    | win v' pc' ht =>
        have hheld := hentry who (by rw [Config.move_threads_self]; rfl)
        rw [FileUser.Holds, ht] at hheld
        cases hheld
    | release ht =>
        have hnobody : ∀ k, ¬ ((s.move who (F.unlock s.shared) .outside).threads k).Holds :=
          (h.2.release ht (by simp [FileUser.Holds])).eq_none_iff.mp rfl
        refine .inl ?_
        have hbefore : entryRank i s = 2 := if_pos ⟨who, ht⟩
        rw [hbefore, entryRank, if_neg (not_exists.mpr hnobody)]
        split <;> omega
    | turn v' pc' pc'' ht hout =>
        have hnot : ¬ (s.threads who).Holds := by simp [FileUser.Holds, ht]
        have hstay : (FileUser.locking v' pc'').Holds ↔ (s.threads who).Holds :=
          iff_of_false (by simp [FileUser.Holds]) hnot
        by_cases hwho : j = who
        · subst hwho
          obtain ⟨hfree, rfl⟩ := hj.resolve_left hnot
          obtain rfl : holder = none := h.2.eq_none_iff.mpr hfree
          -- Nobody holds the lock: only a poll leads back into the loop.
          cases pc' with
          | attempt =>
              rcases F.attempt v' h.1 (h.room hfits) with ⟨-, hwin, -⟩ | ⟨hheld, -⟩
              · rw [hwin] at hout
                cases hout
              · exact absurd rfl hheld
          | poll =>
              rcases (F.poll v' h.1).2 with ⟨hheld, -⟩ | ⟨-, hgoto, -⟩
              · exact absurd rfl hheld
              · rw [hgoto] at hout
                cases hout
                have hpolls : (s.threads j).Polls := ⟨v', ht⟩
                have hafter (k : Fin n) :
                    ¬ ((s.move j (F.run v' .poll s.shared).1 (.locking v' .attempt)).threads
                      k).Holds :=
                  Config.move_cases (motive := fun t : FileUser V => ¬ t.Holds) k
                    (fun _ => by simp [FileUser.Holds]) (fun _ => hfree k)
                refine .inl ?_
                rw [entryRank, entryRank, if_neg (not_exists.mpr hafter),
                  if_neg (not_exists.mpr hfree), if_pos hpolls, if_neg]
                · exact Nat.zero_lt_one
                · simp [FileUser.Polls]
        · by_cases hi : i = who
          · -- The helper is the holder, and the thread that tries looks in vain.
            subst hi
            have hheld : (s.threads j).Holds := hj.resolve_right fun h => hwho h.2
            refine .inr ⟨fun hown => hwho hown.1.symm, ?_, hj.move hstay⟩
            have hafter : ((s.move i (F.run v' pc' s.shared).1 (.locking v' pc'')).threads
                j).Holds := by
              rwa [Config.move_threads_of_ne hwho]
            rw [entryRank, entryRank, if_pos ⟨j, hafter⟩, if_pos ⟨j, hheld⟩]
          · exact .inr ⟨fun hown => hwho hown.1.symm, entryRank_move hstay
              fun heq => absurd heq hi, hj.move hstay⟩

/-- In a fair run a lock that somebody tries to get is taken by somebody. -/
theorem lock_taken_while_tried {kind : LockKind} (hfits : kind.file.Fits n)
    (e : System.Execution (fileSystem kind.file n) fun _ _ => True)
    (hfair : e.Fair (Owns (· = .step))) {m : ℕ} (htries : ((e.state m).threads i).Tries) :
    ∃ k j, m ≤ k ∧ ¬ ((e.state k).threads j).Holds ∧ ((e.state (k + 1)).threads j).Holds := by
  by_contra hnone
  push Not at hnone
  have hallow (k : ℕ) (l : Fin n × FileChoice kind.Loop) (hk : m ≤ k)
      (hl : e.label k = some l) : NoEntry kind.file (e.state k) l := by
    intro t hstep j hj
    rcases e.step k with ⟨hno, -⟩ | ⟨l', hl', -, hstep'⟩
    · rw [hl] at hno
      cases hno
    · obtain rfl : l = l' := Option.some.inj (hl.symm.trans hl')
      have hsame : e.state (k + 1) = t := Option.some.inj (hstep'.symm.trans hstep)
      by_contra hnot
      exact hnone k j hk hnot (hsame ▸ hj)
  have hlate (k : ℕ) : (((e.toPath.drop m hallow).state k).threads i).Tries :=
    (e.toPath.drop m hallow).stays (P := fun s => (s.threads i).Tries) (m := 0)
      (fun _ _ _ hs hl hstep => tries_step hs hl hstep) htries (Nat.zero_le k)
  obtain ⟨k, -, hfalse⟩ := (entry_descent hfits).eventually (hfair.drop hallow)
    (fun k => ⟨fileInv_of_reachable hfits (e.reachable (m + k)), hlate k⟩) 0
  exact hfalse

/-- Where nobody has begun nobody is obliged to. -/
theorem outside_not_able (h : ∀ i, s.threads i = .outside) (i : Fin n) :
    ¬ (fileSystem F n).Able (Owns (· = .step) i) s := by
  rintro ⟨⟨who, choice⟩, t, ⟨rfl, rfl⟩, hstep⟩
  obtain ⟨w, own, hrun, -⟩ := interleave_step_iff.mp hstep
  rw [h who] at hrun
  cases hrun

/-- Nobody has started, and `spin_init` has been called. -/
def xchgStart (n : ℕ) : Config (Fin n) Quad (FileUser Unit) where
  shared := Spin.spinInit 0
  threads _ := .outside

/-- `j` tries in vain, and gets the lock once `i` has released it. -/
def handover (i j : Fin n) : List (Fin n × FileChoice Unit) :=
  [(i, .acquire ()), (i, .step), (j, .acquire ()), (j, .step), (i, .step), (j, .step),
    (j, .step), (j, .step)]

def handoverRun (i j : Fin n) :
    System.Execution (fileSystem LockKind.xchg.file n) (fun _ _ => True) :=
  System.scheduled _ (fileUser xchgLock).next (xchgStart n) ⟨⟨0, rfl⟩, fun _ => rfl⟩
    ((handover i j)[·]?)

theorem handoverRun_fair : (handoverRun (0 : Fin 3) 1).Fair (Owns (· = .step)) :=
  System.fair_scheduled (outside_not_able (F := xchgLock) (by decide))

theorem lock_taken_while_tried_handover :
    ∃ k j, 4 ≤ k ∧ ¬ (((handoverRun (0 : Fin 3) 1).state k).threads j).Holds ∧
      (((handoverRun (0 : Fin 3) 1).state (k + 1)).threads j).Holds :=
  lock_taken_while_tried (i := 1) (xchg_fits 3) _ handoverRun_fair (by decide)

section Starvation

variable {v u : V}

/-- `i` gets the lock, `j` finds it taken and goes to poll it, and `i` takes it anew. -/
def contend (v u : V) (i j : Fin n) : List (Fin n × FileChoice V) :=
  [(i, .acquire v), (i, .step), (j, .acquire u), (j, .step), (i, .step), (i, .acquire v),
    (i, .step)]

/-- `j` polls, and `i` releases the lock and takes it again before `j` looks once more. -/
def overtake (v : V) (i j : Fin n) : List (Fin n × FileChoice V) :=
  [(j, .step), (i, .step), (i, .acquire v), (i, .step)]

/-- The word while the lock is held after a release. -/
def retaken (F : LockFile V W) (v : V) (w : W) : W := (F.run v .attempt (F.unlock w)).1

/-- Everybody outside but `i` and `j`. -/
abbrev contenders (w : W) (i j : Fin n) (a b : FileUser V) : Config (Fin n) W (FileUser V) :=
  .duo w .outside i j a b

/-- The states that `overtake` leads through. -/
structure Overtaking (F : LockFile V W) (v u : V) (i j : Fin n) (w : W) : Prop where
  polls : (fileUser F).next (contenders w i j .critical (.locking u .poll)) (j, .step) =
    some (contenders w i j .critical (.locking u .poll))
  releases : (fileUser F).next (contenders w i j .critical (.locking u .poll)) (i, .step) =
    some (contenders (F.unlock w) i j .outside (.locking u .poll))
  returns : (fileUser F).next (contenders (F.unlock w) i j .outside (.locking u .poll))
      (i, .acquire v) =
    some (contenders (F.unlock w) i j (.locking v .attempt) (.locking u .poll))
  retakes : (fileUser F).next (contenders (F.unlock w) i j (.locking v .attempt)
      (.locking u .poll)) (i, .step) =
    some (contenders w i j .critical (.locking u .poll))

/-- An attempt on a free lock. -/
theorem attempt_free {w : W} (hcell : F.Says False 0 w) (v : V) :
    (F.run v .attempt w).2 = .acquired ∧ F.Says True 0 (F.run v .attempt w).1 := by
  rcases F.attempt v hcell False.elim with ⟨-, hwin⟩ | ⟨hheld, -⟩
  · exact hwin
  · exact hheld.elim

theorem fileUser_attempt_free {w : W} (hcell : F.Says False 0 w) (who : Fin n) (v : V) :
    fileUser F who .step w (.locking v .attempt) =
      some ((F.run v .attempt w).1, .critical) := by
  simp only [fileUser, (attempt_free hcell v).1]

theorem overtaking {w : W} (hne : i ≠ j) (hw : F.Says True 0 w) (hback : retaken F v w = w) :
    Overtaking F v u i j w where
  polls := by
    refine Program.next_duo_right hne ?_
    obtain ⟨hread, ⟨-, hout⟩ | ⟨hfree, -⟩⟩ := F.poll u hw
    · simp only [fileUser, hout, hread]
    · exact absurd trivial hfree
  releases := Program.next_duo_left rfl
  returns := Program.next_duo_left rfl
  retakes := by
    refine Program.next_duo_left ?_
    rw [fileUser_attempt_free (F.says_unlock 0 w)]
    exact congrArg some (Prod.ext hback rfl)

/-- How far `overtake` has got. -/
def overtaken (F : LockFile V W) (v u : V) (i j : Fin n) (w : W) :
    ℕ → Config (Fin n) W (FileUser V)
  | 2 => contenders (F.unlock w) i j .outside (.locking u .poll)
  | 3 => contenders (F.unlock w) i j (.locking v .attempt) (.locking u .poll)
  | _ => contenders w i j .critical (.locking u .poll)

theorem Overtaking.exec {w : W} (h : Overtaking F v u i j w) {r : ℕ} (hr : r ≤ 4) :
    System.exec (fileUser F).next (contenders w i j .critical (.locking u .poll))
      ((overtake v i j).take r) = overtaken F v u i j w r :=
  match r, hr with
  | 0, _ => rfl
  | 1, _ => System.exec_cons h.polls _
  | 2, _ => (System.exec_cons h.polls _).trans (System.exec_cons h.releases _)
  | 3, _ =>
      (System.exec_cons h.polls _).trans <| (System.exec_cons h.releases _).trans <|
        System.exec_cons h.returns _
  | 4, _ =>
      (System.exec_cons h.polls _).trans <| (System.exec_cons h.releases _).trans <|
        (System.exec_cons h.returns _).trans <| System.exec_cons h.retakes _

theorem overtaken_tries {w : W} (hne : i ≠ j) (r : ℕ) :
    ((overtaken F v u i j w r).threads j).Tries := by
  refine ⟨u, .poll, ?_⟩
  unfold overtaken
  split <;> exact Config.duo_right hne

/-- The lock has been taken, lost and taken again. -/
theorem exec_contend {w : W} (hne : i ≠ j) (hinit : F.init w) (hroom : F.Room 0) :
    ∃ w', System.exec (fileUser F).next (contenders w i j .outside .outside) (contend v u i j) =
      contenders (retaken F v w') i j .critical (.locking u .poll) := by
  have hfirst := attempt_free (F.says_init hinit) v
  rcases F.attempt u hfirst.2 fun _ => hroom with ⟨hfree, -⟩ | ⟨-, hlose, -⟩
  · exact absurd trivial hfree
  · have hlost : fileUser F j .step (F.run v .attempt w).1 (.locking u .attempt) =
        some ((F.run u .attempt (F.run v .attempt w).1).1, .locking u .poll) := by
      simp only [fileUser, hlose]
    refine ⟨(F.run u .attempt (F.run v .attempt w).1).1, ?_⟩
    exact (System.exec_cons (Program.next_duo_left rfl) _).trans <|
      (System.exec_cons (Program.next_duo_left
        (fileUser_attempt_free (F.says_init hinit) i v)) _).trans <|
      (System.exec_cons (Program.next_duo_right hne rfl) _).trans <|
      (System.exec_cons (Program.next_duo_right hne hlost) _).trans <|
      (System.exec_cons (Program.next_duo_left rfl) _).trans <|
      (System.exec_cons (Program.next_duo_left rfl) _).trans <|
      System.exec_cons (Program.next_duo_left
        (fileUser_attempt_free (F.says_unlock 0 _) i v)) _

/-- The run in which `i` overtakes `j` for ever. -/
theorem exists_overtaking {w : W} (hne : i ≠ j) (hinit : F.init w) (hroom : F.Room 0)
    (hback : ∀ w, retaken F v (retaken F v w) = retaken F v w) :
    ∃ e : System.Execution (fileSystem F n) fun _ _ => True, e.Fair (Owns (· = .step)) ∧
      ∃ (m : ℕ) (w : W), Overtaking F v u i j w ∧
        ∀ k r, r ≤ 4 → e.state (m + (k * 4 + r)) = overtaken F v u i j w r := by
  obtain ⟨w', hcontend⟩ := exec_contend (v := v) (u := u) hne hinit hroom
  have hstart : fileInit F (contenders w i j .outside .outside) := by
    refine ⟨hinit, fun k => ?_⟩
    by_cases hi : k = i
    · subst hi
      exact Config.duo_left
    · by_cases hj : k = j
      · subst hj
        exact Config.duo_right hne
      · exact Config.duo_other hi hj
  have hsteps : Overtaking F v u i j (retaken F v w') :=
    overtaking hne (attempt_free (F.says_unlock 0 w') v).2 (hback w')
  have hcycle {r : ℕ} (hr : r ≤ 4) := hcontend ▸ hsteps.exec hr
  rw [← System.guarded_true (fileUser F).next] at hcontend hcycle
  have hround : System.exec (System.guarded (fun _ _ => True) (fileUser F).next)
      (System.exec (System.guarded (fun _ _ => True) (fileUser F).next)
        (contenders w i j .outside .outside) (contend v u i j)) (overtake v i j) =
      System.exec (System.guarded (fun _ _ => True) (fileUser F).next)
        (contenders w i j .outside .outside) (contend v u i j) :=
    (hcycle le_rfl).trans hcontend.symm
  refine ⟨System.scheduled (fun _ _ => True) (fileUser F).next _ hstart
    (System.lasso (contend v u i j) (overtake v i j)), ?_, (contend v u i j).length, _, hsteps,
    fun k r hr => (System.stateAt_lasso hround k r hr).trans
      (hcycle hr)⟩
  refine System.fair_lasso hround fun k => ?_
  by_cases hi : k = i
  · subst hi
    refine ⟨1, (k, .step), rfl, .inr ⟨⟨rfl, rfl⟩, ?_⟩⟩
    rw [hcycle (by decide), System.guarded_true]
    exact Option.isSome_of_eq_some hsteps.releases
  · refine ⟨0, (j, .step), rfl, ?_⟩
    rw [hcycle (Nat.zero_le 4), System.guarded_true]
    by_cases hj : k = j
    · subst hj
      exact .inr ⟨⟨rfl, rfl⟩, Option.isSome_of_eq_some hsteps.polls⟩
    · refine .inl ?_
      rintro ⟨⟨who, choice⟩, t, ⟨rfl, rfl⟩, hstep⟩
      obtain ⟨w, own, hrun, -⟩ := interleave_step_iff.mp hstep
      have hout : (overtaken F v u i j (retaken F v w') 0).threads who = .outside :=
        Config.duo_other hi hj
      rw [hout] at hrun
      cases hrun

/-- The upper half of the word is never written. -/
theorem xchg_retaken {w : Quad} :
    retaken xchgLock () (retaken xchgLock () w) = retaken xchgLock () w := by
  simp only [retaken, xchgLock, Spin.spinLock, Spin.spinUnlock, Quad.storeLow_storeLow]

theorem v2_retaken {w : Quad} :
    retaken v2Lock () (retaken v2Lock () w) = retaken v2Lock () w := by
  simp only [retaken, v2Lock, Spin.spinLockV2, Spin.spinUnlockV2, Quad.storeLow_storeLow,
    Quad.low_storeLow]

/-- A thread may try for ever while another one takes the lock again and again, whichever
of the two loops of the lock each of them goes round. -/
theorem lock_starves (kind : LockKind) (hne : i ≠ j) (v u : kind.Loop) :
    ∃ e : System.Execution (fileSystem kind.file n) fun _ _ => True,
      e.Fair (Owns (· = .step)) ∧
        (∃ m, ∀ k, m ≤ k → ((e.state k).threads j).Tries) ∧
        ∀ m, ∃ k, m ≤ k ∧ ¬ ((e.state k).threads i).Holds ∧
          ((e.state (k + 1)).threads i).Holds := by
  obtain ⟨w, hinit, hroom, hback⟩ : ∃ w, kind.file.init w ∧ kind.file.Room 0 ∧
      ∀ w, retaken kind.file v (retaken kind.file v w) = retaken kind.file v w := by
    cases kind with
    | synch => exact ⟨_, rfl, Nat.two_pow_pos 31, fun _ => rfl⟩
    | xchg => exact ⟨_, ⟨0, rfl⟩, trivial, fun _ => xchg_retaken⟩
    | v2 => exact ⟨_, ⟨0, rfl⟩, Nat.two_pow_pos 31, fun _ => v2_retaken⟩
  obtain ⟨e, hfair, m, w, hsteps, hstate⟩ :=
    exists_overtaking (v := v) (u := u) hne hinit hroom hback
  refine ⟨e, hfair, ⟨m, fun k hk => ?_⟩, fun k => ⟨m + (k * 4 + 3), by omega, ?_⟩⟩
  · obtain ⟨d, rfl⟩ := Nat.exists_eq_add_of_le hk
    rw [← Nat.div_add_mod' d 4, hstate _ _ (Nat.mod_lt d four_pos).le]
    exact overtaken_tries hne _
  · rw [hstate k 3 (by decide), Nat.add_assoc m, Nat.add_assoc, hstate k 4 le_rfl]
    simp [overtaken, FileUser.Holds]

end Starvation

theorem lock_starves_pause :
    ∃ e : System.Execution (fileSystem LockKind.synch.file 2) fun _ _ => True,
      e.Fair (Owns (· = .step)) ∧
        (∃ m, ∀ k, m ≤ k → ((e.state k).threads 1).Tries) ∧
        ∀ m, ∃ k, m ≤ k ∧ ¬ ((e.state k).threads 0).Holds ∧
          ((e.state (k + 1)).threads 0).Holds :=
  lock_starves .synch (by decide) LockVariant.pause LockVariant.cas

end Htsynch
