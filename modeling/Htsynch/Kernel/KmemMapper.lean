/-
# Who may consume a pending notification

The two monitored bytes are shared by the open handler of the device driver, by the
system calls and by every process that maps the page. Of all their stores only three
kinds can take the notified value away from the first byte of a region: the last
store of a sleep on that byte, the first store of the open handler to that region,
and the last store of `sys_mwmon_mmap_spin_while_greater`, which goes to the first
region.

Through its mapping a process writes whatever it likes, except that it writes
nothing but `MWMON_NOTIFIED_VAL` to the first byte of a region.
-/

import Htsynch.Foundations.Interleaving
import Htsynch.Kernel.Mwmon

namespace Htsynch

open Foundations

def PAGE_SIZE : ℕ := 4096
def MONITORED_REGIONS_DISTANCE : ℕ := 512
def MWMON_LINT_VAR_OFFSET : ℕ := 128

/-- What `kmem_mapper_init` makes of the pointers: the first page boundary in the
allocated memory, and two addresses at fixed distances from it. -/
def kmemMapperInit (kmallocPtr : Addr) (ptrs : Pointers) : Pointers :=
  let mwmonMmapArea := (kmallocPtr + PAGE_SIZE - 1) / PAGE_SIZE * PAGE_SIZE
  { ptrs with
    mwmonMmapArea := mwmonMmapArea
    mwmonMmapArea2 := mwmonMmapArea + MONITORED_REGIONS_DISTANCE
    mwmonLintVarAddr := mwmonMmapArea + MWMON_LINT_VAR_OFFSET }

variable {ι : Type} [DecidableEq ι]

/-- One store of the loop in `kmem_mapper_open`, and what follows it. -/
def kmemMapperOpen (ptrs : Pointers) (c : ι) (i : Fin 10) (r : Region) (h : Machine ι) :
    Machine ι × Option (Fin 10 × Region) :=
  match r with
  | .first =>
      (h.store c (ptrs.mwmonMmapArea + i) MWMON_ORIGINAL_VAL, some (i, .second))
  | .second =>
      (h.store c (ptrs.mwmonMmapArea2 + i) MWMON_ORIGINAL_VAL,
        if hnext : i.val + 1 < 10 then some (⟨i.val + 1, hnext⟩, .first) else none)

/-- The `long int` at an address. -/
def readLong (mem : Addr → Byte) (a : Addr) : BitVec 64 :=
  mem (a + 7) ++ mem (a + 6) ++ mem (a + 5) ++ mem (a + 4) ++
    mem (a + 3) ++ mem (a + 2) ++ mem (a + 1) ++ mem a

/-- Where a thread is in `sys_mwmon_mmap_spin_while_greater`. -/
inductive SpinWhilePc
  /-- `while (*mwmon_lint_var_addr < local_condition)`. -/
  | test
  | irqDisable
  | monitor
  | irqEnable
  | mwait
  /-- `*mwmon_mmap_area = MWMON_ORIGINAL_VAL`. -/
  | reset
  deriving DecidableEq

/-- `sys_mwmon_mmap_spin_while_greater`. -/
def sysMwmonMmapSpinWhileGreater (ptrs : Pointers) (localCondition : BitVec 64) (c : ι) :
    SpinWhilePc → Machine ι → Option (Machine ι × Option SpinWhilePc)
  | .test, h =>
      some (h, if (readLong h.mem ptrs.mwmonLintVarAddr).slt localCondition then
        some .irqDisable else some .reset)
  | .irqDisable, h => some (h, some .monitor)
  | .monitor, h => some (h.monitor c ptrs.mwmonMmapArea, some .irqEnable)
  | .irqEnable, h => some (h, some .mwait)
  | .mwait, h => if h.Blocks c then none else some (h, some .test)
  | .reset, h => some (h.store c ptrs.mwmonMmapArea MWMON_ORIGINAL_VAL, none)

/-- What a process is doing. -/
inductive Process
  | user
  | opening (i : Fin 10) (r : Region)
  | asleep (call : SleepCall) (pc : SleepPc)
  | spinning (localCondition : BitVec 64) (pc : SpinWhilePc)
  deriving DecidableEq

/-- What may happen to a process next. -/
inductive ProcessChoice
  | openDevice
  | store (a : Addr) (v : Byte)
  | kernelNotify
  | sleep (call : SleepCall)
  | spinWhileGreater (localCondition : BitVec 64)
  | step
  | interrupt (i : Interrupt)
  deriving DecidableEq

/-- What a process writes through its mapping. -/
def MayStore (ptrs : Pointers) (a : Addr) (v : Byte) : Prop :=
  a = Region.first.byte ptrs ∨ a = Region.second.byte ptrs → v = MWMON_NOTIFIED_VAL

instance (ptrs : Pointers) (a : Addr) (v : Byte) : Decidable (MayStore ptrs a v) :=
  inferInstanceAs (Decidable (_ → _))

/-- What an interrupt does to a process. -/
def Interrupt.onProcess (i : Interrupt) : Process → Process
  | .asleep call pc => .asleep call (i.onSleeper pc)
  | .spinning cond .mwait => .spinning cond (if i.wakes then .test else .mwait)
  | p => p

/-- Where the loop of `kmem_mapper_open` begins. -/
abbrev firstIndex : Fin 10 := 0

/-- One step of a process. -/
def process (ptrs : Pointers) : Program ι (Machine ι) Process ProcessChoice
  | _, .openDevice, h, .user => some (h, .opening 0 .first)
  | c, .store a v, h, .user => if MayStore ptrs a v then some (h.store c a v, .user) else none
  | c, .kernelNotify, h, .user => some (sysMwmonKernelNotify ptrs c h, .user)
  | _, .sleep call, h, .user => some (h, .asleep call .irqDisable)
  | _, .spinWhileGreater cond, h, .user => some (h, .spinning cond .test)
  | c, .step, h, .opening i r =>
      let o := kmemMapperOpen ptrs c i r h
      match o.2 with
      | some (i', r') => some (o.1, .opening i' r')
      | none => some (o.1, .user)
  | c, .step, h, .asleep call pc =>
      (call.run ptrs c pc h).map fun r =>
        match r.2 with
        | .goto pc' => (r.1, .asleep call pc')
        | .returned => (r.1, .user)
  | c, .step, h, .spinning cond pc =>
      (sysMwmonMmapSpinWhileGreater ptrs cond c pc h).map fun r =>
        match r.2 with
        | some pc' => (r.1, .spinning cond pc')
        | none => (r.1, .user)
  | c, .interrupt i, h, p => some (i.onMachine c h, i.onProcess p)
  | _, _, _, _ => none

/-- Nobody has opened the device or entered a system call yet. -/
def processInit (s : Config ι (Machine ι) Process) : Prop := ∀ i, s.threads i = .user

/-- Any number of processes, after the module was loaded. -/
def kmemSystem (ι : Type) [DecidableEq ι] (kmallocPtr : Addr) (ptrs : Pointers) :
    System (Config ι (Machine ι) Process) (ι × ProcessChoice) :=
  interleave processInit (process (kmemMapperInit kmallocPtr ptrs))

variable {ptrs : Pointers} {c : ι} {choice : ProcessChoice} {h h' : Machine ι}
  {p p' : Process}

/-- The steps of a process. -/
inductive ProcessMove (ptrs : Pointers) (c : ι) (h : Machine ι) :
    Process → ProcessChoice → Machine ι → Process → Prop
  | openDevice : ProcessMove ptrs c h .user .openDevice h (.opening 0 .first)
  | store (a : Addr) (v : Byte) (hmay : MayStore ptrs a v) :
      ProcessMove ptrs c h .user (.store a v) (h.store c a v) .user
  | notify : ProcessMove ptrs c h .user .kernelNotify (sysMwmonKernelNotify ptrs c h) .user
  | sleep (call : SleepCall) :
      ProcessMove ptrs c h .user (.sleep call) h (.asleep call .irqDisable)
  | spinWhileGreater (cond : BitVec 64) :
      ProcessMove ptrs c h .user (.spinWhileGreater cond) h (.spinning cond .test)
  | fill (i i' : Fin 10) (r r' : Region)
      (hnext : (kmemMapperOpen ptrs c i r h).2 = some (i', r')) :
      ProcessMove ptrs c h (.opening i r) .step (kmemMapperOpen ptrs c i r h).1 (.opening i' r')
  | opened (i : Fin 10) (r : Region) (hlast : (kmemMapperOpen ptrs c i r h).2 = none) :
      ProcessMove ptrs c h (.opening i r) .step (kmemMapperOpen ptrs c i r h).1 .user
  | asleep (call : SleepCall) (pc pc' : SleepPc) (h' : Machine ι)
      (hrun : SleepMove (call.target ptrs) c pc h h' (.goto pc')) :
      ProcessMove ptrs c h (.asleep call pc) .step h' (.asleep call pc')
  | woken (call : SleepCall) (pc : SleepPc) (h' : Machine ι)
      (hrun : SleepMove (call.target ptrs) c pc h h' .returned) :
      ProcessMove ptrs c h (.asleep call pc) .step h' .user
  | spinning (cond : BitVec 64) (pc pc' : SpinWhilePc) (h' : Machine ι)
      (hrun : sysMwmonMmapSpinWhileGreater ptrs cond c pc h = some (h', some pc')) :
      ProcessMove ptrs c h (.spinning cond pc) .step h' (.spinning cond pc')
  | spun (cond : BitVec 64) (pc : SpinWhilePc) (h' : Machine ι)
      (hrun : sysMwmonMmapSpinWhileGreater ptrs cond c pc h = some (h', none)) :
      ProcessMove ptrs c h (.spinning cond pc) .step h' .user
  | interrupt (i : Interrupt) (p : Process) :
      ProcessMove ptrs c h p (.interrupt i) (i.onMachine c h) (i.onProcess p)

theorem process_cases (hstep : process ptrs c choice h p = some (h', p')) :
    ProcessMove ptrs c h p choice h' p' := by
  cases choice with
  | interrupt i =>
      obtain ⟨rfl, rfl⟩ := Prod.mk.inj (Option.some.inj hstep)
      exact .interrupt i p
  | step =>
      cases p with
      | user => cases hstep
      | opening i r =>
          cases hnext : (kmemMapperOpen ptrs c i r h).2 with
          | some next =>
              simp only [process, hnext, Option.some.injEq, Prod.mk.injEq] at hstep
              obtain ⟨rfl, rfl⟩ := hstep
              exact .fill i next.1 r next.2 hnext
          | none =>
              simp only [process, hnext, Option.some.injEq, Prod.mk.injEq] at hstep
              obtain ⟨rfl, rfl⟩ := hstep
              exact .opened i r hnext
      | asleep call pc =>
          obtain ⟨⟨h'', out⟩, hrun, hout⟩ := Option.map_eq_some_iff.mp hstep
          rw [SleepCall.run_eq] at hrun
          have hmove := mwmonSleep_cases hrun
          cases out with
          | goto pc' =>
              obtain ⟨rfl, rfl⟩ := Prod.mk.inj hout
              exact .asleep call pc pc' h'' hmove
          | returned =>
              obtain ⟨rfl, rfl⟩ := Prod.mk.inj hout
              exact .woken call pc h'' hmove
      | spinning cond pc =>
          obtain ⟨⟨h'', place⟩, hrun, hout⟩ := Option.map_eq_some_iff.mp hstep
          cases place with
          | some pc' =>
              obtain ⟨rfl, rfl⟩ := Prod.mk.inj hout
              exact .spinning cond pc pc' h'' hrun
          | none =>
              obtain ⟨rfl, rfl⟩ := Prod.mk.inj hout
              exact .spun cond pc h'' hrun
  | store a v =>
      cases p with
      | user =>
          obtain ⟨hmay, hout⟩ := Option.ite_none_right_eq_some.mp hstep
          obtain ⟨rfl, rfl⟩ := Prod.mk.inj (Option.some.inj hout)
          exact .store a v hmay
      | _ => cases hstep
  | openDevice =>
      cases p with
      | user =>
          obtain ⟨rfl, rfl⟩ := Prod.mk.inj (Option.some.inj hstep)
          exact .openDevice
      | _ => cases hstep
  | kernelNotify =>
      cases p with
      | user =>
          obtain ⟨rfl, rfl⟩ := Prod.mk.inj (Option.some.inj hstep)
          exact .notify
      | _ => cases hstep
  | sleep call =>
      cases p with
      | user =>
          obtain ⟨rfl, rfl⟩ := Prod.mk.inj (Option.some.inj hstep)
          exact .sleep call
      | _ => cases hstep
  | spinWhileGreater cond =>
      cases p with
      | user =>
          obtain ⟨rfl, rfl⟩ := Prod.mk.inj (Option.some.inj hstep)
          exact .spinWhileGreater cond
      | _ => cases hstep

/-- The stores of a process, by where it is. -/
inductive Writes (ptrs : Pointers) : Process → ProcessChoice → Addr → Byte → Prop
  | user (a : Addr) (v : Byte) (hmay : MayStore ptrs a v) :
      Writes ptrs .user (.store a v) a v
  | notify : Writes ptrs .user .kernelNotify ptrs.mwmonKernelMemory MWMON_NOTIFIED_VAL
  | init (i : Fin 10) (r : Region) :
      Writes ptrs (.opening i r) .step (r.byte ptrs + i) MWMON_ORIGINAL_VAL
  | sleep (call : SleepCall) :
      Writes ptrs (.asleep call .reset) .step (call.target ptrs) MWMON_ORIGINAL_VAL
  | spin (cond : BitVec 64) :
      Writes ptrs (.spinning cond .reset) .step ptrs.mwmonMmapArea MWMON_ORIGINAL_VAL

/-- The call that spins on the counter stores once, at its end. -/
theorem sysMwmonMmapSpinWhileGreater_mem {cond : BitVec 64} {pc : SpinWhilePc}
    {place : Option SpinWhilePc}
    (hrun : sysMwmonMmapSpinWhileGreater ptrs cond c pc h = some (h', place)) :
    h'.mem = h.mem ∨ pc = .reset ∧
      h'.mem = Function.update h.mem ptrs.mwmonMmapArea MWMON_ORIGINAL_VAL := by
  cases pc with
  | reset =>
      simp only [sysMwmonMmapSpinWhileGreater, Option.some.injEq, Prod.mk.injEq] at hrun
      obtain ⟨rfl, -⟩ := hrun
      exact .inr ⟨rfl, rfl⟩
  | mwait =>
      simp only [sysMwmonMmapSpinWhileGreater, Option.ite_none_left_eq_some,
        Option.some.injEq, Prod.mk.injEq] at hrun
      obtain ⟨-, rfl, -⟩ := hrun
      exact .inl rfl
  | _ =>
      simp only [sysMwmonMmapSpinWhileGreater, Option.some.injEq, Prod.mk.injEq] at hrun
      obtain ⟨rfl, -⟩ := hrun
      exact .inl rfl

/-- A step of the open handler is one store of its loop. -/
theorem kmemMapperOpen_mem (i : Fin 10) (r : Region) :
    (kmemMapperOpen ptrs c i r h).1.mem =
      Function.update h.mem (r.byte ptrs + i) MWMON_ORIGINAL_VAL := by
  cases r with
  | first => rfl
  | second => rfl

/-- A step stores once, or leaves memory as it is. -/
theorem process_mem (hstep : process ptrs c choice h p = some (h', p')) :
    h'.mem = h.mem ∨ ∃ a v, Writes ptrs p choice a v ∧ h'.mem = Function.update h.mem a v := by
  cases process_cases hstep with
  | openDevice => exact .inl rfl
  | sleep => exact .inl rfl
  | spinWhileGreater => exact .inl rfl
  | interrupt i => exact .inl Interrupt.onMachine_mem
  | store a v hmay => exact .inr ⟨a, v, .user a v hmay, rfl⟩
  | notify => exact .inr ⟨_, _, .notify, rfl⟩
  | fill i _ r => exact .inr ⟨_, _, .init i r, kmemMapperOpen_mem i r⟩
  | opened i r => exact .inr ⟨_, _, .init i r, kmemMapperOpen_mem i r⟩
  | asleep call pc pc' h' hrun => exact .inl (hrun.mem_eq rfl)
  | woken call pc h' hrun =>
      obtain ⟨rfl, rfl⟩ := hrun.of_returned rfl
      exact .inr ⟨_, _, .sleep call, rfl⟩
  | spinning cond pc pc' h' hrun =>
      rcases sysMwmonMmapSpinWhileGreater_mem hrun with hsame | ⟨rfl, hreset⟩
      · exact .inl hsame
      · exact .inr ⟨_, _, .spin cond, hreset⟩
  | spun cond pc h' hrun =>
      rcases sysMwmonMmapSpinWhileGreater_mem hrun with hsame | ⟨rfl, hreset⟩
      · exact .inl hsame
      · exact .inr ⟨_, _, .spin cond, hreset⟩

/-! ## Who may erase a notification -/

/-- Ten bytes from a base do not reach the other region. -/
theorem regions_apart (area : ℕ) {i : ℕ} (hi : i < 10) :
    (area + i = area → i = 0) ∧ area + i ≠ area + MONITORED_REGIONS_DISTANCE ∧
      area + MONITORED_REGIONS_DISTANCE + i ≠ area ∧
      (area + MONITORED_REGIONS_DISTANCE + i = area + MONITORED_REGIONS_DISTANCE → i = 0) := by
  unfold MONITORED_REGIONS_DISTANCE
  omega

/-- The open handler reaches the first byte of a region with its first store to that
region only. -/
theorem init_byte_eq {kmallocPtr : Addr} {i : Fin 10} {r r' : Region}
    (hbyte : r'.byte (kmemMapperInit kmallocPtr ptrs) + i =
      r.byte (kmemMapperInit kmallocPtr ptrs)) : i = 0 ∧ r' = r := by
  obtain ⟨hfirst, hleft, hright, hsecond⟩ :=
    regions_apart (kmemMapperInit kmallocPtr ptrs).mwmonMmapArea i.isLt
  cases r' with
  | first =>
      cases r with
      | first => exact ⟨Fin.ext (hfirst hbyte), rfl⟩
      | second => exact absurd hbyte hleft
  | second =>
      cases r with
      | first => exact absurd hbyte hright
      | second => exact ⟨Fin.ext (hsecond hbyte), rfl⟩

variable {kmallocPtr : Addr} {s t : Config ι (Machine ι) Process} {who : ι} {r : Region}

/-- A step that takes the notified value away from the first byte of a region is the
last store of a sleep on that byte, the first store of the open handler to that
region, or the last store of `sys_mwmon_mmap_spin_while_greater`, which goes to the
first region. -/
theorem notification_consumed (hstep : (kmemSystem ι kmallocPtr ptrs).step s (who, choice) t)
    (hpending : s.shared.mem (r.byte (kmemMapperInit kmallocPtr ptrs)) = MWMON_NOTIFIED_VAL)
    (hgone : t.shared.mem (r.byte (kmemMapperInit kmallocPtr ptrs)) ≠ MWMON_NOTIFIED_VAL) :
    choice = .step ∧
      ((∃ call, s.threads who = .asleep call .reset ∧
          call.target (kmemMapperInit kmallocPtr ptrs) =
            r.byte (kmemMapperInit kmallocPtr ptrs)) ∨
        s.threads who = .opening 0 r ∨
        (r = .first ∧ ∃ cond, s.threads who = .spinning cond .reset)) := by
  obtain ⟨h', own, hrun, rfl⟩ := interleave_step_iff.mp hstep
  rw [Config.move_shared] at hgone
  rcases process_mem hrun with hsame | ⟨a, v, hwrites, hupdate⟩
  · rw [hsame] at hgone
    exact absurd hpending hgone
  · have ha : a = r.byte (kmemMapperInit kmallocPtr ptrs) := by
      by_contra hne
      rw [hupdate, Function.update_of_ne (Ne.symm hne)] at hgone
      exact hgone hpending
    rw [hupdate, ha, Function.update_self] at hgone
    generalize hthread : s.threads who = old at hwrites
    cases hwrites with
    | user a v hmay =>
        have hbyte : a = Region.first.byte (kmemMapperInit kmallocPtr ptrs) ∨
            a = Region.second.byte (kmemMapperInit kmallocPtr ptrs) := by
          cases r with
          | first => exact .inl ha
          | second => exact .inr ha
        exact absurd (hmay hbyte) hgone
    | notify => exact absurd rfl hgone
    | init i r' =>
        obtain ⟨rfl, rfl⟩ := init_byte_eq ha
        exact ⟨rfl, .inr (.inl rfl)⟩
    | sleep call => exact ⟨rfl, .inl ⟨call, rfl, ha⟩⟩
    | spin cond =>
        refine ⟨rfl, .inr (.inr ⟨?_, cond, rfl⟩)⟩
        cases r with
        | first => rfl
        | second =>
            have hapart : (kmemMapperInit kmallocPtr ptrs).mwmonMmapArea ≠
                (kmemMapperInit kmallocPtr ptrs).mwmonMmapArea + MONITORED_REGIONS_DISTANCE :=
              Nat.ne_of_lt (Nat.lt_add_of_pos_right (by decide))
            exact absurd ha hapart

/-- A notification stays pending in runs that keep away from these three stores. -/
theorem notification_kept {r : Region}
    (hpending : s.shared.mem (r.byte (kmemMapperInit kmallocPtr ptrs)) = MWMON_NOTIFIED_VAL)
    (hpath : Relation.ReflTransGen ((kmemSystem ι kmallocPtr ptrs).Next fun s label =>
      s.threads label.1 ≠ .opening 0 r ∧
        (∀ cond, s.threads label.1 ≠ .spinning cond .reset) ∧
        ∀ call, call.target (kmemMapperInit kmallocPtr ptrs) =
          r.byte (kmemMapperInit kmallocPtr ptrs) →
            s.threads label.1 ≠ .asleep call .reset) s t) :
    t.shared.mem (r.byte (kmemMapperInit kmallocPtr ptrs)) = MWMON_NOTIFIED_VAL := by
  induction hpath with
  | refl => exact hpending
  | tail _ hnext ih =>
      obtain ⟨label, ⟨hopen, hspin, hsleep⟩, hstep⟩ := hnext
      by_contra hgone
      obtain ⟨-, ⟨call, hthread, htarget⟩ | hthread | ⟨-, cond, hthread⟩⟩ :=
        notification_consumed hstep ih hgone
      · exact hsleep call htarget hthread
      · exact hopen hthread
      · exact hspin cond hthread

/-- The first of two processes or threads in a run. -/
abbrev thread0 : Fin 2 := 0

/-- The second. -/
abbrev thread1 : Fin 2 := 1

/-- Two processes in user space, and the original value everywhere. -/
def kmemStart : Config (Fin 2) (Machine (Fin 2)) Process :=
  ⟨⟨fun _ => MWMON_ORIGINAL_VAL, fun _ => none⟩, fun _ => .user⟩

/-- The pointers before the module is loaded. -/
def bootPointers : Pointers := ⟨0, 0, 8192, 0⟩

/-- The states of a run from `kmemStart` with the module loaded at page 1. -/
def kmemRun (labels : List (Fin 2 × ProcessChoice)) : Config (Fin 2) (Machine (Fin 2)) Process :=
  System.exec (process (kmemMapperInit 4096 bootPointers)).next kmemStart labels

theorem kmemRun_reachable (labels : List (Fin 2 × ProcessChoice)) :
    (kmemSystem (Fin 2) 4096 bootPointers).Reachable (kmemRun labels) :=
  System.reachable_exec _ (.of_init fun _ => rfl)

/-- The pointers after that. -/
def loadedPointers : Pointers := kmemMapperInit 4096 bootPointers

/-- Process 1 is in the open handler while a notification by process 0 is pending. -/
def kmemPending : Config (Fin 2) (Machine (Fin 2)) Process :=
  kmemRun [(0, .store 4096 MWMON_NOTIFIED_VAL), (1, .openDevice)]

/-- One store later. -/
def kmemErased : Config (Fin 2) (Machine (Fin 2)) Process :=
  kmemRun [(0, .store 4096 MWMON_NOTIFIED_VAL), (1, .openDevice), (1, .step)]

theorem kmemErased_step :
    (kmemSystem (Fin 2) 4096 bootPointers).step kmemPending (1, .step) kmemErased := rfl

/-- The open handler erases the notification, and its process is in no sleep call. -/
theorem open_erases_notification :
    (kmemSystem (Fin 2) 4096 bootPointers).Reachable kmemPending ∧
      (kmemSystem (Fin 2) 4096 bootPointers).step kmemPending (1, .step) kmemErased ∧
      kmemPending.shared.mem (Region.first.byte loadedPointers) = MWMON_NOTIFIED_VAL ∧
      kmemErased.shared.mem (Region.first.byte loadedPointers) = MWMON_ORIGINAL_VAL ∧
      ∀ call pc, kmemPending.threads 1 ≠ .asleep call pc := by
  refine ⟨kmemRun_reachable _, kmemErased_step, by decide, by decide, fun call pc => ?_⟩
  have hopening : kmemPending.threads 1 = .opening 0 .first := rfl
  rw [hopening]
  exact nofun

/-- Process 1 has found the long at its condition when process 0 notifies the first region. -/
def kmemSpun : Config (Fin 2) (Machine (Fin 2)) Process :=
  kmemRun [(1, .spinWhileGreater 0), (1, .step), (0, .store 4096 MWMON_NOTIFIED_VAL)]

/-- The final store of `sys_mwmon_mmap_spin_while_greater` erases a notification as well. -/
theorem spin_erases_notification :
    (kmemSystem (Fin 2) 4096 bootPointers).Reachable kmemSpun ∧
      kmemSpun.threads 1 = .spinning 0 .reset ∧
      kmemSpun.shared.mem (Region.first.byte loadedPointers) = MWMON_NOTIFIED_VAL ∧
      (kmemRun [(1, .spinWhileGreater 0), (1, .step), (0, .store 4096 MWMON_NOTIFIED_VAL),
        (1, .step)]).shared.mem (Region.first.byte loadedPointers) = MWMON_ORIGINAL_VAL :=
  ⟨kmemRun_reachable _, by decide, by decide, by decide⟩

theorem notification_consumed_open :
    ProcessChoice.step = .step ∧
      ((∃ call, kmemPending.threads 1 = .asleep call .reset ∧
          call.target loadedPointers = Region.first.byte loadedPointers) ∨
        kmemPending.threads 1 = .opening 0 .first ∨
        (Region.first = .first ∧ ∃ cond, kmemPending.threads 1 = .spinning cond .reset)) :=
  notification_consumed kmemErased_step (by decide)
    (by decide)

end Htsynch
