/-
# The test programs with two threads

`thread_test_kmon_knot.c`, `thread_test_umon_unot.c` and `thread_test_kmon_unot.c` start
a sleeper and a notifier on two processors. Each counts to twenty; the sleeper makes a
sleep call on its way and the notifier notifies once. Built for 2.6.13.1, the third one
goes on: the two meet at a spin barrier, the notifier counts to twenty once more, in the
shared long, and the sleeper waits for ten of these numbers with
`mwmon_mmap_spin_while_greater`.

The seconds that the threads sleep say nothing about the order of their steps, so that
`sleep` is no step. A call enters the kernel with a number, and which function runs is
decided by the table of the kernel. The module's second region is part of the page also
where the kernel is the onepackageonly one, which never looks at it.
-/

import Htsynch.Kernel.ModuleLoading
import Htsynch.Kernel.UserMapping
import Htsynch.Spin.SpinRendezvous

namespace Htsynch

open Foundations

/-- The patched kernels. -/
inductive PatchedKernel
  | v2_6_13_1 (version : KernelVersion)
  | v2_6_24_2
  deriving DecidableEq

/-- The numbers in `cpu_control_syscalls.c` for 2.6.13.1. -/
def NR_MWMON_KERNEL_SLEEP : ℕ := 258
def NR_MWMON_KERNEL_NOTIFY : ℕ := 259
def NR_MWMON_USER_SLEEP : ℕ := 261
def NR_MWMON_MMAP_SLEEP : ℕ := 262
def NR_MWMON_MMAP_SPIN_WHILE_GREATER : ℕ := 263

/-- The number of `mwmon_mmap_sleep` for 2.6.24.2. -/
def NR_MWMON_MMAP_SLEEP_24 : ℕ := 287

/-- The call that a number stands for in the tables of the patches. -/
def PatchedKernel.sysCallTable (kernel : PatchedKernel) (nr : ℕ) (arg : BitVec 64) :
    Option SpinChoice :=
  match kernel with
  | .v2_6_13_1 version =>
      if nr = 258 then some (.sleep .kernelSleep)
      else if nr = 259 then some .kernelNotify
      else if nr = 261 then some (.sleep (.userSleep arg.toNat))
      else if nr = 262 then some (.sleep .mmapSleep)
      else if nr = 263 then
        some (if version = .onepackageonly then .spinWhileGreater arg else .sleep .mmapSleep2)
      else if nr = 264 ∧ version = .twopackages then some (.spinWhileGreater arg)
      else none
  | .v2_6_24_2 =>
      if nr = 287 then some (.sleep .mmapSleep)
      else if nr = 288 then some (.sleep .mmapSleep2)
      else none

/-- The text of `sys_mwmon_mmap_spin_while_greater`; 2.6.24.2 has it compiled out. -/
def PatchedKernel.version : PatchedKernel → KernelVersion
  | .v2_6_13_1 version => version
  | .v2_6_24_2 => .twopackages

/-! ## The programs -/

/-- A test program and the kernel it is built for and runs on. -/
inductive ThreadTest
  /-- `thread_test_kmon_knot.c`, after `mwmon_kernel_init` has set the pointer. -/
  | kmonKnot (version : KernelVersion) (ptrs : Pointers)
  /-- `thread_test_umon_unot.c`, with what `malloc_aligned` has returned. -/
  | umonUnot (version : KernelVersion) (ptrs : Pointers) (mwmonMemory : BitVec 64)
  /-- `thread_test_kmon_unot.c`. -/
  | kmonUnot (kernel : PatchedKernel) (m : DeviceMapping)

def SLEEP_TIME : ℕ := 5
def NOTIFY_TIME : ℕ := 10
def END_TIME : ℕ := 20

/-- The two threads: `ta0` is the sleeper's, `ta1` the notifier's. -/
abbrev TestId := Fin ThreadCount.two.val

def ta0 : TestId := ⟨0, Nat.two_pos⟩
def ta1 : TestId := ⟨1, Nat.one_lt_two⟩

namespace ThreadTest

variable (b : ThreadTest)

def kernel : ThreadTest → PatchedKernel
  | kmonKnot version _ => .v2_6_13_1 version
  | umonUnot version _ _ => .v2_6_13_1 version
  | kmonUnot kernel _ => kernel

def ptrs : ThreadTest → Pointers
  | kmonKnot _ ptrs => ptrs
  | umonUnot _ ptrs _ => ptrs
  | kmonUnot _ m => m.ptrs

/-- The byte behind the program's own pointer to it, where it has one. -/
def userByte : ThreadTest → Option Addr
  | kmonKnot _ _ => none
  | umonUnot _ _ mwmonMemory => some mwmonMemory.toNat
  | kmonUnot _ m => m.translate m.mmappedDeviceMemory

/-- `lint_counter_addr`. -/
def lintCounter : ThreadTest → Option Addr
  | kmonUnot _ m => m.translate m.lintCounterAddr
  | _ => none

/-- What the program's sleep call enters: `mwmon_kernel_sleep()`,
`mwmon_user_sleep(mwmon_memory)` or `fast_mwmon_mmap_sleep()`. -/
def sleepCall : ThreadTest → Option SpinChoice
  | kmonKnot version _ => (PatchedKernel.v2_6_13_1 version).sysCallTable NR_MWMON_KERNEL_SLEEP 0
  | umonUnot version _ mwmonMemory =>
      (PatchedKernel.v2_6_13_1 version).sysCallTable NR_MWMON_USER_SLEEP mwmonMemory
  | kmonUnot (.v2_6_13_1 version) _ =>
      (PatchedKernel.v2_6_13_1 version).sysCallTable NR_MWMON_MMAP_SLEEP 0
  | kmonUnot .v2_6_24_2 _ => PatchedKernel.v2_6_24_2.sysCallTable NR_MWMON_MMAP_SLEEP_24 0

/-- How the program notifies: `mwmon_kernel_notify()`, or a store of its own. -/
def notification : ThreadTest → Option SpinChoice
  | kmonKnot version _ => (PatchedKernel.v2_6_13_1 version).sysCallTable NR_MWMON_KERNEL_NOTIFY 0
  | umonUnot _ _ mwmonMemory => some (.store mwmonMemory.toNat MWMON_NOTIFIED_VAL)
  | kmonUnot _ m =>
      (m.translate m.mmappedDeviceMemory).map fun a => .store a MWMON_NOTIFIED_VAL

/-- What `fast_mwmon_mmap_spin_while_greater(i)` enters. -/
def spinCall (i : ℕ) : Option SpinChoice :=
  b.kernel.sysCallTable NR_MWMON_MMAP_SPIN_WHILE_GREATER (.ofNat 64 i)

/-- The threads look at the byte after they have counted. -/
def reports : ThreadTest → Bool
  | kmonKnot _ _ => false
  | _ => true

/-- The part under `KERNEL_2_6_13_1`. -/
def counts : ThreadTest → Bool
  | kmonUnot (.v2_6_13_1 _) _ => true
  | _ => false

end ThreadTest

/-- What the `switch` on the byte prints. -/
inductive Message
  | notifiedValue
  | originalValue
  | illegalValue
  deriving DecidableEq

def message (v : Byte) : Message :=
  if v = MWMON_NOTIFIED_VAL then .notifiedValue
  else if v = MWMON_ORIGINAL_VAL then .originalValue
  else .illegalValue

/-- Where a thread is. -/
inductive TestPlace
  /-- The head of `for(i=0; i<END_TIME; i++)`. -/
  | loop (i : ℕ)
  /-- In the sleep call of that iteration. -/
  | asleep (i : ℕ)
  /-- `switch(*mmapped_device_memory)`. -/
  | look
  /-- `SPIN_BARRIER_LSENSE(barrier, ta->lsense)`. -/
  | barrier
  /-- The head of the sleeper's `for(i=10; i<20; i++)`. -/
  | second (i : ℕ)
  /-- In the call of that iteration. -/
  | spinning (i : ℕ)
  /-- `(*lint_counter_addr)=0`. -/
  | clear
  /-- `(*lint_counter_addr)<20`. -/
  | test
  /-- `fprintf(stderr, "[N]: %ld\n", (*lint_counter_addr))`. -/
  | print
  /-- `(*lint_counter_addr)++`: the load. -/
  | load
  /-- `(*lint_counter_addr)++`: the store of the incremented value. -/
  | store (v : BitVec 64)
  /-- `pthread_exit(NULL)`. -/
  | exited
  deriving DecidableEq

/-- A thread: where it is in its function, in the kernel and in the barrier, and what it
has printed. -/
structure TestThread where
  place : TestPlace
  kernel : SpinThread
  barrier : Spin.SpinThread
  message : Option Message
  printed : List (BitVec 64)
  deriving DecidableEq

/-- The machine and the barrier. -/
structure TestShared where
  machine : Machine TestId
  barrier : Spin.SpinBarrier

namespace TestThread

/-- A thread that has just been started. -/
def start : TestThread := ⟨.loop 0, ⟨.user, []⟩, .start, none, []⟩

def goto (t : TestThread) (place : TestPlace) : TestThread := { t with place := place }

variable {t : TestThread} {place : TestPlace}

@[simp] theorem goto_place : (t.goto place).place = place := rfl
@[simp] theorem goto_kernel : (t.goto place).kernel = t.kernel := rfl
@[simp] theorem goto_barrier : (t.goto place).barrier = t.barrier := rfl
@[simp] theorem goto_message : (t.goto place).message = t.message := rfl
@[simp] theorem goto_printed : (t.goto place).printed = t.printed := rfl

end TestThread

namespace ThreadTest

variable (b : ThreadTest)

/-- Where a thread goes after its first loop. -/
def afterLoop : TestPlace := if b.reports then .look else .exited

/-- Where a thread goes after it has looked at the byte. -/
def afterLook : TestPlace := if b.counts then .barrier else .exited

/-- What the kernel does with a thread. -/
def inKernel (c : TestId) (choice : SpinChoice) (sh : TestShared) (t : TestThread) :
    Option (TestShared × TestThread) :=
  (spinThread b.kernel.version b.ptrs c choice sh.machine t.kernel).map fun r =>
    ({ sh with machine := r.1 }, { t with kernel := r.2 })

/-- A call begins, or is all of one step. -/
def enter (c : TestId) (call : Option SpinChoice) (place : TestPlace) (sh : TestShared)
    (t : TestThread) : Option (TestShared × TestThread) :=
  call.bind fun choice => (b.inKernel c choice sh t).map fun r => (r.1, r.2.goto place)

/-- A call goes on, and leads back to the program when it returns. -/
def inCall (c : TestId) (back : TestPlace) (sh : TestShared) (t : TestThread) :
    Option (TestShared × TestThread) :=
  (b.inKernel c .step sh t).map fun r =>
    (r.1, if r.2.kernel.activity = .user then r.2.goto back else r.2)

/-- `switch(*mmapped_device_memory)`. -/
def look (sh : TestShared) (t : TestThread) : Option (TestShared × TestThread) :=
  b.userByte.map fun a =>
    (sh, { t with message := some (Htsynch.message (sh.machine.mem a)), place := b.afterLook })

/-- A step in the barrier, and what comes after it. -/
def atBarrier (c : TestId) (next : TestPlace) (sh : TestShared) (t : TestThread) :
    Option (TestShared × TestThread) :=
  (Spin.SPIN_BARRIER_LSENSE 1 c () sh.barrier t.barrier).map fun r =>
    ({ sh with barrier := r.1 },
      { t with barrier := r.2, place := if r.2.pc = .outside then next else t.place })

/-- The function `sleeper`. -/
def sleeper (c : TestId) (sh : TestShared) (t : TestThread) :
    Option (TestShared × TestThread) :=
  match t.place with
  | .loop i =>
      if i < END_TIME then
        if i = SLEEP_TIME then b.enter c b.sleepCall (.asleep i) sh t
        else some (sh, t.goto (.loop (i + 1)))
      else some (sh, t.goto b.afterLoop)
  | .asleep i => b.inCall c (.loop (i + 1)) sh t
  | .look => b.look sh t
  | .barrier => atBarrier c (.second 10) sh t
  | .second i =>
      if i < 20 then b.enter c (b.spinCall i) (.spinning i) sh t
      else some (sh, t.goto .exited)
  | .spinning i => b.inCall c (.second (i + 1)) sh t
  | _ => none

/-- The function `notifier`. -/
def notifier (c : TestId) (sh : TestShared) (t : TestThread) :
    Option (TestShared × TestThread) :=
  match t.place with
  | .loop i =>
      if i < END_TIME then
        if i = NOTIFY_TIME then b.enter c b.notification (.loop (i + 1)) sh t
        else some (sh, t.goto (.loop (i + 1)))
      else some (sh, t.goto b.afterLoop)
  | .look => b.look sh t
  | .barrier => atBarrier c .clear sh t
  | .clear =>
      b.lintCounter.map fun a =>
        ({ sh with machine := storeLong c a 0 sh.machine }, t.goto .test)
  | .test =>
      b.lintCounter.map fun a =>
        (sh, t.goto (if (readLong sh.machine.mem a).slt 20 then .print else .exited))
  | .print =>
      b.lintCounter.map fun a =>
        (sh, { t with printed := t.printed ++ [readLong sh.machine.mem a], place := .load })
  | .load => b.lintCounter.map fun a => (sh, t.goto (.store (readLong sh.machine.mem a + 1)))
  | .store v =>
      b.lintCounter.map fun a =>
        ({ sh with machine := storeLong c a v sh.machine }, t.goto .test)
  | _ => none

/-- One step of a thread, or an interrupt on its processor. -/
def thread : Program TestId TestShared TestThread (Option Interrupt)
  | c, some i, sh, t => b.inKernel c (.interrupt i) sh t
  | c, none, sh, t => if c.val = 0 then b.sleeper c sh t else b.notifier c sh t

/-- What `main` does to the memory before it starts the threads: `mwmon_kernel_init`, or
nothing, or what opening the device does. -/
def main (c : TestId) (h : Machine TestId) : Machine TestId :=
  match b with
  | kmonKnot _ ptrs =>
      memset c ptrs.mwmonKernelMemory MWMON_ORIGINAL_VAL MWMON_MONITORED_MEM_BYTES h
  | umonUnot _ _ _ => h
  | kmonUnot _ m => KernelState.fillAreas c m.ptrs h

/-- `main` has prepared the memory and the barrier, and started the threads. -/
def init (h : Machine TestId) (s : Config TestId TestShared TestThread) : Prop :=
  s.shared.machine = h ∧
    (∃ sb, s.shared.barrier = Spin.spinBarrierInit sb ThreadCount.two.word) ∧
    ∀ i, s.threads i = .start

/-- The test program, from the machine on which the threads are started. -/
def system (h : Machine TestId) :
    System (Config TestId TestShared TestThread) (TestId × Option Interrupt) :=
  interleave (init h) b.thread

/-! ## What the programs have in common -/

/-- The byte that the program sleeps on. -/
def target : ThreadTest → Addr
  | kmonKnot _ ptrs => ptrs.mwmonKernelMemory
  | umonUnot _ _ mwmonMemory => mwmonMemory.toNat
  | kmonUnot _ m => m.ptrs.mwmonMmapArea

/-- The call it sleeps in. -/
def call : ThreadTest → SleepCall
  | kmonKnot _ _ => .kernelSleep
  | umonUnot _ _ mwmonMemory => .userSleep mwmonMemory.toNat
  | kmonUnot _ _ => .mmapSleep

theorem call_target : b.call.target b.ptrs = b.target := by
  cases b <;> rfl

/-- The numbers of the sleep calls are right on all kernels. -/
theorem sleepCall_eq : b.sleepCall = some (.sleep b.call) := by
  cases b with
  | kmonKnot => rfl
  | umonUnot => rfl
  | kmonUnot kernel m =>
      cases kernel with
      | v2_6_13_1 => rfl
      | v2_6_24_2 => rfl

theorem userByte_eq (hreports : b.reports = true) : b.userByte = some b.target := by
  cases b with
  | kmonKnot => cases hreports
  | umonUnot => rfl
  | kmonUnot kernel m => exact m.translate_userByte .first

/-- However a program notifies, it is a store to the byte its sleeper sleeps on. -/
theorem inKernel_notification (c : TestId) (sh : TestShared) {t : TestThread}
    (huser : t.kernel.activity = .user) :
    ∃ choice, b.notification = some choice ∧ b.inKernel c choice sh t =
      some ({ sh with machine := sh.machine.store c b.target MWMON_NOTIFIED_VAL }, t) := by
  cases b with
  | kmonKnot version ptrs =>
      exact ⟨.kernelNotify, rfl, by simp [inKernel, spinThread, huser, sysMwmonKernelNotify,
        ThreadTest.ptrs, target]⟩
  | umonUnot version ptrs mwmonMemory =>
      exact ⟨.store mwmonMemory.toNat MWMON_NOTIFIED_VAL, rfl,
        by simp [inKernel, spinThread, huser, target]⟩
  | kmonUnot kernel m =>
      have hbyte : m.translate m.mmappedDeviceMemory = some m.ptrs.mwmonMmapArea :=
        m.translate_userByte .first
      exact ⟨.store m.ptrs.mwmonMmapArea MWMON_NOTIFIED_VAL, by rw [notification, hbyte]; rfl,
        by simp [inKernel, spinThread, huser, target]⟩

/-- A notification is over with one step. -/
theorem notification_ne :
    b.notification ≠ some .step ∧ ∀ i, b.notification ≠ some (.interrupt i) := by
  cases b with
  | kmonKnot version ptrs =>
      have hcall : (kmonKnot version ptrs).notification = some .kernelNotify := rfl
      exact ⟨by simp [hcall], by simp [hcall]⟩
  | umonUnot => exact ⟨by simp [notification], by simp [notification]⟩
  | kmonUnot => exact ⟨by simp [notification], by simp [notification]⟩

/-- The call of the second part is the one that is meant. -/
def CallsMatch : Prop :=
  b.counts = true → ∀ i, b.spinCall i = some (.spinWhileGreater (.ofNat 64 i))

theorem lintCounter_eq {a : Addr} (h : b.lintCounter = some a) :
    a = b.ptrs.mwmonLintVarAddr := by
  cases b with
  | kmonKnot => cases h
  | umonUnot => cases h
  | kmonUnot kernel m => exact Option.some.inj (h.symm.trans m.translate_lintCounterAddr)

end ThreadTest

/-- One step of a thread. -/
inductive TestMove (b : ThreadTest) (c : TestId) (sh : TestShared) (t : TestThread) :
    TestShared → TestThread → Prop
  | turn (i : ℕ) (hplace : t.place = .loop i) (hi : i < END_TIME)
      (hsleeps : c.val = 0 → i ≠ SLEEP_TIME) (hnotifies : c.val ≠ 0 → i ≠ NOTIFY_TIME) :
      TestMove b c sh t sh (t.goto (.loop (i + 1)))
  | finish (i : ℕ) (hplace : t.place = .loop i) (hi : ¬ i < END_TIME) :
      TestMove b c sh t sh (t.goto b.afterLoop)
  | sleep (hrole : c.val = 0) (hplace : t.place = .loop SLEEP_TIME) :
      TestMove b c sh t sh { t with
        place := .asleep SLEEP_TIME
        kernel := { t.kernel with activity := .asleep b.call .irqDisable } }
  | notify (hrole : c.val ≠ 0) (hplace : t.place = .loop NOTIFY_TIME) :
      TestMove b c sh t
        { sh with machine := sh.machine.store c b.target MWMON_NOTIFIED_VAL }
        (t.goto (.loop (NOTIFY_TIME + 1)))
  | look (hplace : t.place = .look) :
      TestMove b c sh t sh { t with
        message := some (message (sh.machine.mem b.target))
        place := b.afterLook }
  | barrier (next : TestPlace) (sb : Spin.SpinBarrier) (own : Spin.SpinThread)
      (hplace : t.place = .barrier)
      (hnext : c.val = 0 ∧ next = .second 10 ∨ c.val ≠ 0 ∧ next = .clear)
      (hrun : Spin.lsenseBarrier 1 c () sh.barrier t.barrier = some (sb, own)) :
      TestMove b c sh t { sh with barrier := sb } { t with
        barrier := own
        place := if own.pc = .outside then next else .barrier }
  | spin (i : ℕ) (cond : BitVec 64) (hrole : c.val = 0) (hplace : t.place = .second i)
      (hi : i < 20) (hcall : b.spinCall i = some (.spinWhileGreater cond)) :
      TestMove b c sh t sh { t with
        place := .spinning i
        kernel := { t.kernel with activity := .spinning cond (.shared .test) [] } }
  | stray (i : ℕ) (call : SleepCall) (hrole : c.val = 0) (hplace : t.place = .second i)
      (hi : i < 20) (hcall : b.spinCall i = some (.sleep call)) :
      TestMove b c sh t sh { t with
        place := .spinning i
        kernel := { t.kernel with activity := .asleep call .irqDisable } }
  | leave (i : ℕ) (hrole : c.val = 0) (hplace : t.place = .second i) (hi : ¬ i < 20) :
      TestMove b c sh t sh (t.goto .exited)
  | call (i : ℕ) (back : TestPlace) (machine : Machine TestId) (kernel : SpinThread)
      (hrole : c.val = 0)
      (hplace : t.place = .asleep i ∧ back = .loop (i + 1) ∨
        t.place = .spinning i ∧ back = .second (i + 1))
      (hrun : spinThread b.kernel.version b.ptrs c .step sh.machine t.kernel =
        some (machine, kernel)) :
      TestMove b c sh t { sh with machine := machine } { t with
        kernel := kernel
        place := if kernel.activity = .user then back else t.place }
  | clear (hrole : c.val ≠ 0) (hplace : t.place = .clear) :
      TestMove b c sh t
        { sh with machine := storeLong c b.ptrs.mwmonLintVarAddr 0 sh.machine } (t.goto .test)
  | test (hrole : c.val ≠ 0) (hplace : t.place = .test) :
      TestMove b c sh t sh (t.goto
        (if (readLong sh.machine.mem b.ptrs.mwmonLintVarAddr).slt 20 then .print else .exited))
  | print (hrole : c.val ≠ 0) (hplace : t.place = .print) :
      TestMove b c sh t sh { t with
        printed := t.printed ++ [readLong sh.machine.mem b.ptrs.mwmonLintVarAddr]
        place := .load }
  | load (hrole : c.val ≠ 0) (hplace : t.place = .load) :
      TestMove b c sh t sh
        (t.goto (.store (readLong sh.machine.mem b.ptrs.mwmonLintVarAddr + 1)))
  | store (v : BitVec 64) (hrole : c.val ≠ 0) (hplace : t.place = .store v) :
      TestMove b c sh t
        { sh with machine := storeLong c b.ptrs.mwmonLintVarAddr v sh.machine } (t.goto .test)

namespace ThreadTest

variable {b : ThreadTest} {c : TestId} {sh sh' : TestShared} {t t' : TestThread}

/-- A call is entered from the program only. -/
theorem user_of_inKernel {choice : SpinChoice} (hcall : choice ≠ .step)
    (hinterrupt : ∀ i, choice ≠ .interrupt i)
    (h : b.inKernel c choice sh t = some (sh', t')) : t.kernel.activity = .user := by
  cases hactivity : t.kernel.activity with
  | user => rfl
  | _ =>
      cases choice with
      | step => exact absurd rfl hcall
      | interrupt i => exact absurd rfl (hinterrupt i)
      | _ => simp [inKernel, spinThread, hactivity] at h

theorem enter_cases {call : Option SpinChoice} {place : TestPlace}
    (h : b.enter c call place sh t = some (sh', t')) :
    ∃ choice own, call = some choice ∧ b.inKernel c choice sh t = some (sh', own) ∧
      t' = own.goto place := by
  simp only [enter, Option.bind_eq_some_iff, Option.map_eq_some_iff, Prod.exists,
    Prod.mk.injEq] at h
  obtain ⟨choice, hcall, sh', own, hrun, rfl, rfl⟩ := h
  exact ⟨choice, own, hcall, hrun, rfl⟩

/-- Whatever the number of the second part stands for, it is a call that waits. -/
theorem spinCall_cases {i : ℕ} {choice : SpinChoice} (h : b.spinCall i = some choice) :
    choice = .spinWhileGreater (.ofNat 64 i) ∨ choice = .sleep .mmapSleep2 := by
  unfold spinCall at h
  cases hkernel : b.kernel with
  | v2_6_13_1 version =>
      rw [hkernel] at h
      cases version with
      | onepackageonly => exact .inl (Option.some.inj h).symm
      | twopackages => exact .inr (Option.some.inj h).symm
  | v2_6_24_2 =>
      rw [hkernel] at h
      cases h

theorem inCall_cases {i : ℕ} {back : TestPlace} (hrole : c.val = 0)
    (hplace : t.place = .asleep i ∧ back = .loop (i + 1) ∨
      t.place = .spinning i ∧ back = .second (i + 1))
    (h : b.inCall c back sh t = some (sh', t')) : TestMove b c sh t sh' t' := by
  simp only [inCall, inKernel, Option.map_map, Option.map_eq_some_iff, Function.comp_apply,
    Prod.exists, Prod.mk.injEq] at h
  obtain ⟨machine, kernel, hrun, rfl, rfl⟩ := h
  have hmove : TestMove b c sh t { sh with machine := machine } { t with
      kernel := kernel
      place := if kernel.activity = .user then back else t.place } :=
    .call i back machine kernel hrole hplace hrun
  by_cases huser : kernel.activity = .user
  · rw [if_pos huser] at hmove ⊢
    exact hmove
  · rw [if_neg huser] at hmove ⊢
    exact hmove

theorem look_cases (hplace : t.place = .look) (h : b.look sh t = some (sh', t')) :
    TestMove b c sh t sh' t' := by
  simp only [look, Option.map_eq_some_iff, Prod.mk.injEq] at h
  obtain ⟨a, hbyte, rfl, rfl⟩ := h
  obtain rfl : a = b.target := by
    cases b with
    | kmonKnot => cases hbyte
    | umonUnot => exact (Option.some.inj hbyte).symm
    | kmonUnot kernel m =>
        exact Option.some.inj (hbyte.symm.trans (userByte_eq (kmonUnot kernel m) rfl))
  exact .look hplace

theorem atBarrier_cases {next : TestPlace} (hplace : t.place = .barrier)
    (hnext : c.val = 0 ∧ next = .second 10 ∨ c.val ≠ 0 ∧ next = .clear)
    (h : atBarrier c next sh t = some (sh', t')) : TestMove b c sh t sh' t' := by
  simp only [atBarrier, Option.map_eq_some_iff, Prod.exists, Prod.mk.injEq] at h
  obtain ⟨sb, own, hrun, rfl, rfl⟩ := h
  rw [hplace]
  exact .barrier next sb own hplace hnext hrun

theorem sleeper_cases (hrole : c.val = 0) (h : b.sleeper c sh t = some (sh', t')) :
    TestMove b c sh t sh' t' := by
  cases hplace : t.place with
  | loop i =>
      by_cases hi : i < END_TIME
      · by_cases htime : i = SLEEP_TIME
        · subst htime
          simp only [sleeper, hplace, if_pos hi, ↓reduceIte] at h
          obtain ⟨choice, own, hcall, hrun, rfl⟩ := enter_cases h
          obtain rfl := Option.some.inj (b.sleepCall_eq.symm.trans hcall)
          have huser := user_of_inKernel (by simp) (by simp) hrun
          simp only [inKernel, spinThread, huser, Option.map_some, Option.some.injEq,
            Prod.mk.injEq] at hrun
          obtain ⟨rfl, rfl⟩ := hrun
          exact .sleep hrole hplace
        · simp only [sleeper, hplace, if_pos hi, if_neg htime, Option.some.injEq,
            Prod.mk.injEq] at h
          obtain ⟨rfl, rfl⟩ := h
          exact .turn i hplace hi (fun _ => htime) (fun hne => absurd hrole hne)
      · simp only [sleeper, hplace, if_neg hi, Option.some.injEq, Prod.mk.injEq] at h
        obtain ⟨rfl, rfl⟩ := h
        exact .finish i hplace hi
  | asleep i =>
      simp only [sleeper, hplace] at h
      exact inCall_cases hrole (.inl ⟨hplace, rfl⟩) h
  | look =>
      simp only [sleeper, hplace] at h
      exact look_cases hplace h
  | barrier =>
      simp only [sleeper, hplace] at h
      exact atBarrier_cases hplace (.inl ⟨hrole, rfl⟩) h
  | second i =>
      by_cases hi : i < 20
      · simp only [sleeper, hplace, if_pos hi] at h
        obtain ⟨choice, own, hcall, hrun, rfl⟩ := enter_cases h
        rcases spinCall_cases hcall with rfl | rfl
        · have huser := user_of_inKernel (by simp) (by simp) hrun
          simp only [inKernel, spinThread, huser, Option.map_some, Option.some.injEq,
            Prod.mk.injEq] at hrun
          obtain ⟨rfl, rfl⟩ := hrun
          exact .spin i _ hrole hplace hi hcall
        · have huser := user_of_inKernel (by simp) (by simp) hrun
          simp only [inKernel, spinThread, huser, Option.map_some, Option.some.injEq,
            Prod.mk.injEq] at hrun
          obtain ⟨rfl, rfl⟩ := hrun
          exact .stray i _ hrole hplace hi hcall
      · simp only [sleeper, hplace, if_neg hi, Option.some.injEq, Prod.mk.injEq] at h
        obtain ⟨rfl, rfl⟩ := h
        exact .leave i hrole hplace hi
  | spinning i =>
      simp only [sleeper, hplace] at h
      exact inCall_cases hrole (.inr ⟨hplace, rfl⟩) h
  | _ => simp [sleeper, hplace] at h

theorem notifier_cases (hrole : c.val ≠ 0) (h : b.notifier c sh t = some (sh', t')) :
    TestMove b c sh t sh' t' := by
  cases hplace : t.place with
  | loop i =>
      by_cases hi : i < END_TIME
      · by_cases htime : i = NOTIFY_TIME
        · subst htime
          simp only [notifier, hplace, if_pos hi, ↓reduceIte] at h
          obtain ⟨choice, own, hcall, hrun, rfl⟩ := enter_cases h
          have huser : t.kernel.activity = .user := by
            refine user_of_inKernel ?_ ?_ hrun
            · rintro rfl
              exact b.notification_ne.1 hcall
            · rintro i rfl
              exact b.notification_ne.2 i hcall
          obtain ⟨choice', hcall', hrun'⟩ := b.inKernel_notification c sh huser
          obtain rfl := Option.some.inj (hcall.symm.trans hcall')
          obtain ⟨rfl, rfl⟩ := Prod.mk.inj (Option.some.inj (hrun.symm.trans hrun'))
          exact .notify hrole hplace
        · simp only [notifier, hplace, if_pos hi, if_neg htime, Option.some.injEq,
            Prod.mk.injEq] at h
          obtain ⟨rfl, rfl⟩ := h
          exact .turn i hplace hi (fun hzero => absurd hzero hrole) (fun _ => htime)
      · simp only [notifier, hplace, if_neg hi, Option.some.injEq, Prod.mk.injEq] at h
        obtain ⟨rfl, rfl⟩ := h
        exact .finish i hplace hi
  | look =>
      simp only [notifier, hplace] at h
      exact look_cases hplace h
  | barrier =>
      simp only [notifier, hplace] at h
      exact atBarrier_cases hplace (.inr ⟨hrole, rfl⟩) h
  | clear =>
      simp only [notifier, hplace, Option.map_eq_some_iff, Prod.mk.injEq] at h
      obtain ⟨a, ha, rfl, rfl⟩ := h
      rw [b.lintCounter_eq ha]
      exact .clear hrole hplace
  | test =>
      simp only [notifier, hplace, Option.map_eq_some_iff, Prod.mk.injEq] at h
      obtain ⟨a, ha, rfl, rfl⟩ := h
      rw [b.lintCounter_eq ha]
      exact .test hrole hplace
  | print =>
      simp only [notifier, hplace, Option.map_eq_some_iff, Prod.mk.injEq] at h
      obtain ⟨a, ha, rfl, rfl⟩ := h
      rw [b.lintCounter_eq ha]
      exact .print hrole hplace
  | load =>
      simp only [notifier, hplace, Option.map_eq_some_iff, Prod.mk.injEq] at h
      obtain ⟨a, ha, rfl, rfl⟩ := h
      rw [b.lintCounter_eq ha]
      exact .load hrole hplace
  | store v =>
      simp only [notifier, hplace, Option.map_eq_some_iff, Prod.mk.injEq] at h
      obtain ⟨a, ha, rfl, rfl⟩ := h
      rw [b.lintCounter_eq ha]
      exact .store v hrole hplace
  | _ => simp [notifier, hplace] at h

theorem thread_cases (h : b.thread c none sh t = some (sh', t')) :
    TestMove b c sh t sh' t' := by
  by_cases hrole : c.val = 0
  · simp only [thread, if_pos hrole] at h
    exact sleeper_cases hrole h
  · simp only [thread, if_neg hrole] at h
    exact notifier_cases hrole h

/-- An interrupt changes at most the monitor and where in a call its thread is. -/
theorem thread_some {i : Interrupt} (h : b.thread c (some i) sh t = some (sh', t')) :
    sh' = { sh with machine := i.onMachine c sh.machine } ∧
      t' = { t with kernel :=
        { t.kernel with activity := i.onSpinActivity t.kernel.activity } } := by
  simp only [thread, inKernel, spinThread, Option.map_some, Option.some.injEq,
    Prod.mk.injEq] at h
  exact ⟨h.1.symm, h.2.symm⟩

/-- What every step and every interrupt keeps in reachable states holds in all of them. -/
theorem invariant {h : Machine TestId} {P : Config TestId TestShared TestThread → Prop}
    (hinit : ∀ s, init h s → P s)
    (hmove : ∀ s who sh own, (b.system h).Reachable s → P s →
      TestMove b who s.shared (s.threads who) sh own → P (s.move who sh own))
    (hinterrupt : ∀ s who (i : Interrupt), P s → P (s.move who
      { s.shared with machine := i.onMachine who s.shared.machine }
      { s.threads who with kernel := { (s.threads who).kernel with
        activity := i.onSpinActivity (s.threads who).kernel.activity } }))
    {s : Config TestId TestShared TestThread} (hreach : (b.system h).Reachable s) : P s := by
  have hboth : (b.system h).Reachable s ∧ P s := by
    refine interleave_invariant (P := fun s => (b.system h).Reachable s ∧ P s)
      (fun s hs => ⟨.of_init hs, hinit s hs⟩) ?_ hreach
    rintro s who choice sh own ⟨hreach, hP⟩ hstep
    have hnext : (b.system h).step s (who, choice) (s.move who sh own) :=
      interleave_step_iff.mpr ⟨sh, own, hstep, rfl⟩
    refine ⟨hreach.step hnext, ?_⟩
    cases choice with
    | none => exact hmove s who sh own hreach hP (thread_cases hstep)
    | some i =>
        obtain ⟨rfl, rfl⟩ := thread_some hstep
        exact hinterrupt s who i hP
  exact hboth.2

end ThreadTest

end Htsynch
