import Htsynch.CpuSets
import Htsynch.CycleTimer
import Htsynch.Foundations.Alignment
import Htsynch.Foundations.BitSets
import Htsynch.Foundations.BusyWaiting
import Htsynch.Foundations.Census
import Htsynch.Foundations.Event
import Htsynch.Foundations.Fairness
import Htsynch.Foundations.Handshake
import Htsynch.Foundations.HandshakeProgress
import Htsynch.Foundations.Interleaving
import Htsynch.Foundations.Limbs
import Htsynch.Foundations.LineAgreement
import Htsynch.Foundations.LiveBlocks
import Htsynch.Foundations.Monitor
import Htsynch.Foundations.Mutex
import Htsynch.Foundations.PollLoop
import Htsynch.Foundations.RangeTable
import Htsynch.Foundations.Rendezvous
import Htsynch.Foundations.Runs
import Htsynch.Foundations.SenseReversal
import Htsynch.Foundations.Stopwatch
import Htsynch.Foundations.System
import Htsynch.Foundations.Unwinding
import Htsynch.Kernel.KernelRegion
import Htsynch.Kernel.KmemMapper
import Htsynch.Kernel.KmemMmap
import Htsynch.Kernel.ModuleLifetime
import Htsynch.Kernel.ModuleLoading
import Htsynch.Kernel.MonitoredAreas
import Htsynch.Kernel.Mwmon
import Htsynch.Kernel.SleepMatching
import Htsynch.Kernel.SleepSystem
import Htsynch.Kernel.SpinSteps
import Htsynch.Kernel.SpinWhileGreater
import Htsynch.Kernel.UserMapping
import Htsynch.MwaitBarrier.Accounting
import Htsynch.MwaitBarrier.Crowd
import Htsynch.MwaitBarrier.Packages
import Htsynch.MwaitBarrier.PackagesTermination
import Htsynch.MwaitBarrier.Phases
import Htsynch.MwaitBarrier.Program
import Htsynch.MwaitBarrier.Progress
import Htsynch.MwaitBarrier.Rendezvous
import Htsynch.MwaitBarrier.Separation
import Htsynch.MwaitBarrier.Termination
import Htsynch.PlainBarrier.LateRelease
import Htsynch.PlainBarrier.Once
import Htsynch.PlainBarrier.OnceTermination
import Htsynch.PlainBarrier.Program
import Htsynch.PlainBarrier.Rounds
import Htsynch.Spin.LockFairness
import Htsynch.Spin.LockFiles
import Htsynch.Spin.SpinBarrier
import Htsynch.Spin.SpinRendezvous
import Htsynch.Spin.SpinTermination
import Htsynch.Synch.HaltWakeup
import Htsynch.Synch.HaltingBarrier
import Htsynch.Synch.HaltingTermination
import Htsynch.Synch.HaltingWait
import Htsynch.Synch.InequalityWait
import Htsynch.Synch.LoopTurns
import Htsynch.Synch.LsenseBarrier
import Htsynch.Synch.LsenseDeadlock
import Htsynch.Synch.LsenseRendezvous
import Htsynch.Synch.LsenseTermination
import Htsynch.Synch.SpinLock
import Htsynch.Synch.SpinLockExclusion
import Htsynch.Synch.SpinWait
import Htsynch.Synch.WaitLoop
import Htsynch.TestPrimitives
import Htsynch.TestPrimitivesTermination
import Htsynch.ThreadTest.Counting
import Htsynch.ThreadTest.Handshake
import Htsynch.ThreadTest.Places
import Htsynch.ThreadTest.Program
import Htsynch.ThreadTest.Progress
import Htsynch.ThreadTest.Termination
import Htsynch.ThreadTest.Turns
import Htsynch.Threads
import Htsynch.X86
