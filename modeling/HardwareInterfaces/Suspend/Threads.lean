import HardwareInterfaces.Lib.LockOrder
import HardwareInterfaces.Suspend.ControlService
import HardwareInterfaces.Suspend.SleepTime
import HardwareInterfaces.Suspend.WakeLockEntryList
import HardwareInterfaces.Suspend.WakeupList
import HardwareInterfaces.Suspend.WakeupReasons

/-!
# The threads of the suspend service

What the threads of the suspend service run: the public operations of `SystemSuspend`, of its two wake lock
front ends and of the control services, and the autosuspend loop, cut into blocks at every point where a
mutex is taken or released or another thread or the kernel may interfere. The functions of the source that
take a lock are pieces of code here (`lockGuard`, `callIncSuspendCounter`, `callNotifyWakelock`, ...).

Names of blocks are those of the functions they are the bodies of. The blocks of the autosuspend loop carry the
local variables of the loop that are still alive.
-/

namespace HardwareInterfaces.Suspend

open CppStd Monitor

inductive Mutex
  | mAutosuspendClientTokensLock
  | mAutosuspendLock
  | mSuspendInfoLock
  | mStatsLock
  | wakeupListLock
  | mCallbackLock
  | mWakelockCallbackLock
  deriving DecidableEq

/-- A thread: a binder thread that serves clients, or an autosuspend thread, numbered in the order of creation. -/
inductive Tid
  | client (n : Nat)
  | autosuspend (n : Nat)
  deriving DecidableEq

inductive FrontEnd
  | aidl
  | hidl
  deriving DecidableEq

inductive Change
  | acquire
  | release
  deriving DecidableEq

/-- On whose behalf the counter or the statistics change: a wake lock object, or a caller that passes a name and
a pid without having one. -/
inductive Holder
  | wakeLock (wl : Nat)
  | direct (name : StdString) (pid : Int)
  deriving DecidableEq

inductive Notification
  | notifyWakeup (success : Bool) (wakeupReasons : List StdString)
  | notifyAcquired
  | notifyReleased
  deriving DecidableEq

/-- The public operations. Wake locks are numbered in the order of their construction. -/
inductive Op
  | acquireWakeLock (frontEnd : FrontEnd) (name : StdString)
  | release (wl : Nat)
  | destroyWakeLock (wl : Nat)
  | enableAutosuspend (token : Binder)
  | disableAutosuspend
  | forceSuspend
  | destroySystemSuspend
  | getSuspendStats
  | getSuspendInfo
  | getWakeLockStats
  | getWakeupStats
  | updateStatsNow
  | dump (args : List StdString)
  | registerCallback (callback : Option Callback)
  | registerWakelockCallback (callback : Option Callback) (name : StdString)
  | binderDied (who : Binder)
  | incSuspendCounter (name : StdString)
  | decSuspendCounter (name : StdString)
  | updateWakeLockStat (change : Change) (name : StdString) (pid : Int)
  | notifyWakelock (change : Change) (name : StdString)
  | notifyWakeup (success : Bool) (wakeupReasons : List StdString)
  deriving DecidableEq

/-- The operations a client can reach over binder. The others are public members of `SystemSuspend` and
`SuspendControlService` that only the service itself calls. -/
def Op.served : Op → Bool
  | .incSuspendCounter _ => false
  | .decSuspendCounter _ => false
  | .updateWakeLockStat .. => false
  | .notifyWakelock .. => false
  | .notifyWakeup .. => false
  | _ => true

inductive LoopBlock
  | head (shouldSleep : Bool)
  | sleep (woken : Bool)
  | slept (shouldSleep : Bool)
  | readWakeupCount (shouldSleep : Bool)
  | gotWakeupCount (wakeupCount : StdString) (shouldSleep : Bool)
  | awaitCounter (wakeupCount : StdString)
  | counterIdle (wakeupCount : StdString)
  | checkTokens (wakeupCount : StdString)
  | checkCounter (wakeupCount : StdString)
  | writeWakeupCount (wakeupCount : StdString)
  | writeState
  | readSuspendTime (success : Bool)
  | readWakeupReasons (success : Bool)
  deriving DecidableEq

inductive Block
  | op (o : Op)
  | enableAutosuspend (token : Binder)
  | disableAutosuspendLocked
  | awaitThreadExit (woken : Bool)
  | forceSuspend
  | incSuspendCounter (h : Holder)
  | decSuspendCounter (h : Holder)
  | getTimeNow (change : Change) (h : Holder)
  | updateStats (change : Change) (h : Holder) (timeNow : Int)
  | updateNow
  | getWakeLockStats
  | getWakeupStats
  | updateWakeupList (wakeupReasons : List StdString)
  | getSuspendInfo
  | updateSleepTime (success : Bool) (suspendTime : SuspendTime)
  | dumpKernelSuspends (suspendControls : Bool)
  | returnWakeLock (wl : Nat)
  | callOnce (wl : Nat) (destructor : Bool)
  | onceDone (wl : Nat) (destructor : Bool)
  | beginDestroy (wl : Nat)
  | endDestroy (wl : Nat)
  | registerCallback (callback : Callback)
  | pushCallback (callback : Callback)
  | registerWakelockCallback (callback : Callback) (name : StdString)
  | pushWakelockCallback (callback : Callback) (name : StdString)
  | eraseCallbacks (who : Binder)
  | eraseWakelockCallbacks (who : Binder)
  | notifyWakelock (change : Change) (h : Holder)
  | notifyWakeup (success : Bool) (wakeupReasons : List StdString)
  | callback (callback : Callback) (notification : Notification)
  | loop (b : LoopBlock)
  deriving DecidableEq

abbrev ThreadCode := Code Mutex Block

open Mutex

/-! ### Pieces of code -/

def lockGuard (m : Mutex) (body : ThreadCode) : ThreadCode := .lock m :: (body ++ [.unlock m])

def callIncSuspendCounter (h : Holder) : ThreadCode := lockGuard mAutosuspendLock [.run (.incSuspendCounter h)]

def callDecSuspendCounter (h : Holder) : ThreadCode := lockGuard mAutosuspendLock [.run (.decSuspendCounter h)]

/-- `notifyWakelock` and `notifyWakeup` release their lock themselves, before they call the callbacks. -/
def callNotifyWakelock (change : Change) (h : Holder) : ThreadCode :=
  [.lock mWakelockCallbackLock, .run (.notifyWakelock change h)]

def callNotifyWakeup (success : Bool) (wakeupReasons : List StdString) : ThreadCode :=
  [.lock mCallbackLock, .run (.notifyWakeup success wakeupReasons)]

/-- `updateWakeLockStatOnAcquire` and `updateWakeLockStatOnRelease`. The clock is read before the lock of the
statistics is taken. -/
def callUpdateWakeLockStat (change : Change) (h : Holder) : ThreadCode :=
  .run (.getTimeNow change h) :: callNotifyWakelock change h

/-- The constructor of a wake lock: the HIDL one also records the acquisition. -/
def constructWakeLock (frontEnd : FrontEnd) (wl : Nat) : ThreadCode :=
  match frontEnd with
  | .aidl => callIncSuspendCounter (.wakeLock wl)
  | .hidl => callIncSuspendCounter (.wakeLock wl) ++ callUpdateWakeLockStat .acquire (.wakeLock wl)

/-- `acquireWakeLock` for the object `wl`: the AIDL one records the acquisition after the construction. -/
def callAcquireWakeLock (frontEnd : FrontEnd) (wl : Nat) : ThreadCode :=
  match frontEnd with
  | .aidl => constructWakeLock .aidl wl ++ callUpdateWakeLockStat .acquire (.wakeLock wl) ++
      [.run (.returnWakeLock wl)]
  | .hidl => constructWakeLock .hidl wl ++ [.run (.returnWakeLock wl)]

def releaseCallable (wl : Nat) : ThreadCode :=
  callDecSuspendCounter (.wakeLock wl) ++ callUpdateWakeLockStat .release (.wakeLock wl)

def bothLocks (body : ThreadCode) : ThreadCode :=
  lockGuard mAutosuspendClientTokensLock (lockGuard mAutosuspendLock body)

/-- A `wait` on the condition variable that evaluates its predicate, at `again`, each time it returns. -/
def waitThen (again : Block) : ThreadCode := [.wait mAutosuspendLock, .lock mAutosuspendLock, .run again]

def callUpdateNow : ThreadCode := lockGuard mStatsLock [.run .updateNow]

def callGetWakeLockStats : ThreadCode := lockGuard mStatsLock [.run .getWakeLockStats]

def callGetWakeupStats : ThreadCode := lockGuard wakeupListLock [.run .getWakeupStats]

def callGetSuspendInfo : ThreadCode := lockGuard mSuspendInfoLock [.run .getSuspendInfo]

def autosuspendThread : ThreadCode := [.lock mAutosuspendLock, .run (.loop (.head true))]

/-! ### Options of `dump` -/

structure DumpOptions where
  wakelocks : Bool := false
  wakeups : Bool := false
  kernelSuspends : Bool := false
  suspendControls : Bool := false
  deriving DecidableEq

namespace DumpOptions

def all : DumpOptions := ⟨true, true, true, true⟩

/-- One turn of the loop over the arguments; `none` if it returns with the usage text. -/
def parseArg (opts : DumpOptions) (arg : StdString) : Option DumpOptions :=
  if arg = str "--wakelocks" then some { opts with wakelocks := true }
  else if arg = str "--wakeups" then some { opts with wakeups := true }
  else if arg = str "--kernel_suspends" then some { opts with kernelSuspends := true }
  else if arg = str "--suspend_controls" then some { opts with suspendControls := true }
  else if arg = str "-a" ∨ arg = str "--all" then some all
  else if arg = str "-h" ∨ arg = str "--help" then none
  else some opts

def parse (args : List StdString) : Option DumpOptions :=
  if args = [] then some all else args.foldlM parseArg {}

end DumpOptions

def callDump (opts : DumpOptions) : ThreadCode :=
  (if opts.wakelocks then callUpdateNow ++ callGetWakeLockStats else []) ++
  (if opts.wakeups then callGetWakeupStats else []) ++
  (if opts.kernelSuspends then [.run (.dumpKernelSuspends opts.suspendControls)]
    else if opts.suspendControls then callGetSuspendInfo else [])

end HardwareInterfaces.Suspend
