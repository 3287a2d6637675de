import HardwareInterfaces.Suspend.KernelWakelocks
import HardwareInterfaces.Suspend.Threads

/-!
# The suspend service

The shared state of the suspend service and what each block of `Threads` does to it, as a `Monitor` program. All
answers of the kernel, of binder and of the clock come in through `Env`, so that a run may see any outcome of any read,
write or call. A block that would use an invalid iterator has no outcome.

The wake lock objects record, next to the members the source has, how far their acquisition, their
`std::call_once` and their destructor have come; nothing but the once flag and the guards on calls of an object that
does not exist (yet, or any more) depends on that. A destroyed `SystemSuspend` goes on accepting calls
here: the real one is gone, so this only adds runs.
-/

namespace HardwareInterfaces.Suspend

open CppStd Monitor Mutex

/-- How far `acquireWakeLock` has come: the counter raised, the acquisition recorded, the object returned. -/
inductive Acquisition
  | constructing
  | counted
  | recorded
  | returned
  deriving DecidableEq

inductive ReleaseStage
  | counter
  | stats
  | finish
  deriving DecidableEq

/-- `std::once_flag`, with the thread that runs the callable. -/
inductive OnceFlag
  | idle
  | running (t : Tid) (stage : ReleaseStage)
  | done
  deriving DecidableEq

/-- The destructor of a wake lock: inside its `releaseOnce`, or past it. -/
inductive Destruction
  | alive
  | releasing (t : Tid)
  | released (t : Tid)
  | ended
  deriving DecidableEq

structure WakeLock where
  frontEnd : FrontEnd
  mName : StdString
  mPid : Int
  acquirer : Tid
  isLocal : Bool
  acquisition : Acquisition := .constructing
  mReleased : OnceFlag := .idle
  destruction : Destruction := .alive
  deriving DecidableEq

namespace WakeLock

variable (w : WakeLock)

def key : StatsKey := (w.mName, w.mPid)

def incremented : Bool := w.acquisition ≠ .constructing

def decremented : Bool :=
  match w.mReleased with
  | .idle => false
  | .running _ stage => stage ≠ .counter
  | .done => true

def unreleased : Bool := w.incremented && !w.decremented

def visible : Bool := w.acquisition = .returned && !w.isLocal && w.destruction ≠ .ended

end WakeLock

structure Config where
  statsCapacity : Nat
  useSuspendCounter : Bool
  sleepTimeConfig : SleepTimeConfig
  wakeupReasonsFd : Int
  parseInt : StdString → Option Int

structure Shared where
  mSuspendCounter : Nat := 0
  mAutosuspendClientTokens : List Binder := []
  mAutosuspendEnabled : Bool := false
  mAutosuspendThreadCreated : Bool := false
  sleep : SleepState
  mStatsList : WakeLockEntryList
  mWakeupList : WakeupList
  mWakeupReasonsFd : Int
  control : Registry := {}
  wakeLocks : List WakeLock := []
  spawned : Nat := 0

/-- The answers a block gets from outside: the bytes of a read, the success of a write or an open, whether all files
of a directory could be read, the time a suspend took, the content of the wakeup reasons, a reopened descriptor,
what a reading of the wakeup class directory finds, the clock, whether a timed wait timed out, the calling pid, whether a pointer argument is null, whether a
binder could be linked to death, and the call a client callback makes into the service before it returns. -/
structure Env where
  bytes : StdString := []
  ok : Bool := true
  readable : Bool := true
  suspendTime : SuspendTime := ⟨0, 0⟩
  content : Option StdString := none
  fd : Int := 0
  wakeupClass : Option (Directory (Option (Directory File))) := none
  timeNow : Int := 0
  timedOut : Bool := false
  pid : Int := 0
  null : Bool := false
  linked : Bool := true
  call : Option Op := none

/-- What the history of a run records. -/
inductive Ev
  | enableAutosuspend (token : Binder) (ret : Bool)
  | disableAutosuspend
  | shutDown (exited : Bool)
  | forceSuspend (success : Bool)
  | incSuspendCounter (h : Holder)
  | decSuspendCounter (h : Holder)
  | wroteWakeLock (name : StdString) (success : Bool)
  | wroteWakeUnlock (name : StdString) (success : Bool)
  | updateStats (change : Change) (h : Holder) (timeNow : Int)
  | updateNow (timeNow : Int)
  | wakeLockStats (wakeupClass : Option (Directory (Option (Directory File)))) (stats : List WakeLockInfo)
  | wakeupStats (stats : List WakeupInfo)
  | suspendInfo (info : SuspendInfo)
  | acquired (wl : Nat)
  | release (wl : Nat)
  | destroy (wl : Nat)
  | destroyed (wl : Nat)
  | registerCallback (callback : Option Callback) (ret : Bool)
  | registerWakelockCallback (callback : Option Callback) (name : StdString) (ret : Bool)
  | binderDied (who : Binder)
  | notifyWakelock (change : Change) (h : Holder) (callbacks : List Callback)
  | notifyWakeup (success : Bool) (wakeupReasons : List StdString) (callbacks : List Callback)
  | callback (callback : Callback) (notification : Notification)
  | loopHead (shouldSleep : Bool)
  | exited
  | slept (sleepTime : Int) (timedOut : Bool)
  | readWakeupCount (wakeupCount : StdString)
  | checkedCounter
  | wroteWakeupCount (wakeupCount : StdString) (success : Bool)
  | suspend (success : Bool)
  | updateSleepTime (success : Bool) (suspendTime : SuspendTime)
  | reopenedWakeupReasons (fd : Int)
  | updateWakeupList (wakeupReasons : List StdString) (evicted : Bool)
  | kernelWakeup
  | binderDeath (who : Binder)
  deriving DecidableEq

abbrev Out := Outcome Mutex Tid Block Shared Ev

namespace Shared

variable (σ : Shared)

def start (cfg : Config) : Shared where
  sleep := { mSleepTime := cfg.sleepTimeConfig.baseSleepTime }
  mStatsList := .create cfg.statsCapacity
  mWakeupList := .create cfg.statsCapacity
  mWakeupReasonsFd := cfg.wakeupReasonsFd

/-- The name and the pid a holder passes along. -/
def keyOf : Holder → StatsKey
  | .wakeLock wl => (σ.wakeLocks[wl]?.map WakeLock.key).getD ([], 0)
  | .direct name pid => (name, pid)

def onLock (wl : Nat) (f : WakeLock → WakeLock) : Shared :=
  { σ with wakeLocks := σ.wakeLocks.modify wl f }

def onHolder (h : Holder) (f : WakeLock → WakeLock) : Shared :=
  match h with
  | .wakeLock wl => σ.onLock wl f
  | .direct .. => σ

end Shared

def OnceFlag.advance (stage : ReleaseStage) : OnceFlag → OnceFlag
  | .running t _ => .running t stage
  | flag => flag

namespace WakeLock

def counted (w : WakeLock) : WakeLock := { w with acquisition := .counted }

/-- The lock after its `updateOnAcquire` or `updateOnRelease`. -/
def statsUpdated (change : Change) (w : WakeLock) : WakeLock :=
  match change with
  | .acquire => { w with acquisition := .recorded }
  | .release => { w with mReleased := w.mReleased.advance .finish }

def uncounted (w : WakeLock) : WakeLock := { w with mReleased := w.mReleased.advance .stats }

def pastOnce (t : Tid) (destructor : Bool) (w : WakeLock) : WakeLock :=
  { w with
    mReleased := .done
    destruction := if destructor then .released t else w.destruction }

end WakeLock

namespace Service

variable (cfg : Config) (t : Tid) (env : Env) (σ : Shared)

/-! ### `SystemSuspend` -/

def hasToken (token : Binder) : Bool := token ∈ σ.mAutosuspendClientTokens

def addToken (token : Binder) : Shared :=
  { σ with
    mAutosuspendClientTokens :=
      if hasToken σ token then σ.mAutosuspendClientTokens else σ.mAutosuspendClientTokens ++ [token] }

def initAutosuspendLocked : Shared × Option (Tid × ThreadCode) :=
  if σ.mAutosuspendThreadCreated then (σ, none)
  else
    ({ σ with mAutosuspendThreadCreated := true, spawned := σ.spawned + 1 },
      some (.autosuspend σ.spawned, autosuspendThread))

def kZygoteKernelWakelock : StdString := str "zygote_kwl"

def enableAutosuspend (token : Binder) : Out :=
  let unlocked := Ev.wroteWakeUnlock kZygoteKernelWakelock env.ok
  let σ := addToken σ token
  if σ.mAutosuspendEnabled then
    { state := σ, events := [.enableAutosuspend token false, unlocked] }
  else
    let (σ, spawn) := initAutosuspendLocked { σ with mAutosuspendEnabled := true }
    { state := σ, spawn, events := [.enableAutosuspend token true, unlocked] }

def disableAutosuspendLocked : Out where
  state := { σ with mAutosuspendClientTokens := [], mAutosuspendEnabled := false }
  notify := if σ.mAutosuspendEnabled then .all else .nobody
  events := [.disableAutosuspend]

/-- The timed wait of the destructor for the autosuspend thread. -/
def awaitThreadExit (woken : Bool) : Out :=
  if !σ.mAutosuspendThreadCreated || (woken && env.timedOut) then
    { state := σ, events := [.shutDown !σ.mAutosuspendThreadCreated] }
  else { state := σ, code := waitThen (.awaitThreadExit true) }

def counterModulus : Nat := 2 ^ 32

def incremented (counter : Nat) : Nat := (counter + 1) % counterModulus

def decremented (counter : Nat) : Nat := if counter = 0 then counterModulus - 1 else counter - 1

def incSuspendCounter (h : Holder) : Out :=
  let σ' := σ.onHolder h WakeLock.counted
  if cfg.useSuspendCounter then
    { state := { σ' with mSuspendCounter := incremented σ.mSuspendCounter }
      events := [.incSuspendCounter h] }
  else
    { state := σ', events := [.incSuspendCounter h, .wroteWakeLock (σ.keyOf h).1 env.ok] }

def decSuspendCounter (h : Holder) : Out :=
  let σ' := σ.onHolder h WakeLock.uncounted
  if cfg.useSuspendCounter then
    let counter := decremented σ.mSuspendCounter
    { state := { σ' with mSuspendCounter := counter }
      notify := if counter = 0 then .one else .nobody
      events := [.decSuspendCounter h] }
  else
    { state := σ', events := [.decSuspendCounter h, .wroteWakeUnlock (σ.keyOf h).1 env.ok] }

def updateStats (change : Change) (h : Holder) (timeNow : Int) : Option Out :=
  let stats := match change with
    | .acquire => σ.mStatsList.updateOnAcquire (σ.keyOf h) timeNow
    | .release => σ.mStatsList.updateOnRelease (σ.keyOf h) timeNow
  stats.map fun stats =>
    { state := { σ.onHolder h (WakeLock.statsUpdated change) with mStatsList := stats }
      events := [.updateStats change h timeNow] }

/-- The new entry does not fit: the last one is erased. -/
def evicts (wakeupReasons : List StdString) : Bool :=
  wakeupReasons ≠ [] && (σ.mWakeupList.mLookupTable.lookup (WakeupList.keyOf wakeupReasons)).isNone &&
    decide (σ.mWakeupList.mWakeups.size + 1 > σ.mWakeupList.mCapacity)

def updateWakeupList (wakeupReasons : List StdString) : Option Out :=
  (σ.mWakeupList.update wakeupReasons).map fun wakeups =>
    { state := { σ with mWakeupList := wakeups }
      events := [.updateWakeupList wakeupReasons (evicts σ wakeupReasons)] }

/-! ### Wake lock objects -/

def construct (frontEnd : FrontEnd) (name : StdString) (isLocal : Bool) : Shared :=
  { σ with wakeLocks := σ.wakeLocks ++
      [{ frontEnd, mName := name, mPid := env.pid, acquirer := t, isLocal }] }

/-- Only the AIDL front end has an out parameter that can be null. -/
def acquireWakeLock (frontEnd : FrontEnd) (name : StdString) : Out :=
  if frontEnd = .aidl && env.null then { state := σ }
  else
    { state := construct t env σ frontEnd name false
      code := callAcquireWakeLock frontEnd σ.wakeLocks.length }

/-- The lock that keeps the statistics consistent while they are read, held in a local variable. -/
def getSuspendStats : Out :=
  if !env.ok || env.null then { state := σ }
  else
    { state := construct t env σ .aidl (str "suspend_stats_lock") true
      code := callAcquireWakeLock .aidl σ.wakeLocks.length ++ [.run (.beginDestroy σ.wakeLocks.length)] }

/-- A reader that fails on a statistics file ends the dump. -/
def dumpKernelSuspends (suspendControls : Bool) : Out :=
  let o := getSuspendStats t env σ
  { o with code := o.code ++ if suspendControls && env.readable then callGetSuspendInfo else [] }

/-- `releaseOnce`, up to the callable: it runs at most once, and other callers wait for it. -/
def callOnce (wl : Nat) (destructor : Bool) : Option Out :=
  match (σ.wakeLocks[wl]?.map WakeLock.mReleased).getD .idle with
  | .idle => some
      { state := σ.onLock wl fun w => { w with mReleased := .running t .counter }
        code := releaseCallable wl ++ [.run (.onceDone wl destructor)] }
  | .running _ _ => none
  | .done => some { state := σ.onLock wl (WakeLock.pastOnce t destructor) }

def release (wl : Nat) : Option Out :=
  if σ.wakeLocks[wl]?.any WakeLock.visible then
    some { state := σ, code := [.run (.callOnce wl false)], events := [.release wl] }
  else none

def beginDestroy (wl : Nat) : Option Out :=
  if σ.wakeLocks[wl]?.any fun w => w.acquisition = .returned && w.destruction = .alive then
    some
      { state := σ.onLock wl fun w => { w with destruction := .releasing t }
        code := [.run (.callOnce wl true), .run (.endDestroy wl)]
        events := [.destroy wl] }
  else none

def destroyWakeLock (wl : Nat) : Option Out :=
  if σ.wakeLocks[wl]?.any WakeLock.visible then beginDestroy t σ wl else none

/-! ### `SuspendControlService` -/

/-- The binder may die between the link and the insertion. -/
def registerCallback (cb : Callback) : Out :=
  match σ.control.linkCallback cb env.linked with
  | some control => { state := { σ with control }, code := [.run (.pushCallback cb)] }
  | none => { state := σ, events := [.registerCallback (some cb) false] }

def registerWakelockCallback (cb : Callback) (name : StdString) : Out :=
  let (goesOn, control) := σ.control.linkWakelockCallback cb name env.linked
  if goesOn then { state := { σ with control }, code := [.run (.pushWakelockCallback cb name)] }
  else { state := { σ with control }, events := [.registerWakelockCallback (some cb) name false] }

def notificationOf : Change → Notification
  | .acquire => .notifyAcquired
  | .release => .notifyReleased

/-- Copy the callbacks, release the lock, call the copies. -/
def notifyAll (m : Mutex) (callbacks : List Callback) (notification : Notification) : ThreadCode :=
  .unlock m :: callbacks.map fun cb => .run (.callback cb notification)

def notifyWakelock (change : Change) (h : Holder) : Out :=
  let callbacks := σ.control.wakelockCallbacks (σ.keyOf h).1
  { state := σ
    code := notifyAll mWakelockCallbackLock callbacks (notificationOf change)
    events := [.notifyWakelock change h callbacks] }

def notifyWakeup (success : Bool) (wakeupReasons : List StdString) : Out :=
  let callbacks := σ.control.mCallbacks
  { state := σ
    code := notifyAll mCallbackLock callbacks (.notifyWakeup success wakeupReasons)
    events := [.notifyWakeup success wakeupReasons callbacks] }

/-- A client callback, which may call back into the service. -/
def callback (cb : Callback) (notification : Notification) : Out where
  state := σ
  code := match env.call with
    | none => []
    | some o => [.run (.op o)]
  events := [.callback cb notification]

/-! ### The operations -/

def execOp : Op → Option Out
  | .acquireWakeLock frontEnd name => some (acquireWakeLock t env σ frontEnd name)
  | .release wl => release σ wl
  | .destroyWakeLock wl => destroyWakeLock t σ wl
  | .enableAutosuspend token => some { state := σ, code := bothLocks [.run (.enableAutosuspend token)] }
  | .disableAutosuspend => some { state := σ, code := bothLocks [.run .disableAutosuspendLocked] }
  | .forceSuspend => some { state := σ, code := lockGuard mAutosuspendLock [.run .forceSuspend] }
  | .destroySystemSuspend => some
      { state := σ, code := bothLocks [.run .disableAutosuspendLocked, .run (.awaitThreadExit false)] }
  | .getSuspendStats => some (getSuspendStats t env σ)
  | .getSuspendInfo => some { state := σ, code := callGetSuspendInfo }
  | .getWakeLockStats => some { state := σ, code := callUpdateNow ++ callGetWakeLockStats }
  | .getWakeupStats => some { state := σ, code := callGetWakeupStats }
  | .updateStatsNow => some { state := σ, code := callUpdateNow }
  | .dump args => some { state := σ, code := ((DumpOptions.parse args).map callDump).getD [] }
  | .registerCallback none => some { state := σ, events := [.registerCallback none false] }
  | .registerCallback (some cb) => some
      { state := σ, code := lockGuard mCallbackLock [.run (.registerCallback cb)] }
  | .registerWakelockCallback none name => some
      { state := σ, events := [.registerWakelockCallback none name false] }
  | .registerWakelockCallback (some cb) name => some
      (if name = [] then { state := σ, events := [.registerWakelockCallback (some cb) name false] }
      else { state := σ, code := lockGuard mWakelockCallbackLock [.run (.registerWakelockCallback cb name)] })
  | .binderDied who => some
      { state := σ
        code := lockGuard mCallbackLock
          (.run (.eraseCallbacks who) :: lockGuard mWakelockCallbackLock [.run (.eraseWakelockCallbacks who)]) }
  | .incSuspendCounter name => some { state := σ, code := callIncSuspendCounter (.direct name env.pid) }
  | .decSuspendCounter name => some { state := σ, code := callDecSuspendCounter (.direct name env.pid) }
  | .updateWakeLockStat change name pid => some
      { state := σ, code := callUpdateWakeLockStat change (.direct name pid) }
  | .notifyWakelock change name => some { state := σ, code := callNotifyWakelock change (.direct name env.pid) }
  | .notifyWakeup success reasons => some { state := σ, code := callNotifyWakeup success reasons }

/-! ### The autosuspend loop -/

/-- Go on at another point of the loop, with the same locks. -/
def goto (b : LoopBlock) : ThreadCode := [.run (.loop b)]

/-- Opens `/proc/self/fd/N`, a name that no negative `N` has. -/
def reopenFileUsingFd (fd : Int) : Int := if fd < 0 ∨ env.fd < 0 then -1 else env.fd

/-- The wakeup reasons, and the descriptor after the attempt to reopen it that an error triggers. -/
def wakeupReasons : List StdString × Int :=
  let reasons := readWakeupReasons (if σ.mWakeupReasonsFd < 0 then none else env.content)
  (reasons, if reasons = [kErrorWakeup] then reopenFileUsingFd env σ.mWakeupReasonsFd else σ.mWakeupReasonsFd)

def execLoop : LoopBlock → Out
  | .head shouldSleep =>
    if !σ.mAutosuspendEnabled then
      { state := { σ with mAutosuspendThreadCreated := false }
        code := [.unlock mAutosuspendLock]
        events := [.exited, .loopHead shouldSleep] }
    else
      { state := σ
        code := goto (if shouldSleep then .sleep false else .slept false)
        events := [.loopHead shouldSleep] }
  | .sleep woken =>
    if !σ.mAutosuspendEnabled || (woken && env.timedOut) then
      { state := σ, code := goto (.slept true), events := [.slept σ.sleep.mSleepTime (woken && env.timedOut)] }
    else { state := σ, code := waitThen (.loop (.sleep true)) }
  | .slept shouldSleep =>
    if !σ.mAutosuspendEnabled then { state := σ, code := goto (.head shouldSleep) }
    else { state := σ, code := .unlock mAutosuspendLock :: goto (.readWakeupCount shouldSleep) }
  | .readWakeupCount shouldSleep =>
    { state := σ
      code := .lock mAutosuspendLock :: goto (.gotWakeupCount env.bytes shouldSleep)
      events := [.readWakeupCount env.bytes] }
  | .gotWakeupCount wakeupCount shouldSleep =>
    if wakeupCount = [] then { state := σ, code := goto (.head shouldSleep) }
    else { state := σ, code := goto (.awaitCounter wakeupCount) }
  | .awaitCounter wakeupCount =>
    if σ.mSuspendCounter = 0 || !σ.mAutosuspendEnabled then
      { state := σ, code := goto (.counterIdle wakeupCount) }
    else { state := σ, code := waitThen (.loop (.awaitCounter wakeupCount)) }
  | .counterIdle wakeupCount =>
    if !σ.mAutosuspendEnabled then { state := σ, code := goto (.head false) }
    else
      { state := σ
        code := [.unlock mAutosuspendLock, .lock mAutosuspendClientTokensLock, .lock mAutosuspendLock] ++
          goto (.checkTokens wakeupCount) }
  | .checkTokens wakeupCount =>
    if σ.mAutosuspendClientTokens = [] then
      { disableAutosuspendLocked σ with code := .unlock mAutosuspendClientTokensLock :: goto (.head false) }
    else { state := σ, code := goto (.checkCounter wakeupCount) }
  | .checkCounter wakeupCount =>
    if σ.mSuspendCounter > 0 then
      { state := σ, code := .unlock mAutosuspendClientTokensLock :: goto (.head false) }
    else { state := σ, code := goto (.writeWakeupCount wakeupCount), events := [.checkedCounter] }
  | .writeWakeupCount wakeupCount =>
    { state := σ
      code := if env.ok then goto .writeState else .unlock mAutosuspendClientTokensLock :: goto (.head false)
      events := [.wroteWakeupCount wakeupCount env.ok] }
  | .writeState =>
    { state := σ
      code := [.unlock mAutosuspendLock, .unlock mAutosuspendClientTokensLock] ++ goto (.readSuspendTime env.ok)
      events := [.suspend env.ok] }
  | .readSuspendTime success =>
    { state := σ
      code := lockGuard mSuspendInfoLock [.run (.updateSleepTime success env.suspendTime)] ++
        goto (.readWakeupReasons success) }
  | .readWakeupReasons success =>
    let (reasons, fd) := wakeupReasons env σ
    { state := { σ with mWakeupReasonsFd := fd }
      code := lockGuard wakeupListLock [.run (.updateWakeupList reasons)] ++ callNotifyWakeup success reasons ++
        .lock mAutosuspendLock :: goto (.head true)
      events := if reasons = [kErrorWakeup] then [.reopenedWakeupReasons fd] else [] }

/-! ### The program -/

def exec (b : Block) : Option Out :=
  match b with
  | .op o => execOp t env σ o
  | .enableAutosuspend token => some (enableAutosuspend env σ token)
  | .disableAutosuspendLocked => some (disableAutosuspendLocked σ)
  | .awaitThreadExit woken => some (awaitThreadExit env σ woken)
  | .forceSuspend => some { state := σ, events := [.forceSuspend env.ok] }
  | .incSuspendCounter h => some (incSuspendCounter cfg env σ h)
  | .decSuspendCounter h => some (decSuspendCounter cfg env σ h)
  | .getTimeNow change h => some
      { state := σ, code := lockGuard mStatsLock [.run (.updateStats change h env.timeNow)] }
  | .updateStats change h timeNow => updateStats σ change h timeNow
  | .updateNow => some
      { state := { σ with mStatsList := σ.mStatsList.updateNow env.timeNow }, events := [.updateNow env.timeNow] }
  -- the kernel entries are read after the lock is released, but nothing the service does has a part in them
  | .getWakeLockStats => some
      { state := σ
        events := [.wakeLockStats env.wakeupClass (getWakeLockStats cfg.parseInt σ.mStatsList env.wakeupClass)] }
  | .getWakeupStats => some { state := σ, events := [.wakeupStats σ.mWakeupList.getWakeupStats] }
  | .updateWakeupList wakeupReasons => updateWakeupList σ wakeupReasons
  | .getSuspendInfo => some { state := σ, events := [.suspendInfo σ.sleep.mSuspendInfo] }
  | .updateSleepTime success suspendTime => some
      { state := { σ with sleep := σ.sleep.updateSleepTime cfg.sleepTimeConfig success suspendTime }
        events := [.updateSleepTime success suspendTime] }
  | .dumpKernelSuspends suspendControls => some (dumpKernelSuspends t env σ suspendControls)
  | .returnWakeLock wl => some
      { state := σ.onLock wl fun w => { w with acquisition := .returned }, events := [.acquired wl] }
  | .callOnce wl destructor => callOnce t σ wl destructor
  | .onceDone wl destructor => some { state := σ.onLock wl (WakeLock.pastOnce t destructor) }
  | .beginDestroy wl => beginDestroy t σ wl
  | .endDestroy wl => some
      { state := σ.onLock wl fun w => { w with destruction := .ended }, events := [.destroyed wl] }
  | .registerCallback cb => some (registerCallback env σ cb)
  | .pushCallback cb => some
      { state := { σ with control := σ.control.pushCallback cb }, events := [.registerCallback (some cb) true] }
  | .registerWakelockCallback cb name => some (registerWakelockCallback env σ cb name)
  | .pushWakelockCallback cb name => some
      { state := { σ with control := σ.control.pushWakelockCallback cb name }
        events := [.registerWakelockCallback (some cb) name true] }
  | .eraseCallbacks who => some
      { state := { σ with control := σ.control.eraseCallbacks who }, events := [.binderDied who] }
  | .eraseWakelockCallbacks who => some
      { state := { σ with control := σ.control.eraseWakelockCallbacks who } }
  | .notifyWakelock change h => some (notifyWakelock σ change h)
  | .notifyWakeup success wakeupReasons => some (notifyWakeup σ success wakeupReasons)
  | .callback cb notification => some (callback env σ cb notification)
  | .loop b => some (execLoop env σ b)

/-- Client threads start with a public operation; autosuspend threads are only ever started by the service. -/
def entry : Tid → Block → Bool
  | .client _, .op _ => true
  | _, _ => false

def external : Ev → Bool
  | .kernelWakeup => true
  | .binderDeath _ => true
  | _ => false

def program : Program Mutex Tid Block Env Shared Ev where
  exec t b env σ := exec cfg t env σ b
  entry := entry
  external := external
  start := .start cfg

abbrev ServiceState := State Mutex Tid Block Shared Ev

abbrev ServiceAction := Action Tid Block Env Ev

abbrev ServiceEvent := Event Mutex Tid Ev

def servedAction : ServiceAction → Bool
  | .step _ env _ => env.call.all Op.served
  | .call _ (.op o) => o.served
  | _ => true

/-- Runs in which clients, and their callbacks, only use what the service serves over binder. -/
def Served (_ : ServiceState) (a : ServiceAction) : Prop := servedAction a = true

/-! ### Runs on small inputs -/

def smallConfig : Config where
  statsCapacity := 2
  useSuspendCounter := true
  sleepTimeConfig := ⟨10, 500, 2, 1, 50, true, true⟩
  wakeupReasonsFd := 3
  parseInt := intValue

def go (t : Tid) (n : Nat) : List ServiceAction := List.replicate n (.step t {} none)

def goCall (t : Tid) (o : Op) (n : Nat) : List ServiceAction := .call t (.op o) :: go t n

/-- A client enables autosuspend, and the new thread goes to its sleep. -/
def toSleep : List ServiceAction := goCall (.client 0) (.enableAutosuspend 5) 6 ++ go (.autosuspend 0) 4

/-- The sleep times out, and the thread reads the wakeup count. -/
def toRead : List ServiceAction :=
  toSleep ++ .wake (.autosuspend 0) :: go (.autosuspend 0) 1 ++
    .step (.autosuspend 0) { timedOut := true } none :: go (.autosuspend 0) 2 ++
    [.step (.autosuspend 0) { bytes := str "1" } none]

/-- The thread goes on until it is about to write "mem". -/
def toSuspend : List ServiceAction := toRead ++ go (.autosuspend 0) 10

/-- The sleep of the next cycle times out, and the thread goes on until it has written "mem". -/
def secondCycle : List ServiceAction :=
  .wake (.autosuspend 0) :: go (.autosuspend 0) 1 ++
    .step (.autosuspend 0) { timedOut := true } none :: go (.autosuspend 0) 2 ++
    .step (.autosuspend 0) { bytes := str "2" } none :: go (.autosuspend 0) 11

end Service

end HardwareInterfaces.Suspend
