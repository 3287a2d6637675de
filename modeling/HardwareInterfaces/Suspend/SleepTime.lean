import HardwareInterfaces.Lib.Double

/-!
# Sleep time and suspend statistics

`updateSleepTime` records one suspend attempt in `SuspendInfo` and computes how long the autosuspend thread
sleeps before the next one: the base time, scaled up and capped once more than `backoffThreshold` attempts
in a row were bad. Durations are integers, of milliseconds unless a name says nanoseconds. Scaling multiplies
doubles and rounds the product to an `int64_t` before it is capped. The counters are `int64_t` (`int32_t` for the run
of bad suspends) and are not expected to overflow.
-/

namespace HardwareInterfaces.Suspend

open CppStd

/-- A suspend as the kernel reports it, in nanoseconds. -/
structure SuspendTime where
  suspendOverhead : Int
  suspendTime : Int
  deriving DecidableEq

structure SleepTimeConfig where
  baseSleepTime : Int
  maxSleepTime : Int
  sleepTimeScaleFactor : ℚ
  backoffThreshold : Nat
  shortSuspendThreshold : Int
  failedSuspendBackoffEnabled : Bool
  shortSuspendBackoffEnabled : Bool
  deriving DecidableEq

structure SuspendInfo where
  suspendAttemptCount : Int := 0
  failedSuspendCount : Int := 0
  shortSuspendCount : Int := 0
  suspendTimeMillis : Int := 0
  shortSuspendTimeMillis : Int := 0
  suspendOverheadTimeMillis : Int := 0
  failedSuspendOverheadTimeMillis : Int := 0
  newBackoffCount : Int := 0
  backoffContinueCount : Int := 0
  sleepTimeMillis : Int := 0
  deriving DecidableEq

/-- The members of `SystemSuspend` that `updateSleepTime` reads and writes. -/
structure SleepState where
  mSuspendInfo : SuspendInfo := {}
  mSleepTime : Int
  mNumConsecutiveBadSuspends : Nat := 0
  deriving DecidableEq

def nanosPerMilli : Int := 1000000

/-- `std::chrono::round<std::chrono::milliseconds>` of a duration in nanoseconds. -/
def roundToMillis (nanos : Int) : Int := chronoRound ((nanos : ℚ) / nanosPerMilli)

namespace SleepTimeConfig

variable (config : SleepTimeConfig)

def shortSuspend (success : Bool) (time : SuspendTime) : Bool :=
  success && 0 < time.suspendTime && time.suspendTime < config.shortSuspendThreshold * nanosPerMilli

def badSuspend (success : Bool) (time : SuspendTime) : Bool :=
  (config.failedSuspendBackoffEnabled && !success) ||
    (config.shortSuspendBackoffEnabled && config.shortSuspend success time)

def scaledSleepTime (sleepTime : Int) : Int :=
  min (roundInt64 (toDouble (toDouble sleepTime * config.sleepTimeScaleFactor))) config.maxSleepTime

end SleepTimeConfig

namespace SuspendInfo

def recorded (config : SleepTimeConfig) (sleepTime : Int) (success : Bool) (time : SuspendTime)
    (info : SuspendInfo) : SuspendInfo :=
  let info := { info with
    suspendAttemptCount := info.suspendAttemptCount + 1
    sleepTimeMillis := info.sleepTimeMillis + sleepTime }
  let info :=
    if success then { info with
      suspendOverheadTimeMillis := info.suspendOverheadTimeMillis + roundToMillis time.suspendOverhead
      suspendTimeMillis := info.suspendTimeMillis + roundToMillis time.suspendTime }
    else { info with
      failedSuspendCount := info.failedSuspendCount + 1
      failedSuspendOverheadTimeMillis :=
        info.failedSuspendOverheadTimeMillis + roundToMillis time.suspendOverhead }
  if config.shortSuspend success time then { info with
    shortSuspendCount := info.shortSuspendCount + 1
    shortSuspendTimeMillis := info.shortSuspendTimeMillis + roundToMillis time.suspendTime }
  else info

end SuspendInfo

namespace SleepState

/-- A bad suspend once the threshold is reached: count a new or a continued backoff and scale the time. -/
def backedOff (config : SleepTimeConfig) (s : SleepState) : SleepState :=
  if s.mNumConsecutiveBadSuspends ≥ config.backoffThreshold then { s with
    mSuspendInfo :=
      if s.mNumConsecutiveBadSuspends = config.backoffThreshold then
        { s.mSuspendInfo with newBackoffCount := s.mSuspendInfo.newBackoffCount + 1 }
      else { s.mSuspendInfo with backoffContinueCount := s.mSuspendInfo.backoffContinueCount + 1 }
    mSleepTime := config.scaledSleepTime s.mSleepTime }
  else s

def updateSleepTime (config : SleepTimeConfig) (success : Bool) (time : SuspendTime) (s : SleepState) :
    SleepState :=
  let s := { s with mSuspendInfo := s.mSuspendInfo.recorded config s.mSleepTime success time }
  if !config.badSuspend success time then
    { s with mNumConsecutiveBadSuspends := 0, mSleepTime := config.baseSleepTime }
  else
    let s := s.backedOff config
    { s with mNumConsecutiveBadSuspends := s.mNumConsecutiveBadSuspends + 1 }

theorem updateSleepTime_attempts (config : SleepTimeConfig) (success : Bool) (time : SuspendTime)
    (s : SleepState) :
    (s.updateSleepTime config success time).mSuspendInfo.suspendAttemptCount =
      s.mSuspendInfo.suspendAttemptCount + 1 := by
  have hrecorded : (s.mSuspendInfo.recorded config s.mSleepTime success time).suspendAttemptCount =
      s.mSuspendInfo.suspendAttemptCount + 1 := by
    simp only [SuspendInfo.recorded]
    split <;> split <;> rfl
  have hbackedOff : ∀ s : SleepState,
      (s.backedOff config).mSuspendInfo.suspendAttemptCount = s.mSuspendInfo.suspendAttemptCount := by
    intro s
    unfold backedOff
    split
    · dsimp only
      split <;> rfl
    · rfl
  simp only [updateSleepTime]
  split
  · exact hrecorded
  · rw [hbackedOff]
    exact hrecorded

end SleepState

end HardwareInterfaces.Suspend
