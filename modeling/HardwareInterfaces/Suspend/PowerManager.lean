import HardwareInterfaces.Lib.Machine
import HardwareInterfaces.Suspend.ActiveEntries
import HardwareInterfaces.Suspend.CallbackLists
import HardwareInterfaces.Suspend.SafeSuspend
import HardwareInterfaces.Suspend.StatsOrder
import HardwareInterfaces.Suspend.SleepCycles
import HardwareInterfaces.Suspend.SuspendSummary

/-!
# What the suspend service is for

The service without its threads, its mutexes, its counter and its iterators: the set of the clients that want
autosuspend, the set of the wake locks that keep the system awake, the statistics as plain lists, the suspend attempts
that were made. `PowerManager.step` says for every event of a run when it may happen and what it does, and
that every answer the service gives is the one the sequential data would give. The service refines this machine in all its
runs.
-/

namespace HardwareInterfaces.Suspend

open CppStd Monitor Mutex

structure PowerManager where
  clients : Finset Binder := ∅
  held : Finset Nat := ∅
  locks : List WakeLockInfo := []
  wakeups : List WakeupInfo := []
  attempts : List Attempt := []
  callbacks : List Callback := []

namespace PowerManager

open Service

open WakeLockEntryList (StatsOp)

def statsOp (change : Change) (key : StatsKey) (timeNow : Int) : StatsOp :=
  match change with
  | .acquire => .updateOnAcquire key timeNow
  | .release => .updateOnRelease key timeNow

/-- An autosuspend may start: some client wants it and no wake lock is held. The counter of the service cannot tell
2³² wake locks from none. -/
def maySuspend (cfg : Config) (p : PowerManager) : Bool :=
  p.clients ≠ ∅ && (!cfg.useSuspendCounter || decide (counterModulus ≤ p.held.card) || decide (p.held = ∅))

def check (agrees : Bool) (p : PowerManager) : Option PowerManager := if agrees then some p else none

/-- What each event needs and does; `names` are the names and pids of the wake locks. -/
def step (cfg : Config) (names : Holder → StatsKey) (p : PowerManager) : Tid × Ev → Option PowerManager
  | (_, .enableAutosuspend token ret) =>
    check (ret = decide (p.clients = ∅)) { p with clients := insert token p.clients }
  | (_, .disableAutosuspend) => some { p with clients := ∅ }
  | (_, .incSuspendCounter (.wakeLock wl)) => check (wl ∉ p.held) { p with held := insert wl p.held }
  | (_, .decSuspendCounter (.wakeLock wl)) => check (wl ∈ p.held) { p with held := p.held.erase wl }
  | (_, .acquired wl) => check (wl ∈ p.held) p
  | (_, .destroyed wl) => check (wl ∉ p.held) p
  | (_, .suspend _) => check (maySuspend cfg p) p
  | (_, .exited) => check (p.clients = ∅) p
  | (_, .slept sleepTime timedOut) =>
    check (sleepTime = (SleepState.after cfg.sleepTimeConfig p.attempts).mSleepTime && (timedOut || p.clients = ∅)) p
  | (_, .updateSleepTime success time) => some { p with attempts := ⟨success, time⟩ :: p.attempts }
  | (_, .suspendInfo info) => check (info = SuspendInfo.summary cfg.sleepTimeConfig p.attempts) p
  | (_, .updateStats change h timeNow) =>
    some { p with locks := (statsOp change (names h) timeNow).onEntries cfg.statsCapacity p.locks }
  | (_, .updateNow timeNow) =>
    some { p with locks := (StatsOp.updateNow timeNow).onEntries cfg.statsCapacity p.locks }
  | (_, .wakeLockStats wakeupClass stats) =>
    check (stats = p.locks ++ getKernelWakelockStats cfg.parseInt wakeupClass) p
  | (_, .updateWakeupList wakeupReasons _) => check (wakeupReasons ≠ [])
      { p with wakeups := WakeupList.updated cfg.statsCapacity p.wakeups (WakeupList.keyOf wakeupReasons) }
  | (_, .wakeupStats stats) => check (stats = p.wakeups) p
  | (_, .registerCallback (some cb) true) => some { p with callbacks := p.callbacks ++ [cb] }
  | (_, .binderDied who) => some { p with callbacks := p.callbacks.filter fun i => i.binder ≠ who }
  | (_, .notifyWakeup _ _ callbacks) => check (callbacks = p.callbacks) p
  | _ => some p

end PowerManager

namespace Service

/-- The abstract machine of a service. -/
def powerManager (cfg : Config) (names : Holder → StatsKey) : Machine (Tid × Ev) PowerManager where
  start := {}
  step := PowerManager.step cfg names

def KeepsAwake (σ : Shared) (wl : Nat) : Prop := ∃ w, σ.wakeLocks[wl]? = some w ∧ w.unreleased = true

/-- The machine is where the service is. -/
structure Represents (cfg : Config) (σ : Shared) (p : PowerManager) : Prop where
  clients : ∀ token, token ∈ p.clients ↔ token ∈ σ.mAutosuspendClientTokens
  held : ∀ wl, wl ∈ p.held ↔ KeepsAwake σ wl
  locks : p.locks = σ.mStatsList.nativeStats
  wakeups : p.wakeups = σ.mWakeupList.getWakeupStats
  attempts : σ.sleep = .after cfg.sleepTimeConfig p.attempts
  callbacks : p.callbacks = σ.control.mCallbacks
  stats_valid : σ.mStatsList.Valid ∧ σ.mStatsList.mCapacity = cfg.statsCapacity
  wakeups_valid : σ.mWakeupList.Valid ∧ σ.mWakeupList.mCapacity = cfg.statsCapacity

def Names (names : Holder → StatsKey) (σ : Shared) : Prop :=
  ∀ wl w, σ.wakeLocks[wl]? = some w → names (.wakeLock wl) = w.key

theorem names_keyOf (σ : Shared) : Names σ.keyOf σ := fun _ _ hw => keyOf_wakeLock hw

theorem represents_start (cfg : Config) : Represents cfg (.start cfg) {} where
  clients token := by simp [Shared.start]
  held wl := by simp [KeepsAwake, Shared.start]
  locks := rfl
  wakeups := rfl
  attempts := rfl
  callbacks := rfl
  stats_valid := ⟨WakeLockEntryList.create_valid _, rfl⟩
  wakeups_valid := ⟨WakeupList.create_valid _, rfl⟩

end Service

end HardwareInterfaces.Suspend
