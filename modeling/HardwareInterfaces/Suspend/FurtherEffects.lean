import HardwareInterfaces.Suspend.Effects

/-!
# What else the blocks leave alone

`Aside` adds to `Frame` three parts of the service that few blocks touch: the descriptor of the wakeup reasons, the
readings of the clock that wait to be used, and the lock of the client tokens.
-/

namespace HardwareInterfaces.Suspend

open CppStd Monitor Mutex

namespace Block

def readsReasons : Block → Bool
  | loop (.readWakeupReasons _) => true
  | _ => false

/-- The block reads the clock for an update of the statistics that comes later. -/
def readsAhead : Block → Bool
  | getTimeNow .. => true
  | _ => false

/-- The reading of the clock with which a block will update the statistics. -/
def pending? : Block → Option Int
  | updateStats _ _ timeNow => some timeNow
  | _ => none

/-- The block goes on to take the lock of the client tokens. -/
def asksTokens (σ : Shared) : Block → Bool
  | op (.enableAutosuspend _) => true
  | op .disableAutosuspend => true
  | op .destroySystemSuspend => true
  | loop (.counterIdle _) => σ.mAutosuspendEnabled
  | _ => false

end Block

def tokenLocks (c : ThreadCode) : List Unit :=
  c.filterMap fun
    | .lock mAutosuspendClientTokensLock => some ()
    | _ => none

@[simp] theorem tokenLocks_append (c c' : ThreadCode) : tokenLocks (c ++ c') = tokenLocks c ++ tokenLocks c' :=
  List.filterMap_append

theorem tokenLocks_of_cons {i : Instr Mutex Block} {c : ThreadCode} (h : tokenLocks (i :: c) = []) :
    tokenLocks c = [] := by
  rw [show i :: c = [i] ++ c from rfl, tokenLocks_append, List.append_eq_nil_iff] at h
  exact h.2

namespace Service

structure Aside (b : Block) (σ : Shared) (o : Out) : Prop where
  reasons : b.readsReasons = false → o.state.mWakeupReasonsFd = σ.mWakeupReasonsFd
  pending : b.readsAhead = false → o.code.duties Block.pending? = []
  tokens : b.asksTokens σ = false → tokenLocks o.code = []

section blocks

variable {cfg : Config} {t : Tid} {env : Env} {σ : Shared} {b : Block} {o : Out}

theorem onHolder_fd (h : Holder) (f : WakeLock → WakeLock) :
    (σ.onHolder h f).mWakeupReasonsFd = σ.mWakeupReasonsFd := by
  cases h <;> rfl

theorem aside_getSuspendStats : Aside b σ (getSuspendStats t env σ) := by
  unfold getSuspendStats
  split <;> constructor <;> intros <;> rfl

theorem aside_beginDestroy {wl : Nat} (h : beginDestroy t σ wl = some o) : Aside b σ o := by
  obtain ⟨-, rfl⟩ := beginDestroy_eq h
  constructor <;> intros <;> rfl

theorem aside_notify {m : Mutex} {callbacks : List Callback} {n : Notification}
    (hcode : o.code = notifyAll m callbacks n) (hstate : o.state = σ) : Aside b σ o := by
  refine ⟨fun _ => by rw [hstate], fun _ => ?_, fun _ => ?_⟩
  · rw [hcode]
    exact duties_notifyAll (fun _ _ => rfl) m callbacks n
  · rw [hcode, tokenLocks, List.filterMap_eq_nil_iff]
    intro i hi
    simp only [notifyAll, List.mem_cons, List.mem_map] at hi
    rcases hi with rfl | ⟨cb, -, rfl⟩ <;> rfl

theorem aside_execOp {p : Op} (h : execOp t env σ p = some o) : Aside (.op p) σ o := by
  cases p with
  | acquireWakeLock frontEnd name =>
    obtain rfl := Option.some.inj h
    unfold acquireWakeLock
    split
    · constructor <;> intros <;> rfl
    · cases frontEnd <;> constructor <;> intros <;> rfl
  | release wl =>
    obtain ⟨-, ho⟩ := Option.ite_none_right_eq_some.mp h
    obtain rfl := Option.some.inj ho
    constructor <;> intros <;> rfl
  | destroyWakeLock wl =>
    obtain ⟨-, ho⟩ := Option.ite_none_right_eq_some.mp h
    exact aside_beginDestroy ho
  | getSuspendStats =>
    obtain rfl := Option.some.inj h
    exact aside_getSuspendStats
  | dump args =>
    obtain rfl := Option.some.inj h
    cases DumpOptions.parse args with
    | none => constructor <;> intros <;> rfl
    | some opts =>
      obtain ⟨wakelocks, wakeups, kernelSuspends, suspendControls⟩ := opts
      cases wakelocks <;> cases wakeups <;> cases kernelSuspends <;> cases suspendControls <;>
        constructor <;> intros <;> rfl
  | registerCallback cb =>
    cases cb <;> obtain rfl := Option.some.inj h <;> constructor <;> intros <;> rfl
  | registerWakelockCallback cb name =>
    cases cb with
    | none =>
      obtain rfl := Option.some.inj h
      constructor <;> intros <;> rfl
    | some cb =>
      obtain rfl := Option.some.inj h
      split <;> constructor <;> intros <;> rfl
  | _ =>
    obtain rfl := Option.some.inj h
    constructor <;> intros <;> first | contradiction | rfl

theorem aside_execLoop (env : Env) (σ : Shared) (l : LoopBlock) : Aside (.loop l) σ (execLoop env σ l) := by
  cases l with
  | counterIdle wakeupCount =>
    simp only [execLoop]
    split
    · constructor <;> intros <;> rfl
    · rename_i henabled
      refine ⟨fun _ => rfl, fun _ => rfl, fun hidle => ?_⟩
      have hdisabled : σ.mAutosuspendEnabled = false := hidle
      simp [hdisabled] at henabled
  | readWakeupCount shouldSleep => constructor <;> intros <;> rfl
  | writeState => constructor <;> intros <;> rfl
  | readSuspendTime success => constructor <;> intros <;> rfl
  | readWakeupReasons success => constructor <;> intros <;> first | contradiction | rfl
  | writeWakeupCount wakeupCount =>
    simp only [execLoop]
    split <;> constructor <;> intros <;> rfl
  | _ =>
    simp only [execLoop]
    split <;> constructor <;> intros <;> rfl

theorem exec_aside (h : exec cfg t env σ b = some o) : Aside b σ o := by
  cases b with
  | op p => exact aside_execOp h
  | enableAutosuspend token =>
    obtain rfl := Option.some.inj h
    rcases enableAutosuspend_cases env σ token with ⟨-, ho⟩ | ⟨-, -, ho⟩ | ⟨-, -, ho⟩ <;> rw [ho] <;>
      constructor <;> intros <;> rfl
  | awaitThreadExit woken =>
    obtain rfl := Option.some.inj h
    unfold awaitThreadExit
    split <;> constructor <;> intros <;> rfl
  | incSuspendCounter holder =>
    obtain rfl := Option.some.inj h
    simp only [incSuspendCounter]
    split <;> exact ⟨fun _ => onHolder_fd holder _, fun _ => rfl, fun _ => rfl⟩
  | decSuspendCounter holder =>
    obtain rfl := Option.some.inj h
    simp only [decSuspendCounter]
    split <;> exact ⟨fun _ => onHolder_fd holder _, fun _ => rfl, fun _ => rfl⟩
  | getTimeNow change holder =>
    obtain rfl := Option.some.inj h
    constructor <;> intros <;> first | contradiction | rfl
  | updateStats change holder timeNow =>
    obtain ⟨stats, -, rfl⟩ := Option.map_eq_some_iff.mp h
    exact ⟨fun _ => onHolder_fd holder _, fun _ => rfl, fun _ => rfl⟩
  | updateWakeupList reasons =>
    obtain ⟨wakeups, -, rfl⟩ := Option.map_eq_some_iff.mp h
    constructor <;> intros <;> rfl
  | dumpKernelSuspends suspendControls =>
    obtain rfl := Option.some.inj h
    have haside : Aside (.dumpKernelSuspends suspendControls) σ (getSuspendStats t env σ) := aside_getSuspendStats
    obtain ⟨hreasons, hpending, htokens⟩ := haside
    refine ⟨hreasons, fun hb => ?_, fun hb => ?_⟩
    · simp only [dumpKernelSuspends, Code.duties_append, hpending hb]
      split <;> rfl
    · simp only [dumpKernelSuspends, tokenLocks_append, htokens hb]
      split <;> rfl
  | callOnce wl destructor =>
    simp only [exec, callOnce] at h
    split at h
    · obtain rfl := Option.some.inj h
      constructor <;> intros <;> rfl
    · cases h
    · obtain rfl := Option.some.inj h
      constructor <;> intros <;> rfl
  | beginDestroy wl => exact aside_beginDestroy h
  | registerCallback cb =>
    obtain rfl := Option.some.inj h
    simp only [registerCallback]
    split <;> constructor <;> intros <;> rfl
  | registerWakelockCallback cb name =>
    obtain rfl := Option.some.inj h
    simp only [registerWakelockCallback]
    split <;> constructor <;> intros <;> rfl
  | notifyWakelock change holder =>
    obtain rfl := Option.some.inj h
    exact aside_notify rfl rfl
  | notifyWakeup success reasons =>
    obtain rfl := Option.some.inj h
    exact aside_notify rfl rfl
  | callback cb n =>
    obtain rfl := Option.some.inj h
    simp only [Service.callback]
    cases env.call <;> constructor <;> intros <;> rfl
  | loop l =>
    obtain rfl := Option.some.inj h
    exact aside_execLoop env σ l
  | _ =>
    obtain rfl := Option.some.inj h
    constructor <;> intros <;> rfl

end blocks

end Service

end HardwareInterfaces.Suspend
