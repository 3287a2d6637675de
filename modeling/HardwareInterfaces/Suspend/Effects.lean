import HardwareInterfaces.Lib.Duty
import HardwareInterfaces.Suspend.Service

/-!
# What the blocks leave alone

Most blocks touch one part of the shared state, or none. `Frame` lists, once for all blocks, which part each of them
may change and which kinds of blocks it may put into the code of its thread; `exec_frame` is the only
place that looks at all of them. The invariants of the service only have to look at the blocks that change what they
are about.
-/

namespace HardwareInterfaces.Suspend

open CppStd Monitor Mutex

namespace Shared

/-- The members that `mAutosuspendLock` guards, with the number of autosuspend threads ever started. -/
structure Autosuspend where
  mSuspendCounter : Nat
  mAutosuspendClientTokens : List Binder
  mAutosuspendEnabled : Bool
  mAutosuspendThreadCreated : Bool
  spawned : Nat

def autosuspend (σ : Shared) : Autosuspend :=
  ⟨σ.mSuspendCounter, σ.mAutosuspendClientTokens, σ.mAutosuspendEnabled, σ.mAutosuspendThreadCreated, σ.spawned⟩

end Shared

namespace Block

def changesAutosuspend : Block → Bool
  | enableAutosuspend _ => true
  | disableAutosuspendLocked => true
  | incSuspendCounter _ => true
  | decSuspendCounter _ => true
  | loop (.head _) => true
  | loop (.checkTokens _) => true
  | _ => false

def switches : Block → Bool
  | enableAutosuspend _ => true
  | disableAutosuspendLocked => true
  | loop (.checkTokens _) => true
  | _ => false

def handlesWakeLock : Block → Bool
  | op (.acquireWakeLock ..) => true
  | op .getSuspendStats => true
  | op (.release _) => true
  | op (.destroyWakeLock _) => true
  | dumpKernelSuspends _ => true
  | incSuspendCounter _ => true
  | decSuspendCounter _ => true
  | getTimeNow .. => true
  | updateStats .. => true
  | returnWakeLock _ => true
  | callOnce .. => true
  | onceDone .. => true
  | beginDestroy _ => true
  | endDestroy _ => true
  | _ => false

def changesStats : Block → Bool
  | updateStats .. => true
  | updateNow => true
  | _ => false

def changesWakeups : Block → Bool
  | updateWakeupList _ => true
  | _ => false

def changesSleep : Block → Bool
  | updateSleepTime .. => true
  | _ => false

def changesControl : Block → Bool
  | registerCallback _ => true
  | pushCallback _ => true
  | registerWakelockCallback .. => true
  | pushWakelockCallback .. => true
  | eraseCallbacks _ => true
  | eraseWakelockCallbacks _ => true
  | _ => false

def forces : Block → Bool
  | forceSuspend => true
  | _ => false

def registers : Block → Bool
  | pushCallback _ => true
  | pushWakelockCallback .. => true
  | eraseCallbacks _ => true
  | _ => false

def entering? : Block → Option Callback
  | op (.registerCallback cb) => cb
  | op (.registerWakelockCallback cb _) => cb
  | registerCallback cb => some cb
  | pushCallback cb => some cb
  | registerWakelockCallback cb _ => some cb
  | pushWakelockCallback cb _ => some cb
  | _ => none

def links : Block → Bool
  | registerCallback _ => true
  | registerWakelockCallback .. => true
  | _ => false

def push? : Block → Option Callback
  | pushCallback cb => some cb
  | pushWakelockCallback cb _ => some cb
  | _ => none

def reaps : Block → Bool
  | op (.binderDied _) => true
  | _ => false

def erasure? : Block → Option Binder
  | eraseCallbacks who => some who
  | eraseWakelockCallbacks who => some who
  | _ => none

def round? : Block → Option (Change × Nat)
  | notifyWakelock change (.wakeLock wl) => some (change, wl)
  | _ => none

def notifies : Block → Bool
  | notifyWakelock .. => true
  | notifyWakeup .. => true
  | _ => false

def callback? : Block → Option (Callback × Notification)
  | callback cb notification => some (cb, notification)
  | _ => none

def loop? : Block → Option LoopBlock
  | loop b => some b
  | _ => none

theorem eq_loop {b : Block} {l : LoopBlock} (h : b.loop? = some l) : b = loop l := by
  cases b with
  | loop l' => rw [Option.some.inj h]
  | _ => cases h

def wakeLock? : Block → Option Nat
  | incSuspendCounter (.wakeLock wl) => some wl
  | decSuspendCounter (.wakeLock wl) => some wl
  | getTimeNow _ (.wakeLock wl) => some wl
  | updateStats _ (.wakeLock wl) _ => some wl
  | returnWakeLock wl => some wl
  | callOnce wl _ => some wl
  | onceDone wl _ => some wl
  | beginDestroy wl => some wl
  | endDestroy wl => some wl
  | _ => none

/-- The parts of the work a suspend attempt leaves to be done. -/
inductive Work
  | sleepTime
  | wakeups
  | notification
  deriving DecidableEq

def work? : Block → Option Work
  | updateSleepTime .. => some .sleepTime
  | updateWakeupList _ => some .wakeups
  | notifyWakeup .. => some .notification
  | _ => none

def awaitThreadExit? : Block → Option Unit
  | awaitThreadExit _ => some ()
  | _ => none

/-- The block is part of the destructor of the service, and leads to its wait. -/
def leadsToExit : Block → Bool
  | op .destroySystemSuspend => true
  | awaitThreadExit _ => true
  | _ => false

def mayWait : Block → Bool
  | awaitThreadExit _ => true
  | loop (.sleep _) => true
  | loop (.awaitCounter _) => true
  | _ => false

/-- The block is, or comes from, an operation the service does not serve over binder. -/
def unserved? : Block → Option Unit
  | op o => if o.served then none else some ()
  | incSuspendCounter (.direct ..) => some ()
  | decSuspendCounter (.direct ..) => some ()
  | getTimeNow _ (.direct ..) => some ()
  | updateStats _ (.direct ..) _ => some ()
  | notifyWakelock _ (.direct ..) => some ()
  | _ => none

end Block

namespace Service

def loopEvent : Ev → Bool
  | .loopHead _ => true
  | .exited => true
  | .slept .. => true
  | .readWakeupCount _ => true
  | .checkedCounter => true
  | .wroteWakeupCount .. => true
  | .suspend _ => true
  | .reopenedWakeupReasons _ => true
  | _ => false

def switchEvent : Ev → Bool
  | .enableAutosuspend .. => true
  | .disableAutosuspend => true
  | _ => false

def forceEvent : Ev → Bool
  | .forceSuspend _ => true
  | _ => false

def registryEvent : Ev → Bool
  | .registerCallback _ ret => ret
  | .registerWakelockCallback _ _ ret => ret
  | .binderDied _ => true
  | _ => false

def roundEvent : Ev → Bool
  | .notifyWakelock .. => true
  | .notifyWakeup .. => true
  | _ => false

def callEvent : Ev → Bool
  | .callback .. => true
  | _ => false

/-- What a block may change, and what it may add to the code of its thread. -/
structure Frame (b : Block) (env : Env) (σ : Shared) (o : Out) : Prop where
  autosuspend : b.changesAutosuspend = false → o.state.autosuspend = σ.autosuspend
  spawn : b.changesAutosuspend = false → o.spawn = none
  notify : b.changesAutosuspend = false → o.notify = .nobody
  wakeLocks : b.handlesWakeLock = false → o.state.wakeLocks = σ.wakeLocks
  stats : b.changesStats = false → o.state.mStatsList = σ.mStatsList
  wakeups : b.changesWakeups = false → o.state.mWakeupList = σ.mWakeupList
  sleep : b.changesSleep = false → o.state.sleep = σ.sleep
  control : b.changesControl = false → o.state.control = σ.control
  silent : b.loop? = none → o.events.filter loopEvent = []
  switch : b.switches = false → o.events.filter switchEvent = []
  forced : b.forces = false → o.events.filter forceEvent = []
  registry : b.registers = false → o.events.filter registryEvent = []
  rounds : b.notifies = false → o.events.filter roundEvent = []
  told : b.callback? = none → o.events.filter callEvent = []
  calls : b.notifies = false → o.code.duties Block.callback? = []
  entries : b.callback? = none → b.entering? = none → o.code.duties Block.entering? = []
  pushes : b.links = false → o.code.duties Block.push? = []
  erasures : b.reaps = false → o.code.duties Block.erasure? = []
  announces : b.handlesWakeLock = false → o.code.duties Block.round? = []
  loops : b.loop? = none → o.code.duties Block.loop? = []
  mentions : b.handlesWakeLock = false → o.code.duties Block.wakeLock? = []
  work : b.loop? = none → b.unserved? = none → o.code.duties Block.work? = []
  served : b.unserved? = none → (∀ p ∈ env.call, p.served = true) → o.code.duties Block.unserved? = []
  exits : b.leadsToExit = false → o.code.duties Block.awaitThreadExit? = []
  waits : b.mayWait = false → o.code.waits = []

/-- `enableAutosuspend` finds autosuspend enabled, or disabled with the old thread still there, or disabled and
without a thread. -/
theorem enableAutosuspend_cases (env : Env) (σ : Shared) (token : Binder) :
    (σ.mAutosuspendEnabled = true ∧ enableAutosuspend env σ token =
      { state := addToken σ token
        events := [.enableAutosuspend token false, .wroteWakeUnlock kZygoteKernelWakelock env.ok] }) ∨
    (σ.mAutosuspendEnabled = false ∧ σ.mAutosuspendThreadCreated = true ∧ enableAutosuspend env σ token =
      { state := { addToken σ token with mAutosuspendEnabled := true }
        events := [.enableAutosuspend token true, .wroteWakeUnlock kZygoteKernelWakelock env.ok] }) ∨
    (σ.mAutosuspendEnabled = false ∧ σ.mAutosuspendThreadCreated = false ∧ enableAutosuspend env σ token =
      { state := { addToken σ token with
          mAutosuspendEnabled := true, mAutosuspendThreadCreated := true, spawned := σ.spawned + 1 }
        spawn := some (.autosuspend σ.spawned, autosuspendThread)
        events := [.enableAutosuspend token true, .wroteWakeUnlock kZygoteKernelWakelock env.ok] }) := by
  cases henabled : σ.mAutosuspendEnabled with
  | true =>
    refine Or.inl ⟨rfl, ?_⟩
    simp [enableAutosuspend, addToken, henabled]
  | false =>
    right
    cases hcreated : σ.mAutosuspendThreadCreated with
    | true =>
      refine Or.inl ⟨rfl, rfl, ?_⟩
      simp [enableAutosuspend, initAutosuspendLocked, addToken, henabled, hcreated]
    | false =>
      refine Or.inr ⟨rfl, rfl, ?_⟩
      simp [enableAutosuspend, initAutosuspendLocked, addToken, henabled, hcreated]

theorem duties_notifyAll {δ : Type} {d : Block → Option δ} (hd : ∀ cb n, d (.callback cb n) = none) (m : Mutex)
    (callbacks : List Callback) (n : Notification) : (notifyAll m callbacks n).duties d = [] := by
  refine Code.duties_eq_nil fun b hb => ?_
  simp only [notifyAll, List.mem_cons, List.mem_map, reduceCtorEq, false_or, Instr.run.injEq] at hb
  obtain ⟨cb, -, rfl⟩ := hb
  exact hd cb n

theorem waits_notifyAll (m : Mutex) (callbacks : List Callback) (n : Notification) :
    (notifyAll m callbacks n).waits = [] := by
  rw [List.eq_nil_iff_forall_not_mem]
  intro m' hm'
  simp [Code.mem_waits, notifyAll] at hm'

theorem frame_getSuspendStats (t : Tid) (env : Env) (σ : Shared) {b : Block} (hb : b.handlesWakeLock = true)
    (c : ThreadCode) (hc : ∀ {δ : Type} {d : Block → Option δ}, d .getSuspendInfo = none → c.duties d = [])
    (hwaits : c.waits = []) :
    Frame b env σ { getSuspendStats t env σ with code := (getSuspendStats t env σ).code ++ c } := by
  have hcode : ∀ {δ : Type} {d : Block → Option δ}, d .getSuspendInfo = none →
      (∀ wl, Code.duties d (callAcquireWakeLock .aidl wl ++ [.run (.beginDestroy wl)]) = []) →
      ((getSuspendStats t env σ).code ++ c).duties d = [] := by
    intro δ d hd hacquire
    rw [Code.duties_append, hc hd, List.append_nil]
    unfold getSuspendStats
    split
    · rfl
    · exact hacquire σ.wakeLocks.length
  have hstate : (getSuspendStats t env σ).state.autosuspend = σ.autosuspend ∧
      (getSuspendStats t env σ).spawn = none ∧ (getSuspendStats t env σ).notify = .nobody ∧
      (getSuspendStats t env σ).state.mStatsList = σ.mStatsList ∧
      (getSuspendStats t env σ).state.mWakeupList = σ.mWakeupList ∧
      (getSuspendStats t env σ).state.sleep = σ.sleep ∧ (getSuspendStats t env σ).state.control = σ.control ∧
      (getSuspendStats t env σ).events = [] := by
    unfold getSuspendStats
    split <;> exact ⟨rfl, rfl, rfl, rfl, rfl, rfl, rfl, rfl⟩
  obtain ⟨hauto, hspawn, hnotify, hstats, hwakeups, hsleep, hcontrol, hevents⟩ := hstate
  exact
    { autosuspend := fun _ => hauto
      spawn := fun _ => hspawn
      notify := fun _ => hnotify
      wakeLocks := fun h => by rw [hb] at h; cases h
      stats := fun _ => hstats
      wakeups := fun _ => hwakeups
      sleep := fun _ => hsleep
      control := fun _ => hcontrol
      silent := fun _ => by simp [hevents]
      switch := fun _ => by simp [hevents]
      forced := fun _ => by simp [hevents]
      registry := fun _ => by simp [hevents]
      rounds := fun _ => by simp [hevents]
      told := fun _ => by simp [hevents]
      calls := fun _ => hcode rfl fun _ => rfl
      entries := fun _ _ => hcode rfl fun _ => rfl
      pushes := fun _ => hcode rfl fun _ => rfl
      erasures := fun _ => hcode rfl fun _ => rfl
      announces := fun h => by rw [hb] at h; cases h
      loops := fun _ => hcode rfl fun _ => rfl
      mentions := fun h => by rw [hb] at h; cases h
      work := fun _ _ => hcode rfl fun _ => rfl
      served := fun _ _ => hcode rfl fun _ => rfl
      exits := fun _ => hcode rfl fun _ => rfl
      waits := fun _ => by
        rw [Code.waits_append, hwaits, List.append_nil]
        unfold getSuspendStats
        split <;> rfl }

theorem frame_beginDestroy {t : Tid} {env : Env} {σ : Shared} {wl : Nat} {o : Out} {b : Block}
    (hb : b.handlesWakeLock = true) (h : beginDestroy t σ wl = some o) : Frame b env σ o := by
  unfold beginDestroy at h
  split at h
  · obtain rfl := Option.some.inj h
    constructor <;> intros <;> first | rfl | simp_all
  · cases h

theorem frame_execOp {t : Tid} {env : Env} {σ : Shared} {p : Op} {o : Out} (h : execOp t env σ p = some o) :
    Frame (.op p) env σ o := by
  cases p with
  | acquireWakeLock frontEnd name =>
    obtain rfl := Option.some.inj h
    simp only [acquireWakeLock]
    split
    · constructor <;> intros <;> rfl
    · cases frontEnd <;> constructor <;> intros <;> first | contradiction | rfl
  | release wl =>
    simp only [execOp, release] at h
    split at h
    · obtain rfl := Option.some.inj h
      constructor <;> intros <;> first | contradiction | rfl
    · cases h
  | destroyWakeLock wl =>
    simp only [execOp, destroyWakeLock] at h
    split at h
    · exact frame_beginDestroy rfl h
    · cases h
  | getSuspendStats =>
    obtain rfl := Option.some.inj h
    have hframe := frame_getSuspendStats t env σ (b := .op .getSuspendStats) rfl [] (fun _ => rfl) rfl
    simpa only [List.append_nil] using hframe
  | dump args =>
    obtain rfl := Option.some.inj h
    cases DumpOptions.parse args with
    | none => constructor <;> intros <;> rfl
    | some opts =>
      obtain ⟨wakelocks, wakeups, kernelSuspends, suspendControls⟩ := opts
      cases wakelocks <;> cases wakeups <;> cases kernelSuspends <;> cases suspendControls <;>
        constructor <;> intros <;> rfl
  | registerCallback cb =>
    cases cb with
    | none =>
      obtain rfl := Option.some.inj h
      constructor <;> intros <;> rfl
    | some cb =>
      obtain rfl := Option.some.inj h
      constructor <;> intros <;> first | contradiction | rfl
  | registerWakelockCallback cb name =>
    cases cb with
    | none =>
      obtain rfl := Option.some.inj h
      constructor <;> intros <;> rfl
    | some cb =>
      simp only [execOp] at h
      obtain rfl := Option.some.inj h
      split <;> constructor <;> intros <;> first | contradiction | rfl
  | _ =>
    obtain rfl := Option.some.inj h
    constructor <;> intros <;> first | contradiction | rfl

theorem frame_execLoop (env : Env) (σ : Shared) (b : LoopBlock) : Frame (.loop b) env σ (execLoop env σ b) := by
  cases b with
  | head shouldSleep =>
    simp only [execLoop]
    split
    · constructor <;> intros <;> first | contradiction | rfl
    · cases shouldSleep <;> constructor <;> intros <;> first | contradiction | rfl
  | readWakeupCount shouldSleep => constructor <;> intros <;> first | contradiction | rfl
  | writeWakeupCount wakeupCount =>
    simp only [execLoop]
    split <;> constructor <;> intros <;> first | contradiction | rfl
  | writeState => constructor <;> intros <;> first | contradiction | rfl
  | readSuspendTime success => constructor <;> intros <;> first | contradiction | rfl
  | readWakeupReasons success =>
    simp only [execLoop]
    split <;> constructor <;> intros <;> first | contradiction | rfl
  | _ =>
    simp only [execLoop]
    split <;> constructor <;> intros <;> first | contradiction | rfl

theorem frame_notify {b : Block} {env : Env} {σ : Shared} {o : Out} {m : Mutex} {callbacks : List Callback}
    {n : Notification} (hb : b.notifies = true) (hcode : o.code = notifyAll m callbacks n) (hstate : o.state = σ)
    (hspawn : o.spawn = none) (hnotify : o.notify = .nobody)
    (hevents : o.events.filter loopEvent = [] ∧ o.events.filter switchEvent = [] ∧ o.events.filter forceEvent = [] ∧
      o.events.filter registryEvent = [] ∧ o.events.filter callEvent = []) : Frame b env σ o := by
  constructor <;> intros
  · rw [hstate]
  · exact hspawn
  · exact hnotify
  · rw [hstate]
  · rw [hstate]
  · rw [hstate]
  · rw [hstate]
  · rw [hstate]
  · exact hevents.1
  · exact hevents.2.1
  · exact hevents.2.2.1
  · exact hevents.2.2.2.1
  · simp_all
  · exact hevents.2.2.2.2
  · simp_all
  case waits =>
    rw [hcode]
    exact waits_notifyAll m callbacks n
  all_goals
    rw [hcode]
    exact duties_notifyAll (fun _ _ => rfl) m callbacks n

theorem exec_frame {cfg : Config} {t : Tid} {env : Env} {σ : Shared} {b : Block} {o : Out}
    (h : exec cfg t env σ b = some o) : Frame b env σ o := by
  cases b with
  | op p => exact frame_execOp h
  | enableAutosuspend token =>
    obtain rfl := Option.some.inj h
    rcases enableAutosuspend_cases env σ token with ⟨-, ho⟩ | ⟨-, -, ho⟩ | ⟨-, -, ho⟩ <;> rw [ho] <;>
      constructor <;> intros <;> first | contradiction | rfl
  | awaitThreadExit woken =>
    obtain rfl := Option.some.inj h
    unfold awaitThreadExit
    split <;> constructor <;> intros <;> first | contradiction | rfl
  | incSuspendCounter holder =>
    obtain rfl := Option.some.inj h
    simp only [incSuspendCounter]
    split <;> cases holder <;> constructor <;> intros <;> first | contradiction | rfl
  | decSuspendCounter holder =>
    obtain rfl := Option.some.inj h
    simp only [decSuspendCounter]
    split <;> cases holder <;> constructor <;> intros <;> first | contradiction | rfl
  | getTimeNow change holder =>
    obtain rfl := Option.some.inj h
    cases holder <;> constructor <;> intros <;> first | contradiction | rfl
  | updateStats change holder timeNow =>
    obtain ⟨stats, -, rfl⟩ := Option.map_eq_some_iff.mp h
    cases holder <;> constructor <;> intros <;> first | contradiction | rfl
  | updateWakeupList reasons =>
    obtain ⟨wakeups, -, rfl⟩ := Option.map_eq_some_iff.mp h
    constructor <;> intros <;> first | contradiction | rfl
  | dumpKernelSuspends suspendControls =>
    obtain rfl := Option.some.inj h
    refine frame_getSuspendStats t env σ (b := .dumpKernelSuspends suspendControls) rfl _ (fun hd => ?_) ?_
    · split
      · simp [callGetSuspendInfo, lockGuard, hd]
      · rfl
    · split <;> rfl
  | callOnce wl destructor =>
    simp only [exec, callOnce] at h
    split at h
    · obtain rfl := Option.some.inj h
      constructor <;> intros <;> first | contradiction | rfl
    · cases h
    · obtain rfl := Option.some.inj h
      constructor <;> intros <;> first | contradiction | rfl
  | beginDestroy wl => exact frame_beginDestroy rfl h
  | registerCallback cb =>
    obtain rfl := Option.some.inj h
    simp only [registerCallback]
    split <;> constructor <;> intros <;> first | contradiction | rfl
  | registerWakelockCallback cb name =>
    obtain rfl := Option.some.inj h
    simp only [registerWakelockCallback]
    split <;> constructor <;> intros <;> first | contradiction | rfl
  | notifyWakelock change holder =>
    obtain rfl := Option.some.inj h
    exact frame_notify rfl rfl rfl rfl rfl ⟨rfl, rfl, rfl, rfl, rfl⟩
  | notifyWakeup success reasons =>
    obtain rfl := Option.some.inj h
    exact frame_notify rfl rfl rfl rfl rfl ⟨rfl, rfl, rfl, rfl, rfl⟩
  | callback cb n =>
    obtain rfl := Option.some.inj h
    simp only [callback]
    cases hcall : env.call with
    | none => constructor <;> intros <;> first | contradiction | rfl
    | some p =>
      constructor
      case served =>
        intro _ hp
        have := hp p (by simp [hcall])
        simp [Block.unserved?, this]
      all_goals intros; first | contradiction | rfl
  | loop b =>
    obtain rfl := Option.some.inj h
    exact frame_execLoop env σ b
  | _ =>
    obtain rfl := Option.some.inj h
    constructor <;> intros <;> first | contradiction | rfl

/-- What a block can do to the autosuspend members. -/
inductive AutosuspendEffect (cfg : Config) (env : Env) (σ : Shared) : Block → Out → Prop
  | same {b : Block} {o : Out} (state : o.state.autosuspend = σ.autosuspend) (spawn : o.spawn = none)
      (notify : o.notify = .nobody)
      (stays : ∀ shouldSleep, b = .loop (.head shouldSleep) → σ.mAutosuspendEnabled = true) :
      AutosuspendEffect cfg env σ b o
  | enable (token : Binder) :
      AutosuspendEffect cfg env σ (.enableAutosuspend token) (enableAutosuspend env σ token)
  | disable {b : Block} {o : Out} (state : o.state = (disableAutosuspendLocked σ).state) (spawn : o.spawn = none)
      (notify : o.notify = (disableAutosuspendLocked σ).notify) (stays : ∀ shouldSleep, b ≠ .loop (.head shouldSleep)) :
      AutosuspendEffect cfg env σ b o
  | inc (h : Holder) : AutosuspendEffect cfg env σ (.incSuspendCounter h) (incSuspendCounter cfg env σ h)
  | dec (h : Holder) : AutosuspendEffect cfg env σ (.decSuspendCounter h) (decSuspendCounter cfg env σ h)
  | exit (shouldSleep : Bool) (disabled : σ.mAutosuspendEnabled = false) :
      AutosuspendEffect cfg env σ (.loop (.head shouldSleep))
        { state := { σ with mAutosuspendThreadCreated := false }
          code := [.unlock mAutosuspendLock]
          events := [.exited, .loopHead shouldSleep] }

theorem exec_autosuspend {cfg : Config} {t : Tid} {env : Env} {σ : Shared} {b : Block} {o : Out}
    (h : exec cfg t env σ b = some o) : AutosuspendEffect cfg env σ b o := by
  have hframe := exec_frame h
  cases b with
  | enableAutosuspend token =>
    obtain rfl := Option.some.inj h
    exact .enable token
  | disableAutosuspendLocked =>
    obtain rfl := Option.some.inj h
    exact .disable rfl rfl rfl (by simp)
  | incSuspendCounter holder =>
    obtain rfl := Option.some.inj h
    exact .inc holder
  | decSuspendCounter holder =>
    obtain rfl := Option.some.inj h
    exact .dec holder
  | loop l =>
    obtain rfl := Option.some.inj h
    cases l with
    | head shouldSleep =>
      simp only [execLoop]
      split
      · rename_i hdisabled
        exact .exit shouldSleep (by simpa using hdisabled)
      · rename_i henabled
        exact .same rfl rfl rfl fun _ _ => by simpa using henabled
    | checkTokens wakeupCount =>
      simp only [execLoop]
      split
      · exact .disable rfl rfl rfl (by simp)
      · exact .same rfl rfl rfl (by simp)
    | _ => exact .same (hframe.autosuspend rfl) (hframe.spawn rfl) (hframe.notify rfl) (by simp)
  | _ => exact .same (hframe.autosuspend rfl) (hframe.spawn rfl) (hframe.notify rfl) (by simp)

theorem exec_exit {cfg : Config} {t : Tid} {env : Env} {σ : Shared} {shouldSleep : Bool} {o : Out}
    (h : exec cfg t env σ (.loop (.head shouldSleep)) = some o) (hdisabled : σ.mAutosuspendEnabled = false) :
    o.state = { σ with mAutosuspendThreadCreated := false } ∧ o.code = [.unlock mAutosuspendLock] ∧
      o.spawn = none := by
  obtain rfl := Option.some.inj h
  simp [execLoop, hdisabled]

theorem block_of_spawn {cfg : Config} {t : Tid} {env : Env} {σ : Shared} {b : Block} {o : Out} {p : Tid × ThreadCode}
    (h : exec cfg t env σ b = some o) (hspawn : o.spawn = some p) : ∃ token, b = .enableAutosuspend token := by
  cases exec_autosuspend h with
  | same state spawn =>
    rw [spawn] at hspawn
    cases hspawn
  | enable token => exact ⟨token, rfl⟩
  | disable state spawn =>
    rw [spawn] at hspawn
    cases hspawn
  | inc holder =>
    simp only [incSuspendCounter] at hspawn
    split at hspawn <;> cases hspawn
  | dec holder =>
    simp only [decSuspendCounter] at hspawn
    split at hspawn <;> cases hspawn
  | exit shouldSleep disabled => cases hspawn

/-- A thread is started when there is none, and always at the start of the loop. -/
theorem exec_spawn {cfg : Config} {t : Tid} {env : Env} {σ : Shared} {b : Block} {o : Out} {p : Tid × ThreadCode}
    (h : exec cfg t env σ b = some o) (hspawn : o.spawn = some p) :
    p = (.autosuspend σ.spawned, autosuspendThread) ∧ σ.mAutosuspendThreadCreated = false ∧
      o.state.mAutosuspendThreadCreated = true ∧ o.state.spawned = σ.spawned + 1 := by
  obtain ⟨token, rfl⟩ := block_of_spawn h hspawn
  obtain rfl := Option.some.inj h
  rcases enableAutosuspend_cases env σ token with ⟨-, ho⟩ | ⟨-, -, ho⟩ | ⟨-, hcreated, ho⟩
  · rw [ho] at hspawn
    cases hspawn
  · rw [ho] at hspawn
    cases hspawn
  · rw [ho] at hspawn ⊢
    exact ⟨(Option.some.inj hspawn).symm, hcreated, rfl, rfl⟩

theorem exec_of_ran {cfg : Config} {s s' : ServiceState} {a : ServiceAction} {t : Tid} {b : Block} {env : Env}
    {c : ThreadCode} {o : Out} (h : (program cfg).Ran s a s' t b env c o) : exec cfg t env s.shared b = some o :=
  h.exec

theorem not_of_filter {p : Ev → Bool} {events : List Ev} (h : events.filter p = []) (t : Tid) :
    ∀ e ∈ events.map (t, ·), p e.2 = false := by
  intro e he
  obtain ⟨x, hx, rfl⟩ := List.mem_map.mp he
  simpa using List.filter_eq_nil_iff.mp h x hx

/-! ### Threads that start -/

theorem exec_spawn_code {cfg : Config} {t u : Tid} {env : Env} {σ : Shared} {b : Block} {o : Out} {cu : ThreadCode}
    (h : exec cfg t env σ b = some o) (hspawn : o.spawn = some (u, cu)) : cu = autosuspendThread := by
  obtain ⟨hp, -⟩ := exec_spawn h hspawn
  exact (Prod.mk.inj hp).2

theorem code_other_of_ran {cfg : Config} {s s' : ServiceState} {a : ServiceAction} {t u : Tid} {b : Block} {env : Env}
    {c : ThreadCode} {o : Out} (h : (program cfg).Ran s a s' t b env c o) (hu : u ≠ t) :
    s'.code u = s.code u ∨ (u ∉ s.waiters ∧ s'.code u = autosuspendThread) := by
  rw [h.after]
  rcases State.ran_code_cases s c o s'.waiters hu with hsame | ⟨cu, hcu, hnew⟩
  · exact Or.inl hsame
  · exact Or.inr ⟨(h.spawn u cu hcu).2, hnew.trans (exec_spawn_code h.exec hcu)⟩

theorem duties_of_spawn {cfg : Config} {s s' : ServiceState} {a : ServiceAction} {t : Tid} {b : Block} {env : Env}
    {c : ThreadCode} {o : Out} {δ : Type} {d : Block → Option δ} (h : (program cfg).Ran s a s' t b env c o)
    (hd : autosuspendThread.duties d = []) : ∀ u cu, o.spawn = some (u, cu) → Code.duties d cu = [] := by
  intro u cu hspawn
  rw [exec_spawn_code h.exec hspawn, hd]

theorem entry_op {t : Tid} {b : Block} (h : entry t b = true) : ∃ n p, t = .client n ∧ b = .op p := by
  cases t with
  | client n =>
    cases b with
    | op p => exact ⟨n, p, rfl, rfl⟩
    | _ => cases h
  | autosuspend n => cases h

/-- A property of the code of every thread: threads start with it, and every instruction leaves it to what comes next. -/
theorem reach_code {cfg : Config} {ok : ServiceState → ServiceAction → Prop} {K : ThreadCode → Prop} {s : ServiceState}
    (hnil : K []) (hop : ∀ p, K [.run (.op p)]) (hspawn : K autosuspendThread)
    (hdrop : ∀ i c, (∀ b, i ≠ .run b) → K (i :: c) → K c)
    (hrun : ∀ t b env σ c o, exec cfg t env σ b = some o → K (.run b :: c) → K (o.code ++ c))
    (h : (program cfg).Reach ok s) (u : Tid) : K (s.code u) := by
  refine h.invariant (I := fun s => ∀ u, K (s.code u)) (fun _ => hnil) (fun s a s' _ _ hs hstep u => ?_) u
  rcases hstep.quiet_or_ran with hq | ⟨t, b, env, c, o, hr⟩
  · refine hq.keeps hdrop (fun b _ hentry => ?_) (hs u)
    obtain ⟨n, p, rfl, rfl⟩ := entry_op hentry
    exact hop p
  · by_cases hu : u = t
    · subst hu
      rw [hr.code_self]
      refine hrun u b env s.shared c o (exec_of_ran hr) ?_
      rw [← hr.code]
      exact hs u
    · rcases code_other_of_ran hr hu with hsame | ⟨-, hnew⟩
      · rw [hsame]
        exact hs u
      · rw [hnew]
        exact hspawn

/-- A step that runs no block leaves the duties of all threads alone, if the operations themselves are none. -/
theorem duties_of_quiet {cfg : Config} {s s' : ServiceState} {a : ServiceAction} {δ : Type} {d : Block → Option δ}
    (h : (program cfg).Quiet s a s') (hd : ∀ p, d (.op p) = none) (u : Tid) :
    (s'.code u).duties d = (s.code u).duties d := by
  refine h.duties (fun t b _ hb => ?_) u
  obtain ⟨n, p, -, rfl⟩ := entry_op hb
  exact hd p

/-! ### What the blocks record -/

theorem beginDestroy_eq {t : Tid} {σ : Shared} {wl : Nat} {o : Out} (h : beginDestroy t σ wl = some o) :
    (∃ w, σ.wakeLocks[wl]? = some w ∧ w.acquisition = .returned ∧ w.destruction = .alive) ∧ o =
      { state := σ.onLock wl fun w => { w with destruction := .releasing t }
        code := [.run (.callOnce wl true), .run (.endDestroy wl)]
        events := [.destroy wl] } := by
  unfold beginDestroy at h
  split at h
  · rename_i hguard
    obtain rfl := Option.some.inj h
    refine ⟨?_, rfl⟩
    cases hw : σ.wakeLocks[wl]? with
    | none => simp [hw] at hguard
    | some w => simpa [hw] using hguard
  · cases h

/-- The events that the results about whole runs look at. -/
def tracked : Ev → Bool
  | .incSuspendCounter _ => true
  | .decSuspendCounter _ => true
  | .release _ => true
  | .destroy _ => true
  | .destroyed _ => true
  | .loopHead _ => true
  | .suspend _ => true
  | .updateSleepTime .. => true
  | .updateWakeupList .. => true
  | .notifyWakeup .. => true
  | _ => false

def recorded (env : Env) (σ : Shared) : Block → List Ev
  | .incSuspendCounter h => [.incSuspendCounter h]
  | .decSuspendCounter h => [.decSuspendCounter h]
  | .op (.release wl) => [.release wl]
  | .op (.destroyWakeLock wl) => [.destroy wl]
  | .beginDestroy wl => [.destroy wl]
  | .endDestroy wl => [.destroyed wl]
  | .loop (.head shouldSleep) => [.loopHead shouldSleep]
  | .loop .writeState => [.suspend env.ok]
  | .updateSleepTime success suspendTime => [.updateSleepTime success suspendTime]
  | .updateWakeupList wakeupReasons => [.updateWakeupList wakeupReasons (evicts σ wakeupReasons)]
  | .notifyWakeup success wakeupReasons => [.notifyWakeup success wakeupReasons σ.control.mCallbacks]
  | _ => []

theorem execOp_recorded {t : Tid} {env : Env} {σ : Shared} {p : Op} {o : Out} (h : execOp t env σ p = some o) :
    o.events.filter tracked = recorded env σ (.op p) := by
  cases p with
  | acquireWakeLock frontEnd name =>
    obtain rfl := Option.some.inj h
    simp only [acquireWakeLock]
    split <;> rfl
  | release wl =>
    simp only [execOp, release] at h
    split at h
    · obtain rfl := Option.some.inj h
      rfl
    · cases h
  | destroyWakeLock wl =>
    simp only [execOp, destroyWakeLock] at h
    split at h
    · obtain ⟨-, rfl⟩ := beginDestroy_eq h
      rfl
    · cases h
  | getSuspendStats =>
    obtain rfl := Option.some.inj h
    simp only [getSuspendStats]
    split <;> rfl
  | registerCallback cb => cases cb <;> obtain rfl := Option.some.inj h <;> rfl
  | registerWakelockCallback cb name =>
    cases cb with
    | none =>
      obtain rfl := Option.some.inj h
      rfl
    | some cb =>
      simp only [execOp] at h
      obtain rfl := Option.some.inj h
      split <;> rfl
  | _ =>
    obtain rfl := Option.some.inj h
    rfl

theorem execLoop_recorded (env : Env) (σ : Shared) (l : LoopBlock) :
    (execLoop env σ l).events.filter tracked = recorded env σ (.loop l) := by
  cases l with
  | readWakeupCount shouldSleep => rfl
  | writeWakeupCount wakeupCount => rfl
  | writeState => rfl
  | readSuspendTime success => rfl
  | readWakeupReasons success =>
    simp only [execLoop]
    split <;> rfl
  | _ =>
    simp only [execLoop]
    split <;> rfl

theorem exec_recorded {cfg : Config} {t : Tid} {env : Env} {σ : Shared} {b : Block} {o : Out}
    (h : exec cfg t env σ b = some o) : o.events.filter tracked = recorded env σ b := by
  cases b with
  | op p => exact execOp_recorded h
  | enableAutosuspend token =>
    obtain rfl := Option.some.inj h
    rcases enableAutosuspend_cases env σ token with ⟨-, ho⟩ | ⟨-, -, ho⟩ | ⟨-, -, ho⟩ <;> rw [ho] <;> rfl
  | awaitThreadExit woken =>
    obtain rfl := Option.some.inj h
    simp only [awaitThreadExit]
    split <;> rfl
  | incSuspendCounter holder =>
    obtain rfl := Option.some.inj h
    simp only [incSuspendCounter]
    split <;> cases holder <;> rfl
  | decSuspendCounter holder =>
    obtain rfl := Option.some.inj h
    simp only [decSuspendCounter]
    split <;> cases holder <;> rfl
  | updateStats change holder timeNow =>
    obtain ⟨stats, -, rfl⟩ := Option.map_eq_some_iff.mp h
    rfl
  | updateWakeupList reasons =>
    obtain ⟨wakeups, -, rfl⟩ := Option.map_eq_some_iff.mp h
    rfl
  | dumpKernelSuspends suspendControls =>
    obtain rfl := Option.some.inj h
    simp only [dumpKernelSuspends, getSuspendStats]
    split <;> rfl
  | callOnce wl destructor =>
    simp only [exec, callOnce] at h
    split at h
    · obtain rfl := Option.some.inj h
      rfl
    · cases h
    · obtain rfl := Option.some.inj h
      rfl
  | beginDestroy wl =>
    obtain ⟨-, rfl⟩ := beginDestroy_eq h
    rfl
  | registerCallback cb =>
    obtain rfl := Option.some.inj h
    simp only [registerCallback]
    split <;> rfl
  | registerWakelockCallback cb name =>
    obtain rfl := Option.some.inj h
    simp only [registerWakelockCallback]
    split <;> rfl
  | loop l =>
    obtain rfl := Option.some.inj h
    exact execLoop_recorded env σ l
  | _ =>
    obtain rfl := Option.some.inj h
    rfl

theorem exec_filterMap {cfg : Config} {t : Tid} {env : Env} {σ : Shared} {b : Block} {o : Out} {α : Type}
    {f : Ev → Option α} (hf : ∀ e, tracked e = false → f e = none) (h : exec cfg t env σ b = some o) :
    o.events.filterMap f = (recorded env σ b).filterMap f := by
  rw [← exec_recorded h, List.filterMap_filter]
  refine List.filterMap_congr fun e _ => ?_
  cases he : tracked e with
  | true => rfl
  | false => exact hf e he

theorem mem_recorded {cfg : Config} {t : Tid} {env : Env} {σ : Shared} {b : Block} {o : Out} {e : Ev}
    (h : exec cfg t env σ b = some o) (he : e ∈ o.events) (htracked : tracked e = true) : e ∈ recorded env σ b := by
  rw [← exec_recorded h]
  exact List.mem_filter.mpr ⟨he, htracked⟩

section events

variable {cfg : Config} {t : Tid} {env : Env} {σ : Shared} {b : Block} {o : Out}

theorem block_of_suspend {success : Bool} (h : exec cfg t env σ b = some o) (he : .suspend success ∈ o.events) :
    b = .loop .writeState := by
  have hmem := mem_recorded h he rfl
  unfold recorded at hmem
  split at hmem <;> simp at hmem
  rfl

theorem block_of_loopHead {shouldSleep : Bool} (h : exec cfg t env σ b = some o)
    (he : .loopHead shouldSleep ∈ o.events) : b = .loop (.head shouldSleep) := by
  have hmem := mem_recorded h he rfl
  unfold recorded at hmem
  split at hmem <;> simp at hmem
  rw [hmem]

theorem block_of_inc {holder : Holder} (h : exec cfg t env σ b = some o) (he : .incSuspendCounter holder ∈ o.events) :
    b = .incSuspendCounter holder := by
  have hmem := mem_recorded h he rfl
  unfold recorded at hmem
  split at hmem <;> simp at hmem
  rw [hmem]

end events

/-! ### Runs that only use what is served -/

theorem served_of_step {s : ServiceState} {t : Tid} {env : Env} {pick : Option Tid}
    (h : Served s (.step t env pick)) : ∀ p ∈ env.call, p.served = true := by
  intro p hp
  have hall : env.call.all Op.served = true := h
  rw [Option.mem_def.mp hp] at hall
  exact hall

/-- All code comes from served operations. -/
def ServedCode (s : ServiceState) : Prop := ∀ t, (s.code t).duties Block.unserved? = []

theorem ServedCode.block {cfg : Config} {s s' : ServiceState} {a : ServiceAction} {t : Tid} {b : Block} {env : Env}
    {c : ThreadCode} {o : Out} (hs : ServedCode s) (hr : (program cfg).Ran s a s' t b env c o) :
    b.unserved? = none := by
  have hcode := hs t
  rw [hr.duties_before, List.append_eq_nil_iff] at hcode
  exact Option.toList_eq_nil_iff.mp hcode.1

theorem reach_served {cfg : Config} {s : ServiceState} (h : (program cfg).Reach Served s) : ServedCode s := by
  refine h.invariant (I := ServedCode) (fun t => rfl) fun s a s' _ hok hs hstep t => ?_
  rcases hstep.quiet_or_ran with hq | ⟨u, b, env, c, o, hr⟩
  · rw [hq.duties, hs t]
    intro u b ha hb
    obtain ⟨n, p, rfl, rfl⟩ := entry_op hb
    rw [ha] at hok
    exact if_pos hok
  · obtain ⟨pick, rfl, -⟩ := hr.action
    have hb := hs.block hr
    have hcode := (exec_frame (exec_of_ran hr)).served hb (served_of_step hok)
    rw [hr.duties_same (duties_of_spawn hr rfl) (by rw [hcode, hb]; rfl) t, hs t]

end Service

end HardwareInterfaces.Suspend
