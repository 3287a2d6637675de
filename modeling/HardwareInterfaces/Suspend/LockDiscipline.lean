import HardwareInterfaces.Suspend.Effects

/-!
# Lock discipline of the suspend service

`typing` lists the mutexes each block of the service holds when it runs and gives the mutexes an order: the lock of
the client tokens before the one of autosuspend, the lock of the suspend callbacks before the one of the
wakelock callbacks, and no other nesting. `typing_sound` checks that every block keeps to it.
-/

namespace HardwareInterfaces.Suspend.Service

open CppStd Monitor Mutex

def loopNeeds : LoopBlock → List Mutex
  | .readWakeupCount _ => []
  | .readSuspendTime _ => []
  | .readWakeupReasons _ => []
  | .checkTokens _ => [mAutosuspendLock, mAutosuspendClientTokensLock]
  | .checkCounter _ => [mAutosuspendLock, mAutosuspendClientTokensLock]
  | .writeWakeupCount _ => [mAutosuspendLock, mAutosuspendClientTokensLock]
  | .writeState => [mAutosuspendLock, mAutosuspendClientTokensLock]
  | _ => [mAutosuspendLock]

def needs : Block → List Mutex
  | .enableAutosuspend _ => [mAutosuspendLock, mAutosuspendClientTokensLock]
  | .disableAutosuspendLocked => [mAutosuspendLock, mAutosuspendClientTokensLock]
  | .awaitThreadExit _ => [mAutosuspendLock, mAutosuspendClientTokensLock]
  | .forceSuspend => [mAutosuspendLock]
  | .incSuspendCounter _ => [mAutosuspendLock]
  | .decSuspendCounter _ => [mAutosuspendLock]
  | .updateStats .. => [mStatsLock]
  | .updateNow => [mStatsLock]
  | .getWakeLockStats => [mStatsLock]
  | .getWakeupStats => [wakeupListLock]
  | .updateWakeupList _ => [wakeupListLock]
  | .getSuspendInfo => [mSuspendInfoLock]
  | .updateSleepTime .. => [mSuspendInfoLock]
  | .registerCallback _ => [mCallbackLock]
  | .pushCallback _ => [mCallbackLock]
  | .registerWakelockCallback .. => [mWakelockCallbackLock]
  | .pushWakelockCallback .. => [mWakelockCallbackLock]
  | .eraseCallbacks _ => [mCallbackLock]
  | .eraseWakelockCallbacks _ => [mWakelockCallbackLock, mCallbackLock]
  | .notifyWakelock .. => [mWakelockCallbackLock]
  | .notifyWakeup .. => [mCallbackLock]
  | .loop b => loopNeeds b
  | _ => []

/-- The loop ends with nothing held; the notifications release their lock before they call the callbacks. -/
def leaves : Block → List Mutex
  | .notifyWakelock .. => []
  | .notifyWakeup .. => []
  | .loop _ => []
  | b => needs b

def rank : Mutex → Nat
  | mAutosuspendLock => 1
  | mWakelockCallbackLock => 1
  | _ => 0

def typing : Typing Mutex Block := ⟨needs, leaves, rank⟩

theorem follow_callbacks (callbacks : List Callback) (n : Notification) :
    typing.follow [] (callbacks.map fun cb => Instr.run (Block.callback cb n)) = some [] := by
  induction callbacks with
  | nil => rfl
  | cons cb callbacks ih => exact ih

theorem follow_dump (opts : DumpOptions) : typing.follow [] (callDump opts) = some [] := by
  obtain ⟨wakelocks, wakeups, kernelSuspends, suspendControls⟩ := opts
  cases wakelocks <;> cases wakeups <;> cases kernelSuspends <;> cases suspendControls <;> rfl

theorem keeps_acquireWakeLock (t : Tid) (env : Env) (σ : Shared) (frontEnd : FrontEnd) (name : StdString) :
    typing.follow [] (acquireWakeLock t env σ frontEnd name).code = some [] := by
  unfold acquireWakeLock
  split
  · rfl
  · cases frontEnd <;> rfl

theorem keeps_getSuspendStats (t : Tid) (env : Env) (σ : Shared) :
    typing.follow [] (getSuspendStats t env σ).code = some [] := by
  unfold getSuspendStats
  split <;> rfl

theorem keeps_callOnce {t : Tid} {σ : Shared} {wl : Nat} {destructor : Bool} {o : Out}
    (h : callOnce t σ wl destructor = some o) : typing.follow [] o.code = some [] := by
  unfold callOnce at h
  split at h
  · obtain rfl := Option.some.inj h
    rfl
  · cases h
  · obtain rfl := Option.some.inj h
    rfl

theorem keeps_beginDestroy {t : Tid} {σ : Shared} {wl : Nat} {o : Out}
    (h : beginDestroy t σ wl = some o) : typing.follow [] o.code = some [] := by
  unfold beginDestroy at h
  split at h
  · obtain rfl := Option.some.inj h
    rfl
  · cases h

theorem keeps_notifyAll {m : Mutex} (callbacks : List Callback) (n : Notification) :
    typing.follow [m] (notifyAll m callbacks n) = some [] := by
  rw [notifyAll, Typing.follow, if_pos (by simp)]
  simp only [List.erase_cons_head]
  exact follow_callbacks callbacks n

theorem keeps_execOp {t : Tid} {env : Env} {σ : Shared} {p : Op} {o : Out} (h : execOp t env σ p = some o) :
    typing.follow [] o.code = some [] := by
  cases p with
  | acquireWakeLock frontEnd name =>
    obtain rfl := Option.some.inj h
    exact keeps_acquireWakeLock t env σ frontEnd name
  | release wl =>
    simp only [execOp, release] at h
    split at h
    · obtain rfl := Option.some.inj h
      rfl
    · cases h
  | destroyWakeLock wl =>
    simp only [execOp, destroyWakeLock] at h
    split at h
    · exact keeps_beginDestroy h
    · cases h
  | getSuspendStats =>
    obtain rfl := Option.some.inj h
    exact keeps_getSuspendStats t env σ
  | dump args =>
    obtain rfl := Option.some.inj h
    cases hopts : DumpOptions.parse args with
    | none => rfl
    | some opts => exact follow_dump opts
  | registerCallback cb =>
    cases cb with
    | none => obtain rfl := Option.some.inj h; rfl
    | some cb => obtain rfl := Option.some.inj h; rfl
  | registerWakelockCallback cb name =>
    cases cb with
    | none => obtain rfl := Option.some.inj h; rfl
    | some cb =>
      simp only [execOp] at h
      obtain rfl := Option.some.inj h
      split <;> rfl
  | _ =>
    obtain rfl := Option.some.inj h
    rfl

theorem keeps_execLoop (env : Env) (σ : Shared) (b : LoopBlock) :
    typing.follow (loopNeeds b) (execLoop env σ b).code = some [] := by
  cases b with
  | head shouldSleep =>
    simp only [execLoop]
    split
    · rfl
    · cases shouldSleep <;> rfl
  | writeWakeupCount wakeupCount =>
    simp only [execLoop]
    split <;> rfl
  | readWakeupCount shouldSleep => rfl
  | writeState => rfl
  | readSuspendTime success => rfl
  | readWakeupReasons success => rfl
  | _ =>
    simp only [execLoop]
    split <;> rfl

theorem keeps_exec {cfg : Config} {t : Tid} {env : Env} {σ : Shared} {b : Block} {o : Out}
    (h : exec cfg t env σ b = some o) : typing.follow (needs b) o.code = some (leaves b) := by
  cases b with
  | op p => exact keeps_execOp h
  | enableAutosuspend token =>
    obtain rfl := Option.some.inj h
    simp only [enableAutosuspend]
    split <;> rfl
  | awaitThreadExit woken =>
    obtain rfl := Option.some.inj h
    unfold awaitThreadExit
    split <;> rfl
  | incSuspendCounter holder =>
    obtain rfl := Option.some.inj h
    simp only [incSuspendCounter]
    split <;> rfl
  | decSuspendCounter holder =>
    obtain rfl := Option.some.inj h
    simp only [decSuspendCounter]
    split <;> rfl
  | updateStats change holder timeNow =>
    obtain ⟨stats, -, rfl⟩ := Option.map_eq_some_iff.mp h
    rfl
  | updateWakeupList reasons =>
    obtain ⟨wakeups, -, rfl⟩ := Option.map_eq_some_iff.mp h
    rfl
  | dumpKernelSuspends suspendControls =>
    obtain rfl := Option.some.inj h
    simp only [dumpKernelSuspends]
    change typing.follow [] _ = some []
    rw [Typing.follow_append (keeps_getSuspendStats t env σ)]
    split <;> rfl
  | callOnce wl destructor => exact keeps_callOnce h
  | beginDestroy wl => exact keeps_beginDestroy h
  | notifyWakelock change holder =>
    obtain rfl := Option.some.inj h
    exact keeps_notifyAll ..
  | notifyWakeup success reasons =>
    obtain rfl := Option.some.inj h
    exact keeps_notifyAll ..
  | callback cb n =>
    obtain rfl := Option.some.inj h
    simp only [callback]
    split <;> rfl
  | loop b =>
    obtain rfl := Option.some.inj h
    exact keeps_execLoop env σ b
  | registerCallback cb =>
    obtain rfl := Option.some.inj h
    simp only [registerCallback]
    split <;> rfl
  | registerWakelockCallback cb name =>
    obtain rfl := Option.some.inj h
    simp only [registerWakelockCallback]
    split <;> rfl
  | _ =>
    obtain rfl := Option.some.inj h
    rfl

theorem typing_sound (cfg : Config) : typing.Sound (program cfg) where
  exec h := keeps_exec h
  spawn h u cu hspawn := by
    rw [exec_spawn_code h hspawn]
    rfl
  entry := by
    intro t b h
    obtain ⟨n, p, rfl, rfl⟩ := entry_op h
    rfl

theorem needs_of_changesAutosuspend {b : Block} (hb : b.changesAutosuspend = true) : mAutosuspendLock ∈ needs b := by
  cases b with
  | loop l =>
    cases l with
    | head shouldSleep => exact List.mem_cons_self
    | checkTokens wakeupCount => exact List.mem_cons_self
    | _ => cases hb
  | enableAutosuspend token => exact List.mem_cons_self
  | disableAutosuspendLocked => exact List.mem_cons_self
  | incSuspendCounter holder => exact List.mem_cons_self
  | decSuspendCounter holder => exact List.mem_cons_self
  | _ => cases hb

/-- `mAutosuspendLock` guards the autosuspend members. -/
theorem guards_autosuspend {cfg : Config} (t : Tid) (b : Block) (env : Env) (σ : Shared) (o : Out)
    (h : exec cfg t env σ b = some o) (hb : mAutosuspendLock ∉ needs b) : o.state.autosuspend = σ.autosuspend := by
  cases hchanges : b.changesAutosuspend with
  | true => exact absurd (needs_of_changesAutosuspend hchanges) hb
  | false => exact (exec_frame h).autosuspend hchanges

/-- No restriction on what clients call. -/
def Anything (_ : ServiceState) (_ : ServiceAction) : Prop := True

/-- The discipline of the service's mutexes in every reachable state, whatever public operations the clients, and the
callbacks, call: no thread takes `mAutosuspendLock` twice or releases it without holding it, the head of the loop
has it and not the lock of the tokens, locks are taken in order, no threads wait for each other in a
cycle, and client callbacks are called without any mutex. -/
theorem lock_discipline (cfg : Config) {s : ServiceState} (h : (program cfg).Reach Anything s) :
    (∀ t c, s.code t = .lock mAutosuspendLock :: c → s.owner mAutosuspendLock ≠ some t) ∧
    (∀ t c, s.code t = .unlock mAutosuspendLock :: c → s.owner mAutosuspendLock = some t) ∧
    (∀ t c, s.code t = .wait mAutosuspendLock :: c → s.owner mAutosuspendLock = some t) ∧
    (∀ t shouldSleep c, s.code t = .run (.loop (.head shouldSleep)) :: c →
      s.owner mAutosuspendLock = some t ∧ s.owner mAutosuspendClientTokensLock ≠ some t) ∧
    (∀ t c, s.code t = .lock mAutosuspendClientTokensLock :: c → s.owner mAutosuspendLock ≠ some t) ∧
    (∀ t c, s.code t = .lock mCallbackLock :: c → s.owner mWakelockCallbackLock ≠ some t) ∧
    (∀ t, ¬ Relation.TransGen s.WaitsFor t t) ∧
    (∀ t callback notification c, s.code t = .run (.callback callback notification) :: c →
      ∀ m, s.owner m ≠ some t) := by
  have hdisc := h.disciplined (typing_sound cfg)
  refine ⟨?_, fun t c => hdisc.owns_of_unlock, fun t c => hdisc.owns_of_wait, ?_, ?_, ?_, hdisc.acyclic, ?_⟩
  · intro t c hcode howner
    exact absurd (hdisc.rank_lt hcode howner) (Nat.lt_irrefl _)
  · intro t shouldSleep c hcode
    rw [hdisc.owns_iff hcode, Ne, hdisc.owns_iff hcode]
    exact ⟨List.mem_singleton.mpr rfl, fun hmem => by cases List.mem_singleton.mp hmem⟩
  · intro t c hcode howner
    exact absurd (hdisc.rank_lt hcode howner) (by decide)
  · intro t c hcode howner
    exact absurd (hdisc.rank_lt hcode howner) (by decide)
  · intro t callback notification c hcode m
    rw [Ne, hdisc.owns_iff hcode]
    exact List.not_mem_nil

/-- A wakelock callback in the middle of `acquireWakeLock`. -/
theorem lock_discipline_at_callback :
    ∃ s : ServiceState, (program smallConfig).Reach Anything s ∧
      s.code (.client 1) = [.run (.callback ⟨7, false⟩ .notifyAcquired), .run (.returnWakeLock 0)] ∧
      ∀ m, s.owner m ≠ some (.client 1) := by
  obtain ⟨s, hreach, hcode⟩ := Program.Reach.of_run (program smallConfig) (fun _ _ => true)
    (goCall (.client 0) (.registerWakelockCallback (some ⟨7, false⟩) (str "wl")) 5 ++
      goCall (.client 1) (.acquireWakeLock .aidl (str "wl")) 11)
    (fun s => s.code (.client 1) = [.run (.callback ⟨7, false⟩ .notifyAcquired), .run (.returnWakeLock 0)])
    (fun _ _ _ => trivial) (by decide +kernel)
  have hcode := of_decide_eq_true hcode
  exact ⟨s, hreach, hcode, (lock_discipline smallConfig hreach).2.2.2.2.2.2.2 _ _ _ _ hcode⟩

end HardwareInterfaces.Suspend.Service
