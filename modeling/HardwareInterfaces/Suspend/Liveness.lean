import HardwareInterfaces.Lib.Inevitable
import HardwareInterfaces.Suspend.Progress

/-!
# The service suspends

Autosuspend is there to suspend the system when nothing keeps it awake: once no wake lock is held and no call is in
progress, the loop comes to a suspend from wherever it is, asleep, blocked in the read of the wakeup count, telling
callbacks about the last wakeup, or just started (`comes_to_suspend`). What it needs from outside is that its sleeps run
out, that the kernel gives a wakeup count and accepts it, and that the callbacks return. It does not need a
notification: a thread that is parked then is parked in its sleep.
-/

namespace HardwareInterfaces.Suspend.Service

open CppStd Monitor Mutex

def suspends (s : ServiceState) : Nat := s.log.countP fun e => e.2 = .suspend true

/-- The points of the loop, and the blocks of the functions that it calls. -/
def ofLoop : Block → Bool
  | .loop _ => true
  | .updateSleepTime .. => true
  | .updateWakeupList _ => true
  | .notifyWakeup .. => true
  | .callback .. => true
  | _ => false

/-- No call is in progress: only `t` has something to do, and that is what the loop does. -/
structure Undisturbed (s : ServiceState) (t : Tid) : Prop where
  others : ∀ u, u ≠ t → s.code u = []
  own : ∀ b, .run b ∈ s.code t → ofLoop b = true

def inSleep : ThreadCode → Bool
  | .lock _ :: .run (.loop (.sleep _)) :: _ => true
  | _ => false

/-- The thread goes on, its sleeps run out, the kernel gives a wakeup count and takes it, and callbacks do not call back.
-/
def favours (t : Tid) (s : ServiceState) : ServiceAction → Bool
  | .step u env _ => u = t && env.bytes ≠ [] && env.ok && env.timedOut && env.call.isNone
  | .wake u => u = t && inSleep (s.code t)
  | _ => false

def Favours (t : Tid) (s : ServiceState) (a : ServiceAction) : Prop := favours t s a = true

/-! ### How far it is to the next suspend -/

/-- The steps from a point of the loop to the end of the next suspend, with so many callbacks to tell about a wakeup. -/
def stepsLeft (callbacks : Nat) : LoopBlock → Nat
  | .writeState => 1
  | .writeWakeupCount _ => 2
  | .checkCounter _ => 3
  | .checkTokens _ => 4
  | .counterIdle _ => 8
  | .awaitCounter _ => 9
  | .gotWakeupCount wakeupCount _ => if wakeupCount = [] then 21 else 10
  | .readWakeupCount _ => 12
  | .slept _ => 14
  | .sleep true => 15
  | .sleep false => 19
  | .head _ => 20
  | .readWakeupReasons _ => callbacks + 28
  | .readSuspendTime _ => callbacks + 32

def price (callbacks : Nat) : Block → Nat
  | .loop b => stepsLeft callbacks b
  | .notifyWakeup .. => callbacks + 2
  | _ => 1

section blocks

variable {cfg : Config} {t : Tid} {env : Env} {σ : Shared} {b : Block} {o : Out}

theorem execLoop_closer {callbacks : Nat} {l : LoopBlock} (henabled : σ.mAutosuspendEnabled = true)
    (hcounter : σ.mSuspendCounter = 0) (htokens : σ.mAutosuspendClientTokens ≠ []) (hbytes : env.bytes ≠ [])
    (hok : env.ok = true) (htimedOut : env.timedOut = true) (hl : l ≠ .writeState) :
    Code.cost (price callbacks) (execLoop env σ l).code < stepsLeft callbacks l := by
  cases l with
  | head shouldSleep => cases shouldSleep <;> simp [execLoop, henabled, goto, price, stepsLeft]
  | sleep woken => cases woken <;> simp [execLoop, henabled, htimedOut, goto, waitThen, price, stepsLeft]
  | slept shouldSleep => simp [execLoop, henabled, goto, price, stepsLeft]
  | readWakeupCount shouldSleep => simp [execLoop, goto, price, stepsLeft, hbytes]
  | gotWakeupCount wakeupCount shouldSleep =>
    by_cases hempty : wakeupCount = []
    · simp [execLoop, hempty, goto, price, stepsLeft]
    · simp [execLoop, hempty, goto, price, stepsLeft]
  | awaitCounter wakeupCount => simp [execLoop, hcounter, goto, price, stepsLeft]
  | counterIdle wakeupCount => simp [execLoop, henabled, goto, price, stepsLeft]
  | checkTokens wakeupCount => simp [execLoop, htokens, goto, price, stepsLeft]
  | checkCounter wakeupCount => simp [execLoop, hcounter, goto, price, stepsLeft]
  | writeWakeupCount wakeupCount => simp [execLoop, hok, goto, price, stepsLeft]
  | writeState => exact absurd rfl hl
  | readSuspendTime success => simp [execLoop, lockGuard, goto, price, stepsLeft]; omega
  | readWakeupReasons success => simp [execLoop, lockGuard, callNotifyWakeup, goto, price, stepsLeft]; omega

/-- What the loop leaves alone while autosuspend is enabled. -/
structure LeavesAlone (σ σ' : Shared) : Prop where
  enabled : σ'.mAutosuspendEnabled = σ.mAutosuspendEnabled
  wakeLocks : σ'.wakeLocks = σ.wakeLocks
  control : σ'.control = σ.control

theorem execLoop_leavesAlone {l : LoopBlock} (htokens : σ.mAutosuspendClientTokens ≠ []) :
    LeavesAlone σ (execLoop env σ l).state := by
  cases l with
  | checkTokens wakeupCount =>
    simp only [execLoop, if_neg htokens]
    exact ⟨rfl, rfl, rfl⟩
  | readWakeupCount shouldSleep => exact ⟨rfl, rfl, rfl⟩
  | writeState => exact ⟨rfl, rfl, rfl⟩
  | writeWakeupCount wakeupCount => exact ⟨rfl, rfl, rfl⟩
  | readSuspendTime success => exact ⟨rfl, rfl, rfl⟩
  | readWakeupReasons success => exact ⟨rfl, rfl, rfl⟩
  | _ =>
    simp only [execLoop]
    split <;> exact ⟨rfl, rfl, rfl⟩

theorem execLoop_own {l : LoopBlock} : ∀ b', .run b' ∈ (execLoop env σ l).code → ofLoop b' = true := by
  intro b' hb'
  cases l with
  | readWakeupReasons success =>
    simp only [execLoop, lockGuard, callNotifyWakeup, goto, List.mem_append, List.mem_cons, List.not_mem_nil, reduceCtorEq,
      or_false, false_or, Instr.run.injEq] at hb'
    rcases hb' with (rfl | rfl) | rfl <;> rfl
  | _ =>
    simp only [execLoop, goto, waitThen, lockGuard, disableAutosuspendLocked] at hb'
    grind [ofLoop]

structure Closer (callbacks : Nat) (b : Block) (σ : Shared) (o : Out) : Prop where
  cost : Code.cost (price callbacks) o.code < price callbacks b
  alone : LeavesAlone σ o.state
  own : ∀ b', .run b' ∈ o.code → ofLoop b' = true

theorem exec_closer (h : exec cfg t env σ b = some o) (hb : ofLoop b = true) (henabled : σ.mAutosuspendEnabled = true)
    (hcounter : σ.mSuspendCounter = 0) (htokens : σ.mAutosuspendClientTokens ≠ []) (hbytes : env.bytes ≠ [])
    (hok : env.ok = true) (htimedOut : env.timedOut = true) (hcall : env.call = none) :
    o.events = [.suspend true] ∨ Closer σ.control.mCallbacks.length b σ o := by
  cases b with
  | loop l =>
    obtain rfl := Option.some.inj h
    by_cases hl : l = .writeState
    · left
      rw [hl, execLoop, hok]
    · exact Or.inr ⟨execLoop_closer henabled hcounter htokens hbytes hok htimedOut hl, execLoop_leavesAlone htokens,
        execLoop_own⟩
  | updateSleepTime success suspendTime =>
    obtain rfl := Option.some.inj h
    exact Or.inr ⟨Nat.one_pos, ⟨rfl, rfl, rfl⟩, by simp⟩
  | updateWakeupList reasons =>
    obtain ⟨l, -, rfl⟩ := Option.map_eq_some_iff.mp h
    exact Or.inr ⟨Nat.one_pos, ⟨rfl, rfl, rfl⟩, by simp⟩
  | notifyWakeup success reasons =>
    obtain rfl := Option.some.inj h
    refine Or.inr ⟨?_, ⟨rfl, rfl, rfl⟩, ?_⟩
    · have hcallbacks : Code.cost (price σ.control.mCallbacks.length) ((σ.control.mCallbacks.map fun cb =>
          .run (.callback cb (.notifyWakeup success reasons))) : ThreadCode) = σ.control.mCallbacks.length :=
        Code.cost_map fun _ _ => rfl
      simp only [notifyWakeup, notifyAll, Code.cost_unlock, hcallbacks, price]
      omega
    · simp [notifyWakeup, notifyAll, ofLoop]
  | callback cb notification =>
    obtain rfl := Option.some.inj h
    refine Or.inr ⟨?_, ⟨rfl, rfl, rfl⟩, ?_⟩
    · simp [callback, hcall, price]
    · simp [callback, hcall]
  | _ => cases hb

end blocks

/-! ### Every step leads closer -/

/-- An enabled service without wake locks and calls in progress, after at least so many suspends. -/
structure Ready (cfg : Config) (t : Tid) (made : Nat) (s : ServiceState) : Prop where
  reach : (program cfg).Reach Served s
  enabled : s.shared.mAutosuspendEnabled = true
  released : unreleased s.shared = 0
  undisturbed : Undisturbed s t
  made : made ≤ suspends s

section ready

variable {cfg : Config} {s s' : ServiceState} {a : ServiceAction} {t : Tid} {made : Nat}

theorem Ready.counter (h : Ready cfg t made s) : s.shared.mSuspendCounter = 0 := by
  have hcounted := reach_counted h.reach
  rw [Counted, h.released] at hcounted
  simpa using hcounted

theorem Ready.tokens (h : Ready cfg t made s) : s.shared.mAutosuspendClientTokens ≠ [] :=
  (reach_loops h.reach).consistent.tokens.mp h.enabled

theorem Ready.busy (h : Ready cfg t made s) : s.code t ≠ [] := by
  have hloops := reach_loops h.reach
  have hcreated := hloops.consistent.created h.enabled
  obtain ⟨u, hu⟩ : ∃ u, loopThread s.shared = some u := ⟨_, if_pos hcreated⟩
  obtain ⟨p, b, hcode, -⟩ := hloops.inside u hu
  by_cases hut : u = t
  · rw [← hut, hcode]
    simp
  · rw [h.undisturbed.others u hut] at hcode
    simp at hcode

theorem Favours.served (h : Favours t s a) : Served s a := by
  cases a with
  | step u env pick =>
    simp only [Favours, favours, Bool.and_eq_true, Option.isNone_iff_eq_none] at h
    simp [Served, servedAction, h.2]
  | wake u => rfl
  | _ => cases h

theorem Favours.byThread (h : Favours t s a) : a.By t ∧ ∀ u b, a ≠ .call u b := by
  cases a with
  | step u env pick =>
    simp only [Favours, favours, Bool.and_eq_true, decide_eq_true_eq] at h
    exact ⟨h.1.1.1.1, by simp⟩
  | wake u =>
    simp only [Favours, favours, Bool.and_eq_true, decide_eq_true_eq] at h
    exact ⟨h.1, by simp⟩
  | _ => cases h

theorem suspends_of_ran {b : Block} {env : Env} {c : ThreadCode} {o : Out} (hr : (program cfg).Ran s a s' t b env c o) :
    suspends s' = (o.events.countP fun x => x = .suspend true) + suspends s := by
  rw [suspends, hr.log, List.countP_append, List.countP_map]
  rfl

theorem Ready.closer (h : Ready cfg t made s) (hok : Favours t s a) {b : Block} {env : Env} {c : ThreadCode} {o : Out}
    (hr : (program cfg).Ran s a s' t b env c o) :
    made < suspends s' ∨ Closer s.shared.control.mCallbacks.length b s.shared o := by
  obtain ⟨pick, rfl, -⟩ := hr.action
  simp only [Favours, favours, Bool.and_eq_true, decide_eq_true_eq, Option.isNone_iff_eq_none] at hok
  obtain ⟨⟨⟨⟨-, hbytes⟩, henv⟩, htimedOut⟩, hcall⟩ := hok
  have hown : ofLoop b = true := h.undisturbed.own b (by rw [hr.code]; exact List.mem_cons_self)
  rcases exec_closer (exec_of_ran hr) hown h.enabled h.counter h.tokens hbytes henv htimedOut hcall with hevents | hcloser
  · left
    have hcount := suspends_of_ran hr
    have hmade := h.made
    rw [hevents] at hcount
    simp at hcount
    omega
  · exact Or.inr hcloser

theorem Undisturbed.quiet (h : Undisturbed s t) (hcalls : ∀ u b, a ≠ .call u b) (hq : (program cfg).Quiet s a s') :
    Undisturbed s' t := by
  refine ⟨fun u hu => ?_, ?_⟩
  · refine hq.keeps (K := fun c => c = []) (fun i c _ hc => ?_) (fun b ha _ => absurd ha (hcalls u b)) (h.others u hu)
    cases hc
  · refine hq.keeps (K := fun c => ∀ b, .run b ∈ c → ofLoop b = true) (fun i c _ hc b hb => ?_)
      (fun b ha _ => absurd ha (hcalls t b)) h.own
    exact hc b (List.mem_cons_of_mem i hb)

theorem Undisturbed.ran (h : Undisturbed s t) {b : Block} {env : Env} {c : ThreadCode} {o : Out}
    (hr : (program cfg).Ran s a s' t b env c o) (hspawn : o.spawn = none)
    (hown : ∀ b', .run b' ∈ o.code → ofLoop b' = true) : Undisturbed s' t := by
  refine ⟨fun u hu => ?_, fun b' hb' => ?_⟩
  · rw [hr.code_other hu hspawn]
    exact h.others u hu
  · rw [hr.code_self] at hb'
    rcases List.mem_append.mp hb' with hnew | hold
    · exact hown b' hnew
    · exact h.own b' (by rw [hr.code]; exact List.mem_cons_of_mem _ hold)

theorem Undisturbed.ran_self (h : Undisturbed s t) {u : Tid} {b : Block} {env : Env} {c : ThreadCode} {o : Out}
    (hr : (program cfg).Ran s a s' u b env c o) : u = t ∧ o.spawn = none := by
  have hu : u = t := by
    by_contra hne
    have hidle := h.others u hne
    rw [hr.code] at hidle
    cases hidle
  refine ⟨hu, ?_⟩
  cases hspawn : o.spawn with
  | none => rfl
  | some p =>
    obtain ⟨token, rfl⟩ := block_of_spawn (exec_of_ran hr) hspawn
    have hown := h.own (.enableAutosuspend token) (by rw [← hu, hr.code]; exact List.mem_cons_self)
    cases hown

def distance (t : Tid) (s : ServiceState) : Nat := s.cost (price s.shared.control.mCallbacks.length) t

theorem Ready.step (h : Ready cfg t made s) (hok : Favours t s a) (hs' : (program cfg).step s a = some s') :
    made < suspends s' ∨ Ready cfg t made s' ∧ distance t s' < distance t s := by
  have hstep := Program.step_cases hs'
  obtain ⟨hby, hcalls⟩ := hok.byThread
  by_cases hmade : made < suspends s'
  · exact Or.inl hmade
  right
  have hcloser : ∀ b env c o, (program cfg).Ran s a s' t b env c o →
      Closer s.shared.control.mCallbacks.length b s.shared o :=
    fun b env c o hr => (h.closer hok hr).resolve_left hmade
  have hless : s'.cost (price s.shared.control.mCallbacks.length) t < distance t s :=
    hstep.cost_lt hby (hcalls t) (reach_parking h.reach).nodup fun b env c o hr => (hcloser b env c o hr).cost
  have hreach := Program.Reach.step h.reach hok.served hs'
  rcases hstep.quiet_or_ran with hq | ⟨u, b, env, c, o, hr⟩
  · refine ⟨⟨hreach, ?_, ?_, h.undisturbed.quiet hcalls hq, ?_⟩, ?_⟩
    · rw [hq.shared]
      exact h.enabled
    · rw [hq.shared]
      exact h.released
    · rw [suspends, hq.log]
      exact h.made
    · rw [distance, hq.shared]
      exact hless
  · obtain ⟨rfl, hspawn⟩ := h.undisturbed.ran_self hr
    have hc := hcloser b env c o hr
    refine ⟨⟨hreach, ?_, ?_, h.undisturbed.ran hr hspawn hc.own, ?_⟩, ?_⟩
    · rw [hr.shared, hc.alone.enabled]
      exact h.enabled
    · rw [hr.shared, unreleased, hc.alone.wakeLocks]
      exact h.released
    · rw [suspends_of_ran hr]
      exact Nat.le_add_left_of_le h.made
    · rw [distance, hr.shared, hc.alone.control]
      exact hless

theorem Ready.next (h : Ready cfg t made s) :
    ∃ a s', Favours t s a ∧ (program cfg).step s a = some s' := by
  have hother : ∀ u, s.code u ≠ [] → u = t := fun u hu => by
    by_contra hne
    exact hu (h.undisturbed.others u hne)
  by_cases hparked : t ∈ s.waiters
  · obtain ⟨b, c, hcode, hwaits⟩ := (reach_parking h.reach).parked t hparked
    have hown : ofLoop b = true := h.undisturbed.own b (by rw [hcode]; simp)
    unfold Waits at hwaits
    split at hwaits
    · refine ⟨.wake t, _, ?_, if_pos hparked⟩
      simp [Favours, favours, inSleep, hcode]
    · exact absurd h.released hwaits.2.2
    · cases hown
    · exact hwaits.elim
  · have hlive : ¬ CallsDestroyed s t := by
      rintro ⟨wl, c, hcode | hcode, -⟩
      · have hown := h.undisturbed.own (.op (.release wl)) (by rw [hcode]; exact List.mem_cons_self)
        cases hown
      · have hown := h.undisturbed.own (.op (.destroyWakeLock wl)) (by rw [hcode]; exact List.mem_cons_self)
        cases hown
    have honce : ∀ u, ¬ AwaitsOnce s t u := by
      rintro u ⟨-, wl, destructor, c, w, stage, hcode, -⟩
      have hown := h.undisturbed.own (.callOnce wl destructor) (by rw [hcode]; exact List.mem_cons_self)
      cases hown
    have hroom : RoomToRecord cfg s := by
      intro u holder timeNow hmem
      obtain rfl := hother u (List.ne_nil_of_mem hmem)
      cases h.undisturbed.own _ hmem
    obtain ⟨v, -, hgoes | ⟨-, c, hcode⟩⟩ := goes_on_unless hroom h.reach h.busy hparked hlive honce
    · obtain ⟨pick, s', hs'⟩ := hgoes { bytes := str "1", timedOut := true }
      have hv : s.code v ≠ [] := by
        intro hnil
        simp [Program.step, hnil] at hs'
      refine ⟨_, s', ?_, hs'⟩
      rw [hother v hv]
      simp [Favours, favours]
      decide
    · obtain rfl := hother v (by rw [hcode]; simp)
      have hown := h.undisturbed.own (.awaitThreadExit true) (by rw [hcode]; simp)
      cases hown

end ready

/-- While autosuspend is enabled, no wake lock is held and no call is in progress, the loop is bound to suspend the
system once more, wherever it is. -/
theorem comes_to_suspend (cfg : Config) {s : ServiceState} (h : (program cfg).Reach Served s)
    (henabled : s.shared.mAutosuspendEnabled = true) (hfree : unreleasedLocks s = 0)
    {t : Tid} (hundisturbed : Undisturbed s t) :
    (program cfg).Inevitable (Favours t) (fun s' => suspends s < suspends s') s := by
  have hreleased : unreleased s.shared = 0 := by rw [← (reach_logInv h).unreleasedLocks_eq, hfree]
  have hready : Ready cfg t (suspends s) s := ⟨h, henabled, hreleased, hundisturbed, Nat.le_refl _⟩
  exact Program.Inevitable.of_rank (distance t) (fun s₁ h₁ => h₁.next) (fun s₁ a s₂ h₁ hok hs₂ => h₁.step hok hs₂) hready

theorem reach_uncalled {cfg : Config} {ok : ServiceState → ServiceAction → Prop} {s : ServiceState} {n : Nat}
    (h : (program cfg).Reach ok s) (hok : ∀ s a, ok s a → ∀ b, a ≠ .call (.client n) b) : s.code (.client n) = [] := by
  refine h.invariant (I := fun s => s.code (.client n) = []) rfl fun s a s' _ ha hs hstep => ?_
  rcases hstep.quiet_or_ran with hq | ⟨t, b, env, c, o, hr⟩
  · refine hq.keeps (K := fun c => c = []) (fun i c _ hc => ?_) (fun b hcall _ => absurd hcall (hok s a ha b)) hs
    cases hc
  · have ht : Tid.client n ≠ t := by
      rintro rfl
      rw [hr.code] at hs
      cases hs
    cases hspawn : o.spawn with
    | none => rw [hr.code_other ht hspawn, hs]
    | some p =>
      obtain ⟨rfl, -⟩ := exec_spawn (exec_of_ran hr) hspawn
      rw [hr.after, State.ran, hspawn]
      simp [Function.update_of_ne ht, hs]

def firstCalls : ServiceAction → Bool
  | .call t _ => t = .client 0
  | _ => true

/-- While the loop sleeps, a wake lock is acquired and released, which wakes it up. -/
def toReleased : List ServiceAction :=
  toSleep ++ goCall (.client 0) (.acquireWakeLock .aidl (str "wl")) 12 ++ goCall (.client 0) (.release 0) 3 ++
    .step (.client 0) {} (some (.autosuspend 0)) :: go (.client 0) 9

theorem comes_to_suspend_released : ∃ s, (program smallConfig).Reach Served s ∧
    s.code (.autosuspend 0) = [.lock mAutosuspendLock, .run (.loop (.sleep true))] ∧
    (program smallConfig).Inevitable (Favours (.autosuspend 0)) (fun s' => suspends s < suspends s') s := by
  obtain ⟨s, hreach, hs⟩ := Program.Reach.of_run (program smallConfig) (fun _ a => servedAction a && firstCalls a) toReleased
    (fun s => s.code (.autosuspend 0) = [.lock mAutosuspendLock, .run (.loop (.sleep true))] &&
      s.code (.client 0) = [] && s.shared.spawned = 1 && s.shared.mAutosuspendEnabled && unreleasedLocks s = 0)
    (fun _ _ h => h) (by decide +kernel)
  simp only [Bool.and_eq_true, decide_eq_true_eq] at hs
  obtain ⟨⟨⟨⟨hcode, hidle⟩, hspawned⟩, henabled⟩, hfree⟩ := hs
  have hserved : (program smallConfig).Reach Served s := hreach.mono fun _ _ hok => by
    simp only [Bool.and_eq_true] at hok
    exact hok.1
  have hundisturbed : Undisturbed s (.autosuspend 0) := by
    refine ⟨fun u hu => ?_, fun b hb => ?_⟩
    · cases u with
      | client n =>
        cases n with
        | zero => exact hidle
        | succ n =>
          refine reach_uncalled hreach fun _ a hok b ha => ?_
          rw [ha] at hok
          simp [firstCalls] at hok
      | autosuspend n =>
        refine (reach_loops hreach).unborn n ?_
        have hn : n ≠ 0 := fun hn => hu (by rw [hn])
        omega
    · rw [hcode] at hb
      simp only [List.mem_cons, reduceCtorEq, Instr.run.injEq, List.not_mem_nil, or_false, false_or] at hb
      rw [hb]
      rfl
  exact ⟨s, hserved, hcode, comes_to_suspend smallConfig hserved henabled hfree hundisturbed⟩

end HardwareInterfaces.Suspend.Service
