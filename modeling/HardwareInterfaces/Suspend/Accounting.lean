import HardwareInterfaces.Suspend.WakeLocks

/-!
# The suspend counter

`mSuspendCounter` counts the wake locks that have run `incSuspendCounter` and not yet `decSuspendCounter`, modulo
2³², whatever the clients do with them. What happened to the wake locks is read off the record of the run
(`lockLog`); `LogInv` ties it to the state of the objects.
-/

namespace HardwareInterfaces.Suspend.Service

open CppStd Monitor Mutex

/-- What can happen to a wake lock: its counting, a call of `release` or of the destructor, its uncounting and the end
of the destructor. -/
inductive LockEvent
  | inc
  | call
  | dec
  | ended
  deriving DecidableEq

def lockEvent? : Ev → Option (Nat × LockEvent)
  | .incSuspendCounter (.wakeLock wl) => some (wl, .inc)
  | .decSuspendCounter (.wakeLock wl) => some (wl, .dec)
  | .release wl => some (wl, .call)
  | .destroy wl => some (wl, .call)
  | .destroyed wl => some (wl, .ended)
  | _ => none

/-- What happened to the wake locks, newest first. -/
def lockLog (s : ServiceState) : List (Nat × LockEvent) := s.log.filterMap fun e => lockEvent? e.2

/-- The wake locks that have run `incSuspendCounter` and not yet `decSuspendCounter`. -/
def unreleasedLocks (s : ServiceState) : Nat :=
  (List.range s.shared.wakeLocks.length).countP fun wl => (wl, .inc) ∈ lockLog s ∧ (wl, .dec) ∉ lockLog s

def lockEvents : Block → List (Nat × LockEvent)
  | .incSuspendCounter (.wakeLock wl) => [(wl, .inc)]
  | .decSuspendCounter (.wakeLock wl) => [(wl, .dec)]
  | .op (.release wl) => [(wl, .call)]
  | .op (.destroyWakeLock wl) => [(wl, .call)]
  | .beginDestroy wl => [(wl, .call)]
  | .endDestroy wl => [(wl, .ended)]
  | _ => []

theorem exec_lockEvents {cfg : Config} {t : Tid} {env : Env} {σ : Shared} {b : Block} {o : Out}
    (h : exec cfg t env σ b = some o) : o.events.filterMap lockEvent? = lockEvents b := by
  rw [exec_filterMap (fun e he => by cases e <;> first | rfl | cases he) h]
  cases b with
  | op p => cases p <;> rfl
  | incSuspendCounter holder => cases holder <;> rfl
  | decSuspendCounter holder => cases holder <;> rfl
  | loop l => cases l <;> rfl
  | _ => rfl

theorem lockLog_ran {cfg : Config} {s s' : ServiceState} {a : ServiceAction} {t : Tid} {b : Block} {env : Env}
    {c : ThreadCode} {o : Out} (hr : (program cfg).Ran s a s' t b env c o) :
    lockLog s' = lockEvents b ++ lockLog s := by
  rw [lockLog, hr.log, List.filterMap_append, List.filterMap_map, ← exec_lockEvents (exec_of_ran hr)]
  rfl

theorem lockLog_quiet {cfg : Config} {s s' : ServiceState} {a : ServiceAction} (hq : (program cfg).Quiet s a s') :
    lockLog s' = lockLog s := by
  rw [lockLog, hq.log, lockLog]

/-! ### The number of unreleased locks -/

theorem countP_set_add {α : Type} {l : List α} {wl : Nat} {w : α} (hw : l[wl]? = some w) (w' : α) (p : α → Bool) :
    (l.set wl w').countP p + (if p w then 1 else 0) = l.countP p + if p w' then 1 else 0 := by
  obtain ⟨hlt, rfl⟩ := List.getElem?_eq_some_iff.mp hw
  rw [List.countP_set hlt]
  have hle : (if p l[wl] then 1 else 0) ≤ l.countP p := by
    split
    · rename_i hp
      exact List.countP_pos_iff.mpr ⟨_, List.getElem_mem hlt, hp⟩
    · exact Nat.zero_le _
  omega

def unreleased (σ : Shared) : Nat := σ.wakeLocks.countP WakeLock.unreleased

/-- A lock starts to count with its `incSuspendCounter` and ends with its `decSuspendCounter`. -/
theorem Transition.unreleased {t : Tid} {wl : Nat} {w w' : WakeLock} {b : Block} (h : Transition t wl w b w') :
    (b = .incSuspendCounter (.wakeLock wl) ∧ w.unreleased = false ∧ w'.unreleased = true) ∨
    (b = .decSuspendCounter (.wakeLock wl) ∧ w.unreleased = true ∧ w'.unreleased = false) ∨
    ((∀ wl', b ≠ .incSuspendCounter (.wakeLock wl') ∧ b ≠ .decSuspendCounter (.wakeLock wl')) ∧
      w'.unreleased = w.unreleased) := by
  cases h with
  | inc phase once =>
    refine Or.inl ⟨rfl, ?_, ?_⟩
    · simp [WakeLock.unreleased, WakeLock.incremented, phase]
    · simp [WakeLock.unreleased, WakeLock.incremented, WakeLock.decremented, WakeLock.counted, once]
  | dec phase once =>
    refine Or.inr (Or.inl ⟨rfl, ?_, ?_⟩)
    · simp [WakeLock.unreleased, WakeLock.incremented, WakeLock.decremented, phase, once]
    · simp [WakeLock.unreleased, WakeLock.decremented, WakeLock.uncounted, once, OnceFlag.advance]
  | acquired timeNow phase once =>
    refine Or.inr (Or.inr ⟨by simp, ?_⟩)
    simp [WakeLock.unreleased, WakeLock.incremented, WakeLock.decremented, WakeLock.statsUpdated, phase]
  | returned phase once =>
    refine Or.inr (Or.inr ⟨by simp, ?_⟩)
    simp [WakeLock.unreleased, WakeLock.incremented, WakeLock.decremented, phase]
  | start destructor phase once =>
    refine Or.inr (Or.inr ⟨by simp, ?_⟩)
    simp [WakeLock.unreleased, WakeLock.incremented, WakeLock.decremented, once]
  | released timeNow phase once =>
    refine Or.inr (Or.inr ⟨by simp, ?_⟩)
    simp [WakeLock.unreleased, WakeLock.incremented, WakeLock.decremented, WakeLock.statsUpdated, once,
      OnceFlag.advance]
  | finish destructor phase once =>
    refine Or.inr (Or.inr ⟨by simp, ?_⟩)
    simp [WakeLock.unreleased, WakeLock.incremented, WakeLock.decremented, WakeLock.pastOnce, once]
  | past destructor phase once =>
    refine Or.inr (Or.inr ⟨by simp, ?_⟩)
    simp [WakeLock.unreleased, WakeLock.incremented, WakeLock.decremented, WakeLock.pastOnce, once]
  | destroy phase alive block =>
    refine Or.inr (Or.inr ⟨?_, rfl⟩)
    rcases block with rfl | rfl <;> simp
  | ended phase once destruction => exact Or.inr (Or.inr ⟨by simp, rfl⟩)

/-- How a change of the objects changes their number: it goes up with `incSuspendCounter`, down with
`decSuspendCounter`, and stays otherwise. -/
theorem LockChange.unreleased {t : Tid} {b : Block} {σ σ' : Shared} (h : LockChange t b σ σ') :
    ((∃ wl, b = .incSuspendCounter (.wakeLock wl)) ∧ Service.unreleased σ' = Service.unreleased σ + 1) ∨
    ((∃ wl, b = .decSuspendCounter (.wakeLock wl)) ∧ Service.unreleased σ' + 1 = Service.unreleased σ) ∨
    ((∀ wl, b ≠ .incSuspendCounter (.wakeLock wl) ∧ b ≠ .decSuspendCounter (.wakeLock wl)) ∧
      Service.unreleased σ' = Service.unreleased σ) := by
  cases h with
  | same locks block =>
    refine Or.inr (Or.inr ⟨fun wl => ⟨?_, ?_⟩, by rw [Service.unreleased, Service.unreleased, locks]⟩)
    · rintro rfl
      cases block
    · rintro rfl
      cases block
  | new w locks fresh block =>
    refine Or.inr (Or.inr ⟨fun wl => ⟨?_, ?_⟩, ?_⟩)
    · rintro rfl
      cases block
    · rintro rfl
      cases block
    · rw [Service.unreleased, Service.unreleased, locks, List.countP_append]
      simp [WakeLock.unreleased, WakeLock.incremented, fresh.acquisition]
  | change wl w w' before locks transition =>
    have hcount := countP_set_add before w' WakeLock.unreleased
    rw [← locks] at hcount
    rcases transition.unreleased with ⟨hb, hw, hw'⟩ | ⟨hb, hw, hw'⟩ | ⟨hb, hsame⟩
    · rw [hw, hw'] at hcount
      exact Or.inl ⟨⟨wl, hb⟩, hcount⟩
    · rw [hw, hw'] at hcount
      exact Or.inr (Or.inl ⟨⟨wl, hb⟩, hcount⟩)
    · rw [hsame] at hcount
      exact Or.inr (Or.inr ⟨hb, Nat.add_right_cancel hcount⟩)

/-! ### The counter -/

theorem incremented_mod (n : Nat) : incremented (n % counterModulus) = (n + 1) % counterModulus := by
  rw [incremented, Nat.mod_add_mod]

theorem decremented_mod (n : Nat) : decremented ((n + 1) % counterModulus) = n % counterModulus := by
  unfold decremented counterModulus
  split <;> omega

theorem exec_counter {cfg : Config} {t : Tid} {env : Env} {σ : Shared} {b : Block} {o : Out}
    (h : exec cfg t env σ b = some o) (hinc : ∀ holder, b ≠ .incSuspendCounter holder)
    (hdec : ∀ holder, b ≠ .decSuspendCounter holder) : o.state.mSuspendCounter = σ.mSuspendCounter := by
  cases exec_autosuspend h with
  | same state => exact congrArg Shared.Autosuspend.mSuspendCounter state
  | enable token =>
    rcases enableAutosuspend_cases env σ token with ⟨-, ho⟩ | ⟨-, -, ho⟩ | ⟨-, -, ho⟩ <;> rw [ho] <;> rfl
  | disable state => rw [state]; rfl
  | inc holder => exact absurd rfl (hinc holder)
  | dec holder => exact absurd rfl (hdec holder)
  | exit shouldSleep disabled => rfl

theorem incSuspendCounter_counter (cfg : Config) (env : Env) (σ : Shared) (h : Holder) :
    (incSuspendCounter cfg env σ h).state.mSuspendCounter =
      if cfg.useSuspendCounter then incremented σ.mSuspendCounter else σ.mSuspendCounter := by
  simp only [incSuspendCounter]
  split
  · rfl
  · cases h <;> rfl

theorem decSuspendCounter_counter (cfg : Config) (env : Env) (σ : Shared) (h : Holder) :
    (decSuspendCounter cfg env σ h).state.mSuspendCounter =
      if cfg.useSuspendCounter then decremented σ.mSuspendCounter else σ.mSuspendCounter := by
  simp only [decSuspendCounter]
  split
  · rfl
  · cases h <;> rfl

/-- The counter is right. -/
def Counted (cfg : Config) (s : ServiceState) : Prop :=
  s.shared.mSuspendCounter = (if cfg.useSuspendCounter then unreleased s.shared else 0) % counterModulus

section counter

variable {cfg : Config} {s s' : ServiceState} {a : ServiceAction} {t : Tid} {b : Block} {env : Env}
  {c : ThreadCode} {o : Out}

/-- In served code, the counter is only touched on behalf of an object. -/
theorem ServedCode.counter_same (hs : ServedCode s) (hr : (program cfg).Ran s a s' t b env c o)
    (hb : ∀ wl, b ≠ .incSuspendCounter (.wakeLock wl) ∧ b ≠ .decSuspendCounter (.wakeLock wl)) :
    s'.shared.mSuspendCounter = s.shared.mSuspendCounter := by
  have hserved := hs.block hr
  rw [hr.shared]
  refine exec_counter (exec_of_ran hr) (fun holder he => ?_) (fun holder he => ?_)
  · subst he
    cases holder with
    | wakeLock wl => exact (hb wl).1 rfl
    | direct name pid => cases hserved
  · subst he
    cases holder with
    | wakeLock wl => exact (hb wl).2 rfl
    | direct name pid => cases hserved

theorem Counted.ran (h : Counted cfg s) (hs : ServedCode s) (hlocks : Locks s)
    (hr : (program cfg).Ran s a s' t b env c o) : Counted cfg s' := by
  unfold Counted at h ⊢
  rcases (hlocks.ran hr).2.unreleased with ⟨⟨wl, rfl⟩, hcount⟩ | ⟨⟨wl, rfl⟩, hcount⟩ | ⟨hb, hcount⟩
  · obtain rfl := Option.some.inj (exec_of_ran hr)
    rw [hcount, hr.shared, incSuspendCounter_counter, h]
    split
    · exact incremented_mod _
    · rfl
  · obtain rfl := Option.some.inj (exec_of_ran hr)
    rw [hr.shared, decSuspendCounter_counter, h, ← hcount, hr.shared]
    split
    · exact decremented_mod _
    · rfl
  · rw [hs.counter_same hr hb, hcount, h]

theorem reach_counted (h : (program cfg).Reach Served s) : Counted cfg s := by
  refine h.invariant (I := Counted cfg) ?_ fun s a s' hreach _ hs hstep => ?_
  · simp [Counted, unreleased, Program.init, program, Shared.start]
  · rcases hstep.quiet_or_ran with hq | ⟨t, b, env, c, o, hr⟩
    · unfold Counted
      rw [hq.shared]
      exact hs
    · exact hs.ran (reach_served hreach) (reach_locks hreach) hr

end counter

/-! ### The record of the wake locks -/

section onceCalls

variable {t : Tid} {env : Env} {σ : Shared} {o : Out} {wl : Nat}

theorem getSuspendStats_onceCall (t : Tid) (env : Env) (σ : Shared) (wl : Nat) :
    (getSuspendStats t env σ).code.duties (onceCall wl) = [] := by
  unfold getSuspendStats
  split <;> rfl

theorem beginDestroy_onceCall {wl' : Nat} (h : beginDestroy t σ wl' = some o)
    (hcall : o.code.duties (onceCall wl) ≠ []) : wl = wl' := by
  obtain ⟨-, rfl⟩ := beginDestroy_eq h
  by_contra hne
  exact hcall (by simp [onceCall, Ne.symm hne])

theorem execOp_onceCall {p : Op} (h : execOp t env σ p = some o) (hcall : o.code.duties (onceCall wl) ≠ [])
    (hhandles : (Block.op p).handlesWakeLock = true) : (wl, .call) ∈ lockEvents (.op p) := by
  cases p with
  | acquireWakeLock frontEnd name =>
    obtain rfl := Option.some.inj h
    refine absurd ?_ hcall
    simp only [acquireWakeLock]
    split
    · rfl
    · cases frontEnd <;> rfl
  | getSuspendStats =>
    obtain rfl := Option.some.inj h
    exact absurd (getSuspendStats_onceCall t env σ wl) hcall
  | release wl' =>
    simp only [execOp, release] at h
    split at h
    · obtain rfl := Option.some.inj h
      have hwl : wl = wl' := by
        by_contra hne
        exact hcall (by simp [onceCall, Ne.symm hne])
      rw [hwl]
      exact List.mem_singleton.mpr rfl
    · cases h
  | destroyWakeLock wl' =>
    simp only [execOp, destroyWakeLock] at h
    split at h
    · rw [beginDestroy_onceCall h hcall]
      exact List.mem_singleton.mpr rfl
    · cases h
  | _ => cases hhandles

theorem exec_onceCall {cfg : Config} {b : Block} (h : exec cfg t env σ b = some o)
    (hcall : o.code.duties (onceCall wl) ≠ []) : (wl, .call) ∈ lockEvents b := by
  have hhandles : b.handlesWakeLock = true := by
    by_contra hb
    refine hcall ((about_onceCall wl).duties_eq_nil ?_)
    rw [(exec_frame h).mentions (by simpa using hb)]
    exact List.not_mem_nil
  cases b with
  | op p => exact execOp_onceCall h hcall hhandles
  | dumpKernelSuspends suspendControls =>
    obtain rfl := Option.some.inj h
    refine absurd ?_ hcall
    simp only [dumpKernelSuspends, Code.duties_append, getSuspendStats_onceCall]
    split <;> rfl
  | incSuspendCounter holder =>
    obtain rfl := Option.some.inj h
    refine absurd ?_ hcall
    simp only [incSuspendCounter]
    split <;> rfl
  | decSuspendCounter holder =>
    obtain rfl := Option.some.inj h
    refine absurd ?_ hcall
    simp only [decSuspendCounter]
    split <;> rfl
  | updateStats change holder timeNow =>
    obtain ⟨stats, -, rfl⟩ := Option.map_eq_some_iff.mp h
    exact absurd rfl hcall
  | callOnce wl' destructor =>
    refine absurd ?_ hcall
    simp only [exec, callOnce] at h
    split at h
    · obtain rfl := Option.some.inj h
      rfl
    · cases h
    · obtain rfl := Option.some.inj h
      rfl
  | beginDestroy wl' =>
    rw [beginDestroy_onceCall h hcall]
    exact List.mem_singleton.mpr rfl
  | getTimeNow change holder =>
    obtain rfl := Option.some.inj h
    exact absurd rfl hcall
  | returnWakeLock wl' =>
    obtain rfl := Option.some.inj h
    exact absurd rfl hcall
  | onceDone wl' destructor =>
    obtain rfl := Option.some.inj h
    exact absurd rfl hcall
  | endDestroy wl' =>
    obtain rfl := Option.some.inj h
    exact absurd rfl hcall
  | _ => cases hhandles

end onceCalls

/-- A lock is uncounted once, after a call and before the end of its destructor; and its destructor ends after it was
uncounted. -/
def InOrder (e : Nat × LockEvent) (earlier : List (Nat × LockEvent)) : Prop :=
  match e with
  | (wl, .dec) => (wl, .call) ∈ earlier ∧ (wl, .dec) ∉ earlier ∧ (wl, .ended) ∉ earlier
  | (wl, .ended) => earlier.count (wl, .dec) = 1
  | _ => True

/-- The record and the objects agree. -/
structure LogInv (s : ServiceState) : Prop where
  inc : ∀ wl w, s.shared.wakeLocks[wl]? = some w → (lockLog s).count (wl, .inc) = w.incremented.toNat
  dec : ∀ wl w, s.shared.wakeLocks[wl]? = some w → (lockLog s).count (wl, .dec) = w.decremented.toNat
  call : ∀ wl w, s.shared.wakeLocks[wl]? = some w →
    (w.mReleased ≠ .idle ∨ ∃ t, (s.code t).duties (onceCall wl) ≠ []) → (wl, .call) ∈ lockLog s
  ended : ∀ wl w, s.shared.wakeLocks[wl]? = some w → (wl, .ended) ∈ lockLog s → w.destruction = .ended
  made : ∀ e ∈ lockLog s, e.1 < s.shared.wakeLocks.length
  order : History.Historically InOrder (lockLog s)

theorem Transition.recorded {t : Tid} {wl : Nat} {w w' : WakeLock} {b : Block} (h : Transition t wl w b w') :
    (lockEvents b).count (wl, .inc) + w.incremented.toNat = w'.incremented.toNat ∧
    (lockEvents b).count (wl, .dec) + w.decremented.toNat = w'.decremented.toNat ∧
    ((wl, .ended) ∈ lockEvents b ∨ w.destruction = .ended → w'.destruction = .ended) ∧
    (∀ e ∈ lockEvents b, e.1 = wl) := by
  cases h with
  | inc phase once =>
    simp [lockEvents, WakeLock.incremented, WakeLock.decremented, WakeLock.counted, phase, once]
  | acquired timeNow phase once =>
    simp [lockEvents, WakeLock.incremented, WakeLock.decremented, WakeLock.statsUpdated, phase]
  | returned phase once => simp [lockEvents, WakeLock.incremented, WakeLock.decremented, phase]
  | start destructor phase once => simp [lockEvents, WakeLock.incremented, WakeLock.decremented, once]
  | dec phase once =>
    simp [lockEvents, WakeLock.incremented, WakeLock.decremented, WakeLock.uncounted, OnceFlag.advance, once]
  | released timeNow phase once =>
    simp [lockEvents, WakeLock.incremented, WakeLock.decremented, WakeLock.statsUpdated, OnceFlag.advance, once]
  | finish destructor phase once inside =>
    cases destructor with
    | false => simp [lockEvents, WakeLock.incremented, WakeLock.decremented, WakeLock.pastOnce, once]
    | true => simp [lockEvents, WakeLock.incremented, WakeLock.decremented, WakeLock.pastOnce, once, inside]
  | past destructor phase once inside =>
    cases destructor with
    | false => simp [lockEvents, WakeLock.incremented, WakeLock.decremented, WakeLock.pastOnce, once]
    | true => simp [lockEvents, WakeLock.incremented, WakeLock.decremented, WakeLock.pastOnce, once, inside]
  | destroy phase alive block =>
    rcases block with rfl | rfl <;> simp [lockEvents, WakeLock.incremented, WakeLock.decremented, alive]
  | ended phase once destruction => simp [lockEvents, WakeLock.incremented, WakeLock.decremented]

section log

variable {cfg : Config} {s s' : ServiceState} {a : ServiceAction} {t : Tid} {b : Block} {env : Env}
  {c : ThreadCode} {o : Out}

theorem Locks.event_made (h : Locks s) (hr : (program cfg).Ran s a s' t b env c o) :
    ∀ e ∈ lockEvents b, e.1 < s.shared.wakeLocks.length := by
  have hwork : ∀ wl, b.wakeLock? = some wl → wl < s.shared.wakeLocks.length := by
    intro wl hb
    obtain ⟨w, hw, -⟩ := h.exists hr hb
    exact (List.getElem?_eq_some_iff.mp hw).1
  have hvisible : ∀ wl, s.shared.wakeLocks[wl]?.any WakeLock.visible = true → wl < s.shared.wakeLocks.length := by
    intro wl hany
    by_contra hge
    rw [List.getElem?_eq_none (by omega)] at hany
    cases hany
  have hexec := exec_of_ran hr
  intro e he
  unfold lockEvents at he
  split at he
  · rw [List.mem_singleton.mp he]
    exact hwork _ rfl
  · rw [List.mem_singleton.mp he]
    exact hwork _ rfl
  · rw [List.mem_singleton.mp he]
    simp only [exec, execOp, Service.release] at hexec
    split at hexec
    · exact hvisible _ ‹_›
    · cases hexec
  · rw [List.mem_singleton.mp he]
    simp only [exec, execOp, destroyWakeLock] at hexec
    split at hexec
    · exact hvisible _ ‹_›
    · cases hexec
  · rw [List.mem_singleton.mp he]
    exact hwork _ rfl
  · rw [List.mem_singleton.mp he]
    exact hwork _ rfl
  · cases he

theorem events_of_not_updates (hb : updatesLock b = false) : ∀ e ∈ lockEvents b, e.2 = .call := by
  intro e he
  unfold lockEvents at he
  split at he
  · cases hb
  · cases hb
  · rw [List.mem_singleton.mp he]
  · cases hb
  · cases hb
  · cases hb
  · cases he

/-- What a step can have done to the object `w'`. -/
structure Grew (s : ServiceState) (b : Block) (wl : Nat) (w w' : WakeLock) : Prop where
  before : s.shared.wakeLocks[wl]? = some w
  inc : (lockEvents b).count (wl, .inc) + w.incremented.toNat = w'.incremented.toNat
  dec : (lockEvents b).count (wl, .dec) + w.decremented.toNat = w'.decremented.toNat
  ended : (wl, .ended) ∈ lockEvents b ∨ w.destruction = .ended → w'.destruction = .ended
  called : w'.mReleased ≠ .idle → w.mReleased ≠ .idle ∨ ∃ t, (s.code t).duties (onceCall wl) ≠ []

theorem Grew.unchanged {wl : Nat} {w : WakeLock} (hw : s.shared.wakeLocks[wl]? = some w)
    (hb : ∀ e ∈ lockEvents b, e.1 = wl → e.2 = .call) : Grew s b wl w w := by
  have hcount : ∀ x, x ≠ LockEvent.call → (lockEvents b).count (wl, x) = 0 := by
    intro x hx
    exact List.count_eq_zero.mpr fun hmem => hx (hb _ hmem rfl)
  refine ⟨hw, ?_, ?_, fun h => h.resolve_left fun hmem => ?_, Or.inl⟩
  · rw [hcount .inc (by simp), Nat.zero_add]
  · rw [hcount .dec (by simp), Nat.zero_add]
  · cases hb _ hmem rfl

theorem Locks.each (h : Locks s) (hr : (program cfg).Ran s a s' t b env c o) {wl : Nat} {w' : WakeLock}
    (hw' : s'.shared.wakeLocks[wl]? = some w') :
    (∃ w, Grew s b wl w w') ∨ (wl = s.shared.wakeLocks.length ∧ Fresh t w') := by
  cases (h.ran hr).2 with
  | same locks block =>
    rw [locks] at hw'
    exact Or.inl ⟨w', .unchanged hw' fun e he _ => events_of_not_updates block e he⟩
  | new w locks fresh block =>
    rw [locks] at hw'
    rcases Nat.lt_trichotomy wl s.shared.wakeLocks.length with hlt | rfl | hgt
    · rw [List.getElem?_append_left hlt] at hw'
      exact Or.inl ⟨w', .unchanged hw' fun e he _ => events_of_not_updates block e he⟩
    · rw [List.getElem?_append_right (Nat.le_refl _), Nat.sub_self] at hw'
      obtain rfl := Option.some.inj hw'
      exact Or.inr ⟨rfl, fresh⟩
    · have := (List.getElem?_eq_some_iff.mp hw').1
      rw [List.length_append, List.length_singleton] at this
      omega
  | change wl₀ w w₀ before locks transition =>
    obtain ⟨hinc, hdec, hended, hevents⟩ := transition.recorded
    rw [locks, List.getElem?_set] at hw'
    split at hw'
    · rename_i he
      subst he
      rw [if_pos (List.getElem?_eq_some_iff.mp before).1] at hw'
      obtain rfl := Option.some.inj hw'
      refine Or.inl ⟨w, before, hinc, hdec, hended, fun hne => ?_⟩
      cases transition with
      | start destructor phase once =>
        refine Or.inr ⟨t, ?_⟩
        rw [hr.duties_before]
        simp [onceCall]
      | inc phase once => exact absurd once hne
      | acquired timeNow phase once => exact absurd once hne
      | returned phase once => exact absurd once hne
      | dec phase once => exact Or.inl (by simp [once])
      | released timeNow phase once => exact Or.inl (by simp [once])
      | finish destructor phase once => exact Or.inl (by simp [once])
      | past destructor phase once => exact Or.inl (by simp [once])
      | destroy => exact Or.inl hne
      | ended => exact Or.inl hne
    · rename_i hne
      exact Or.inl ⟨w', .unchanged hw' fun e he hwl => absurd (hwl.symm.trans (hevents e he)).symm hne⟩

theorem LogInv.pending (hr : (program cfg).Ran s a s' t b env c o) {wl : Nat} {u : Tid}
    (hu : (s'.code u).duties (onceCall wl) ≠ []) :
    (∃ v, (s.code v).duties (onceCall wl) ≠ []) ∨ (wl, .call) ∈ lockEvents b := by
  by_cases hut : u = t
  · subst hut
    rw [hr.duties_self] at hu
    by_cases hcode : o.code.duties (onceCall wl) = []
    · refine Or.inl ⟨u, fun hnil => hu ?_⟩
      rw [hr.duties_before, List.append_eq_nil_iff] at hnil
      rw [hcode, hnil.2]
      rfl
    · exact Or.inr (exec_onceCall (exec_of_ran hr) hcode)
  · rw [hr.duties_other hut ((about_onceCall wl).spawn hr)] at hu
    exact Or.inl ⟨u, hu⟩

theorem LogInv.in_order (h : LogInv s) (hlocks : Locks s) (hr : (program cfg).Ran s a s' t b env c o) :
    History.Historically InOrder (lockEvents b ++ lockLog s) := by
  have htrivial : (∀ e ∈ lockEvents b, e.2 = .call ∨ e.2 = .inc) → ∀ events : List (Nat × LockEvent),
      events = lockEvents b → History.Historically InOrder (events ++ lockLog s) := by
    rintro htriv events rfl
    revert htriv
    induction lockEvents b with
    | nil => exact fun _ => h.order
    | cons e events ih =>
      intro htriv
      refine ⟨?_, ih fun e' he' => htriv e' (List.mem_cons_of_mem _ he')⟩
      obtain ⟨wl, x⟩ := e
      rcases htriv (wl, x) List.mem_cons_self with rfl | rfl <;> trivial
  cases (hlocks.ran hr).2 with
  | same locks block => exact htrivial (fun e he => Or.inl (events_of_not_updates block e he)) _ rfl
  | new w locks fresh block => exact htrivial (fun e he => Or.inl (events_of_not_updates block e he)) _ rfl
  | change wl w w' before locks transition =>
    cases transition with
    | dec phase once =>
      have hcount := h.dec wl w before
      simp only [WakeLock.decremented, once] at hcount
      refine ⟨⟨h.call wl w before (Or.inl (by simp [once])), List.count_eq_zero.mp hcount, fun hended => ?_⟩,
        h.order⟩
      have hdone := (hlocks.inv wl w before).done (Or.inr (h.ended wl w before hended))
      rw [once] at hdone
      cases hdone
    | ended phase once destruction =>
      have hcount := h.dec wl w before
      simp only [WakeLock.decremented, once] at hcount
      exact ⟨hcount, h.order⟩
    | destroy phase alive block =>
      refine htrivial (fun e he => Or.inl ?_) _ rfl
      rcases block with rfl | rfl <;> rw [List.mem_singleton.mp he]
    | inc phase once =>
      refine htrivial (fun e he => Or.inr ?_) _ rfl
      rw [List.mem_singleton.mp he]
    | _ => exact h.order

theorem LogInv.ran (h : LogInv s) (hlocks : Locks s) (hr : (program cfg).Ran s a s' t b env c o) : LogInv s' := by
  have hlog := lockLog_ran hr
  have hnew : ∀ x, (s.shared.wakeLocks.length, x) ∉ lockEvents b ++ lockLog s := by
    intro x hmem
    rcases List.mem_append.mp hmem with hmem | hmem
    · exact Nat.lt_irrefl _ (hlocks.event_made hr _ hmem)
    · exact Nat.lt_irrefl _ (h.made _ hmem)
  refine ⟨fun wl w' hw' => ?_, fun wl w' hw' => ?_, fun wl w' hw' hcall => ?_, fun wl w' hw' hended => ?_,
    fun e he => ?_, ?_⟩
  · rw [hlog, List.count_append]
    rcases hlocks.each hr hw' with ⟨w, hgrew⟩ | ⟨rfl, hfresh⟩
    · rw [h.inc wl w hgrew.before, hgrew.inc]
    · rw [← List.count_append, List.count_eq_zero.mpr (hnew _)]
      simp [WakeLock.incremented, hfresh.acquisition]
  · rw [hlog, List.count_append]
    rcases hlocks.each hr hw' with ⟨w, hgrew⟩ | ⟨rfl, hfresh⟩
    · rw [h.dec wl w hgrew.before, hgrew.dec]
    · rw [← List.count_append, List.count_eq_zero.mpr (hnew _)]
      simp [WakeLock.decremented, hfresh.once]
  · rw [hlog, List.mem_append]
    rcases hlocks.each hr hw' with ⟨w, hgrew⟩ | ⟨rfl, hfresh⟩
    · have hcalled : (w.mReleased ≠ .idle ∨ ∃ t, (s.code t).duties (onceCall wl) ≠ []) ∨
          (wl, .call) ∈ lockEvents b := by
        rcases hcall with hcall | ⟨u, hu⟩
        · exact Or.inl (hgrew.called hcall)
        · exact (LogInv.pending hr hu).imp Or.inr id
      exact hcalled.symm.imp id (h.call wl w hgrew.before)
    · rcases hcall with hcall | ⟨u, hu⟩
      · exact absurd hfresh.once hcall
      · have hphase := ((hlocks.ran hr).1.inv _ _ hw').called u hu
        rw [hfresh.acquisition] at hphase
        cases hphase
  · rw [hlog] at hended
    rcases hlocks.each hr hw' with ⟨w, hgrew⟩ | ⟨rfl, -⟩
    · refine hgrew.ended ?_
      exact (List.mem_append.mp hended).imp id (h.ended wl w hgrew.before)
    · exact absurd hended (hnew _)
  · rw [hlog] at he
    have hlt : e.1 < s.shared.wakeLocks.length := by
      rcases List.mem_append.mp he with he | he
      · exact hlocks.event_made hr e he
      · exact h.made e he
    refine Nat.lt_of_lt_of_le hlt ?_
    cases (hlocks.ran hr).2 with
    | same locks => rw [locks]
    | new w locks => simp [locks]
    | change wl w w' before locks => simp [locks]
  · rw [hlog]
    exact h.in_order hlocks hr

theorem LogInv.quiet (h : LogInv s) (hq : (program cfg).Quiet s a s') : LogInv s' := by
  obtain ⟨hinc, hdec, hcall, hended, hmade, horder⟩ := h
  rw [← hq.shared, ← lockLog_quiet hq] at hinc hdec hcall hended hmade
  rw [← lockLog_quiet hq] at horder
  refine ⟨hinc, hdec, fun wl w hw hpending => hcall wl w hw (hpending.imp id ?_), hended, hmade, horder⟩
  rintro ⟨u, hu⟩
  exact ⟨u, by rwa [← duties_of_quiet hq fun _ => rfl]⟩

theorem logInv_init (cfg : Config) : LogInv (program cfg).init := by
  have hnone : ∀ (wl : Nat) (w : WakeLock), (program cfg).init.shared.wakeLocks[wl]? ≠ some w := by
    simp [Program.init, program, Shared.start]
  exact
    { inc := fun wl w hw => absurd hw (hnone wl w)
      dec := fun wl w hw => absurd hw (hnone wl w)
      call := fun wl w hw => absurd hw (hnone wl w)
      ended := fun wl w hw => absurd hw (hnone wl w)
      made := fun e he => absurd he List.not_mem_nil
      order := trivial }

theorem reach_logInv {ok : ServiceState → ServiceAction → Prop} (h : (program cfg).Reach ok s) : LogInv s := by
  refine h.invariant (logInv_init cfg) fun s a s' hreach _ hs hstep => ?_
  rcases hstep.quiet_or_ran with hq | ⟨t, b, env, c, o, hr⟩
  · exact hs.quiet hq
  · exact hs.ran (reach_locks hreach) hr

theorem LogInv.unreleasedLocks_eq (h : LogInv s) : unreleasedLocks s = unreleased s.shared := by
  have hmem : ∀ wl w, s.shared.wakeLocks[wl]? = some w →
      (((wl, LockEvent.inc) ∈ lockLog s ∧ (wl, LockEvent.dec) ∉ lockLog s) ↔ w.unreleased = true) := by
    intro wl w hw
    have hinc := h.inc wl w hw
    have hdec := h.dec wl w hw
    rw [← List.count_pos_iff, ← List.count_eq_zero, hinc, hdec, WakeLock.unreleased]
    cases w.incremented <;> cases w.decremented <;> simp
  have hmap : s.shared.wakeLocks.map (fun w => w.unreleased) = (List.range s.shared.wakeLocks.length).map
      fun wl => decide ((wl, LockEvent.inc) ∈ lockLog s ∧ (wl, LockEvent.dec) ∉ lockLog s) := by
    refine List.ext_getElem (by simp) fun i hi _ => ?_
    rw [List.length_map] at hi
    simp only [List.getElem_map, List.getElem_range]
    rw [Bool.eq_iff_iff, decide_eq_true_eq]
    exact (hmem i _ (List.getElem?_eq_getElem hi)).symm
  have hcount : ∀ {α : Type} (p : α → Bool) (l : List α), l.countP p = (l.map p).count true := by
    intro α p l
    rw [List.count, List.countP_map]
    exact List.countP_congr fun x _ => by simp
  rw [unreleasedLocks, unreleased, hcount, hcount, hmap]

end log

/-- The counter of every reachable state, and what the wake locks did on the way there. -/
theorem exact_accounting (cfg : Config) {s : ServiceState} (h : (program cfg).Reach Served s) :
    s.shared.mSuspendCounter = (if cfg.useSuspendCounter then unreleasedLocks s else 0) % 2 ^ 32 ∧
    (∀ later wl earlier, lockLog s = later ++ (wl, .dec) :: earlier →
      (wl, .call) ∈ earlier ∧ (wl, .dec) ∉ earlier ∧ (wl, .ended) ∉ earlier) ∧
    (∀ later wl earlier, lockLog s = later ++ (wl, .ended) :: earlier → earlier.count (wl, .dec) = 1) ∧
    (∀ t wl c, s.code t = .run (.decSuspendCounter (.wakeLock wl)) :: c →
      0 < unreleasedLocks s ∧
        (cfg.useSuspendCounter = true → unreleasedLocks s < 2 ^ 32 → 0 < s.shared.mSuspendCounter)) ∧
    (∀ a s', (program cfg).step s a = some s' → s'.shared.mSuspendCounter ≠ s.shared.mSuspendCounter →
      ∃ wl, lockLog s' = (wl, .inc) :: lockLog s ∨ lockLog s' = (wl, .dec) :: lockLog s) := by
  have hserved := reach_served h
  have hlocks := reach_locks h
  have hlog := reach_logInv h
  have hcounter : s.shared.mSuspendCounter = (if cfg.useSuspendCounter then unreleasedLocks s else 0) % 2 ^ 32 := by
    rw [hlog.unreleasedLocks_eq]
    exact reach_counted h
  have horder := History.historically_iff.mp hlog.order
  refine ⟨hcounter, fun later wl earlier => horder later _ earlier, fun later wl earlier => horder later _ earlier,
    fun t wl c hcode => ?_, fun a s' hstep hne => ?_⟩
  · have hpos : 0 < unreleasedLocks s := by
      have hlt : wl < s.shared.wakeLocks.length := by
        refine hlocks.unmade t wl ?_
        rw [hcode, Code.duties_run]
        exact List.mem_cons_self
      have hw := List.getElem?_eq_getElem hlt
      have hinv := hlocks.inv wl _ hw
      have hbefore := hinv.releasing t
      rw [hcode, Code.duties_run] at hbefore
      simp only [releaseDuty, if_pos, Option.toList_some, List.singleton_append] at hbefore
      obtain ⟨hflag, -⟩ := onceLeft_cons hbefore
      rw [hlog.unreleasedLocks_eq]
      refine List.countP_pos_iff.mpr ⟨_, List.getElem_mem hlt, ?_⟩
      have hphase := hinv.released (by simp [hflag])
      simp [WakeLock.unreleased, WakeLock.incremented, WakeLock.decremented, hphase, hflag]
    refine ⟨hpos, fun hmode hlt => ?_⟩
    rw [hcounter, if_pos hmode, Nat.mod_eq_of_lt hlt]
    exact hpos
  · rcases (Program.step_cases hstep).quiet_or_ran with hq | ⟨t, b, env, c, o, hr⟩
    · exact absurd (by rw [hq.shared]) hne
    · rw [lockLog_ran hr]
      rcases (hlocks.ran hr).2.unreleased with ⟨⟨wl, rfl⟩, -⟩ | ⟨⟨wl, rfl⟩, -⟩ | ⟨hb, -⟩
      · exact ⟨wl, Or.inl rfl⟩
      · exact ⟨wl, Or.inr rfl⟩
      · exact absurd (hserved.counter_same hr hb) hne

/-- A lock acquired by one client and released by another, just before the counter goes down. -/
theorem exact_accounting_release :
    ∃ s : ServiceState, (program smallConfig).Reach Served s ∧ s.shared.mSuspendCounter = 1 ∧
      0 < unreleasedLocks s := by
  obtain ⟨s, hreach, hs⟩ := Program.Reach.of_run (program smallConfig) (fun _ a => servedAction a)
    (goCall (.client 0) (.acquireWakeLock .aidl (str "wl")) 12 ++ goCall (.client 1) (.release 0) 3)
    (fun s => unreleasedLocks s = 1 && (s.code (.client 1)).head? = some (.run (.decSuspendCounter (.wakeLock 0))))
    (fun _ _ h => h) (by decide +kernel)
  simp only [Bool.and_eq_true, decide_eq_true_eq] at hs
  obtain ⟨hcount, hhead⟩ := hs
  obtain ⟨hcounter, -, -, hdec, -⟩ := exact_accounting smallConfig hreach
  obtain ⟨c, hcode⟩ := List.head?_eq_some_iff.mp hhead
  refine ⟨s, hreach, ?_, (hdec (.client 1) 0 c hcode).1⟩
  rw [hcounter, hcount]
  rfl

end HardwareInterfaces.Suspend.Service
