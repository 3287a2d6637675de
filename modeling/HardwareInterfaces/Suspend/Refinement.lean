import HardwareInterfaces.Suspend.PowerManager

/-!
# The service refines the power manager

Every block moves the abstract machine as it moves the shared state. What a block does to each part of the state is
looked at apart from the others: the wake locks that keep the system awake go by `LockChange`, the clients by what the
block switches, the statistics by the specifications of the two lists, the callbacks by `RegistryChange`.
-/

namespace HardwareInterfaces.Suspend.Service

open CppStd Monitor Mutex

/-! ### The parts of the state -/

section parts

variable {cfg : Config} {t : Tid} {env : Env} {σ σ' : Shared} {b : Block} {o : Out}

theorem Transition.key {wl : Nat} {w w' : WakeLock} (h : Transition t wl w b w') : w'.key = w.key := by
  cases h <;> rfl

theorem LockChange.names {names : Holder → StatsKey} (h : LockChange t b σ σ') (hnames : Names names σ') :
    Names names σ := by
  intro wl w hw
  have hlt := (List.getElem?_eq_some_iff.mp hw).1
  cases h with
  | same locks block => exact hnames wl w (by rw [locks, hw])
  | new w₀ locks fresh block => exact hnames wl w (by rw [locks, List.getElem?_append_left hlt, hw])
  | change wl₀ w₀ w₁ before locks transition =>
    by_cases he : wl = wl₀
    · subst he
      obtain rfl := Option.some.inj (before.symm.trans hw)
      rw [← transition.key]
      exact hnames wl w₁ (by rw [locks, List.getElem?_set_self hlt])
    · exact hnames wl w (by rw [locks, List.getElem?_set_ne (Ne.symm he), hw])

theorem keepsAwake_set {wl : Nat} {w w' : WakeLock} (hw : σ.wakeLocks[wl]? = some w)
    (hlocks : σ'.wakeLocks = σ.wakeLocks.set wl w') (wl' : Nat) :
    KeepsAwake σ' wl' ↔ if wl' = wl then w'.unreleased = true else KeepsAwake σ wl' := by
  have hlt := (List.getElem?_eq_some_iff.mp hw).1
  unfold KeepsAwake
  rw [hlocks]
  split
  · rename_i he
    subst he
    rw [List.getElem?_set_self hlt]
    simp
  · rename_i hne
    rw [List.getElem?_set_ne (Ne.symm hne)]

/-- A block counts a wake lock that was not counted, or stops to count one that was, or leaves all as they are. -/
inductive AwakeChange (σ σ' : Shared) (b : Block) : Prop
  | inc (wl : Nat) (block : b = .incSuspendCounter (.wakeLock wl)) (before : ¬ KeepsAwake σ wl)
      (after : ∀ wl', KeepsAwake σ' wl' ↔ wl' = wl ∨ KeepsAwake σ wl')
  | dec (wl : Nat) (block : b = .decSuspendCounter (.wakeLock wl)) (before : KeepsAwake σ wl)
      (after : ∀ wl', KeepsAwake σ' wl' ↔ wl' ≠ wl ∧ KeepsAwake σ wl')
  | same (block : ∀ wl, b ≠ .incSuspendCounter (.wakeLock wl) ∧ b ≠ .decSuspendCounter (.wakeLock wl))
      (after : ∀ wl', KeepsAwake σ' wl' ↔ KeepsAwake σ wl')

theorem LockChange.awake (h : LockChange t b σ σ') : AwakeChange σ σ' b := by
  have hother : updatesLock b = false →
      ∀ wl, b ≠ .incSuspendCounter (.wakeLock wl) ∧ b ≠ .decSuspendCounter (.wakeLock wl) := by
    intro hb wl
    constructor <;> rintro rfl <;> cases hb
  cases h with
  | same locks block => exact .same (hother block) fun wl' => by rw [KeepsAwake, KeepsAwake, locks]
  | new w locks fresh block =>
    refine .same (hother block) fun wl' => ?_
    unfold KeepsAwake
    rw [locks]
    rcases Nat.lt_or_ge wl' σ.wakeLocks.length with hlt | hge
    · rw [List.getElem?_append_left hlt]
    · rw [List.getElem?_append_right hge, List.getElem?_eq_none hge]
      refine iff_of_false ?_ (by simp)
      rintro ⟨v, hv, hcounted⟩
      obtain rfl : v = w := by
        have hmem := List.mem_of_getElem? hv
        exact List.mem_singleton.mp hmem
      simp [WakeLock.unreleased, WakeLock.incremented, fresh.acquisition] at hcounted
  | change wl w w' before locks transition =>
    have hset := keepsAwake_set before locks
    have hself : KeepsAwake σ wl ↔ w.unreleased = true := by simp [KeepsAwake, before]
    rcases transition.unreleased with ⟨hb, hw, hw'⟩ | ⟨hb, hw, hw'⟩ | ⟨hb, hsame⟩
    · refine .inc wl hb (by simp [hself, hw]) fun wl' => ?_
      rw [hset]
      split <;> simp_all
    · refine .dec wl hb (by simp [hself, hw]) fun wl' => ?_
      rw [hset]
      split <;> simp_all
    · refine .same hb fun wl' => ?_
      rw [hset]
      split
      · rename_i he
        rw [he, hself, hsame]
      · rfl

theorem exec_tokens (h : exec cfg t env σ b = some o) (hb : b.switches = false) :
    o.state.mAutosuspendClientTokens = σ.mAutosuspendClientTokens := by
  cases hchanges : b.changesAutosuspend with
  | false => exact congrArg Shared.Autosuspend.mAutosuspendClientTokens ((exec_frame h).autosuspend hchanges)
  | true =>
    cases b with
    | enableAutosuspend token => cases hb
    | disableAutosuspendLocked => cases hb
    | incSuspendCounter holder =>
      obtain rfl := Option.some.inj h
      simp only [incSuspendCounter]
      cases holder <;> split <;> rfl
    | decSuspendCounter holder =>
      obtain rfl := Option.some.inj h
      simp only [decSuspendCounter]
      cases holder <;> split <;> rfl
    | loop l =>
      cases l with
      | head shouldSleep =>
        obtain rfl := Option.some.inj h
        simp only [execLoop]
        split <;> rfl
      | checkTokens wakeupCount => cases hb
      | _ => cases hchanges
    | _ => cases hchanges

def changesCallbacks : Block → Bool
  | .pushCallback _ => true
  | .eraseCallbacks _ => true
  | _ => false

theorem exec_mCallbacks (h : exec cfg t env σ b = some o) (hb : changesCallbacks b = false) :
    o.state.control.mCallbacks = σ.control.mCallbacks := by
  cases exec_registry h with
  | same callbacks => exact callbacks
  | linked cb callbacks => exact callbacks
  | pushed cb => cases hb
  | listed cb name callbacks => exact callbacks
  | erased who => cases hb
  | unlisted who callbacks => exact callbacks

/-! ### The statistics -/

theorem capacity_of_apply {op : WakeLockEntryList.StatsOp} {l l' : WakeLockEntryList} (h : l.Valid)
    (happly : op.apply l = some l') : l'.mCapacity = l.mCapacity := by
  cases op with
  | updateOnAcquire key timeNow =>
    obtain ⟨l'', hl'', -, hcap, -⟩ :=
      WakeLockEntryList.updateOnAcquire_spec h (WakeLockEntryList.capacity_pos h happly) key timeNow
    rw [Option.some.inj (happly.symm.trans hl'')]
    exact hcap
  | updateOnRelease key timeNow =>
    obtain ⟨l'', hl'', -, hcap, -⟩ := WakeLockEntryList.updateOnRelease_spec h key timeNow
    rw [Option.some.inj (happly.symm.trans hl'')]
    exact hcap
  | updateNow timeNow => rw [← Option.some.inj happly]; rfl

end parts

/-! ### What the machine reads -/

def ignored : Ev → Bool
  | .enableAutosuspend .. => false
  | .disableAutosuspend => false
  | .incSuspendCounter (.wakeLock _) => false
  | .decSuspendCounter (.wakeLock _) => false
  | .acquired _ => false
  | .destroyed _ => false
  | .suspend _ => false
  | .exited => false
  | .slept .. => false
  | .updateSleepTime .. => false
  | .suspendInfo _ => false
  | .updateStats .. => false
  | .updateNow _ => false
  | .wakeLockStats .. => false
  | .updateWakeupList .. => false
  | .wakeupStats _ => false
  | .registerCallback (some _) true => false
  | .binderDied _ => false
  | .notifyWakeup .. => false
  | _ => true

def observed : Block → Bool
  | .enableAutosuspend _ => true
  | .disableAutosuspendLocked => true
  | .incSuspendCounter _ => true
  | .decSuspendCounter _ => true
  | .returnWakeLock _ => true
  | .endDestroy _ => true
  | .loop (.head _) => true
  | .loop (.sleep _) => true
  | .loop (.checkTokens _) => true
  | .loop .writeState => true
  | .updateSleepTime .. => true
  | .getSuspendInfo => true
  | .updateStats .. => true
  | .updateNow => true
  | .getWakeLockStats => true
  | .updateWakeupList _ => true
  | .getWakeupStats => true
  | .pushCallback _ => true
  | .eraseCallbacks _ => true
  | .notifyWakeup .. => true
  | _ => false

theorem step_ignored {cfg : Config} {names : Holder → StatsKey} {p : PowerManager} {t : Tid} {e : Ev}
    (he : ignored e = true) : PowerManager.step cfg names p (t, e) = some p := by
  cases e with
  | incSuspendCounter h => cases h with
    | wakeLock wl => cases he
    | direct name pid => rfl
  | decSuspendCounter h => cases h with
    | wakeLock wl => cases he
    | direct name pid => rfl
  | registerCallback cb ret => cases cb with
    | none => rfl
    | some cb => cases ret with
      | false => rfl
      | true => cases he
  | _ => first | rfl | cases he

section blocks

variable {cfg : Config} {names : Holder → StatsKey} {t : Tid} {env : Env} {σ : Shared} {b : Block} {o : Out}
  {p : PowerManager}

theorem execOp_ignored {q : Op} (h : execOp t env σ q = some o) : ∀ e ∈ o.events, ignored e = true := by
  cases q with
  | acquireWakeLock frontEnd name =>
    obtain rfl := Option.some.inj h
    unfold acquireWakeLock
    split <;> simp
  | release wl =>
    simp only [execOp, release] at h
    split at h
    · obtain rfl := Option.some.inj h
      simp [ignored]
    · cases h
  | destroyWakeLock wl =>
    simp only [execOp, destroyWakeLock] at h
    split at h
    · obtain ⟨-, rfl⟩ := beginDestroy_eq h
      simp [ignored]
    · cases h
  | getSuspendStats =>
    obtain rfl := Option.some.inj h
    unfold getSuspendStats
    split <;> simp
  | registerCallback cb => cases cb <;> obtain rfl := Option.some.inj h <;> simp [ignored]
  | registerWakelockCallback cb name =>
    cases cb with
    | none =>
      obtain rfl := Option.some.inj h
      simp [ignored]
    | some cb =>
      simp only [execOp] at h
      obtain rfl := Option.some.inj h
      split <;> simp [ignored]
  | _ =>
    obtain rfl := Option.some.inj h
    simp

theorem exec_ignored (h : exec cfg t env σ b = some o) (hb : observed b = false) :
    ∀ e ∈ o.events, ignored e = true := by
  cases b with
  | op q => exact execOp_ignored h
  | awaitThreadExit woken =>
    obtain rfl := Option.some.inj h
    simp only [awaitThreadExit]
    split <;> simp [ignored]
  | dumpKernelSuspends suspendControls =>
    obtain rfl := Option.some.inj h
    simp only [dumpKernelSuspends, getSuspendStats]
    split <;> simp
  | callOnce wl destructor =>
    simp only [exec, callOnce] at h
    split at h
    · obtain rfl := Option.some.inj h
      simp
    · cases h
    · obtain rfl := Option.some.inj h
      simp
  | beginDestroy wl =>
    obtain ⟨-, rfl⟩ := beginDestroy_eq h
    simp [ignored]
  | registerCallback cb =>
    obtain rfl := Option.some.inj h
    simp only [registerCallback]
    split <;> simp [ignored]
  | registerWakelockCallback cb name =>
    obtain rfl := Option.some.inj h
    simp only [registerWakelockCallback]
    split <;> simp [ignored]
  | loop l =>
    obtain rfl := Option.some.inj h
    cases l with
    | head shouldSleep => cases hb
    | sleep woken => cases hb
    | checkTokens wakeupCount => cases hb
    | writeState => cases hb
    | readWakeupCount shouldSleep => simp [execLoop, ignored]
    | writeWakeupCount wakeupCount => simp [execLoop, ignored]
    | readSuspendTime success => simp [execLoop]
    | readWakeupReasons success =>
      simp only [execLoop]
      split <;> simp [ignored]
    | _ =>
      simp only [execLoop]
      split <;> simp [ignored]
  | _ => first
    | contradiction
    | obtain rfl := Option.some.inj h
      simp [ignored, notifyWakelock, callback]

/-! ### Blocks against the machine -/

/-- The parts of the machine that a block leaves right, because it does not change what they stand for. -/
structure Kept (cfg : Config) (b : Block) (σ : Shared) (p : PowerManager) : Prop where
  clients : b.switches = false → ∀ token, token ∈ p.clients ↔ token ∈ σ.mAutosuspendClientTokens
  held : (∀ wl, b ≠ .incSuspendCounter (.wakeLock wl) ∧ b ≠ .decSuspendCounter (.wakeLock wl)) →
    ∀ wl, wl ∈ p.held ↔ KeepsAwake σ wl
  locks : b.changesStats = false → p.locks = σ.mStatsList.nativeStats
  wakeups : b.changesWakeups = false → p.wakeups = σ.mWakeupList.getWakeupStats
  attempts : b.changesSleep = false → σ.sleep = .after cfg.sleepTimeConfig p.attempts
  callbacks : changesCallbacks b = false → p.callbacks = σ.control.mCallbacks
  stats_valid : b.changesStats = false → σ.mStatsList.Valid ∧ σ.mStatsList.mCapacity = cfg.statsCapacity
  wakeups_valid : b.changesWakeups = false → σ.mWakeupList.Valid ∧ σ.mWakeupList.mCapacity = cfg.statsCapacity

theorem Represents.kept (h : Represents cfg σ p) (hexec : exec cfg t env σ b = some o)
    (hawake : AwakeChange σ o.state b) : Kept cfg b o.state p where
  clients hb := by rw [exec_tokens hexec hb]; exact h.clients
  held hb wl := by
    cases hawake with
    | inc wl' block => exact absurd block (hb wl').1
    | dec wl' block => exact absurd block (hb wl').2
    | same _ after => rw [h.held, after]
  locks hb := by rw [(exec_frame hexec).stats hb]; exact h.locks
  wakeups hb := by rw [(exec_frame hexec).wakeups hb]; exact h.wakeups
  attempts hb := by rw [(exec_frame hexec).sleep hb]; exact h.attempts
  callbacks hb := by rw [exec_mCallbacks hexec hb]; exact h.callbacks
  stats_valid hb := by rw [(exec_frame hexec).stats hb]; exact h.stats_valid
  wakeups_valid hb := by rw [(exec_frame hexec).wakeups hb]; exact h.wakeups_valid

theorem Kept.all (h : Kept cfg b σ p) (hb : observed b = false) : Represents cfg σ p := by
  have hparts : b.switches = false ∧ b.changesStats = false ∧ b.changesWakeups = false ∧ b.changesSleep = false ∧
      changesCallbacks b = false ∧
      ∀ wl, b ≠ .incSuspendCounter (.wakeLock wl) ∧ b ≠ .decSuspendCounter (.wakeLock wl) := by
    cases b with
    | loop l => cases l <;> first | contradiction | exact ⟨rfl, rfl, rfl, rfl, rfl, by simp⟩
    | _ => first | contradiction | exact ⟨rfl, rfl, rfl, rfl, rfl, by simp⟩
  obtain ⟨hswitches, hstats, hwakeups, hsleep, hcallbacks, hcount⟩ := hparts
  exact ⟨h.clients hswitches, h.held hcount, h.locks hstats, h.wakeups hwakeups, h.attempts hsleep,
    h.callbacks hcallbacks, h.stats_valid hstats, h.wakeups_valid hwakeups⟩

theorem Represents.clients_eq_empty (h : Represents cfg σ p) : p.clients = ∅ ↔ σ.mAutosuspendClientTokens = [] := by
  rw [Finset.eq_empty_iff_forall_notMem, List.eq_nil_iff_forall_not_mem]
  exact forall_congr' fun token => not_congr (h.clients token)

theorem card_positions {α : Type} (f : α → Bool) (l : List α) :
    ((Finset.range l.length).filter fun i => l[i]?.any f = true).card = l.countP f := by
  induction l using List.reverseRecOn with
  | nil => rfl
  | append_singleton l a ih =>
    have hinit : ((Finset.range l.length).filter fun i => (l ++ [a])[i]?.any f = true) =
        (Finset.range l.length).filter fun i => l[i]?.any f = true :=
      Finset.filter_congr fun i hi => by rw [List.getElem?_append_left (Finset.mem_range.mp hi)]
    rw [List.length_append, List.length_singleton, Finset.range_add_one, Finset.filter_insert, hinit,
      List.countP_append, ← ih]
    have hlast : (l ++ [a])[l.length]? = some a := by simp
    rw [hlast, Option.any_some, List.countP_singleton]
    split
    · exact Finset.card_insert_of_notMem (by simp)
    · rfl

theorem Represents.card_held (h : Represents cfg σ p) : p.held.card = unreleased σ := by
  have hheld : p.held = (Finset.range σ.wakeLocks.length).filter fun wl =>
      σ.wakeLocks[wl]?.any WakeLock.unreleased = true := by
    ext wl
    rw [h.held, Finset.mem_filter, Finset.mem_range, Option.any_eq_true]
    refine ⟨fun hawake => ⟨?_, hawake⟩, And.right⟩
    obtain ⟨w, hw, -⟩ := hawake
    exact (List.getElem?_eq_some_iff.mp hw).1
  rw [hheld, card_positions, unreleased]

/-- At the write of "mem", the machine may suspend. -/
theorem Represents.maySuspend (h : Represents cfg σ p) (htokens : σ.mAutosuspendClientTokens ≠ [])
    (hcounter : cfg.useSuspendCounter = true → unreleased σ % counterModulus = 0) :
    PowerManager.maySuspend cfg p = true := by
  have hclients : p.clients ≠ ∅ := mt h.clients_eq_empty.mp htokens
  simp only [PowerManager.maySuspend, hclients, ne_eq, not_false_eq_true, decide_true, Bool.true_and,
    Bool.or_eq_true, Bool.not_eq_true', decide_eq_true_eq]
  by_cases hmode : cfg.useSuspendCounter = true
  · rw [← Finset.card_eq_zero, h.card_held]
    rcases Nat.lt_or_ge (unreleased σ) counterModulus with hlt | hge
    · exact Or.inr ((Nat.mod_eq_of_lt hlt).symm.trans (hcounter hmode))
    · exact Or.inl (Or.inr hge)
  · exact Or.inl (Or.inl (by simpa using hmode))

/-- The events of a block take the machine to a state that represents the one the block leaves. -/
def Moves (cfg : Config) (names : Holder → StatsKey) (t : Tid) (p : PowerManager) (o : Out) : Prop :=
  ∃ q, (powerManager cfg names).run p (o.events.map (t, ·)) = some q ∧ Represents cfg o.state q

theorem moves_of_ignored (h : Kept cfg b o.state p) (hexec : exec cfg t env σ b = some o) (hb : observed b = false) :
    Moves cfg names t p o := by
  refine ⟨p, Machine.run_ignored fun e he => ?_, h.all hb⟩
  obtain ⟨x, hx, rfl⟩ := List.mem_map.mp he
  exact step_ignored (exec_ignored hexec hb x hx)

theorem check_eq {agrees : Bool} (h : agrees = true) (p : PowerManager) : PowerManager.check agrees p = some p :=
  if_pos h

theorem mem_addToken_iff (token token' : Binder) :
    token' ∈ (addToken σ token).mAutosuspendClientTokens ↔ token' = token ∨ token' ∈ σ.mAutosuspendClientTokens := by
  simp only [addToken, hasToken, decide_eq_true_eq]
  split
  · rename_i hmem
    exact ⟨Or.inr, fun h => h.elim (fun he => he ▸ hmem) id⟩
  · rw [List.mem_append, List.mem_singleton, or_comm]

theorem moves_enableAutosuspend {token : Binder} (h : Represents cfg σ p) (hcons : Consistent σ)
    (hkept : Kept cfg (.enableAutosuspend token) (enableAutosuspend env σ token).state p) :
    Moves cfg names t p (enableAutosuspend env σ token) := by
  have hempty : p.clients = ∅ ↔ σ.mAutosuspendEnabled = false := by
    rw [h.clients_eq_empty, ← Bool.not_eq_true, hcons.tokens, not_not]
  have hstep : ∀ ret, ret = !σ.mAutosuspendEnabled → (powerManager cfg names).run p
      [(t, .enableAutosuspend token ret), (t, .wroteWakeUnlock kZygoteKernelWakelock env.ok)] =
        some { p with clients := insert token p.clients } := by
    rintro ret rfl
    refine check_eq ?_ _
    rw [decide_eq_true_eq, Bool.eq_iff_iff, Bool.not_eq_true', decide_eq_true_eq, hempty]
  refine ⟨{ p with clients := insert token p.clients }, ?_, ?_⟩
  · rcases enableAutosuspend_cases env σ token with ⟨henabled, ho⟩ | ⟨henabled, -, ho⟩ | ⟨henabled, -, ho⟩ <;>
      rw [ho] <;> exact hstep _ (by rw [henabled]; rfl)
  · refine ⟨fun token' => ?_, hkept.held (by simp), hkept.locks rfl, hkept.wakeups rfl, hkept.attempts rfl,
      hkept.callbacks rfl, hkept.stats_valid rfl, hkept.wakeups_valid rfl⟩
    have htokens : (enableAutosuspend env σ token).state.mAutosuspendClientTokens =
        (addToken σ token).mAutosuspendClientTokens := by
      rcases enableAutosuspend_cases env σ token with ⟨-, ho⟩ | ⟨-, -, ho⟩ | ⟨-, -, ho⟩ <;> rw [ho]
    rw [htokens, mem_addToken_iff, Finset.mem_insert, h.clients]

theorem moves_disableAutosuspend (hevents : o.events = [.disableAutosuspend])
    (hclients : o.state.mAutosuspendClientTokens = []) (hkept : Kept cfg b o.state p)
    (hb : b = .disableAutosuspendLocked ∨ ∃ wakeupCount, b = .loop (.checkTokens wakeupCount)) :
    Moves cfg names t p o := by
  refine ⟨{ p with clients := ∅ }, by rw [hevents]; rfl, ?_⟩
  have hnone : ∀ token, token ∈ (∅ : Finset Binder) ↔ token ∈ o.state.mAutosuspendClientTokens := by
    simp [hclients]
  rcases hb with rfl | ⟨wakeupCount, rfl⟩
  · exact ⟨hnone, hkept.held (by simp), hkept.locks rfl, hkept.wakeups rfl, hkept.attempts rfl, hkept.callbacks rfl,
      hkept.stats_valid rfl, hkept.wakeups_valid rfl⟩
  · exact ⟨hnone, hkept.held (by simp), hkept.locks rfl, hkept.wakeups rfl, hkept.attempts rfl, hkept.callbacks rfl,
      hkept.stats_valid rfl, hkept.wakeups_valid rfl⟩

theorem moves_incSuspendCounter {wl : Nat} (h : Represents cfg σ p)
    (hawake : AwakeChange σ (incSuspendCounter cfg env σ (.wakeLock wl)).state (.incSuspendCounter (.wakeLock wl)))
    (hkept : Kept cfg (.incSuspendCounter (.wakeLock wl)) (incSuspendCounter cfg env σ (.wakeLock wl)).state p) :
    Moves cfg names t p (incSuspendCounter cfg env σ (.wakeLock wl)) := by
  cases hawake with
  | dec wl' block => cases block
  | same block => exact absurd rfl (block wl).1
  | inc wl' block before after =>
    obtain rfl : wl = wl' := by simpa using block
    have hnew : wl ∉ p.held := mt (h.held wl).mp before
    refine ⟨{ p with held := insert wl p.held }, ?_, hkept.clients rfl, fun wl' => ?_, hkept.locks rfl,
      hkept.wakeups rfl, hkept.attempts rfl, hkept.callbacks rfl, hkept.stats_valid rfl, hkept.wakeups_valid rfl⟩
    · unfold incSuspendCounter
      split <;> exact check_eq (by simpa using hnew) _
    · rw [Finset.mem_insert, h.held, after]

theorem moves_decSuspendCounter {wl : Nat} (h : Represents cfg σ p)
    (hawake : AwakeChange σ (decSuspendCounter cfg env σ (.wakeLock wl)).state (.decSuspendCounter (.wakeLock wl)))
    (hkept : Kept cfg (.decSuspendCounter (.wakeLock wl)) (decSuspendCounter cfg env σ (.wakeLock wl)).state p) :
    Moves cfg names t p (decSuspendCounter cfg env σ (.wakeLock wl)) := by
  cases hawake with
  | inc wl' block => cases block
  | same block => exact absurd rfl (block wl).2
  | dec wl' block before after =>
    obtain rfl : wl = wl' := by simpa using block
    have hheld : wl ∈ p.held := (h.held wl).mpr before
    refine ⟨{ p with held := p.held.erase wl }, ?_, hkept.clients rfl, fun wl' => ?_, hkept.locks rfl,
      hkept.wakeups rfl, hkept.attempts rfl, hkept.callbacks rfl, hkept.stats_valid rfl, hkept.wakeups_valid rfl⟩
    · unfold decSuspendCounter
      split <;> exact check_eq (by simpa using hheld) _
    · rw [Finset.mem_erase, h.held, after]

theorem moves_stats {op : WakeLockEntryList.StatsOp} {e : Ev} (h : Represents cfg σ p)
    (hexec : exec cfg t env σ b = some o) (hop : statsOp? env σ b = some op) (hevents : o.events = [e])
    (hstep : PowerManager.step cfg names p (t, e) = some { p with locks := op.onEntries cfg.statsCapacity p.locks })
    (hkept : Kept cfg b o.state p) : Moves cfg names t p o := by
  have happly := exec_of_statsOp_some hexec hop
  obtain ⟨hvalid, hcap⟩ := h.stats_valid
  obtain ⟨hvalid', hentries⟩ := WakeLockEntryList.StatsOp.spec_of_apply hvalid happly
  refine ⟨{ p with locks := op.onEntries cfg.statsCapacity p.locks }, by rw [hevents]; exact hstep, ?_⟩
  have hlocks : op.onEntries cfg.statsCapacity p.locks = o.state.mStatsList.nativeStats := by
    rw [h.locks, ← hcap]
    exact hentries.symm
  have hvalid'' := And.intro hvalid' ((capacity_of_apply hvalid happly).trans hcap)
  cases b with
  | updateStats change holder timeNow =>
    exact ⟨hkept.clients rfl, hkept.held (by simp), hlocks, hkept.wakeups rfl, hkept.attempts rfl,
      hkept.callbacks rfl, hvalid'', hkept.wakeups_valid rfl⟩
  | updateNow =>
    exact ⟨hkept.clients rfl, hkept.held (by simp), hlocks, hkept.wakeups rfl, hkept.attempts rfl,
      hkept.callbacks rfl, hvalid'', hkept.wakeups_valid rfl⟩
  | _ => cases hop

theorem moves_updateWakeupList {reasons : List StdString} (h : Represents cfg σ p) (hne : reasons ≠ [])
    (hexec : updateWakeupList σ reasons = some o) (hkept : Kept cfg (.updateWakeupList reasons) o.state p) :
    Moves cfg names t p o := by
  obtain ⟨hvalid, hcap⟩ := h.wakeups_valid
  obtain ⟨l', hupdate, hvalid', hcap', hstats⟩ := WakeupList.update_spec hvalid hne
  rw [updateWakeupList, hupdate] at hexec
  obtain rfl := Option.some.inj hexec
  refine ⟨{ p with wakeups := WakeupList.updated cfg.statsCapacity p.wakeups (WakeupList.keyOf reasons) },
    check_eq (by simpa using hne) _, hkept.clients rfl, hkept.held (by simp), hkept.locks rfl, ?_, hkept.attempts rfl,
    hkept.callbacks rfl, hkept.stats_valid rfl, hvalid', hcap'.trans hcap⟩
  dsimp only
  rw [hstats, h.wakeups, hcap]

/-- A block that changes nothing the machine has, and records one event that the machine agrees with. -/
theorem moves_check {e : Ev} (hkept : Kept cfg b o.state p) (hevents : o.events = [e])
    (hstep : PowerManager.step cfg names p (t, e) = some p) (hparts : b.switches = false ∧ b.changesStats = false ∧
      b.changesWakeups = false ∧ b.changesSleep = false ∧ changesCallbacks b = false)
    (hcount : ∀ wl, b ≠ .incSuspendCounter (.wakeLock wl) ∧ b ≠ .decSuspendCounter (.wakeLock wl)) :
    Moves cfg names t p o := by
  obtain ⟨hswitches, hstats, hwakeups, hsleep, hcallbacks⟩ := hparts
  refine ⟨p, by rw [hevents]; exact hstep, hkept.clients hswitches, hkept.held hcount, hkept.locks hstats,
    hkept.wakeups hwakeups, hkept.attempts hsleep, hkept.callbacks hcallbacks, hkept.stats_valid hstats,
    hkept.wakeups_valid hwakeups⟩

theorem moves_loop {l : LoopBlock} (h : Represents cfg σ p) (hcons : Consistent σ) (hchecked : checked (.loop l) σ)
    (hcounter : cfg.useSuspendCounter = true → σ.mSuspendCounter = unreleased σ % counterModulus)
    (hkept : Kept cfg (.loop l) (execLoop env σ l).state p) : Moves cfg names t p (execLoop env σ l) := by
  have hdisabled : σ.mAutosuspendEnabled = false → p.clients = ∅ := by
    intro hoff
    rw [h.clients_eq_empty]
    by_contra hne
    rw [hcons.tokens.mpr hne] at hoff
    cases hoff
  cases l with
  | head shouldSleep =>
    simp only [execLoop] at hkept ⊢
    split at hkept
    · rename_i hoff
      rw [if_pos hoff]
      refine ⟨p, check_eq (by simpa using hdisabled (by simpa using hoff)) p, hkept.clients rfl, hkept.held (by simp),
        hkept.locks rfl, hkept.wakeups rfl, hkept.attempts rfl, hkept.callbacks rfl, hkept.stats_valid rfl,
        hkept.wakeups_valid rfl⟩
    · rename_i hon
      rw [if_neg hon]
      exact moves_check hkept rfl rfl ⟨rfl, rfl, rfl, rfl, rfl⟩ (by simp)
  | sleep woken =>
    simp only [execLoop] at hkept ⊢
    split at hkept
    · rename_i hover
      rw [if_pos hover]
      refine moves_check hkept rfl (check_eq ?_ p) ⟨rfl, rfl, rfl, rfl, rfl⟩ (by simp)
      rw [h.attempts, Bool.and_eq_true, decide_eq_true_eq]
      refine ⟨rfl, ?_⟩
      rw [Bool.or_eq_true, Bool.not_eq_true'] at hover
      rw [Bool.or_eq_true, decide_eq_true_eq]
      exact hover.symm.imp id hdisabled
    · rename_i hgoes
      rw [if_neg hgoes]
      exact ⟨p, rfl, hkept.clients rfl, hkept.held (by simp), hkept.locks rfl, hkept.wakeups rfl, hkept.attempts rfl,
        hkept.callbacks rfl, hkept.stats_valid rfl, hkept.wakeups_valid rfl⟩
  | checkTokens wakeupCount =>
    simp only [execLoop] at hkept ⊢
    split at hkept
    · rename_i hnone
      rw [if_pos hnone]
      exact moves_disableAutosuspend rfl rfl hkept (Or.inr ⟨wakeupCount, rfl⟩)
    · rename_i hsome
      rw [if_neg hsome]
      exact ⟨p, rfl, fun token => h.clients token, hkept.held (by simp), hkept.locks rfl, hkept.wakeups rfl,
        hkept.attempts rfl, hkept.callbacks rfl, hkept.stats_valid rfl, hkept.wakeups_valid rfl⟩
  | writeState =>
    refine moves_check hkept rfl (check_eq ?_ p) ⟨rfl, rfl, rfl, rfl, rfl⟩ (by simp)
    exact h.maySuspend hchecked.1 fun hmode => (hcounter hmode).symm.trans hchecked.2
  | _ => exact moves_of_ignored hkept (rfl : exec cfg t env σ (.loop _) = some _) rfl

end blocks

/-! ### Whole runs -/

section runs

variable {cfg : Config} {names : Holder → StatsKey} {s s' : ServiceState} {a : ServiceAction} {t : Tid} {b : Block}
  {env : Env} {c : ThreadCode} {o : Out} {p : PowerManager}

/-- An acquired wake lock keeps the system awake until it is released. -/
theorem Locks.acquired_awake (h : Locks s) {wl : Nat} (hr : (program cfg).Ran s a s' t (.returnWakeLock wl) env c o) :
    KeepsAwake s.shared wl := by
  cases (h.ran hr).2 with
  | same locks block => cases block
  | new w locks fresh block => cases block
  | change wl' w w' before locks transition =>
    cases transition with
    | returned phase once =>
      refine ⟨w, before, ?_⟩
      simp [WakeLock.unreleased, WakeLock.incremented, WakeLock.decremented, phase, once]
    | destroy phase alive block => rcases block with hb | hb <;> cases hb

theorem Locks.destroyed_asleep (h : Locks s) {wl : Nat} (hr : (program cfg).Ran s a s' t (.endDestroy wl) env c o) :
    ¬ KeepsAwake s.shared wl := by
  cases (h.ran hr).2 with
  | same locks block => cases block
  | new w locks fresh block => cases block
  | change wl' w w' before locks transition =>
    cases transition with
    | ended phase once destruction =>
      rintro ⟨v, hv, hcounted⟩
      obtain rfl := Option.some.inj (before.symm.trans hv)
      simp [WakeLock.unreleased, WakeLock.decremented, once] at hcounted
    | destroy phase alive block => rcases block with hb | hb <;> cases hb

theorem Represents.ran (h : Represents cfg s.shared p) (hreach : (program cfg).Reach Served s)
    (hr : (program cfg).Ran s a s' t b env c o) (hnames : Names names o.state) : Moves cfg names t p o := by
  have hlocks := reach_locks hreach
  have hexec := exec_of_ran hr
  have hserved := (reach_served hreach).block hr
  have hawake : AwakeChange s.shared o.state b := by
    rw [← hr.shared]
    exact (hlocks.ran hr).2.awake
  have hkept := h.kept hexec hawake
  have hcons := (reach_loops hreach).consistent
  cases hobserved : observed b with
  | false => exact moves_of_ignored hkept hexec hobserved
  | true =>
    cases b with
    | enableAutosuspend token =>
      obtain rfl := Option.some.inj hexec
      exact moves_enableAutosuspend h hcons hkept
    | disableAutosuspendLocked =>
      obtain rfl := Option.some.inj hexec
      exact moves_disableAutosuspend rfl rfl hkept (Or.inl rfl)
    | incSuspendCounter holder =>
      obtain rfl := Option.some.inj hexec
      cases holder with
      | wakeLock wl => exact moves_incSuspendCounter h hawake hkept
      | direct name pid => cases hserved
    | decSuspendCounter holder =>
      obtain rfl := Option.some.inj hexec
      cases holder with
      | wakeLock wl => exact moves_decSuspendCounter h hawake hkept
      | direct name pid => cases hserved
    | returnWakeLock wl =>
      have hheld : wl ∈ p.held := (h.held wl).mpr (hlocks.acquired_awake hr)
      obtain rfl := Option.some.inj hexec
      exact moves_check hkept rfl (check_eq (by simpa using hheld) p) ⟨rfl, rfl, rfl, rfl, rfl⟩ (by simp)
    | endDestroy wl =>
      have hfree : wl ∉ p.held := mt (h.held wl).mp (hlocks.destroyed_asleep hr)
      obtain rfl := Option.some.inj hexec
      exact moves_check hkept rfl (check_eq (by simpa using hfree) p) ⟨rfl, rfl, rfl, rfl, rfl⟩ (by simp)
    | loop l =>
      obtain rfl := Option.some.inj hexec
      refine moves_loop h hcons ?_ (fun hmode => ?_) hkept
      · exact (hreach.annotated (typing_sound cfg) (checked_annotates cfg) t).1 _ _ hr.code
      · have hcounted := reach_counted hreach
        rwa [Counted, if_pos hmode] at hcounted
    | updateSleepTime success time =>
      obtain rfl := Option.some.inj hexec
      refine ⟨{ p with attempts := ⟨success, time⟩ :: p.attempts }, rfl, hkept.clients rfl, hkept.held (by simp),
        hkept.locks rfl, hkept.wakeups rfl, ?_, hkept.callbacks rfl, hkept.stats_valid rfl, hkept.wakeups_valid rfl⟩
      dsimp only
      rw [h.attempts]
      rfl
    | getSuspendInfo =>
      obtain rfl := Option.some.inj hexec
      refine moves_check hkept rfl (check_eq ?_ p) ⟨rfl, rfl, rfl, rfl, rfl⟩ (by simp)
      rw [h.attempts, SuspendInfo.after_info]
      exact decide_eq_true rfl
    | updateStats change holder timeNow =>
      have hkey : s.shared.keyOf holder = names holder := by
        cases holder with
        | wakeLock wl =>
          obtain ⟨w, hw, -⟩ := hlocks.exists hr rfl
          rw [← hr.shared] at hnames
          exact (keyOf_wakeLock hw).trans ((hlocks.ran hr).2.names hnames wl w hw).symm
        | direct name pid => cases hserved
      obtain ⟨stats, hstats, rfl⟩ := Option.map_eq_some_iff.mp hexec
      have hop : statsOp? env s.shared (.updateStats change holder timeNow) =
          some (PowerManager.statsOp change (names holder) timeNow) := by
        rw [← hkey]
        cases change <;> rfl
      exact moves_stats h hexec hop rfl rfl hkept
    | updateNow =>
      have hevents : o.events = [.updateNow env.timeNow] := by rw [← Option.some.inj hexec]
      exact moves_stats h hexec rfl hevents rfl hkept
    | getWakeLockStats =>
      obtain rfl := Option.some.inj hexec
      have hstats : getWakeLockStats cfg.parseInt s.shared.mStatsList env.wakeupClass =
          p.locks ++ getKernelWakelockStats cfg.parseInt env.wakeupClass := by
        rw [h.locks]
        rfl
      exact moves_check hkept rfl (check_eq (decide_eq_true hstats) p) ⟨rfl, rfl, rfl, rfl, rfl⟩ (by simp)
    | updateWakeupList reasons =>
      refine moves_updateWakeupList h ?_ hexec hkept
      rintro rfl
      have hnone := (reach_wakeups hreach).pending t
      rw [hr.duties_before] at hnone
      cases hnone
    | getWakeupStats =>
      obtain rfl := Option.some.inj hexec
      exact moves_check hkept rfl (check_eq (by simpa using h.wakeups.symm) p) ⟨rfl, rfl, rfl, rfl, rfl⟩ (by simp)
    | pushCallback cb =>
      obtain rfl := Option.some.inj hexec
      refine ⟨{ p with callbacks := p.callbacks ++ [cb] }, rfl, hkept.clients rfl, hkept.held (by simp),
        hkept.locks rfl, hkept.wakeups rfl, hkept.attempts rfl, ?_, hkept.stats_valid rfl, hkept.wakeups_valid rfl⟩
      dsimp only
      rw [h.callbacks]
      rfl
    | eraseCallbacks who =>
      obtain rfl := Option.some.inj hexec
      refine ⟨{ p with callbacks := p.callbacks.filter fun i => i.binder ≠ who }, rfl, hkept.clients rfl,
        hkept.held (by simp), hkept.locks rfl, hkept.wakeups rfl, hkept.attempts rfl, ?_, hkept.stats_valid rfl,
        hkept.wakeups_valid rfl⟩
      dsimp only
      rw [h.callbacks]
      rfl
    | notifyWakeup success reasons =>
      obtain rfl := Option.some.inj hexec
      exact moves_check hkept rfl (check_eq (by simpa using h.callbacks.symm) p) ⟨rfl, rfl, rfl, rfl, rfl⟩ (by simp)
    | _ => cases hobserved

/-- Every run of the service is a run of the machine. -/
theorem reach_represents (h : (program cfg).Reach Served s) :
    ∃ p, (powerManager cfg s.shared.keyOf).after s.log = some p ∧ Represents cfg s.shared p := by
  refine h.refines (M := powerManager cfg) (F := Names) (R := Represents cfg) (fun _ => represents_start cfg) ?_ ?_
    _ (names_keyOf s.shared)
  · intro names s a s' t b env c o hreach hr hnames
    rw [← hr.shared] at hnames
    exact ((reach_locks hreach).ran hr).2.names hnames
  · intro names p s a s' t b env c o hreach _ hr hnames hp
    exact hp.ran hreach hr hnames

/-- In every run, whatever the threads and the clients do, what the service records is a run of the abstract machine: each
suspend starts when the machine allows it, and everything the service returns is what the machine has. The clients and
the wake locks that count are those of the machine, the flag says whether there are clients, and the counter is the
number of those wake locks, as far as 32 bits go. -/
theorem refines_powerManager (cfg : Config) {s : ServiceState} (h : (program cfg).Reach Served s) :
    ∃ p, (powerManager cfg s.shared.keyOf).after s.log = some p ∧ Represents cfg s.shared p ∧
      (s.shared.mAutosuspendEnabled = true ↔ p.clients ≠ ∅) ∧
      s.shared.mSuspendCounter = (if cfg.useSuspendCounter then p.held.card else 0) % counterModulus := by
  obtain ⟨p, hafter, hp⟩ := reach_represents h
  refine ⟨p, hafter, hp, ?_, ?_⟩
  · rw [(reach_loops h).consistent.tokens, ne_eq, ne_eq, hp.clients_eq_empty]
  · rw [hp.card_held]
    exact reach_counted h

/-- A suspend after one wake lock was released. Then a client takes another one and registers a callback. -/
def suspendThenHold : List ServiceAction :=
  goCall (.client 1) (.acquireWakeLock .aidl (str "wl")) 12 ++ goCall (.client 1) (.release 0) 13 ++ toSuspend ++
    go (.autosuspend 0) 3 ++ goCall (.client 1) (.acquireWakeLock .hidl (str "wl")) 12 ++
    goCall (.client 1) (.registerCallback (some ⟨7, true⟩)) 5

theorem refines_powerManager_suspend : ∃ s p, (program smallConfig).Reach Served s ∧
    (.autosuspend 0, .suspend true) ∈ s.log ∧ (powerManager smallConfig s.shared.keyOf).after s.log = some p ∧
    5 ∈ p.clients ∧ p.held = {1} ∧ p.callbacks = [⟨7, true⟩] := by
  obtain ⟨s, hreach, hs⟩ := Program.Reach.of_run (program smallConfig) (fun _ a => servedAction a) suspendThenHold
    (fun s => ((.autosuspend 0, .suspend true) ∈ s.log) && (5 ∈ s.shared.mAutosuspendClientTokens) &&
      s.shared.wakeLocks.map WakeLock.unreleased = [false, true] && s.shared.control.mCallbacks = [⟨7, true⟩])
    (fun _ _ h => h) (by decide +kernel)
  simp only [Bool.and_eq_true, decide_eq_true_eq] at hs
  obtain ⟨⟨⟨hsuspend, hclient⟩, hlocks⟩, hcallbacks⟩ := hs
  obtain ⟨p, hafter, hp, -⟩ := refines_powerManager smallConfig hreach
  refine ⟨s, p, hreach, hsuspend, hafter, (hp.clients 5).mpr hclient, ?_, hp.callbacks.trans hcallbacks⟩
  ext wl
  have hawake : KeepsAwake s.shared wl ↔ (s.shared.wakeLocks.map WakeLock.unreleased)[wl]? = some true := by
    rw [List.getElem?_map, Option.map_eq_some_iff]
    rfl
  rw [hp.held, hawake, hlocks, Finset.mem_singleton]
  rcases wl with _ | _ | wl <;> simp

end runs

end HardwareInterfaces.Suspend.Service
