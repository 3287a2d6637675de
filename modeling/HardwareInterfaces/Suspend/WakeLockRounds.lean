import HardwareInterfaces.Lib.Rounds
import HardwareInterfaces.Suspend.CallbackLists
import HardwareInterfaces.Suspend.WakeLocks

/-!
# The notifications of a wake lock

The callbacks of a wake lock are told about its acquisition and about its release in a round of calls each, on a copy of
the list under its name. No mutex orders the calls: the acquisition round is part of the code that constructs and returns
the object, in either front end, and the release round part of the callable that runs once. `RoundPhase` follows each of
the two rounds through the life of the object.
-/

namespace HardwareInterfaces.Suspend.Service

open CppStd Monitor Mutex Rounds

/-! ### Rounds and their place in the life of an object -/

/-- A round of calls about a change of a wake lock object; `none` stands for all others. -/
abbrev Round := Option (Change × Nat)

abbrev Call := Callback × Notification

def roundOf (change : Change) : Holder → Round
  | .wakeLock wl => some (change, wl)
  | .direct .. => none

def act? : Ev → Option (Act Round Call)
  | .notifyWakelock change h callbacks =>
    some (.start (roundOf change h) (callbacks.map (·, notificationOf change)))
  | .notifyWakeup success wakeupReasons callbacks =>
    some (.start none (callbacks.map (·, .notifyWakeup success wakeupReasons)))
  | .callback cb notification => some (.call (cb, notification))
  | _ => none

def acts (log : List (Tid × Ev)) : List (Tid × Act Round Call) := log.filterMap fun e => (act? e.2).map (e.1, ·)

/-- How far the part of the code is that makes a round: not begun, in thread `t`, or behind. -/
inductive RoundPath
  | before
  | during (t : Tid)
  | after
  deriving DecidableEq

/-- The part of the code that makes the round about a change of an object, which may not exist yet. -/
def roundPath (change : Change) : Option WakeLock → RoundPath
  | none => .before
  | some w =>
    match change with
    | .acquire => if w.acquisition = .returned then .after else .during w.acquirer
    | .release =>
      match w.mReleased with
      | .idle => .before
      | .running t _ => .during t
      | .done => .after

/-- What this part of the code does about the round. -/
inductive RoundStep
  | notify
  | finish
  deriving DecidableEq

def roundStep (change : Change) (wl : Nat) : Block → Option RoundStep
  | .notifyWakelock change' (.wakeLock wl') => if change' = change ∧ wl' = wl then some .notify else none
  | .returnWakeLock wl' => if change = .acquire ∧ wl' = wl then some .finish else none
  | .onceDone wl' _ => if change = .release ∧ wl' = wl then some .finish else none
  | _ => none

/-- What a block of thread `t` does on the path of a round, and the steps it leaves to be done. -/
inductive RoundEffect (t : Tid) (step : Option RoundStep) : RoundPath → RoundPath → List RoundStep → Prop
  | same (p : RoundPath) (block : step = none) : RoundEffect t step p p []
  | opened (block : step = none) : RoundEffect t step .before (.during t) [.notify, .finish]
  | notified (p : RoundPath) (block : step = some .notify) : RoundEffect t step p p []
  | closed (p : RoundPath) (block : step = some .finish) : RoundEffect t step p .after []

section effect

variable {cfg : Config} {s s' : ServiceState} {a : ServiceAction} {t : Tid} {b : Block} {env : Env}
  {c : ThreadCode} {o : Out} {σ : Shared}

theorem roundSteps_nil {code : ThreadCode} {change : Change} {wl : Nat} (hround : code.duties Block.round? = [])
    (hmentions : wl ∉ code.duties Block.wakeLock?) : code.duties (roundStep change wl) = [] := by
  refine Code.duties_eq_nil fun b hb => ?_
  cases b with
  | notifyWakelock change' holder =>
    have hnone := Code.none_of_duties hround hb
    cases holder with
    | wakeLock wl' => cases hnone
    | direct name pid => rfl
  | returnWakeLock wl' =>
    refine if_neg fun he => hmentions (Code.mem_duties.mpr ⟨_, hb, ?_⟩)
    rw [← he.2]
    rfl
  | onceDone wl' destructor =>
    refine if_neg fun he => hmentions (Code.mem_duties.mpr ⟨_, hb, ?_⟩)
    rw [← he.2]
    rfl
  | _ => rfl

/-- Both front ends notify once before they return the object. -/
theorem roundSteps_acquire (frontEnd : FrontEnd) (n : Nat) (change : Change) (wl : Nat) :
    (callAcquireWakeLock frontEnd n).duties (roundStep change wl) =
      if change = .acquire ∧ n = wl then [.notify, .finish] else [] := by
  by_cases h : change = .acquire ∧ n = wl
  · obtain ⟨rfl, rfl⟩ := h
    cases frontEnd <;> simp [callAcquireWakeLock, constructWakeLock, callIncSuspendCounter, callUpdateWakeLockStat,
      callNotifyWakelock, lockGuard, roundStep]
  · have h' : ¬ (.acquire = change ∧ n = wl) := fun he => h ⟨he.1.symm, he.2⟩
    cases frontEnd <;> simp [callAcquireWakeLock, constructWakeLock, callIncSuspendCounter, callUpdateWakeLockStat,
      callNotifyWakelock, lockGuard, roundStep, h, h']

/-- The callable of the once flag notifies once before it ends. -/
theorem roundSteps_release (n : Nat) (destructor : Bool) (change : Change) (wl : Nat) :
    Code.duties (roundStep change wl) (releaseCallable n ++ [.run (.onceDone n destructor)]) =
      if change = .release ∧ n = wl then [.notify, .finish] else [] := by
  by_cases h : change = .release ∧ n = wl
  · obtain ⟨rfl, rfl⟩ := h
    simp [releaseCallable, callDecSuspendCounter, callUpdateWakeLockStat, callNotifyWakelock, lockGuard, roundStep]
  · have h' : ¬ (.release = change ∧ n = wl) := fun he => h ⟨he.1.symm, he.2⟩
    simp [releaseCallable, callDecSuspendCounter, callUpdateWakeLockStat, callNotifyWakelock, lockGuard, roundStep,
      h, h']

def LeavesRounds (σ : Shared) (o : Out) (change : Change) (wl : Nat) : Prop :=
  (o.state.wakeLocks = σ.wakeLocks ∧ o.code.duties (roundStep change wl) = []) ∨
    ∃ w, o.state.wakeLocks = σ.wakeLocks ++ [w] ∧ o.code.duties (roundStep change wl) =
      if change = .acquire ∧ σ.wakeLocks.length = wl then [.notify, .finish] else []

theorem leavesRounds_getSuspendStats (t : Tid) (env : Env) (σ : Shared) (rest : ThreadCode) {change : Change} {wl : Nat}
    (hrest : rest.duties (roundStep change wl) = []) :
    LeavesRounds σ { getSuspendStats t env σ with code := (getSuspendStats t env σ).code ++ rest } change wl := by
  unfold getSuspendStats
  split
  · exact Or.inl ⟨rfl, hrest⟩
  · refine Or.inr ⟨_, rfl, ?_⟩
    rw [Code.duties_append, hrest, Code.duties_append, roundSteps_acquire, List.append_nil]
    exact List.append_nil _

theorem leavesRounds_of_exec (h : exec cfg t env σ b = some o) (hb : updatesLock b = false) (change : Change)
    (wl : Nat) : LeavesRounds σ o change wl := by
  have hframe := exec_frame h
  have hsame : b.handlesWakeLock = false → LeavesRounds σ o change wl := fun hb => by
    refine Or.inl ⟨hframe.wakeLocks hb, roundSteps_nil (hframe.announces hb) ?_⟩
    rw [hframe.mentions hb]
    exact List.not_mem_nil
  cases b with
  | op p =>
    cases p with
    | acquireWakeLock frontEnd name =>
      obtain rfl := Option.some.inj h
      unfold acquireWakeLock
      split
      · exact Or.inl ⟨rfl, rfl⟩
      · exact Or.inr ⟨_, rfl, roundSteps_acquire frontEnd _ change wl⟩
    | getSuspendStats =>
      obtain rfl := Option.some.inj h
      have hsame : getSuspendStats t env σ =
          { getSuspendStats t env σ with code := (getSuspendStats t env σ).code ++ [] } := by
        rw [List.append_nil]
      show LeavesRounds σ (getSuspendStats t env σ) change wl
      rw [hsame]
      exact leavesRounds_getSuspendStats t env σ [] rfl
    | release wl' =>
      simp only [exec, execOp, release] at h
      split at h
      · obtain rfl := Option.some.inj h
        exact Or.inl ⟨rfl, rfl⟩
      · cases h
    | destroyWakeLock wl' => cases hb
    | _ => exact hsame rfl
  | dumpKernelSuspends suspendControls =>
    obtain rfl := Option.some.inj h
    refine leavesRounds_getSuspendStats t env σ _ ?_
    split <;> rfl
  | incSuspendCounter holder =>
    cases holder with
    | wakeLock wl' => cases hb
    | direct name pid =>
      obtain rfl := Option.some.inj h
      unfold incSuspendCounter
      split <;> exact Or.inl ⟨rfl, rfl⟩
  | decSuspendCounter holder =>
    cases holder with
    | wakeLock wl' => cases hb
    | direct name pid =>
      obtain rfl := Option.some.inj h
      unfold decSuspendCounter
      split <;> exact Or.inl ⟨rfl, rfl⟩
  | getTimeNow change' holder =>
    obtain rfl := Option.some.inj h
    exact Or.inl ⟨rfl, rfl⟩
  | updateStats change' holder timeNow =>
    cases holder with
    | wakeLock wl' => cases hb
    | direct name pid =>
      obtain ⟨stats, -, rfl⟩ := Option.map_eq_some_iff.mp h
      exact Or.inl ⟨rfl, rfl⟩
  | returnWakeLock wl' => cases hb
  | callOnce wl' destructor => cases hb
  | onceDone wl' destructor => cases hb
  | beginDestroy wl' => cases hb
  | endDestroy wl' => cases hb
  | _ => exact hsame rfl

theorem roundPath_set {locks : List WakeLock} {wl wl' : Nat} {w w' : WakeLock} {change : Change} (hw : locks[wl']? = some w)
    (hpath : wl' = wl → roundPath change (some w') = roundPath change (some w)) :
    roundPath change (locks.set wl' w')[wl]? = roundPath change locks[wl]? := by
  rw [List.getElem?_set]
  have hlt := (List.getElem?_eq_some_iff.mp hw).1
  by_cases hwl : wl' = wl
  · subst hwl
    rw [if_pos rfl, if_pos hlt, hpath rfl, hw]
  · rw [if_neg hwl]

theorem roundPath_set_self {locks : List WakeLock} {wl : Nat} {w w' : WakeLock} (hw : locks[wl]? = some w)
    (change : Change) : roundPath change (locks.set wl w')[wl]? = roundPath change (some w') := by
  rw [List.getElem?_set, if_pos rfl, if_pos (List.getElem?_eq_some_iff.mp hw).1]

theorem roundPath_append {locks : List WakeLock} {w : WakeLock} (hfresh : Fresh t w) (change : Change) (wl : Nat) :
    roundPath change (locks ++ [w])[wl]? =
      if change = .acquire ∧ locks.length = wl then .during t else roundPath change locks[wl]? := by
  rcases Nat.lt_trichotomy wl locks.length with hlt | rfl | hgt
  · rw [List.getElem?_append_left hlt, if_neg fun he => by omega]
  · rw [List.getElem?_append_right (Nat.le_refl _), Nat.sub_self, List.getElem?_eq_none (Nat.le_refl _)]
    cases change with
    | acquire =>
      rw [if_pos ⟨rfl, rfl⟩]
      show (if w.acquisition = .returned then RoundPath.after else .during w.acquirer) = .during t
      rw [hfresh.acquisition, hfresh.acquirer]
      rfl
    | release =>
      rw [if_neg fun he => by cases he.1]
      show (match w.mReleased with
        | .idle => RoundPath.before
        | .running t _ => .during t
        | .done => .after) = _
      rw [hfresh.once]
      rfl
  · rw [List.getElem?_eq_none (by rw [List.length_append, List.length_singleton]; omega),
      List.getElem?_eq_none (by omega), if_neg fun he => by omega]

theorem roundStep_notify {change : Change} {wl : Nat} (h : roundStep change wl b = some .notify) :
    b = .notifyWakelock change (.wakeLock wl) := by
  unfold roundStep at h
  split at h
  · rw [Option.ite_none_right_eq_some] at h
    rw [h.1.1, h.1.2]
  · simp at h
  · simp at h
  · cases h

theorem roundStep_finish {change : Change} {wl : Nat} (h : roundStep change wl b = some .finish) :
    updatesLock b = true := by
  unfold roundStep at h
  split at h
  · simp at h
  · rfl
  · rfl
  · cases h

theorem round_closed {locks : List WakeLock} {wl wl' : Nat} {w w' : WakeLock} {change change' : Change}
    (hw : locks[wl']? = some w)
    (hstep : roundStep change wl b = if change = change' ∧ wl' = wl then some .finish else none)
    (hafter : roundPath change' (some w') = .after)
    (hother : change ≠ change' → roundPath change (some w') = roundPath change (some w)) :
    RoundEffect t (roundStep change wl b) (roundPath change locks[wl]?) (roundPath change (locks.set wl' w')[wl]?) [] := by
  by_cases hclose : change = change' ∧ wl' = wl
  · rw [hstep, if_pos hclose]
    obtain ⟨rfl, rfl⟩ := hclose
    rw [roundPath_set_self hw, hafter]
    exact .closed _ rfl
  · rw [hstep, if_neg hclose, roundPath_set hw fun hwl => hother fun hchange => hclose ⟨hchange, hwl⟩]
    exact .same _ rfl

theorem round_transition {wl wl' : Nat} {w w' : WakeLock} (h : exec cfg t env σ b = some o)
    (htrans : Transition t wl' w b w') (hw : σ.wakeLocks[wl']? = some w) (change : Change) :
    RoundEffect t (roundStep change wl b) (roundPath change σ.wakeLocks[wl]?)
      (roundPath change (σ.wakeLocks.set wl' w')[wl]?) (o.code.duties (roundStep change wl)) := by
  have hsame : roundPath change (some w') = roundPath change (some w) → roundStep change wl b = none →
      o.code.duties (roundStep change wl) = [] →
      RoundEffect t (roundStep change wl b) (roundPath change σ.wakeLocks[wl]?)
        (roundPath change (σ.wakeLocks.set wl' w')[wl]?) (o.code.duties (roundStep change wl)) := by
    intro hpath hstep hcode
    rw [roundPath_set hw fun _ => hpath, hcode]
    exact .same _ hstep
  cases htrans with
  | inc phase once =>
    obtain rfl := Option.some.inj h
    refine hsame ?_ rfl ?_
    · cases change <;> simp [roundPath, WakeLock.counted, phase]
    · simp only [incSuspendCounter]
      split <;> rfl
  | acquired timeNow phase once =>
    obtain ⟨stats, -, rfl⟩ := Option.map_eq_some_iff.mp h
    refine hsame ?_ rfl rfl
    cases change <;> simp [roundPath, WakeLock.statsUpdated, phase]
  | dec phase once =>
    obtain rfl := Option.some.inj h
    refine hsame ?_ rfl ?_
    · cases change <;> simp [roundPath, WakeLock.uncounted, OnceFlag.advance, phase, once]
    · simp only [decSuspendCounter]
      split <;> rfl
  | released timeNow phase once =>
    obtain ⟨stats, -, rfl⟩ := Option.map_eq_some_iff.mp h
    refine hsame ?_ rfl rfl
    cases change <;> simp [roundPath, WakeLock.statsUpdated, OnceFlag.advance, phase, once]
  | past destructor phase once inside =>
    simp only [exec, callOnce, hw, Option.map_some, Option.getD_some, once] at h
    obtain rfl := Option.some.inj h
    refine hsame ?_ rfl rfl
    cases change <;> simp [roundPath, WakeLock.pastOnce, phase, once]
  | destroy phase alive block =>
    rcases block with rfl | rfl
    · obtain ⟨-, rfl⟩ := beginDestroy_eq h
      exact hsame (by cases change <;> rfl) rfl rfl
    · simp only [exec, execOp, destroyWakeLock] at h
      split at h
      · obtain ⟨-, rfl⟩ := beginDestroy_eq h
        exact hsame (by cases change <;> rfl) rfl rfl
      · cases h
  | ended phase once destruction =>
    obtain rfl := Option.some.inj h
    exact hsame (by cases change <;> rfl) rfl rfl
  | returned phase once =>
    obtain rfl := Option.some.inj h
    refine round_closed hw rfl rfl fun hchange => ?_
    cases change with
    | acquire => exact absurd rfl hchange
    | release => rfl
  | finish destructor phase once inside =>
    obtain rfl := Option.some.inj h
    refine round_closed hw rfl rfl fun hchange => ?_
    cases change with
    | acquire => rfl
    | release => exact absurd rfl hchange
  | start destructor phase once =>
    simp only [exec, callOnce, hw, Option.map_some, Option.getD_some, once] at h
    obtain rfl := Option.some.inj h
    rw [roundSteps_release]
    by_cases hopen : change = .release ∧ wl' = wl
    · rw [if_pos hopen]
      obtain ⟨rfl, rfl⟩ := hopen
      have hbefore : roundPath .release (some w) = .before := by simp [roundPath, once]
      rw [roundPath_set_self hw, hw, hbefore]
      exact .opened rfl
    · rw [if_neg hopen, roundPath_set hw fun hwl => ?_]
      · exact .same _ rfl
      · cases change with
        | acquire => rfl
        | release => exact absurd ⟨rfl, hwl⟩ hopen

theorem round_effect (hlocks : Locks s) (hr : (program cfg).Ran s a s' t b env c o) (change : Change) (wl : Nat) :
    RoundEffect t (roundStep change wl b) (roundPath change s.shared.wakeLocks[wl]?)
      (roundPath change s'.shared.wakeLocks[wl]?) (o.code.duties (roundStep change wl)) := by
  have hexec := exec_of_ran hr
  have hshared := hr.shared
  cases (hlocks.ran hr).2 with
  | same locks block =>
    rcases leavesRounds_of_exec hexec block change wl with ⟨-, hsteps⟩ | ⟨w, hnew, -⟩
    · rw [locks, hsteps]
      cases hstep : roundStep change wl b with
      | none => exact .same _ rfl
      | some step =>
        cases step with
        | notify => exact .notified _ rfl
        | finish =>
          rw [roundStep_finish hstep] at block
          cases block
    · rw [hshared, hnew] at locks
      simp at locks
  | new w locks fresh block =>
    rcases leavesRounds_of_exec hexec block change wl with ⟨hold, -⟩ | ⟨w', -, hsteps⟩
    · rw [hshared, hold] at locks
      simp at locks
    · have hnone : roundStep change wl b = none := by
        cases hstep : roundStep change wl b with
        | none => rfl
        | some step =>
          cases step with
          | notify =>
            obtain rfl := roundStep_notify hstep
            have hold := (exec_frame hexec).wakeLocks rfl
            rw [hshared, hold] at locks
            simp at locks
          | finish =>
            rw [roundStep_finish hstep] at block
            cases block
      rw [locks, roundPath_append fresh, hsteps, hnone]
      by_cases hopen : change = .acquire ∧ s.shared.wakeLocks.length = wl
      · rw [if_pos hopen, if_pos hopen, List.getElem?_eq_none (Nat.le_of_eq hopen.2)]
        exact .opened rfl
      · rw [if_neg hopen, if_neg hopen]
        exact .same _ rfl
  | change wl' w w' before locks transition =>
    rw [locks]
    exact round_transition hexec transition before change

end effect

/-! ### One round for each change -/

/-- The steps left to be done for a round and its starts so far, on the path of the round. -/
inductive RoundPhase (todo : Tid → List RoundStep) (starts : List (Tid × List Call)) : RoundPath → Prop
  | before (idle : ∀ u, todo u = []) (none : starts = []) : RoundPhase todo starts .before
  | toNotify (t : Tid) (self : todo t = [.notify, .finish]) (others : ∀ u, u ≠ t → todo u = []) (none : starts = []) :
      RoundPhase todo starts (.during t)
  | notified (t : Tid) (calls : List Call) (self : todo t = [.finish]) (others : ∀ u, u ≠ t → todo u = [])
      (once : starts = [(t, calls)]) : RoundPhase todo starts (.during t)
  | after (t : Tid) (calls : List Call) (idle : ∀ u, todo u = []) (once : starts = [(t, calls)]) :
      RoundPhase todo starts .after

section phases

variable {todo todo' : Tid → List RoundStep} {starts starts' : List (Tid × List Call)} {p p' : RoundPath} {t : Tid}
  {x : Option RoundStep} {steps rest : List RoundStep} {calls : List Call}

theorem RoundPhase.congr (h : RoundPhase todo starts p) (htodo : ∀ u, todo' u = todo u) : RoundPhase todo' starts p := by
  rwa [funext htodo]

theorem RoundPhase.of_notify (h : RoundPhase todo starts p) (htodo : todo t = .notify :: rest) :
    p = .during t ∧ rest = [.finish] ∧ (∀ u, u ≠ t → todo u = []) ∧ starts = [] := by
  cases h with
  | before idle none => rw [idle] at htodo; cases htodo
  | after t' calls idle once => rw [idle] at htodo; cases htodo
  | toNotify t' self others none =>
    obtain rfl : t = t' := by
      by_contra hne
      rw [others t hne] at htodo
      cases htodo
    rw [self] at htodo
    exact ⟨rfl, (List.cons.inj htodo).2.symm, others, none⟩
  | notified t' calls self others once =>
    by_cases hne : t = t'
    · subst hne
      rw [self] at htodo
      cases htodo
    · rw [others t hne] at htodo
      cases htodo

theorem RoundPhase.of_finish (h : RoundPhase todo starts p) (htodo : todo t = .finish :: rest) :
    p = .during t ∧ rest = [] ∧ (∀ u, u ≠ t → todo u = []) ∧ ∃ calls, starts = [(t, calls)] := by
  cases h with
  | before idle none => rw [idle] at htodo; cases htodo
  | after t' calls idle once => rw [idle] at htodo; cases htodo
  | toNotify t' self others none =>
    by_cases hne : t = t'
    · subst hne
      rw [self] at htodo
      cases htodo
    · rw [others t hne] at htodo
      cases htodo
  | notified t' calls self others once =>
    obtain rfl : t = t' := by
      by_contra hne
      rw [others t hne] at htodo
      cases htodo
    rw [self] at htodo
    exact ⟨rfl, (List.cons.inj htodo).2.symm, others, calls, once⟩

theorem RoundPhase.step (h : RoundPhase todo starts p) (heffect : RoundEffect t x p p' steps)
    (hself : todo t = x.toList ++ rest) (hself' : todo' t = steps ++ rest) (hothers : ∀ u, u ≠ t → todo' u = todo u)
    (hstarts : starts' = if x = some .notify then (t, calls) :: starts else starts) : RoundPhase todo' starts' p' := by
  cases heffect with
  | same p block =>
    subst block
    rw [if_neg (by simp)] at hstarts
    rw [hstarts]
    refine h.congr fun u => ?_
    by_cases hu : u = t
    · rw [hu, hself', hself]
      rfl
    · exact hothers u hu
  | opened block =>
    subst block
    rw [if_neg (by simp)] at hstarts
    cases h with
    | before idle none =>
      rw [idle] at hself
      have hrest : rest = [] := hself.symm
      refine .toNotify t (by rw [hself', hrest]; rfl) (fun u hu => by rw [hothers u hu, idle]) (hstarts.trans none)
  | notified p block =>
    subst block
    rw [if_pos rfl] at hstarts
    obtain ⟨rfl, rfl, hidle, hnone⟩ := h.of_notify hself
    exact .notified t calls hself' (fun u hu => by rw [hothers u hu, hidle u hu]) (by rw [hstarts, hnone])
  | closed p block =>
    subst block
    rw [if_neg (by simp)] at hstarts
    obtain ⟨-, rfl, hidle, calls, honce⟩ := h.of_finish hself
    refine .after t calls (fun u => ?_) (hstarts.trans honce)
    by_cases hu : u = t
    · rw [hu, hself']
      rfl
    · rw [hothers u hu, hidle u hu]

end phases

/-! ### The calls of the rounds -/

def item? : Block → Option (Call ⊕ Round)
  | .callback cb notification => some (.inl (cb, notification))
  | .returnWakeLock wl => some (.inr (some (.acquire, wl)))
  | .onceDone wl _ => some (.inr (some (.release, wl)))
  | _ => none

/-- Rounds, their calls and their steps, in all threads. -/
structure Rounding (s : ServiceState) : Prop where
  orderly : Orderly (acts s.log)
  aligned : ∀ u, Aligned ((s.code u).duties item?) (pending u (acts s.log))
  phases : ∀ change wl, RoundPhase (fun u => (s.code u).duties (roundStep change wl))
    (starts (some (change, wl)) (acts s.log)) (roundPath change s.shared.wakeLocks[wl]?)
  complete : ∀ change wl, roundPath change s.shared.wakeLocks[wl]? = .after →
    ∀ u, under (some (change, wl)) (pending u (acts s.log)) = []

section calls

variable {cfg : Config} {s s' : ServiceState} {a : ServiceAction} {t : Tid} {b : Block} {env : Env}
  {c : ThreadCode} {o : Out} {σ : Shared}

@[simp] theorem acts_append (log log' : List (Tid × Ev)) : acts (log ++ log') = acts log ++ acts log' :=
  List.filterMap_append

theorem items_notifyAll (m : Mutex) (callbacks : List Callback) (n : Notification) :
    (notifyAll m callbacks n).duties item? = (callbacks.map (·, n)).map Sum.inl := by
  rw [notifyAll, Code.duties_unlock, Code.duties, List.filterMap_map, List.map_map]
  exact congrFun List.filterMap_eq_map _

theorem exec_acts (h : exec cfg t env σ b = some o) :
    (∃ r calls, item? b = none ∧ o.code.duties item? = calls.map Sum.inl ∧
      acts (o.events.map (t, ·)) = [(t, .start r calls)] ∧
      ∀ change wl, r = some (change, wl) ↔ roundStep change wl b = some .notify) ∨
    (∃ cb n, b = .callback cb n ∧ o.code.duties item? = [] ∧ acts (o.events.map (t, ·)) = [(t, .call (cb, n))]) ∨
    (b.callback? = none ∧ o.code.duties Block.callback? = [] ∧ (∀ change wl, roundStep change wl b ≠ some .notify) ∧
      acts (o.events.map (t, ·)) = []) := by
  cases hnotifies : b.notifies with
  | true =>
    left
    cases b with
    | notifyWakelock change' holder =>
      obtain rfl := Option.some.inj h
      refine ⟨roundOf change' holder, _, rfl, items_notifyAll _ _ _, rfl, fun change wl => ?_⟩
      cases holder with
      | wakeLock wl' => simp [roundOf, roundStep]
      | direct name pid => simp [roundOf, roundStep]
    | notifyWakeup success reasons =>
      obtain rfl := Option.some.inj h
      refine ⟨none, _, rfl, items_notifyAll _ _ _, rfl, fun change wl => ?_⟩
      simp [roundStep]
    | _ => cases hnotifies
  | false =>
    right
    have hframe := exec_frame h
    cases hcallback : b.callback? with
    | some p =>
      left
      cases b with
      | callback cb n =>
        obtain rfl := Option.some.inj h
        refine ⟨cb, n, rfl, ?_, rfl⟩
        simp only [callback]
        cases env.call <;> rfl
      | _ => cases hcallback
    | none =>
      right
      refine ⟨rfl, hframe.calls hnotifies, fun change wl hstep => ?_, ?_⟩
      · obtain rfl := roundStep_notify hstep
        cases hnotifies
      · refine List.filterMap_eq_nil_iff.mpr ?_
        rintro ⟨u, x⟩ he
        have hround := not_of_filter (hframe.rounds hnotifies) t _ he
        have htold := not_of_filter (hframe.told hcallback) t _ he
        cases x with
        | notifyWakelock change holder callbacks => cases hround
        | notifyWakeup success reasons callbacks => cases hround
        | callback cb n => cases htold
        | _ => rfl

theorem roundStep_of_item {r : Round} (h : item? b = some (.inr r)) :
    ∃ change wl, r = some (change, wl) ∧ roundStep change wl b = some .finish := by
  unfold item? at h
  split at h
  · cases h
  · obtain rfl := Sum.inr.inj (Option.some.inj h)
    exact ⟨_, _, rfl, if_pos ⟨rfl, rfl⟩⟩
  · obtain rfl := Sum.inr.inj (Option.some.inj h)
    exact ⟨_, _, rfl, if_pos ⟨rfl, rfl⟩⟩
  · cases h

theorem item_of_finish {change : Change} {wl : Nat} (h : roundStep change wl b = some .finish) :
    item? b = some (.inr (some (change, wl))) := by
  unfold roundStep at h
  split at h
  · simp at h
  · rw [Option.ite_none_right_eq_some] at h
    rw [h.1.1, ← h.1.2]
    rfl
  · rw [Option.ite_none_right_eq_some] at h
    rw [h.1.1, ← h.1.2]
    rfl
  · cases h

theorem items_of_calls {code : ThreadCode} (h : code.duties Block.callback? = []) {x : Call ⊕ Round}
    (hx : x ∈ code.duties item?) :
    ∃ change wl, x = .inr (some (change, wl)) ∧ .finish ∈ code.duties (roundStep change wl) := by
  obtain ⟨b, hb, hbx⟩ := Code.mem_duties.mp hx
  cases x with
  | inl call =>
    have hnone := Code.none_of_duties h hb
    cases b with
    | callback cb n => cases hnone
    | returnWakeLock wl => cases hbx
    | onceDone wl destructor => cases hbx
    | _ => cases hbx
  | inr r =>
    obtain ⟨change, wl, rfl, hfinish⟩ := roundStep_of_item hbx
    exact ⟨change, wl, rfl, Code.mem_duties.mpr ⟨b, hb, hfinish⟩⟩

section ran

variable (h : Rounding s) (hlocks : Locks s) (hr : (program cfg).Ran s a s' t b env c o)

theorem acts_of_ran (hr : (program cfg).Ran s a s' t b env c o) :
    acts s'.log = acts (o.events.map (t, ·)) ++ acts s.log := by
  rw [hr.log, acts_append]

theorem starts_of_ran (hr : (program cfg).Ran s a s' t b env c o) (change : Change) (wl : Nat) :
    ∃ calls, starts (some (change, wl)) (acts s'.log) =
      if roundStep change wl b = some .notify then (t, calls) :: starts (some (change, wl)) (acts s.log)
      else starts (some (change, wl)) (acts s.log) := by
  rw [acts_of_ran hr]
  rcases exec_acts (exec_of_ran hr) with ⟨r, calls, -, -, hnew, hround⟩ | ⟨cb, n, rfl, -, hnew⟩ | ⟨-, -, hstep, hnew⟩
  · rw [hnew, List.singleton_append]
    refine ⟨calls, ?_⟩
    by_cases hr : r = some (change, wl)
    · rw [if_pos ((hround change wl).mp hr), hr, starts_cons_self]
    · rw [if_neg (mt (hround change wl).mpr hr), starts_cons_ne hr]
  · rw [hnew, List.singleton_append]
    exact ⟨[], rfl⟩
  · rw [hnew, List.nil_append]
    exact ⟨[], (if_neg (hstep change wl)).symm⟩

include h hr

/-- A thread that comes to the end of a round has no call of it left. -/
theorem Rounding.finish_ran {change : Change} {wl : Nat} (hstep : roundStep change wl b = some .finish) (u : Tid) :
    under (some (change, wl)) (pending u (acts s.log)) = [] := by
  have hself := h.aligned t
  rw [hr.duties_before, item_of_finish hstep] at hself
  have htodo : (s.code t).duties (roundStep change wl) = .finish :: c.duties (roundStep change wl) := by
    rw [hr.duties_before, hstep]
    rfl
  obtain ⟨-, -, -, calls, hstarts⟩ := (h.phases change wl).of_finish htodo
  by_cases hu : u = t
  · rw [hu]
    exact hself.of_finish.1
  · exact (accounted h.orderly hstarts).2 u hu

theorem Rounding.orderly_ran : Orderly (acts s'.log) := by
  rw [acts_of_ran hr]
  rcases exec_acts (exec_of_ran hr) with ⟨r, calls, -, -, hnew, -⟩ | ⟨cb, n, rfl, -, hnew⟩ | ⟨-, -, -, hnew⟩
  · rw [hnew]
    exact h.orderly
  · rw [hnew]
    have hself := h.aligned t
    rw [hr.duties_before] at hself
    obtain ⟨r, hhead, -⟩ := Aligned.of_call hself
    exact ⟨⟨r, hhead⟩, h.orderly⟩
  · rw [hnew]
    exact h.orderly

include hlocks

theorem Rounding.phase_ran (change : Change) (wl : Nat) :
    RoundPhase (fun u => (s'.code u).duties (roundStep change wl)) (starts (some (change, wl)) (acts s'.log))
      (roundPath change s'.shared.wakeLocks[wl]?) := by
  obtain ⟨calls, hstarts⟩ := starts_of_ran hr change wl
  exact (h.phases change wl).step (round_effect hlocks hr change wl) hr.duties_before hr.duties_self
    (fun u hu => hr.duties_other hu (duties_of_spawn hr rfl)) hstarts

theorem Rounding.aligned_ran (u : Tid) : Aligned ((s'.code u).duties item?) (pending u (acts s'.log)) := by
  rw [acts_of_ran hr]
  have hself := h.aligned t
  rw [hr.duties_before] at hself
  by_cases hu : u = t
  · subst hu
    rw [hr.duties_self]
    rcases exec_acts (exec_of_ran hr) with ⟨r, calls, hitem, hcode, hnew, -⟩ | ⟨cb, n, rfl, hcode, hnew⟩ |
      ⟨hcallback, hcalls, -, hnew⟩
    · rw [hnew, hcode, List.singleton_append, pending_start_self]
      rw [hitem] at hself
      exact hself.start r calls
    · rw [hnew, hcode, List.singleton_append, pending_call_self]
      obtain ⟨r, -, hrest⟩ := Aligned.of_call hself
      exact hrest
    · rw [hnew, List.nil_append]
      have hrest : Aligned (c.duties item?) (pending u (acts s.log)) := by
        cases hitem : item? b with
        | none => rwa [hitem] at hself
        | some x =>
          rw [hitem] at hself
          cases x with
          | inl call => cases b <;> simp_all [item?, Block.callback?]
          | inr r => exact (Aligned.of_finish hself).2
      refine hrest.ends fun x hx => ?_
      -- a block that leaves the end of a round to be done has only just come to its path
      obtain ⟨change, wl, rfl, hfinish⟩ := items_of_calls hcalls hx
      refine ⟨_, rfl, ?_⟩
      have heffect := round_effect hlocks hr change wl
      have hphase := h.phases change wl
      generalize roundPath change s.shared.wakeLocks[wl]? = p at heffect hphase
      generalize Code.duties (roundStep change wl) o.code = steps at heffect hfinish
      generalize roundPath change s'.shared.wakeLocks[wl]? = p' at heffect
      cases heffect with
      | same p block => cases hfinish
      | notified p block => cases hfinish
      | closed p block => cases hfinish
      | opened block =>
        cases hphase with
        | before idle none => exact pending_of_unstarted none u
  · rw [hr.duties_other hu (duties_of_spawn hr rfl)]
    have hother := h.aligned u
    rcases exec_acts (exec_of_ran hr) with ⟨r, calls, -, -, hnew, -⟩ | ⟨cb, n, -, -, hnew⟩ | ⟨-, -, -, hnew⟩
    · rw [hnew, List.singleton_append, pending_start_ne (Ne.symm hu)]
      exact hother
    · rw [hnew, List.singleton_append, pending_call_ne (Ne.symm hu)]
      exact hother
    · rw [hnew]
      exact hother

theorem Rounding.complete_ran (change : Change) (wl : Nat) (hover : roundPath change s'.shared.wakeLocks[wl]? = .after)
    (u : Tid) : under (some (change, wl)) (pending u (acts s'.log)) = [] := by
  have hbefore : under (some (change, wl)) (pending u (acts s.log)) = [] ∧ roundStep change wl b ≠ some .notify := by
    have heffect := round_effect hlocks hr change wl
    have hphase := h.phases change wl
    have hcomplete := h.complete change wl
    have htodo : ∀ x, roundStep change wl b = some x →
        (s.code t).duties (roundStep change wl) = x :: c.duties (roundStep change wl) := fun x hx => by
      rw [hr.duties_before, hx]
      rfl
    generalize roundPath change s.shared.wakeLocks[wl]? = p at heffect hphase hcomplete
    rw [hover] at heffect
    generalize Code.duties (roundStep change wl) o.code = steps at heffect
    cases heffect with
    | same p block => exact ⟨hcomplete rfl u, by simp [block]⟩
    | notified p block => cases (hphase.of_notify (htodo _ block)).1
    | closed p block => exact ⟨h.finish_ran hr block u, by simp [block]⟩
  rw [acts_of_ran hr]
  rcases exec_acts (exec_of_ran hr) with ⟨r, calls, -, -, hnew, hround⟩ | ⟨cb, n, -, -, hnew⟩ | ⟨-, -, -, hnew⟩
  · rw [hnew]
    refine pending_cons hbefore.1 fun calls' he => hbefore.2 ?_
    obtain ⟨rfl, -⟩ := Act.start.inj he
    exact (hround change wl).mp rfl
  · rw [hnew]
    exact pending_cons hbefore.1 fun calls' he => by cases he
  · rw [hnew]
    exact hbefore.1

theorem Rounding.ran : Rounding s' where
  orderly := h.orderly_ran hr
  aligned := h.aligned_ran hlocks hr
  phases := h.phase_ran hlocks hr
  complete := h.complete_ran hlocks hr

end ran

theorem Rounding.quiet (h : Rounding s) (hq : (program cfg).Quiet s a s') : Rounding s' where
  orderly := by
    rw [hq.log]
    exact h.orderly
  aligned u := by
    rw [hq.log, duties_of_quiet hq (fun _ => rfl)]
    exact h.aligned u
  phases change wl := by
    rw [hq.log, hq.shared]
    exact (h.phases change wl).congr fun u => duties_of_quiet hq (fun _ => rfl) u
  complete change wl := by
    rw [hq.log, hq.shared]
    exact h.complete change wl

theorem reach_rounding {ok : ServiceState → ServiceAction → Prop} (h : (program cfg).Reach ok s) : Rounding s := by
  refine h.invariant (I := Rounding) ⟨trivial, fun u => .nil, fun change wl => ?_, fun change wl hover => ?_⟩
    fun s a s' hreach _ hs hstep => ?_
  · exact RoundPhase.before (fun u => rfl) rfl
  · cases hover
  · rcases hstep.quiet_or_ran with hq | ⟨t, b, env, c, o, hr⟩
    · exact hs.quiet hq
    · exact hs.ran (reach_locks hreach) hr

end calls

end HardwareInterfaces.Suspend.Service
