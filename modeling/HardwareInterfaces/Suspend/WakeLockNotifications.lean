import HardwareInterfaces.Suspend.WakeLockRounds

/-!
# Exactly one notification for each change of a wake lock

Every wake lock object makes one round of calls for its acquisition and, when it is released or destroyed, one for its
release, which starts after the first is over (`wakelock_notifications`). A callback that is registered under the name
all the time is in both rounds, so that it is told of no more releases than acquisitions. Its calls do not say which
object they are about: a callback with several names can be called for a release and for no acquisition
(`released_of_second_name`).
-/

namespace HardwareInterfaces.Suspend.Service

open CppStd Monitor Mutex Rounds

/-! ### Releases that have returned -/

def onceDuty (wl : Nat) : Block → Option Unit
  | .callOnce wl' _ => if wl' = wl then some () else none
  | .onceDone wl' _ => if wl' = wl then some () else none
  | _ => none

/-- A client has released the object, or destroyed it. -/
def Dropped (s : ServiceState) (t : Tid) (wl : Nat) : Prop :=
  (t, .release wl) ∈ s.log ∨ (t, .destroy wl) ∈ s.log

/-- Whoever has released an object is past the callable of its once flag, or still comes to it. -/
def Releases (s : ServiceState) : Prop :=
  ∀ t wl, Dropped s t wl →
    roundPath .release s.shared.wakeLocks[wl]? = .after ∨ (s.code t).duties (onceDuty wl) ≠ []

section releases

variable {cfg : Config} {s s' : ServiceState} {a : ServiceAction} {t u : Tid} {b : Block} {env : Env}
  {c : ThreadCode} {o : Out} {σ : Shared} {wl : Nat}

theorem RoundEffect.after {x : Option RoundStep} {p p' : RoundPath} {steps : List RoundStep}
    (h : RoundEffect t x p p' steps) (hover : p = .after) : p' = .after := by
  cases h with
  | same p block => exact hover
  | opened block => cases hover
  | notified p block => exact hover
  | closed p block => rfl

theorem block_of_release (h : exec cfg t env σ b = some o) (he : .release wl ∈ o.events) : b = .op (.release wl) := by
  have hmem := mem_recorded h he rfl
  unfold recorded at hmem
  split at hmem <;> simp at hmem
  rw [hmem]

theorem block_of_destroy (h : exec cfg t env σ b = some o) (he : .destroy wl ∈ o.events) :
    b = .op (.destroyWakeLock wl) ∨ b = .beginDestroy wl := by
  have hmem := mem_recorded h he rfl
  unfold recorded at hmem
  split at hmem <;> simp at hmem
  · exact Or.inl (by rw [hmem])
  · exact Or.inr (by rw [hmem])

theorem once_of_beginDestroy (h : beginDestroy t σ wl = some o) : o.code.duties (onceDuty wl) ≠ [] := by
  obtain ⟨-, rfl⟩ := beginDestroy_eq h
  simp [onceDuty]

theorem once_of_release (h : exec cfg t env σ b = some o) (he : .release wl ∈ o.events) :
    o.code.duties (onceDuty wl) ≠ [] := by
  obtain rfl := block_of_release h he
  simp only [exec, execOp, release] at h
  split at h
  · obtain rfl := Option.some.inj h
    simp [onceDuty]
  · cases h

theorem once_of_destroy (h : exec cfg t env σ b = some o) (he : .destroy wl ∈ o.events) :
    o.code.duties (onceDuty wl) ≠ [] := by
  rcases block_of_destroy h he with rfl | rfl
  · simp only [exec, execOp, destroyWakeLock] at h
    split at h
    · exact once_of_beginDestroy h
    · cases h
  · exact once_of_beginDestroy h

theorem dropped_of_ran (hr : (program cfg).Ran s a s' t b env c o) (h : Dropped s' u wl) :
    Dropped s u wl ∨ u = t ∧ o.code.duties (onceDuty wl) ≠ [] := by
  rcases h with h | h
  · rcases hr.mem_log.mp h with ⟨rfl, he⟩ | h
    · exact Or.inr ⟨rfl, once_of_release (exec_of_ran hr) he⟩
    · exact Or.inl (Or.inl h)
  · rcases hr.mem_log.mp h with ⟨rfl, he⟩ | h
    · exact Or.inr ⟨rfl, once_of_destroy (exec_of_ran hr) he⟩
    · exact Or.inl (Or.inr h)

/-- A call of `std::call_once` comes to the end of the callable, or finds it done. -/
theorem once_of_ran (hlocks : Locks s) (hr : (program cfg).Ran s a s' t b env c o) (hb : onceDuty wl b ≠ none) :
    roundPath .release s'.shared.wakeLocks[wl]? = .after ∨ o.code.duties (onceDuty wl) ≠ [] := by
  have heffect := round_effect hlocks hr .release wl
  have hexec := exec_of_ran hr
  cases b with
  | callOnce wl' destructor =>
    obtain rfl : wl' = wl := by
      by_contra hne
      exact hb (if_neg hne)
    simp only [exec, callOnce] at hexec
    split at hexec
    · obtain rfl := Option.some.inj hexec
      right
      simp [onceDuty]
    · cases hexec
    · rename_i hdone
      left
      refine heffect.after ?_
      cases hw : s.shared.wakeLocks[wl']? with
      | none => simp [hw] at hdone
      | some w =>
        have hflag : w.mReleased = .done := by simpa [hw] using hdone
        simp [roundPath, hflag]
  | onceDone wl' destructor =>
    obtain rfl : wl' = wl := by
      by_contra hne
      exact hb (if_neg hne)
    left
    have hstep : roundStep .release wl' (.onceDone wl' destructor) = some .finish := if_pos ⟨rfl, rfl⟩
    rw [hstep] at heffect
    generalize Code.duties (roundStep .release wl') o.code = steps at heffect
    generalize roundPath .release s.shared.wakeLocks[wl']? = p at heffect
    generalize roundPath .release s'.shared.wakeLocks[wl']? = p' at heffect ⊢
    cases heffect with
    | same p block => cases block
    | opened block => cases block
    | notified p block => cases block
    | closed p block => rfl
  | _ => exact absurd rfl hb

theorem Releases.ran (h : Releases s) (hlocks : Locks s) (hr : (program cfg).Ran s a s' t b env c o) : Releases s' := by
  intro u wl hdropped
  rcases dropped_of_ran hr hdropped with hbefore | ⟨rfl, hnew⟩
  · rcases h u wl hbefore with hover | hleft
    · exact Or.inl ((round_effect hlocks hr .release wl).after hover)
    · by_cases hu : u = t
      · subst hu
        rw [hr.duties_self]
        rw [hr.duties_before] at hleft
        cases hb : onceDuty wl b with
        | none =>
          rw [hb] at hleft
          exact Or.inr fun hnil => hleft (List.append_eq_nil_iff.mp hnil).2
        | some x =>
          refine (once_of_ran hlocks hr (by rw [hb]; simp)).imp id fun hcode hnil => hcode ?_
          exact (List.append_eq_nil_iff.mp hnil).1
      · rw [hr.duties_other hu (duties_of_spawn hr rfl)]
        exact Or.inr hleft
  · right
    rw [hr.duties_self]
    exact fun hnil => hnew (List.append_eq_nil_iff.mp hnil).1

theorem reach_releases {ok : ServiceState → ServiceAction → Prop} (h : (program cfg).Reach ok s) : Releases s := by
  refine h.invariant (I := Releases) (fun t wl hdropped => ?_) fun s a s' hreach _ hs hstep => ?_
  · rcases hdropped with hmem | hmem <;> cases hmem
  · rcases hstep.quiet_or_ran with hq | ⟨t, b, env, c, o, hr⟩
    · intro t wl hdropped
      rw [hq.shared, duties_of_quiet hq (fun _ => rfl)]
      rw [Dropped, hq.log] at hdropped
      exact hs t wl hdropped
    · exact hs.ran (reach_locks hreach) hr

end releases

/-! ### The two rounds of an object -/

/-- The rounds of the object `wl` so far. -/
structure Notified (s : ServiceState) (wl : Nat) (w : WakeLock) : Prop where
  acquired_once : (starts (some (.acquire, wl)) (acts s.log)).length ≤ 1
  returned : s.code w.acquirer = [] → w.acquisition = .returned
  acquired : w.acquisition = .returned → Finished (some (.acquire, wl)) (acts s.log)
  unreleased : w.mReleased = .idle → starts (some (.release, wl)) (acts s.log) = []
  released_once : (starts (some (.release, wl)) (acts s.log)).length ≤ 1
  released : ∀ t, Dropped s t wl → s.code t = [] → Finished (some (.release, wl)) (acts s.log)

/-- A round that thread `t` started with the callbacks `cbs`: it calls them in their order, each once, before it returns,
and nobody else makes calls of it. -/
structure Accounted (s : ServiceState) (change : Change) (wl : Nat) (t : Tid) (cbs : List Callback) : Prop where
  distinct : (cbs.map Callback.binder).Nodup
  calls : (under (some (change, wl)) (made (acts s.log))).reverse ++
    under (some (change, wl)) (pending t (acts s.log)) = cbs.map (·, notificationOf change)
  others : ∀ u, u ≠ t → under (some (change, wl)) (pending u (acts s.log)) = []
  ended : s.code t = [] → under (some (change, wl)) (pending t (acts s.log)) = []

section rounds

variable {cfg : Config} {ok : ServiceState → ServiceAction → Prop} {s s' : ServiceState} {a : ServiceAction} {t : Tid}
  {b : Block} {env : Env} {c : ThreadCode} {o : Out} {σ : Shared} {change : Change} {wl : Nat} {w : WakeLock}

theorem block_of_notifyWakelock {holder : Holder} {cbs : List Callback} (h : exec cfg t env σ b = some o)
    (he : .notifyWakelock change holder cbs ∈ o.events) :
    b = .notifyWakelock change holder ∧ cbs = σ.control.wakelockCallbacks (σ.keyOf holder).1 := by
  cases hnotifies : b.notifies with
  | false => cases not_of_filter ((exec_frame h).rounds hnotifies) t _ (List.mem_map_of_mem he)
  | true =>
    cases b with
    | notifyWakelock change' holder' =>
      obtain rfl := Option.some.inj h
      obtain ⟨rfl, rfl, rfl⟩ := Ev.notifyWakelock.inj (List.mem_singleton.mp he)
      exact ⟨rfl, rfl⟩
    | notifyWakeup success reasons =>
      obtain rfl := Option.some.inj h
      cases List.mem_singleton.mp he
    | _ => cases hnotifies

theorem RoundPhase.once {todo : Tid → List RoundStep} {starts : List (Tid × List Call)} {p : RoundPath}
    (h : RoundPhase todo starts p) : starts.length ≤ 1 := by
  cases h with
  | before idle none => rw [none]; exact Nat.zero_le 1
  | toNotify t self others none => rw [none]; exact Nat.zero_le 1
  | notified t calls self others once => rw [once]; exact Nat.le_refl 1
  | after t calls idle once => rw [once]; exact Nat.le_refl 1

theorem Rounding.finished (h : Rounding s) (hover : roundPath change s.shared.wakeLocks[wl]? = .after) :
    Finished (some (change, wl)) (acts s.log) := by
  have hphase := h.phases change wl
  have hcomplete := h.complete change wl hover
  rw [hover] at hphase
  cases hphase with
  | after t calls idle once => exact finished_of_pending h.orderly once (hcomplete t)

theorem Rounding.unstarted (h : Rounding s) (hbefore : roundPath change s.shared.wakeLocks[wl]? = .before) :
    starts (some (change, wl)) (acts s.log) = [] := by
  have hphase := h.phases change wl
  rw [hbefore] at hphase
  cases hphase with
  | before idle none => exact none

theorem Rounding.exists (h : Rounding s) (hstarts : starts (some (change, wl)) (acts s.log) ≠ []) :
    ∃ w, s.shared.wakeLocks[wl]? = some w := by
  cases hw : s.shared.wakeLocks[wl]? with
  | some w => exact ⟨w, rfl⟩
  | none => exact absurd (h.unstarted (by rw [hw]; rfl)) hstarts

theorem acquired_of_released (h : Rounding s) (hlocks : Locks s)
    (hbefore : roundPath .release s.shared.wakeLocks[wl]? ≠ .before) :
    Finished (some (.acquire, wl)) (acts s.log) := by
  cases hw : s.shared.wakeLocks[wl]? with
  | none => exact absurd (by rw [hw]; rfl) hbefore
  | some w =>
    have hreleased : w.mReleased ≠ .idle := fun hidle => hbefore (by simp [hw, roundPath, hidle])
    have hreturned := (hlocks.inv wl w hw).released hreleased
    exact h.finished (by simp [hw, roundPath, hreturned])

theorem reach_notified (h : (program cfg).Reach ok s) (hw : s.shared.wakeLocks[wl]? = some w) : Notified s wl w := by
  have hrounding := reach_rounding h
  have hinv := (reach_locks h).inv wl w hw
  refine ⟨(hrounding.phases .acquire wl).once, fun hidle => ?_, fun hreturned => hrounding.finished ?_,
    fun hidle => hrounding.unstarted ?_, (hrounding.phases .release wl).once,
    fun t hdropped hidle => hrounding.finished ?_⟩
  · have hleft := hinv.acquiring w.acquirer
    rw [hidle, if_pos rfl] at hleft
    unfold acquisitionLeft at hleft
    split at hleft
    · cases hleft
    · cases hleft
    · cases hleft
    · assumption
  · simp [hw, roundPath, hreturned]
  · simp [hw, roundPath, hidle]
  · refine (reach_releases h t wl hdropped).resolve_right ?_
    rw [hidle]
    exact fun hne => hne rfl

theorem reach_ordered (h : (program cfg).Reach ok s) :
    History.Historically (fun e older => ∀ wl cbs, e.2 = .notifyWakelock .release (.wakeLock wl) cbs →
      Finished (some (.acquire, wl)) (acts older)) s.log := by
  refine h.on_blocks (I := fun _ log => History.Historically (fun e older => ∀ wl cbs,
    e.2 = .notifyWakelock .release (.wakeLock wl) cbs → Finished (some (.acquire, wl)) (acts older)) log) trivial ?_
  intro s a s' t b env c o hreach _ hr hs
  by_cases hb : ∃ wl, b = .notifyWakelock .release (.wakeLock wl)
  · obtain ⟨wl, rfl⟩ := hb
    obtain rfl := Option.some.inj (exec_of_ran hr)
    refine ⟨fun wl' cbs he => ?_, hs⟩
    obtain ⟨-, hholder, -⟩ := Ev.notifyWakelock.inj he
    obtain rfl := Holder.wakeLock.inj hholder
    have hrounding := reach_rounding hreach
    refine acquired_of_released hrounding (reach_locks hreach) fun hbefore => ?_
    have hphase := hrounding.phases .release wl
    rw [hbefore] at hphase
    cases hphase with
    | before idle none =>
      have hnone := idle t
      rw [hr.duties_before, roundStep, if_pos ⟨rfl, rfl⟩] at hnone
      cases hnone
  · refine hs.append fun e he older wl cbs hkind => absurd ?_ hb
    obtain ⟨x, hx, rfl⟩ := List.mem_map.mp he
    obtain rfl : x = _ := hkind
    exact ⟨wl, (block_of_notifyWakelock (exec_of_ran hr) hx).1⟩

theorem reach_distinct (h : (program cfg).Reach ok s) {holder : Holder} {cbs : List Callback}
    (he : (t, .notifyWakelock change holder cbs) ∈ s.log) : (cbs.map Callback.binder).Nodup := by
  obtain ⟨s₀, a, s₁, b, env, c, o, hreach, -, hr, hmem, -⟩ := h.recorded he
  rw [(block_of_notifyWakelock (exec_of_ran hr) hmem).2]
  exact reach_nodup hreach _

theorem start_mem_acts {cbs : List Callback} (he : (t, .notifyWakelock change (.wakeLock wl) cbs) ∈ s.log) :
    (t, .start (some (change, wl)) (cbs.map (·, notificationOf change))) ∈ acts s.log :=
  List.mem_filterMap.mpr ⟨_, he, rfl⟩

theorem reach_accounted (h : (program cfg).Reach ok s) {cbs : List Callback}
    (he : (t, .notifyWakelock change (.wakeLock wl) cbs) ∈ s.log) : Accounted s change wl t cbs := by
  have hrounding := reach_rounding h
  have hmem := mem_starts.mpr (start_mem_acts he)
  have honce := (hrounding.phases change wl).once
  have hstarts : starts (some (change, wl)) (acts s.log) = [(t, cbs.map (·, notificationOf change))] := by
    cases hlist : starts (some (change, wl)) (acts s.log) with
    | nil =>
      rw [hlist] at hmem
      cases hmem
    | cons x rest =>
      rw [hlist] at hmem honce
      obtain rfl : rest = [] := List.eq_nil_of_length_eq_zero (by rw [List.length_cons] at honce; omega)
      rw [List.mem_singleton.mp hmem]
  obtain ⟨hcalls, hothers⟩ := accounted hrounding.orderly hstarts
  refine ⟨reach_distinct h he, hcalls, hothers, fun hidle => ?_⟩
  have haligned := hrounding.aligned t
  rw [hidle] at haligned
  generalize pending t (acts s.log) = todo at haligned ⊢
  cases haligned with
  | nil => rfl

theorem exists_of_notify (h : (program cfg).Reach ok s)
    (hcode : s.code t = .run (.notifyWakelock change (.wakeLock wl)) :: c) : ∃ w, s.shared.wakeLocks[wl]? = some w := by
  have htodo : (s.code t).duties (roundStep change wl) = .notify :: c.duties (roundStep change wl) := by
    rw [hcode, Code.duties_run, roundStep, if_pos ⟨rfl, rfl⟩]
    rfl
  have hduring := (((reach_rounding h).phases change wl).of_notify htodo).1
  cases hw : s.shared.wakeLocks[wl]? with
  | some w => exact ⟨w, rfl⟩
  | none =>
    rw [hw] at hduring
    cases hduring

theorem snapshot (h : (program cfg).Reach ok s) {pick : Option Tid}
    (hcode : s.code t = .run (.notifyWakelock change (.wakeLock wl)) :: c)
    (hstep : (program cfg).step s (.step t env pick) = some s') :
    ∃ w, s.shared.wakeLocks[wl]? = some w ∧
      s'.log = (t, .notifyWakelock change (.wakeLock wl) (s.shared.control.wakelockCallbacks w.mName)) :: s.log := by
  obtain ⟨w, hw⟩ := exists_of_notify h hcode
  obtain ⟨o, hr⟩ := (Program.step_cases hstep).ran_of_code hcode
  obtain rfl := Option.some.inj (exec_of_ran hr)
  refine ⟨w, hw, hr.log.trans ?_⟩
  simp [notifyWakelock, Shared.keyOf, hw, WakeLock.key]

theorem notified_of_ran (h : (program cfg).Reach ok s) (hr : (program cfg).Ran s a s' t b env c o) {u : Tid}
    {cbs : List Callback} (he : (u, .notifyWakelock change (.wakeLock wl) cbs) ∈ s'.log) :
    (u, .notifyWakelock change (.wakeLock wl) cbs) ∈ s.log ∨
      ∃ w, s.shared.wakeLocks[wl]? = some w ∧ cbs = s.shared.control.wakelockCallbacks w.mName := by
  refine (hr.mem_log.mp he).symm.imp id fun ⟨_, he⟩ => ?_
  obtain ⟨rfl, hcbs⟩ := block_of_notifyWakelock (exec_of_ran hr) he
  obtain ⟨w, hw⟩ := exists_of_notify h hr.code
  refine ⟨w, hw, hcbs.trans ?_⟩
  simp [Shared.keyOf, hw, WakeLock.key]

/-- What started a round. -/
theorem event_of_start {r : Round} {calls : List Call} (h : (t, .start r calls) ∈ acts s.log) :
    (∃ change holder cbs, (t, .notifyWakelock change holder cbs) ∈ s.log ∧ r = roundOf change holder ∧
      calls = cbs.map (·, notificationOf change)) ∨
    ∃ (success : Bool) (reasons : List StdString) (cbs : List Callback), r = none ∧
      calls = cbs.map (·, .notifyWakeup success reasons) := by
  obtain ⟨⟨u, e⟩, he, hact⟩ := List.mem_filterMap.mp h
  obtain ⟨x, hx, hsame⟩ := Option.map_eq_some_iff.mp hact
  obtain ⟨rfl, rfl⟩ := Prod.mk.inj hsame
  cases e with
  | notifyWakelock change holder cbs =>
    obtain ⟨rfl, rfl⟩ := Act.start.inj (Option.some.inj hx)
    exact Or.inl ⟨change, holder, cbs, he, rfl, rfl⟩
  | notifyWakeup success reasons cbs =>
    obtain ⟨rfl, rfl⟩ := Act.start.inj (Option.some.inj hx)
    exact Or.inr ⟨success, reasons, cbs, rfl, rfl⟩
  | callback cb notification => cases Option.some.inj hx
  | _ => cases hx

theorem event_of_starts {calls : List Call} (h : (t, calls) ∈ starts (some (change, wl)) (acts s.log)) :
    ∃ cbs, (t, .notifyWakelock change (.wakeLock wl) cbs) ∈ s.log ∧ calls = cbs.map (·, notificationOf change) := by
  rcases event_of_start (mem_starts.mp h) with ⟨change', holder, cbs, he, hround, rfl⟩ | ⟨_, _, _, hround, -⟩
  · cases holder with
    | direct name pid => cases hround
    | wakeLock wl' =>
      obtain ⟨rfl, rfl⟩ := Prod.mk.inj (Option.some.inj hround)
      exact ⟨cbs, he, rfl⟩
  · cases hround

theorem reach_under_nodup (h : (program cfg).Reach ok s) (change : Change) (wl : Nat) :
    (under (some (change, wl)) (made (acts s.log))).Nodup := by
  cases hstarts : starts (some (change, wl)) (acts s.log) with
  | nil =>
    rw [made_of_unstarted hstarts]
    exact List.nodup_nil
  | cons x rest =>
    obtain ⟨t, calls⟩ := x
    have hmem : (t, calls) ∈ starts (some (change, wl)) (acts s.log) := by
      rw [hstarts]
      exact List.mem_cons_self
    obtain ⟨cbs, he, -⟩ := event_of_starts hmem
    have haccounted := reach_accounted h he
    have hnodup : (cbs.map (·, notificationOf change)).Nodup :=
      haccounted.distinct.of_map.map fun cb cb' hsame => (Prod.mk.inj hsame).1
    rw [← haccounted.calls] at hnodup
    exact List.nodup_reverse.mp hnodup.of_append_left

end rounds

/-! ### What one callback is told -/

def named (s : ServiceState) (name : StdString) (wl : Nat) : Bool :=
  s.shared.wakeLocks[wl]?.any fun w => w.mName = name

/-- The objects about whose change `cb` was called, of those that satisfy `p`. -/
def toldAbout (change : Change) (cb : Callback) (p : Nat → Bool) (calls : List (Round × Call)) : List Nat :=
  calls.filterMap fun x => x.1.bind fun r =>
    if r.1 = change ∧ x.2 = (cb, notificationOf change) ∧ p r.2 = true then some r.2 else none

/-- How often `cb` was told about the acquisition, or the release, of an object with the name. -/
def received (s : ServiceState) (change : Change) (cb : Callback) (name : StdString) : Nat :=
  (toldAbout change cb (named s name) (made (acts s.log))).length

def calledWith (s : ServiceState) (cb : Callback) (notification : Notification) : Nat :=
  s.log.countP fun e => e.2 = .callback cb notification

section told

variable {change : Change} {cb : Callback} {p : Nat → Bool} {calls : List (Round × Call)} {wl : Nat}

theorem toldAbout_cons (x : Round × Call) : toldAbout change cb p (x :: calls) =
    (x.1.bind fun r => if r.1 = change ∧ x.2 = (cb, notificationOf change) ∧ p r.2 = true then some r.2
      else none).toList ++ toldAbout change cb p calls := by
  unfold toldAbout
  rw [List.filterMap_cons]
  split
  · rename_i hnone
    rw [hnone]
    rfl
  · rename_i wl hsome
    rw [hsome]
    rfl

theorem mem_toldAbout :
    wl ∈ toldAbout change cb p calls ↔ (some (change, wl), cb, notificationOf change) ∈ calls ∧ p wl = true := by
  induction calls with
  | nil => simp [toldAbout]
  | cons x calls ih =>
    obtain ⟨r, call⟩ := x
    rw [toldAbout_cons, List.mem_append, ih]
    cases r with
    | none => simp
    | some r =>
      obtain ⟨change', wl'⟩ := r
      simp only [Option.bind_some, Option.mem_toList, Option.ite_none_right_eq_some, Option.some.injEq, List.mem_cons,
        Prod.mk.injEq]
      constructor
      · rintro (⟨⟨rfl, rfl, hp⟩, rfl⟩ | ⟨hmem, hp⟩)
        · exact ⟨Or.inl ⟨⟨rfl, rfl⟩, rfl⟩, hp⟩
        · exact ⟨Or.inr hmem, hp⟩
      · rintro ⟨⟨⟨rfl, rfl⟩, rfl⟩ | hmem, hp⟩
        · exact Or.inl ⟨⟨rfl, rfl, hp⟩, rfl⟩
        · exact Or.inr ⟨hmem, hp⟩

theorem nodup_toldAbout (h : ∀ wl, (under (some (change, wl)) calls).Nodup) :
    (toldAbout change cb p calls).Nodup := by
  induction calls with
  | nil => exact List.nodup_nil
  | cons x calls ih =>
    obtain ⟨r, call⟩ := x
    have hrest : ∀ wl, (under (some (change, wl)) calls).Nodup := by
      intro wl
      have hwl := h wl
      by_cases hr : r = some (change, wl)
      · rw [hr, under_cons_self] at hwl
        exact (List.nodup_cons.mp hwl).2
      · rwa [under_cons_ne hr] at hwl
    rw [toldAbout_cons]
    cases hfirst : (r.bind fun r => if r.1 = change ∧ call = (cb, notificationOf change) ∧ p r.2 = true then
        some r.2 else none) with
    | none => exact ih hrest
    | some wl =>
      refine List.nodup_cons.mpr ⟨fun hmem => ?_, ih hrest⟩
      obtain ⟨⟨change', wl'⟩, rfl, hif⟩ := Option.bind_eq_some_iff.mp hfirst
      rw [Option.ite_none_right_eq_some] at hif
      obtain ⟨⟨rfl, rfl, -⟩, hwl⟩ := hif
      obtain rfl := Option.some.inj hwl
      have htwice := h wl'
      rw [under_cons_self] at htwice
      exact (List.nodup_cons.mp htwice).1 (mem_under.mpr (mem_toldAbout.mp hmem).1)

theorem length_toldAbout
    (h : ∀ x ∈ calls, x.2 = (cb, notificationOf change) → ∃ wl, x.1 = some (change, wl) ∧ p wl = true) :
    (toldAbout change cb p calls).length = (calls.map Prod.snd).count (cb, notificationOf change) := by
  induction calls with
  | nil => rfl
  | cons x calls ih =>
    have ih := ih fun y hy => h y (List.mem_cons_of_mem x hy)
    obtain ⟨r, call⟩ := x
    rw [toldAbout_cons, List.length_append, ih, List.map_cons]
    by_cases hcall : call = (cb, notificationOf change)
    · obtain ⟨wl, hr, hp⟩ := h _ List.mem_cons_self hcall
      obtain rfl : r = some (change, wl) := hr
      subst hcall
      rw [List.count_cons_self, Option.bind_some, if_pos ⟨rfl, rfl, hp⟩]
      exact Nat.add_comm 1 _
    · rw [List.count_cons_of_ne hcall]
      cases r with
      | none => exact Nat.zero_add _
      | some r =>
        rw [Option.bind_some, if_neg fun he => hcall he.2.1]
        exact Nat.zero_add _

theorem count_called (log : List (Tid × Ev)) (cb : Callback) (notification : Notification) :
    (called (acts log)).count (cb, notification) = log.countP fun e => e.2 = .callback cb notification := by
  induction log with
  | nil => rfl
  | cons e log ih =>
    obtain ⟨t, x⟩ := e
    have hstep : acts ((t, x) :: log) = ((act? x).map (t, ·)).toList ++ acts log := by
      unfold acts
      rw [List.filterMap_cons]
      cases act? x <;> rfl
    rw [hstep, List.countP_cons]
    cases x with
    | callback cb' n =>
      show ((cb', n) :: called (acts log)).count (cb, notification) = _
      rw [List.count_cons, ih]
      simp
    | notifyWakelock change holder cbs =>
      show (called (acts log)).count (cb, notification) = _
      simpa using ih
    | notifyWakeup success reasons cbs =>
      show (called (acts log)).count (cb, notification) = _
      simpa using ih
    | _ => simpa [act?] using ih

end told

/-! ### Releases follow acquisitions -/

/-- Every round so far for an acquisition of an object with the name has `cb` in its snapshot. -/
def Heard (s : ServiceState) (name : StdString) (cb : Callback) : Prop :=
  ∀ wl, named s name wl = true → ∀ t cbs, (t, .notifyWakelock .acquire (.wakeLock wl) cbs) ∈ s.log → cb ∈ cbs

/-- No acquisition of an object with the name has been announced. -/
def Unacquired (s : ServiceState) (name : StdString) : Prop :=
  ∀ wl, named s name wl = true → ∀ t cbs, (t, .notifyWakelock .acquire (.wakeLock wl) cbs) ∉ s.log

/-- Steps from states in which `cb` is registered under the name. -/
def Listed (ok : ServiceState → ServiceAction → Prop) (name : StdString) (cb : Callback) (s : ServiceState)
    (a : ServiceAction) : Prop :=
  ok s a ∧ cb ∈ s.shared.control.wakelockCallbacks name

/-- Steps over binder from states in which `cb` is registered under no other name. -/
def Only (name : StdString) (cb : Callback) (s : ServiceState) (a : ServiceAction) : Prop :=
  Served s a ∧ ∀ name', name' ≠ name → cb ∉ s.shared.control.wakelockCallbacks name'

section order

variable {cfg : Config} {ok : ServiceState → ServiceAction → Prop} {s s' : ServiceState} {a : ServiceAction} {t : Tid}
  {b : Block} {change : Change} {name : StdString} {cb : Callback} {wl : Nat} {w w' : WakeLock}

theorem Transition.mName (h : Transition t wl w b w') : w'.mName = w.mName := by
  cases h <;> rfl

theorem name_of_step (h : (program cfg).Reach ok s) (hstep : (program cfg).Step s a s')
    (hw : s.shared.wakeLocks[wl]? = some w) : ∃ w', s'.shared.wakeLocks[wl]? = some w' ∧ w'.mName = w.mName := by
  rcases hstep.quiet_or_ran with hq | ⟨t, b, env, c, o, hr⟩
  · exact ⟨w, by rw [hq.shared]; exact hw, rfl⟩
  · cases ((reach_locks h).ran hr).2 with
    | same locks => exact ⟨w, by rw [locks]; exact hw, rfl⟩
    | new w₁ locks =>
      refine ⟨w, ?_, rfl⟩
      rw [locks, List.getElem?_append_left (List.getElem?_eq_some_iff.mp hw).1]
      exact hw
    | change wl₁ w₁ w₁' before locks transition =>
      rw [locks, List.getElem?_set]
      by_cases hwl : wl₁ = wl
      · subst hwl
        rw [before] at hw
        obtain rfl := Option.some.inj hw
        refine ⟨w₁', ?_, transition.mName⟩
        rw [if_pos rfl, if_pos (List.getElem?_eq_some_iff.mp before).1]
      · exact ⟨w, by rw [if_neg hwl]; exact hw, rfl⟩

theorem name_of_runs (h : (program cfg).Reach ok s) (hrun : (program cfg).Runs ok s s')
    (hw : s.shared.wakeLocks[wl]? = some w) : ∃ w', s'.shared.wakeLocks[wl]? = some w' ∧ w'.mName = w.mName := by
  induction hrun with
  | refl => exact ⟨w, hw, rfl⟩
  | tail hrun hstep ih =>
    obtain ⟨w₁, hw₁, hname₁⟩ := ih
    obtain ⟨a, -, hstep⟩ := hstep
    obtain ⟨w₂, hw₂, hname₂⟩ := name_of_step (Program.Runs.reach hrun h) (Program.step_cases hstep) hw₁
    exact ⟨w₂, hw₂, hname₂.trans hname₁⟩

theorem named_iff (hw : s.shared.wakeLocks[wl]? = some w) : named s name wl = true ↔ w.mName = name := by
  simp [named, hw]

theorem named_of_step (h : (program cfg).Reach ok s) (hstep : (program cfg).Step s a s')
    (hw : s.shared.wakeLocks[wl]? = some w) : named s' name wl = true ↔ w.mName = name := by
  obtain ⟨w', hw', hname⟩ := name_of_step h hstep hw
  rw [named_iff hw', hname]

theorem Heard.step (hs : Heard s name cb) (h : (program cfg).Reach ok s)
    (hlisted : cb ∈ s.shared.control.wakelockCallbacks name) (hstep : (program cfg).Step s a s') :
    Heard s' name cb := by
  intro wl hnamed t cbs he
  have hold : (t, .notifyWakelock .acquire (.wakeLock wl) cbs) ∈ s.log → cb ∈ cbs := by
    intro he
    obtain ⟨w, hw⟩ := (reach_rounding h).exists (List.ne_nil_of_mem (mem_starts.mpr (start_mem_acts he)))
    exact hs wl ((named_iff hw).mpr ((named_of_step h hstep hw).mp hnamed)) t cbs he
  rcases hstep.quiet_or_ran with hq | ⟨u, b, env, c, o, hr⟩
  · rw [hq.log] at he
    exact hold he
  · rcases notified_of_ran h hr he with he | ⟨w, hw, rfl⟩
    · exact hold he
    · rw [(named_of_step h hstep hw).mp hnamed]
      exact hlisted

theorem heard_of_runs {s₀ : ServiceState} (h : (program cfg).Reach ok s₀) (hnone : Unacquired s₀ name)
    (hrun : (program cfg).Runs (Listed ok name cb) s₀ s) : Heard s name cb := by
  induction hrun with
  | refl => exact fun wl hnamed t cbs he => absurd he (hnone wl hnamed t cbs)
  | tail hrun hstep ih =>
    obtain ⟨a, ⟨-, hlisted⟩, hstep⟩ := hstep
    have hreach := Program.Runs.reach (Program.Runs.mono (fun _ _ => And.left) hrun) h
    exact ih.step hreach hlisted (Program.step_cases hstep)

/-- Whoever was told about a release was told about the acquisition. -/
theorem told_of_released (h : (program cfg).Reach ok s) (hheard : Heard s name cb)
    (htold : wl ∈ toldAbout .release cb (named s name) (made (acts s.log))) :
    wl ∈ toldAbout .acquire cb (named s name) (made (acts s.log)) := by
  obtain ⟨hmade, hnamed⟩ := mem_toldAbout.mp htold
  have hrounding := reach_rounding h
  have hfinished : Finished (some (.acquire, wl)) (acts s.log) := by
    refine acquired_of_released hrounding (reach_locks h) fun hbefore => ?_
    have hunder := mem_under.mpr hmade
    rw [made_of_unstarted (hrounding.unstarted hbefore)] at hunder
    cases hunder
  obtain ⟨t, calls, hstarts, hcalls⟩ := hfinished
  have hmem : (t, calls) ∈ starts (some (.acquire, wl)) (acts s.log) := by
    rw [hstarts]
    exact List.mem_singleton_self _
  obtain ⟨cbs, he, hcbs⟩ := event_of_starts hmem
  have hcall : (cb, Notification.notifyAcquired) ∈ calls := by
    rw [hcbs]
    exact List.mem_map_of_mem (hheard wl hnamed t cbs he)
  rw [← hcalls, List.mem_reverse] at hcall
  exact mem_toldAbout.mpr ⟨mem_under.mp hcall, hnamed⟩

theorem released_le_acquired (h : (program cfg).Reach ok s) (hheard : Heard s name cb) :
    received s .release cb name ≤ received s .acquire cb name := by
  have hnodup : (toldAbout .release cb (named s name) (made (acts s.log))).Nodup :=
    nodup_toldAbout (reach_under_nodup h .release)
  exact (List.subperm_of_subset hnodup fun wl => told_of_released h hheard).length_le

/-! ### A callback with one name -/

/-- A callback that is registered under one name only is only told about objects with the name. -/
theorem reach_named (h : (program cfg).Reach (Only name cb) s) {holder : Holder} {cbs : List Callback}
    (he : (t, .notifyWakelock change holder cbs) ∈ s.log) (hcb : cb ∈ cbs) :
    ∃ wl, holder = .wakeLock wl ∧ named s name wl = true := by
  obtain ⟨s₀, a, s₁, b, env, c, o, hreach, hok, hr, hmem, hreach₁, hrun⟩ := h.recorded he
  obtain ⟨rfl, hcbs⟩ := block_of_notifyWakelock (exec_of_ran hr) hmem
  have hserved := (reach_served (hreach.mono fun _ _ => And.left)).block hr
  cases holder with
  | direct name pid => cases hserved
  | wakeLock wl =>
    obtain ⟨w, hw⟩ := exists_of_notify hreach hr.code
    obtain rfl := Option.some.inj (exec_of_ran hr)
    have hw₁ : s₁.shared.wakeLocks[wl]? = some w := by rw [hr.shared]; exact hw
    obtain ⟨w', hw', hname⟩ := name_of_runs hreach₁ hrun hw₁
    refine ⟨wl, rfl, (named_iff hw').mpr (hname.trans ?_)⟩
    by_contra hne
    refine hok.2 w.mName hne ?_
    rw [hcbs] at hcb
    simpa [Shared.keyOf, hw, WakeLock.key] using hcb

theorem received_eq_calledWith (h : (program cfg).Reach (Only name cb) s) (change : Change) :
    received s change cb name = calledWith s cb (notificationOf change) := by
  have horderly := (reach_rounding h).orderly
  rw [calledWith, ← count_called, ← made_calls horderly]
  refine length_toldAbout fun x hx hcall => ?_
  obtain ⟨t, calls, hstart, hmem⟩ := mem_made horderly hx
  rw [hcall] at hmem
  rcases event_of_start hstart with ⟨change', holder, cbs, he, hround, rfl⟩ | ⟨success, reasons, cbs, -, rfl⟩
  · obtain ⟨cb', hcb, hsame⟩ := List.mem_map.mp hmem
    obtain ⟨rfl, hnotification⟩ := Prod.mk.inj hsame
    obtain ⟨wl, rfl, hnamed⟩ := reach_named h he hcb
    obtain rfl : change' = change := by cases change <;> cases change' <;> first | rfl | cases hnotification
    exact ⟨wl, hround, hnamed⟩
  · obtain ⟨cb', -, hsame⟩ := List.mem_map.mp hmem
    cases change <;> cases (Prod.mk.inj hsame).2

end order

/-! ### All rounds -/

/-- Every object has one round for its acquisition and, once it is released or destroyed, one for its release, which
starts after the first is over; a round calls exactly the callbacks that are registered under the name when it starts,
each once. While a callback is registered under a name, from before the first acquisition on, it is told about no more
releases than acquisitions of objects with the name; if it has no other name, these are all its calls. -/
theorem wakelock_notifications (cfg : Config) {ok : ServiceState → ServiceAction → Prop} {s : ServiceState}
    (h : (program cfg).Reach ok s) :
    (∀ wl w, s.shared.wakeLocks[wl]? = some w → Notified s wl w) ∧
    (∀ later t wl cbs earlier, s.log = later ++ (t, .notifyWakelock .release (.wakeLock wl) cbs) :: earlier →
      Finished (some (.acquire, wl)) (acts earlier)) ∧
    (∀ t change wl cbs, (t, .notifyWakelock change (.wakeLock wl) cbs) ∈ s.log → Accounted s change wl t cbs) ∧
    (∀ t change wl c env pick s', s.code t = .run (.notifyWakelock change (.wakeLock wl)) :: c →
      (program cfg).step s (.step t env pick) = some s' → ∃ w, s.shared.wakeLocks[wl]? = some w ∧
        s'.log = (t, .notifyWakelock change (.wakeLock wl) (s.shared.control.wakelockCallbacks w.mName)) :: s.log) ∧
    (∀ name cb s', Unacquired s name → (program cfg).Runs (Listed ok name cb) s s' →
      received s' .release cb name ≤ received s' .acquire cb name ∧
        ((program cfg).Reach (Only name cb) s' →
          calledWith s' cb .notifyReleased ≤ calledWith s' cb .notifyAcquired)) := by
  refine ⟨fun wl w => reach_notified h, fun later t wl cbs earlier hlog => ?_, fun t change wl cbs => reach_accounted h,
    fun t change wl c env pick s' => snapshot h, fun name cb s' hnone hrun => ?_⟩
  · exact History.historically_iff.mp (reach_ordered h) later _ earlier hlog wl cbs rfl
  · have hreach := Program.Runs.reach (Program.Runs.mono (fun _ _ => And.left) hrun) h
    have hle := released_le_acquired hreach (heard_of_runs h hnone hrun)
    refine ⟨hle, fun honly => ?_⟩
    rw [received_eq_calledWith honly, received_eq_calledWith honly] at hle
    exact hle

def registers (name : StdString) : List ServiceAction :=
  goCall (.client 0) (.registerWakelockCallback (some ⟨7, false⟩) name) 5

def acquiresAndReleases (name : StdString) : List ServiceAction :=
  goCall (.client 0) (.acquireWakeLock .aidl name) 13 ++ goCall (.client 0) (.release 0) 14

def registersBetween (name : StdString) : List ServiceAction :=
  goCall (.client 0) (.acquireWakeLock .aidl name) 12 ++ registers name ++ goCall (.client 0) (.release 0) 14

/-- The next steps over binder, as long as the callback is registered under "a". -/
def whileListed (s : ServiceState) (actions : List ServiceAction) : Option ServiceState :=
  (program smallConfig).steps
    (fun s a => servedAction a && decide (⟨7, false⟩ ∈ s.shared.control.wakelockCallbacks (str "a"))) s actions

theorem runs_whileListed {s s' : ServiceState} {actions : List ServiceAction} (h : whileListed s actions = some s') :
    (program smallConfig).Runs (Listed Served (str "a") ⟨7, false⟩) s s' := by
  refine Program.Runs.steps (fun s a hcheck => ?_) h
  rwa [Bool.and_eq_true, decide_eq_true_eq] at hcheck

theorem wakelock_notifications_once :
    ∃ s s' : ServiceState, (program smallConfig).Reach Served s ∧ Unacquired s (str "a") ∧
      (program smallConfig).Runs (Listed Served (str "a") ⟨7, false⟩) s s' ∧
      received s' .release ⟨7, false⟩ (str "a") = 1 ∧
      received s' .release ⟨7, false⟩ (str "a") ≤ received s' .acquire ⟨7, false⟩ (str "a") := by
  obtain ⟨s, hreach, hs⟩ := Program.Reach.of_run (program smallConfig) (fun _ => servedAction) (registers (str "a"))
    (fun s => decide (s.shared.wakeLocks = []) && (whileListed s (acquiresAndReleases (str "a"))).any fun s' =>
      decide (received s' .release ⟨7, false⟩ (str "a") = 1))
    (fun _ _ h => h) (by decide +kernel)
  rw [Bool.and_eq_true, decide_eq_true_eq, Option.any_eq_true] at hs
  obtain ⟨hlocks, s', hs', hreleased⟩ := hs
  have hnone : Unacquired s (str "a") := fun wl hnamed => by simp [named, hlocks] at hnamed
  have hrun := runs_whileListed hs'
  exact ⟨s, s', hreach, hnone, hrun, of_decide_eq_true hreleased,
    ((wakelock_notifications smallConfig hreach).2.2.2.2 _ _ s' hnone hrun).1⟩

/-- A callback can hear of a release and of no acquisition, if it is registered under a second name between the two. -/
theorem released_of_second_name :
    ∃ s s' : ServiceState, (program smallConfig).Reach Served s ∧ Unacquired s (str "a") ∧
      (program smallConfig).Runs (Listed Served (str "a") ⟨7, false⟩) s s' ∧
      calledWith s' ⟨7, false⟩ .notifyAcquired < calledWith s' ⟨7, false⟩ .notifyReleased := by
  obtain ⟨s, hreach, hs⟩ := Program.Reach.of_run (program smallConfig) (fun _ => servedAction) (registers (str "a"))
    (fun s => decide (s.shared.wakeLocks = []) && (whileListed s (registersBetween (str "b"))).any fun s' =>
      decide (calledWith s' ⟨7, false⟩ .notifyAcquired < calledWith s' ⟨7, false⟩ .notifyReleased))
    (fun _ _ h => h) (by decide +kernel)
  rw [Bool.and_eq_true, decide_eq_true_eq, Option.any_eq_true] at hs
  obtain ⟨hlocks, s', hs', hreleased⟩ := hs
  exact ⟨s, s', hreach, fun wl hnamed => by simp [named, hlocks] at hnamed, runs_whileListed hs',
    of_decide_eq_true hreleased⟩

end HardwareInterfaces.Suspend.Service
