import HardwareInterfaces.Suspend.AutosuspendThread
import HardwareInterfaces.Suspend.WakeupCounts

/-!
# Every suspend attempt is counted once

After a write of "mem" the autosuspend thread owes three things: an update of the sleep time, an update of the wakeup
list and a notification (`owes`). The number of attempts is at all times the number of each of these that were done plus
the number still owed, and at the head of the loop nothing is owed.
-/

namespace HardwareInterfaces.Suspend.Service

open CppStd Monitor Mutex

/-- The blocks that do, or lead to, a part of the work after an attempt. -/
def owed (w : Block.Work) : Block → Option Unit
  | .updateSleepTime .. => if w = .sleepTime then some () else none
  | .updateWakeupList _ => if w = .wakeups then some () else none
  | .notifyWakeup .. => if w = .notification then some () else none
  | .loop (.readSuspendTime _) => some ()
  | .loop (.readWakeupReasons _) => if w = .sleepTime then none else some ()
  | _ => none

def isAttempt : Ev → Bool
  | .suspend _ => true
  | _ => false

def isDone (w : Block.Work) : Ev → Bool
  | .updateSleepTime .. => w = .sleepTime
  | .updateWakeupList .. => w = .wakeups
  | .notifyWakeup .. => w = .notification
  | _ => false

/-- The number of writes of "mem" by autosuspend threads, failed ones included. -/
def attempts (s : ServiceState) : Nat := s.log.countP fun e => isAttempt e.2

/-- How often a part of the work after an attempt was done. -/
def workDone (s : ServiceState) (w : Block.Work) : Nat := s.log.countP fun e => isDone w e.2

def owes (s : ServiceState) (w : Block.Work) (t : Tid) : Nat := ((s.code t).duties (owed w)).length

theorem owed_eq_nil {c : ThreadCode} (w : Block.Work) (hloop : OutOfLoop c) (hwork : c.duties Block.work? = []) :
    c.duties (owed w) = [] := by
  refine Code.duties_eq_nil fun b hb => ?_
  cases b with
  | updateSleepTime success suspendTime => cases Code.none_of_duties hwork hb
  | updateWakeupList reasons => cases Code.none_of_duties hwork hb
  | notifyWakeup success reasons => cases Code.none_of_duties hwork hb
  | loop l => cases Code.none_of_duties hloop hb
  | _ => rfl

section blocks

variable {cfg : Config} {t : Tid} {env : Env} {σ : Shared} {b : Block} {o : Out}

theorem exec_countP {p : Ev → Bool} (hp : ∀ e, p e = true → tracked e = true) (h : exec cfg t env σ b = some o) :
    o.events.countP p = (recorded env σ b).countP p := by
  rw [← exec_recorded h, List.countP_filter]
  refine List.countP_congr fun e _ => ?_
  simp only [Bool.and_eq_true]
  exact ⟨fun he => ⟨he, hp e he⟩, And.left⟩

theorem tracked_of_isAttempt (e : Ev) (he : isAttempt e = true) : tracked e = true := by
  cases e with
  | suspend success => rfl
  | _ => cases he

theorem tracked_of_isDone (w : Block.Work) (e : Ev) (he : isDone w e = true) : tracked e = true := by
  cases e with
  | updateSleepTime success suspendTime => rfl
  | updateWakeupList reasons evicted => rfl
  | notifyWakeup success reasons callbacks => rfl
  | _ => cases he

theorem exec_balance (w : Block.Work) (h : exec cfg t env σ b = some o) (hserved : b.unserved? = none) :
    (recorded env σ b).countP isAttempt + (owed w b).toList.length =
      (recorded env σ b).countP (isDone w) + (o.code.duties (owed w)).length := by
  cases hloop : b.loop? with
  | none =>
    have hframe := exec_frame h
    rw [owed_eq_nil w (hframe.loops hloop) (hframe.work hloop hserved)]
    cases b with
    | op p => cases p <;> rfl
    | updateSleepTime success suspendTime => cases w <;> rfl
    | updateWakeupList reasons => cases w <;> rfl
    | notifyWakeup success reasons => cases w <;> rfl
    | loop l => cases hloop
    | _ => rfl
  | some l =>
    cases b with
    | loop l =>
      obtain rfl := Option.some.inj h
      cases l with
      | head shouldSleep =>
        simp only [execLoop]
        split
        · rfl
        · cases shouldSleep <;> rfl
      | readWakeupCount shouldSleep => rfl
      | writeWakeupCount wakeupCount =>
        simp only [execLoop]
        split <;> rfl
      | writeState => rfl
      | readSuspendTime success => cases w <;> rfl
      | readWakeupReasons success => cases w <;> rfl
      | _ =>
        simp only [execLoop]
        split <;> rfl
    | _ => cases hloop

end blocks

section runs

variable {cfg : Config} {s s' : ServiceState} {a : ServiceAction} {t : Tid} {b : Block} {env : Env}
  {c : ThreadCode} {o : Out}

/-- A duty that only the thread in the loop takes on stays with it: the loop ends with nothing left to do. -/
theorem onlyLoop_ran {δ : Type} {d : Block → Option δ} (h : ∀ u, OutOfLoop (s.code u) → (s.code u).duties d = [])
    (hloops : Loops s) (hr : (program cfg).Ran s a s' t b env c o)
    (hcode : b.loop? = none → d b = none → o.code.duties d = []) (hstart : autosuspendThread.duties d = []) (u : Tid)
    (hout : OutOfLoop (s'.code u)) : (s'.code u).duties d = [] := by
  by_cases hu : u = t
  · subst hu
    rw [hr.code_self] at hout ⊢
    rw [OutOfLoop, Code.duties_append, List.append_eq_nil_iff] at hout
    cases hb : b.loop? with
    | none =>
      have hbefore := h u (by rw [OutOfLoop, hr.code, Code.duties_run, hb, hout.2]; rfl)
      rw [hr.duties_before, List.append_eq_nil_iff] at hbefore
      rw [Code.duties_append, hcode hb (Option.toList_eq_nil_iff.mp hbefore.1), hbefore.2]
      rfl
    | some l =>
      obtain ⟨-, -, rfl, rfl, hexec⟩ := hloops.ran_point hr hb
      by_cases hexit : ∃ shouldSleep, l = .head shouldSleep ∧ s.shared.mAutosuspendEnabled = false
      · obtain ⟨shouldSleep, rfl, hdisabled⟩ := hexit
        rw [(exec_exit (exec_of_ran hr) hdisabled).2.1]
        rfl
      · have hin := execLoop_inLoop env s.shared l (by
          by_cases henabled : s.shared.mAutosuspendEnabled = true
          · exact Or.inl henabled
          · exact Or.inr fun shouldSleep he => hexit ⟨shouldSleep, he, by simpa using henabled⟩)
        rw [← hexec] at hin
        exact absurd hout.1 hin.not_out
  · rcases code_other_of_ran hr hu with hsame | ⟨-, hnew⟩
    · rw [hsame] at hout ⊢
      exact h u hout
    · rw [hnew, hstart]

def OnlyLoopWorks (s : ServiceState) : Prop := ∀ t, OutOfLoop (s.code t) → (s.code t).duties Block.work? = []

theorem OnlyLoopWorks.ran (h : OnlyLoopWorks s) (hloops : Loops s) (hserved : ServedCode s)
    (hr : (program cfg).Ran s a s' t b env c o) : OnlyLoopWorks s' :=
  onlyLoop_ran h hloops hr (fun hb _ => (exec_frame (exec_of_ran hr)).work hb (hserved.block hr)) rfl

theorem OnlyLoopWorks.quiet (h : OnlyLoopWorks s) (hq : (program cfg).Quiet s a s') : OnlyLoopWorks s' := by
  intro u hout
  rw [OutOfLoop, duties_of_quiet hq fun _ => rfl] at hout
  rw [duties_of_quiet hq fun _ => rfl]
  exact h u hout

theorem reach_onlyLoopWorks (h : (program cfg).Reach Served s) : OnlyLoopWorks s := by
  refine h.invariant (I := OnlyLoopWorks) (fun _ _ => rfl) fun s a s' hreach _ hs hstep => ?_
  rcases hstep.quiet_or_ran with hq | ⟨t, b, env, c, o, hr⟩
  · exact hs.quiet hq
  · exact hs.ran (reach_loops hreach) (reach_served hreach) hr

theorem owes_eq_zero (h : OnlyLoopWorks s) (hloops : Loops s) (w : Block.Work)
    (ht : loopThread s.shared ≠ some t) : owes s w t = 0 := by
  have hout := hloops.outside t ht
  rw [owes, owed_eq_nil w hout (h t hout)]
  rfl

/-- If only one thread may owe something, the attempts are the work done and what it owes. -/
def Balanced (w : Block.Work) (s : ServiceState) : Prop :=
  ∀ t, (∀ u, u ≠ t → owes s w u = 0) → attempts s = workDone s w + owes s w t

theorem attempts_ran (hr : (program cfg).Ran s a s' t b env c o) :
    attempts s' = (recorded env s.shared b).countP isAttempt + attempts s := by
  rw [attempts, hr.log, List.countP_append, List.countP_map, ← exec_countP tracked_of_isAttempt (exec_of_ran hr)]
  rfl

theorem workDone_ran (w : Block.Work) (hr : (program cfg).Ran s a s' t b env c o) :
    workDone s' w = (recorded env s.shared b).countP (isDone w) + workDone s w := by
  rw [workDone, hr.log, List.countP_append, List.countP_map, ← exec_countP (tracked_of_isDone w) (exec_of_ran hr)]
  rfl

theorem Balanced.ran {w : Block.Work} (h : Balanced w s) (hloops : Loops s) (hworks : OnlyLoopWorks s)
    (hserved : ServedCode s) (hr : (program cfg).Ran s a s' t b env c o) : Balanced w s' := by
  have hbalance := exec_balance w (exec_of_ran hr) (hserved.block hr)
  have hattempts := attempts_ran hr
  have hdone := workDone_ran w hr
  have hbefore : owes s w t = (owed w b).toList.length + (c.duties (owed w)).length := by
    rw [owes, hr.duties_before, List.length_append]
  have hafter : owes s' w t = (o.code.duties (owed w)).length + (c.duties (owed w)).length := by
    rw [owes, hr.duties_self, List.length_append]
  have hother : ∀ u, u ≠ t → owes s' w u = owes s w u := by
    intro u hu
    rw [owes, hr.duties_other hu (duties_of_spawn hr rfl), owes]
  intro v hv
  by_cases hvt : v = t
  · subst hvt
    have hall := h v fun u hu => by rw [← hother u hu, hv u hu]
    omega
  · have hnone := hv t (Ne.symm hvt)
    by_cases hzero : owes s w t = 0
    · have hall := h v fun u hu => by
        by_cases hut : u = t
        · rw [hut, hzero]
        · rw [← hother u hut, hv u hu]
      rw [hother v hvt]
      omega
    · -- the thread that owed something is the one in the loop, so that the others owe nothing
      have ht : loopThread s.shared = some t := by
        by_contra hne
        exact hzero (owes_eq_zero hworks hloops w hne)
      have hidle : ∀ u, u ≠ t → owes s w u = 0 := fun u hu =>
        owes_eq_zero hworks hloops w fun he => hu (Option.some.inj (he.symm.trans ht))
      have hall := h t hidle
      rw [hother v hvt, hidle v hvt]
      omega

theorem Balanced.quiet {w : Block.Work} (h : Balanced w s) (hq : (program cfg).Quiet s a s') : Balanced w s' := by
  have hsame : ∀ u, owes s' w u = owes s w u := by
    intro u
    rw [owes, duties_of_quiet hq fun _ => rfl, owes]
  intro t ht
  rw [attempts, workDone, hq.log, hsame t]
  exact h t fun u hu => by rw [← hsame u, ht u hu]

theorem reach_balanced (w : Block.Work) (h : (program cfg).Reach Served s) : Balanced w s := by
  refine h.invariant (I := Balanced w) (fun _ _ => rfl) fun s a s' hreach _ hs hstep => ?_
  rcases hstep.quiet_or_ran with hq | ⟨t, b, env, c, o, hr⟩
  · exact hs.quiet hq
  · exact hs.ran (reach_loops hreach) (reach_onlyLoopWorks hreach) (reach_served hreach) hr

/-- Every thread in the autosuspend loop is at its head. -/
def AtRest (s : ServiceState) : Prop :=
  ∀ t, (s.code t).duties Block.loop? ≠ [] → ∃ shouldSleep, s.code t = [.run (.loop (.head shouldSleep))]

theorem AtRest.owes_nothing (h : AtRest s) (hworks : OnlyLoopWorks s) (w : Block.Work) (t : Tid) :
    owes s w t = 0 := by
  by_cases hout : OutOfLoop (s.code t)
  · rw [owes, owed_eq_nil w hout (hworks t hout)]
    rfl
  · obtain ⟨shouldSleep, hcode⟩ := h t hout
    rw [owes, hcode]
    rfl

theorem AtRest.attempts_eq (h : AtRest s) (hreach : (program cfg).Reach Served s) (w : Block.Work) :
    attempts s = workDone s w := by
  have hworks := reach_onlyLoopWorks hreach
  have hall := reach_balanced w hreach (.client 0) fun u _ => h.owes_nothing hworks w u
  rw [hall, h.owes_nothing hworks w]
  rfl

end runs

/-! ### What the work leaves behind -/

theorem countP_isDone (w : Block.Work) (env : Env) (σ : Shared) (b : Block) :
    (recorded env σ b).countP (isDone w) = if b.work? = some w then 1 else 0 := by
  cases b with
  | op p => cases p <;> rfl
  | loop l => cases l <;> rfl
  | updateSleepTime success suspendTime => cases w <;> rfl
  | updateWakeupList reasons => cases w <;> rfl
  | notifyWakeup success reasons => cases w <;> rfl
  | _ => rfl

section leftovers

variable {cfg : Config} {s s' : ServiceState} {a : ServiceAction} {t : Tid} {b : Block} {env : Env} {σ : Shared}
  {c : ThreadCode} {o : Out}

theorem workDone_step (w : Block.Work) (hstep : (program cfg).Step s a s') :
    (s'.shared = s.shared ∧ workDone s' w = workDone s w) ∨
    ∃ t b env c o, (program cfg).Ran s a s' t b env c o ∧
      workDone s' w = (if b.work? = some w then 1 else 0) + workDone s w := by
  rcases hstep.quiet_or_ran with hq | ⟨t, b, env, c, o, hr⟩
  · exact Or.inl ⟨hq.shared, by rw [workDone, hq.log, workDone]⟩
  · exact Or.inr ⟨t, b, env, c, o, hr, by rw [workDone_ran w hr, countP_isDone]⟩

/-- A part of the state that only one part of the work changes is the same as long as that is not done. -/
theorem same_of_workDone {γ : Type} {f : Shared → γ} {w : Block.Work}
    (hf : ∀ {t env σ b o}, exec cfg t env σ b = some o → b.work? ≠ some w → f o.state = f σ)
    {ok : ServiceState → ServiceAction → Prop} (hrun : (program cfg).Runs ok s s') :
    workDone s w ≤ workDone s' w ∧ (workDone s' w = workDone s w → f s'.shared = f s.shared) := by
  induction hrun with
  | refl => exact ⟨Nat.le_refl _, fun _ => rfl⟩
  | @tail s₁ s₂ _ hstep ih =>
    obtain ⟨a, -, hstep⟩ := hstep
    rcases workDone_step w (Program.step_cases hstep) with ⟨hshared, hdone⟩ | ⟨t, b, env, c, o, hr, hdone⟩
    · rw [hshared, hdone]
      exact ih
    · refine ⟨by omega, fun hsame => ?_⟩
      have hblock : b.work? ≠ some w := by
        intro hb
        rw [if_pos hb] at hdone
        omega
      rw [if_neg hblock] at hdone
      rw [hr.shared, hf (exec_of_ran hr) hblock]
      exact ih.2 (by omega)

theorem sleep_of_block (h : exec cfg t env σ b = some o) (hb : b.work? ≠ some .sleepTime) :
    o.state.sleep = σ.sleep := by
  refine (exec_frame h).sleep ?_
  cases b with
  | updateSleepTime success suspendTime => exact absurd rfl hb
  | _ => rfl

theorem wakeups_of_block (h : exec cfg t env σ b = some o) (hb : b.work? ≠ some .wakeups) :
    o.state.mWakeupList = σ.mWakeupList := by
  refine (exec_frame h).wakeups ?_
  cases b with
  | updateWakeupList reasons => exact absurd rfl hb
  | _ => rfl

theorem reach_attemptCount {ok : ServiceState → ServiceAction → Prop} (h : (program cfg).Reach ok s) :
    s.shared.sleep.mSuspendInfo.suspendAttemptCount = workDone s .sleepTime := by
  refine h.invariant (I := fun s => s.shared.sleep.mSuspendInfo.suspendAttemptCount = workDone s .sleepTime) rfl
    fun s a s' _ _ hs hstep => ?_
  rcases workDone_step .sleepTime hstep with ⟨hshared, hdone⟩ | ⟨t, b, env, c, o, hr, hdone⟩
  · rw [hshared, hdone]
    exact hs
  · rw [hr.shared, hdone]
    by_cases hb : b.work? = some .sleepTime
    · rw [if_pos hb]
      cases b with
      | updateSleepTime success suspendTime =>
        obtain rfl := Option.some.inj (exec_of_ran hr)
        rw [SleepState.updateSleepTime_attempts, hs]
        exact Int.add_comm _ _
      | _ => cases hb
    · rw [sleep_of_block (exec_of_ran hr) hb, hs, if_neg hb, Nat.zero_add]

def emptyUpdate? : Block → Option Unit
  | .updateWakeupList [] => some ()
  | _ => none

/-- The wakeup list is valid, is only ever updated with reasons, and counts the updates as long as it has not erased an
entry. -/
structure Wakeups (s : ServiceState) : Prop where
  valid : s.shared.mWakeupList.Valid
  pending : ∀ t, (s.code t).duties emptyUpdate? = []
  reasons : ∀ t reasons evicted, (t, .updateWakeupList reasons evicted) ∈ s.log → reasons ≠ []
  sum : (∀ t reasons, (t, .updateWakeupList reasons true) ∉ s.log) →
    (s.shared.mWakeupList.getWakeupStats.map WakeupInfo.count).sum = workDone s .wakeups

theorem exec_emptyUpdate (h : exec cfg t env σ b = some o) (hserved : b.unserved? = none) :
    o.code.duties emptyUpdate? = [] := by
  cases hloop : b.loop? with
  | none =>
    have hwork := (exec_frame h).work hloop hserved
    refine Code.duties_eq_nil fun b' hb' => ?_
    cases b' with
    | updateWakeupList reasons => cases Code.none_of_duties hwork hb'
    | _ => rfl
  | some l =>
    cases b with
    | loop l =>
      obtain rfl := Option.some.inj h
      cases l with
      | head shouldSleep =>
        simp only [execLoop]
        split
        · rfl
        · cases shouldSleep <;> rfl
      | readWakeupCount shouldSleep => rfl
      | writeWakeupCount wakeupCount =>
        simp only [execLoop]
        split <;> rfl
      | writeState => rfl
      | readSuspendTime success => rfl
      | readWakeupReasons success =>
        have hne : (wakeupReasons env σ).1 ≠ [] := readWakeupReasons_ne_nil _
        simp only [execLoop]
        cases hreasons : (wakeupReasons env σ).1 with
        | nil => exact absurd hreasons hne
        | cons r rs => rfl
      | _ =>
        simp only [execLoop]
        split <;> rfl
    | _ => cases hloop

theorem updateWakeupList_spec {reasons : List StdString} (hvalid : σ.mWakeupList.Valid) (hne : reasons ≠ [])
    (h : updateWakeupList σ reasons = some o) :
    o.state.mWakeupList.Valid ∧ o.events = [.updateWakeupList reasons (evicts σ reasons)] ∧
      (evicts σ reasons = false → (o.state.mWakeupList.getWakeupStats.map WakeupInfo.count).sum =
        (σ.mWakeupList.getWakeupStats.map WakeupInfo.count).sum + 1) := by
  obtain ⟨l', hupdate, hvalid', -, hstats⟩ := WakeupList.update_spec hvalid hne
  rw [updateWakeupList, hupdate] at h
  obtain rfl := Option.some.inj h
  refine ⟨hvalid', rfl, fun hroom => ?_⟩
  dsimp only
  rw [hstats]
  refine WakeupList.sum_updated hvalid.agrees.keys ?_
  simp only [evicts, hne, ne_eq, not_false_eq_true, decide_true, Bool.true_and, Bool.and_eq_false_iff,
    decide_eq_false_iff_not, Nat.not_lt] at hroom
  refine hroom.imp (fun hlookup => ?_) fun hsize => ?_
  · rw [Option.isNone_eq_false_iff, Option.isSome_iff_exists] at hlookup
    obtain ⟨it, hlookup⟩ := hlookup
    obtain ⟨w, hw, hname, -⟩ := hvalid.agrees.lookup_some hlookup
    exact List.mem_map.mpr ⟨w, Store.mem_values.mpr ⟨it, hw⟩, hname⟩
  · rwa [WakeupList.mWakeups, Store.size_list] at hsize

theorem block_of_updateWakeupList {reasons : List StdString} {evicted : Bool} (h : exec cfg t env σ b = some o)
    (he : .updateWakeupList reasons evicted ∈ o.events) : b.work? = some .wakeups := by
  have hcount : (recorded env σ b).countP (isDone .wakeups) ≠ 0 :=
    Nat.ne_of_gt (List.countP_pos_iff.mpr ⟨_, mem_recorded h he rfl, rfl⟩)
  rw [countP_isDone] at hcount
  by_contra hb
  exact hcount (if_neg hb)

theorem Wakeups.ran_update (h : Wakeups s) (hr : (program cfg).Ran s a s' t b env c o)
    (hb : b.work? = some .wakeups) (hpending : ∀ t, (s'.code t).duties emptyUpdate? = []) : Wakeups s' := by
  have hdone := workDone_ran .wakeups hr
  rw [countP_isDone, if_pos hb] at hdone
  cases b with
  | updateWakeupList reasons =>
    have hne : reasons ≠ [] := by
      rintro rfl
      have hnone := h.pending t
      rw [hr.duties_before] at hnone
      cases hnone
    obtain ⟨hvalid, hevents, hsum⟩ := updateWakeupList_spec h.valid hne (exec_of_ran hr)
    have hlog := hr.log
    rw [hevents] at hlog
    rw [← hr.shared] at hvalid hsum
    refine ⟨hvalid, hpending, fun u rs evicted hmem => ?_, fun hnone => ?_⟩
    · rw [hlog] at hmem
      rcases List.mem_cons.mp hmem with he | hmem
      · obtain ⟨-, he⟩ := Prod.mk.inj he
        rw [(Ev.updateWakeupList.inj he).1]
        exact hne
      · exact h.reasons u rs evicted hmem
    · rw [hlog] at hnone
      have hroom : evicts s.shared reasons = false := by
        cases hevicts : evicts s.shared reasons with
        | false => rfl
        | true => exact absurd (by rw [hevicts]; exact List.mem_cons_self) (hnone t reasons)
      rw [hsum hroom, h.sum fun u rs hmem => hnone u rs (List.mem_cons_of_mem _ hmem), hdone]
      exact Int.add_comm _ _
  | _ => cases hb

theorem Wakeups.ran (h : Wakeups s) (hserved : ServedCode s) (hr : (program cfg).Ran s a s' t b env c o) :
    Wakeups s' := by
  have hpending : ∀ u, (s'.code u).duties emptyUpdate? = [] := by
    intro u
    have hnone := h.pending t
    rw [hr.duties_before, List.append_eq_nil_iff] at hnone
    have hcode := exec_emptyUpdate (exec_of_ran hr) (hserved.block hr)
    rw [hr.duties_same (duties_of_spawn hr rfl) (by rw [hcode, hnone.1]), h.pending u]
  by_cases hb : b.work? = some .wakeups
  · exact h.ran_update hr hb hpending
  · have hlist : s'.shared.mWakeupList = s.shared.mWakeupList := by
      rw [hr.shared]
      exact wakeups_of_block (exec_of_ran hr) hb
    have hdone := workDone_ran .wakeups hr
    rw [countP_isDone, if_neg hb, Nat.zero_add] at hdone
    have hmem : ∀ u rs evicted, (u, .updateWakeupList rs evicted) ∈ s'.log →
        (u, .updateWakeupList rs evicted) ∈ s.log := by
      intro u rs evicted hmem
      refine (hr.mem_log.mp hmem).resolve_left fun hnew => ?_
      exact hb (block_of_updateWakeupList (exec_of_ran hr) hnew.2)
    refine ⟨by rw [hlist]; exact h.valid, hpending,
      fun u rs evicted he => h.reasons u rs evicted (hmem u rs evicted he), fun hnone => ?_⟩
    rw [hlist, hdone]
    refine h.sum fun u rs he => hnone u rs ?_
    rw [hr.log]
    exact List.mem_append_right _ he

theorem Wakeups.quiet (h : Wakeups s) (hq : (program cfg).Quiet s a s') : Wakeups s' := by
  obtain ⟨hvalid, hpending, hreasons, hsum⟩ := h
  have hdone : workDone s' .wakeups = workDone s .wakeups := by rw [workDone, hq.log, workDone]
  rw [← hq.shared] at hvalid
  rw [← hq.log] at hreasons
  rw [← hq.shared, ← hq.log, ← hdone] at hsum
  refine ⟨hvalid, fun u => ?_, hreasons, hsum⟩
  rw [duties_of_quiet hq fun _ => rfl, hpending u]

theorem reach_wakeups (h : (program cfg).Reach Served s) : Wakeups s := by
  have hinit : Wakeups (program cfg).init :=
    ⟨WakeupList.create_valid cfg.statsCapacity, fun _ => rfl,
      fun t reasons evicted he => absurd he List.not_mem_nil, fun _ => rfl⟩
  refine h.invariant hinit fun s a s' hreach _ hs hstep => ?_
  rcases hstep.quiet_or_ran with hq | ⟨t, b, env, c, o, hr⟩
  · exact hs.quiet hq
  · exact hs.ran (reach_served hreach) hr

end leftovers

/-- Whenever the autosuspend thread is at the head of its loop, or there is none, the attempts so far are counted in the
suspend statistics, in the updates of the wakeup list, which all came with a reason, and in the notifications; runs
that come back to such a state without an attempt change none of this; and while the wakeup list has erased no
entry, its counts add up to the number of attempts. -/
theorem attempts_counted_once (cfg : Config) {s : ServiceState} (h : (program cfg).Reach Served s) (hrest : AtRest s) :
    (attempts s : Int) = s.shared.sleep.mSuspendInfo.suspendAttemptCount ∧
    attempts s = workDone s .wakeups ∧
    attempts s = workDone s .notification ∧
    (∀ t reasons evicted, (t, .updateWakeupList reasons evicted) ∈ s.log → reasons ≠ []) ∧
    (∀ s', (program cfg).Runs Served s s' → AtRest s' → attempts s' = attempts s →
      s'.shared.sleep = s.shared.sleep ∧ s'.shared.mWakeupList = s.shared.mWakeupList ∧
        workDone s' .notification = workDone s .notification) ∧
    ((∀ t reasons, (t, .updateWakeupList reasons true) ∉ s.log) →
      (s.shared.mWakeupList.getWakeupStats.map WakeupInfo.count).sum =
        s.shared.sleep.mSuspendInfo.suspendAttemptCount) := by
  have hcount : (attempts s : Int) = s.shared.sleep.mSuspendInfo.suspendAttemptCount := by
    rw [hrest.attempts_eq h .sleepTime, reach_attemptCount h]
  have hwakeups := reach_wakeups h
  refine ⟨hcount, hrest.attempts_eq h .wakeups, hrest.attempts_eq h .notification, hwakeups.reasons,
    fun s' hrun hrest' hsame => ?_, fun hnone => ?_⟩
  · have hdone : ∀ w, workDone s' w = workDone s w := fun w => by
      rw [← hrest'.attempts_eq (hrun.reach h) w, hsame, hrest.attempts_eq h w]
    exact ⟨(same_of_workDone (f := Shared.sleep) sleep_of_block hrun).2 (hdone .sleepTime),
      (same_of_workDone (f := Shared.mWakeupList) wakeups_of_block hrun).2 (hdone .wakeups), hdone .notification⟩
  · rw [hwakeups.sum hnone, ← hcount, hrest.attempts_eq h .wakeups]

theorem attempts_counted_once_first :
    ∃ s : ServiceState, (program smallConfig).Reach Served s ∧ AtRest s ∧ attempts s = 1 ∧
      s.shared.sleep.mSuspendInfo.suspendAttemptCount = 1 := by
  obtain ⟨s, hreach, hs⟩ := Program.Reach.of_run (program smallConfig) (fun _ a => servedAction a)
    (toSuspend ++ go (.autosuspend 0) 15)
    (fun s => loopThread s.shared = some (.autosuspend 0) && attempts s = 1 &&
      s.code (.autosuspend 0) = [.run (.loop (.head true))])
    (fun _ _ h => h) (by decide +kernel)
  simp only [Bool.and_eq_true, decide_eq_true_eq] at hs
  obtain ⟨⟨hthread, hcount⟩, hcode⟩ := hs
  have hrest : AtRest s := by
    intro t ht
    obtain rfl := Option.some.inj (((reach_loops hreach).thread_eq ht).symm.trans hthread)
    exact ⟨true, hcode⟩
  refine ⟨s, hreach, hrest, hcount, ?_⟩
  rw [← (attempts_counted_once smallConfig hreach hrest).1, hcount]
  rfl

end HardwareInterfaces.Suspend.Service
