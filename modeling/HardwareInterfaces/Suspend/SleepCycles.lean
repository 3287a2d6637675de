import HardwareInterfaces.Suspend.Attempts
import HardwareInterfaces.Suspend.Backoff
import HardwareInterfaces.Suspend.LoopCycles

/-!
# The sleep between suspend attempts

Between two writes of "mem" by autosuspend threads there is a sleep at the head of the loop that took its full time, and
the time is the one that the update after the first of the two writes set. The thread may leave the loop in between, and
another one may make the second attempt: a new thread starts with the sleep, and a thread that does not sleep at the head of
its loop has slept since the last attempt (`Rested`).
-/

namespace HardwareInterfaces.Suspend.Service

open CppStd Monitor Mutex History

/-! ### The shared state and the record -/

def switch? : Tid × Ev → Option Bool
  | (_, .enableAutosuspend ..) => some true
  | (_, .disableAutosuspend) => some false
  | _ => none

def enabledAfter (log : Log) : Bool := (log.findSome? switch?).getD false

def attempt? : Tid × Ev → Option Attempt
  | (_, .updateSleepTime success time) => some ⟨success, time⟩
  | _ => none

def sleepAfter (cfg : Config) (log : Log) : SleepState := .after cfg.sleepTimeConfig (log.filterMap attempt?)

theorem enabledAfter_append {new log : Log} (hnew : ∀ e ∈ new, switch? e = none) :
    enabledAfter (new ++ log) = enabledAfter log := by
  rw [enabledAfter, List.findSome?_append, List.findSome?_eq_none_iff.mpr hnew, Option.none_or, enabledAfter]

section blocks

variable {cfg : Config} {t : Tid} {env : Env} {σ : Shared} {b : Block} {o : Out}

theorem exec_enabled_eq (h : exec cfg t env σ b = some o) (hb : b.switches = false) :
    o.state.mAutosuspendEnabled = σ.mAutosuspendEnabled := by
  cases hchanges : b.changesAutosuspend with
  | false => exact congrArg Shared.Autosuspend.mAutosuspendEnabled ((exec_frame h).autosuspend hchanges)
  | true =>
    cases b with
    | enableAutosuspend token => cases hb
    | disableAutosuspendLocked => cases hb
    | incSuspendCounter holder =>
      obtain rfl := Option.some.inj h
      simp only [incSuspendCounter]
      cases holder <;> split <;> rfl
    | decSuspendCounter holder =>
      obtain rfl := Option.some.inj h
      simp only [decSuspendCounter]
      cases holder <;> split <;> rfl
    | loop l =>
      obtain rfl := Option.some.inj h
      cases l with
      | head shouldSleep =>
        simp only [execLoop]
        split <;> rfl
      | checkTokens wakeupCount => cases hb
      | _ => cases hchanges
    | _ => cases hchanges

theorem switch_of_block (h : exec cfg t env σ b = some o) (hb : b.switches = false) :
    ∀ e ∈ o.events.map (t, ·), switch? e = none := by
  rintro ⟨u, x⟩ he
  have hevent : switchEvent x = false := not_of_filter ((exec_frame h).switch hb) t _ he
  cases x with
  | enableAutosuspend token ret => cases hevent
  | disableAutosuspend => cases hevent
  | _ => rfl

theorem enabled_ran (h : exec cfg t env σ b = some o) {log : Log} (hlog : σ.mAutosuspendEnabled = enabledAfter log) :
    o.state.mAutosuspendEnabled = enabledAfter (o.events.map (t, ·) ++ log) := by
  cases hb : b.switches with
  | false => rw [exec_enabled_eq h hb, hlog, enabledAfter_append (switch_of_block h hb)]
  | true =>
    cases b with
    | enableAutosuspend token =>
      obtain rfl := Option.some.inj h
      rcases enableAutosuspend_cases env σ token with ⟨henabled, ho⟩ | ⟨-, -, ho⟩ | ⟨-, -, ho⟩ <;> rw [ho]
      · exact henabled
      · rfl
      · rfl
    | disableAutosuspendLocked =>
      obtain rfl := Option.some.inj h
      rfl
    | loop l =>
      obtain rfl := Option.some.inj h
      cases l with
      | checkTokens wakeupCount =>
        simp only [execLoop]
        split
        · rfl
        · exact hlog
      | _ => cases hb
    | _ => cases hb

theorem filterMap_attempt (h : exec cfg t env σ b = some o) :
    (o.events.map (t, ·)).filterMap attempt? = (recorded env σ b).filterMap fun x => attempt? (t, x) := by
  rw [List.filterMap_map]
  refine exec_filterMap (fun e he => ?_) h
  cases e with
  | updateSleepTime success time => cases he
  | _ => rfl

theorem sleep_ran (h : exec cfg t env σ b = some o) {log : Log} (hlog : σ.sleep = sleepAfter cfg log) :
    o.state.sleep = sleepAfter cfg (o.events.map (t, ·) ++ log) := by
  rw [sleepAfter, List.filterMap_append, filterMap_attempt h]
  cases b with
  | updateSleepTime success time =>
    obtain rfl := Option.some.inj h
    rw [hlog]
    rfl
  | op p => cases p <;> exact ((exec_frame h).sleep rfl).trans hlog
  | loop l => cases l <;> exact ((exec_frame h).sleep rfl).trans hlog
  | _ => exact ((exec_frame h).sleep rfl).trans hlog

end blocks

section run

variable {cfg : Config} {ok : ServiceState → ServiceAction → Prop} {s s' : ServiceState} {a : ServiceAction}

theorem reach_enabled_sleep (h : (program cfg).Reach ok s) :
    s.shared.mAutosuspendEnabled = enabledAfter s.log ∧ s.shared.sleep = sleepAfter cfg s.log := by
  refine h.on_blocks (I := fun σ log => σ.mAutosuspendEnabled = enabledAfter log ∧ σ.sleep = sleepAfter cfg log)
    ⟨rfl, rfl⟩ ?_
  intro s a s' t b env c o _ _ hr hs
  exact ⟨enabled_ran (exec_of_ran hr) hs.1, sleep_ran (exec_of_ran hr) hs.2⟩

end run

/-! ### The update after an attempt -/

/-- Neither an attempt nor an update of the sleep time. -/
def Between (e : Tid × Ev) : Prop := isAttempt e.2 = false ∧ isDone .sleepTime e.2 = false

/-- Thread `t` has made the last attempt, and the sleep time was not updated since. -/
def Attempted (t : Tid) (success : Bool) : Log → Prop := Since Between fun e _ => e = (t, .suspend success)

/-- The sleep time was updated once since the last attempt, by the thread that made it. -/
def Settled (log : Log) : Prop :=
  (∀ e ∈ log, isAttempt e.2 = false) ∨ Since Between (fun e earlier => ∃ t success time,
    e = (t, .updateSleepTime success time) ∧ Attempted t success earlier) log

theorem Settled.append {new log : Log} (h : Settled log) (hnew : ∀ e ∈ new, Between e) : Settled (new ++ log) := by
  rcases h with hnone | hsince
  · refine Or.inl fun e he => ?_
    rcases List.mem_append.mp he with he | he
    · exact (hnew e he).1
    · exact hnone e he
  · exact Or.inr (hsince.append hnew)

/-- The blocks that lead to the update after an attempt. -/
def unsettled? : Block → Option Bool
  | .loop (.readSuspendTime success) => some success
  | .updateSleepTime success _ => some success
  | _ => none

theorem unsettled_eq_nil {c : ThreadCode} (hloop : OutOfLoop c) (hwork : c.duties Block.work? = []) :
    c.duties unsettled? = [] := by
  refine Code.duties_eq_nil fun b hb => ?_
  cases b with
  | updateSleepTime success suspendTime => cases Code.none_of_duties hwork hb
  | loop l => cases Code.none_of_duties hloop hb
  | _ => rfl

section unsettled

variable {cfg : Config} {t : Tid} {env : Env} {σ : Shared} {b : Block} {o : Out}

theorem between_of_block (h : exec cfg t env σ b = some o) (hattempt : (recorded env σ b).countP isAttempt = 0)
    (hdone : (recorded env σ b).countP (isDone .sleepTime) = 0) : ∀ e ∈ o.events.map (t, ·), Between e := by
  intro e he
  obtain ⟨x, hx, rfl⟩ := List.mem_map.mp he
  rw [← exec_countP tracked_of_isAttempt h] at hattempt
  rw [← exec_countP (tracked_of_isDone .sleepTime) h] at hdone
  exact ⟨by simpa using List.countP_eq_zero.mp hattempt x hx, by simpa using List.countP_eq_zero.mp hdone x hx⟩

theorem exec_unsettled (h : exec cfg t env σ b = some o) (hserved : b.unserved? = none) :
    (b = .loop .writeState ∧ o.code.duties unsettled? = [env.ok] ∧ o.events = [.suspend env.ok]) ∨
    (∃ success, b = .loop (.readSuspendTime success) ∧ o.code.duties unsettled? = [success] ∧ o.events = []) ∨
    (∃ success time, b = .updateSleepTime success time ∧ o.code.duties unsettled? = [] ∧
      o.events = [.updateSleepTime success time]) ∨
    (unsettled? b = none ∧ o.code.duties unsettled? = [] ∧ ∀ e ∈ o.events.map (t, ·), Between e) := by
  cases hloop : b.loop? with
  | none =>
    have hframe := exec_frame h
    have hcode := unsettled_eq_nil (hframe.loops hloop) (hframe.work hloop hserved)
    cases b with
    | updateSleepTime success time =>
      obtain rfl := Option.some.inj h
      exact Or.inr (Or.inr (Or.inl ⟨success, time, rfl, rfl, rfl⟩))
    | op p => exact Or.inr (Or.inr (Or.inr ⟨rfl, hcode, between_of_block h (by cases p <;> rfl) (by cases p <;> rfl)⟩))
    | loop l => cases hloop
    | _ => exact Or.inr (Or.inr (Or.inr ⟨rfl, hcode, between_of_block h rfl rfl⟩))
  | some l =>
    obtain rfl := Block.eq_loop hloop
    have hexec := h
    obtain rfl := Option.some.inj h
    cases l with
    | writeState => exact Or.inl ⟨rfl, rfl, rfl⟩
    | readSuspendTime success => exact Or.inr (Or.inl ⟨success, rfl, rfl, rfl⟩)
    | head shouldSleep =>
      refine Or.inr (Or.inr (Or.inr ⟨rfl, ?_, between_of_block hexec rfl rfl⟩))
      simp only [execLoop]
      split
      · rfl
      · cases shouldSleep <;> rfl
    | writeWakeupCount wakeupCount =>
      refine Or.inr (Or.inr (Or.inr ⟨rfl, ?_, between_of_block hexec rfl rfl⟩))
      simp only [execLoop]
      split <;> rfl
    | readWakeupCount shouldSleep => exact Or.inr (Or.inr (Or.inr ⟨rfl, rfl, between_of_block hexec rfl rfl⟩))
    | readWakeupReasons success => exact Or.inr (Or.inr (Or.inr ⟨rfl, rfl, between_of_block hexec rfl rfl⟩))
    | _ =>
      refine Or.inr (Or.inr (Or.inr ⟨rfl, ?_, between_of_block hexec rfl rfl⟩))
      simp only [execLoop]
      split <;> rfl

end unsettled

/-- A thread that has not updated the sleep time yet has made the last attempt; if there is none, all is settled. -/
structure Settles (s : ServiceState) : Prop where
  pending : ∀ t success, success ∈ (s.code t).duties unsettled? →
    (s.code t).duties unsettled? = [success] ∧ Attempted t success s.log
  settled : (∀ t, (s.code t).duties unsettled? = []) → Settled s.log

section settles

variable {cfg : Config} {s s' : ServiceState} {a : ServiceAction} {t : Tid} {b : Block} {env : Env} {c : ThreadCode}
  {o : Out}

theorem Settles.same (h : Settles s) (hsame : ∀ u, (s'.code u).duties unsettled? = (s.code u).duties unsettled?)
    (new : Log) (hlog : s'.log = new ++ s.log) (hnew : ∀ e ∈ new, Between e) : Settles s' := by
  refine ⟨fun u success hu => ?_, fun hnone => ?_⟩
  · rw [hsame] at hu ⊢
    obtain ⟨hone, hattempted⟩ := h.pending u success hu
    rw [hlog]
    exact ⟨hone, Since.append hattempted hnew⟩
  · rw [hlog]
    exact (h.settled fun u => by rw [← hsame, hnone u]).append hnew

theorem unsettled_thread (hloops : Loops s) (hworks : OnlyLoopWorks s) {u : Tid}
    (hu : (s.code u).duties unsettled? ≠ []) : loopThread s.shared = some u := by
  refine hloops.thread_eq fun hout => hu ?_
  exact unsettled_eq_nil hout (hworks u hout)

theorem unsettled_other (hloops : Loops s) (hworks : OnlyLoopWorks s) (hr : (program cfg).Ran s a s' t b env c o)
    (ht : loopThread s.shared = some t) {u : Tid} (hu : u ≠ t) : (s'.code u).duties unsettled? = [] := by
  rw [hr.duties_other hu (duties_of_spawn hr rfl)]
  by_contra hne
  exact hu (Option.some.inj ((unsettled_thread hloops hworks hne).symm.trans ht))

theorem Settles.attempt (hloops : Loops s) (hworks : OnlyLoopWorks s)
    (hr : (program cfg).Ran s a s' t (.loop .writeState) env c o) (hcode : o.code.duties unsettled? = [env.ok])
    (hevents : o.events = [.suspend env.ok]) : Settles s' := by
  obtain ⟨ht, rfl⟩ := hloops.at_point hr.code
  have hafter := hr.duties_self (d := unsettled?)
  rw [hcode] at hafter
  refine ⟨fun u success hu => ?_, fun hnone => ?_⟩
  · by_cases hut : u = t
    · subst hut
      rw [hafter] at hu ⊢
      obtain rfl : success = env.ok := by simpa using hu
      refine ⟨rfl, ?_⟩
      rw [hr.log, hevents]
      exact Or.inl rfl
    · rw [unsettled_other hloops hworks hr ht hut] at hu
      cases hu
  · rw [hnone t] at hafter
    cases hafter

theorem Settles.update (h : Settles s) (hloops : Loops s) (hworks : OnlyLoopWorks s) {success : Bool}
    {time : SuspendTime} (hr : (program cfg).Ran s a s' t (.updateSleepTime success time) env c o)
    (hcode : o.code.duties unsettled? = []) (hevents : o.events = [.updateSleepTime success time]) : Settles s' := by
  have hbefore := hr.duties_before (d := unsettled?)
  have hpending := h.pending t success (by rw [hbefore]; exact List.mem_append_left _ List.mem_cons_self)
  have ht := unsettled_thread hloops hworks (u := t) (by rw [hpending.1]; simp)
  have hrest : c.duties unsettled? = [] := by simpa [hbefore, unsettled?] using hpending.1
  have hnone : ∀ u, (s'.code u).duties unsettled? = [] := by
    intro u
    by_cases hut : u = t
    · rw [hut, hr.duties_self, hcode, hrest]
      rfl
    · exact unsettled_other hloops hworks hr ht hut
  refine ⟨fun u success hu => ?_, fun _ => ?_⟩
  · rw [hnone u] at hu
    cases hu
  · rw [hr.log, hevents]
    exact Or.inr (Or.inl ⟨t, success, time, rfl, hpending.2⟩)

theorem Settles.ran (h : Settles s) (hloops : Loops s) (hworks : OnlyLoopWorks s) (hserved : ServedCode s)
    (hr : (program cfg).Ran s a s' t b env c o) : Settles s' := by
  rcases exec_unsettled (exec_of_ran hr) (hserved.block hr) with
    ⟨rfl, hcode, hevents⟩ | ⟨success, rfl, hcode, hevents⟩ | ⟨success, time, rfl, hcode, hevents⟩ |
    ⟨hb, hcode, hevents⟩
  · exact Settles.attempt hloops hworks hr hcode hevents
  · refine h.same (hr.duties_same (duties_of_spawn hr rfl) hcode) [] ?_ (by simp)
    rw [hr.log, hevents]
    rfl
  · exact h.update hloops hworks hr hcode hevents
  · exact h.same (hr.duties_same (duties_of_spawn hr rfl) (by rw [hcode, hb]; rfl)) _ hr.log hevents

theorem reach_settles (h : (program cfg).Reach Served s) : Settles s := by
  have hinit : Settles (program cfg).init :=
    ⟨fun t success hs => absurd hs List.not_mem_nil, fun _ => Or.inl fun e he => absurd he List.not_mem_nil⟩
  refine h.invariant hinit fun s a s' hreach _ hs hstep => ?_
  rcases hstep.quiet_or_ran with hq | ⟨t, b, env, c, o, hr⟩
  · exact hs.same (fun u => duties_of_quiet hq (fun _ => rfl) u) [] hq.log (by simp)
  · exact hs.ran (reach_loops hreach) (reach_onlyLoopWorks hreach) (reach_served hreach) hr

theorem Settles.at_point (h : Settles s) (hloops : Loops s) (hworks : OnlyLoopWorks s) {l : LoopBlock}
    (hcode : s.code t = [.run (.loop l)]) (hl : unsettled? (.loop l) = none) : Settled s.log := by
  refine h.settled fun u => ?_
  by_contra hne
  have ht := (hloops.at_point hcode).1
  obtain rfl := Option.some.inj (ht.symm.trans (unsettled_thread hloops hworks hne))
  refine hne ?_
  rw [hcode, Code.duties_run, hl]
  rfl

end settles

/-! ### The full sleep -/

/-- A sleep at the head of the loop that timed out while autosuspend was enabled, with the time that was set after the
last attempt. -/
def FullSleep (cfg : Config) (e : Tid × Ev) (earlier : Log) : Prop :=
  ∃ t, e = (t, .slept (sleepAfter cfg earlier).mSleepTime true) ∧ enabledAfter earlier = true ∧ Settled earlier

def Waited (cfg : Config) : Log → Prop := Since (fun e => isAttempt e.2 = false) (FullSleep cfg)

/-- What makes the loop sleep before it goes on: an attempt, or a wakeup count that could not be read. -/
def CallsForSleep (resets : Ev → Bool) : Prop :=
  ∀ x, resets x = true → (∃ success, x = .suspend success) ∨ x = .readWakeupCount []

/-- Since the last event that calls for a sleep there was one with the property `q`. -/
def Paused (resets : Ev → Bool) (q : Tid × Ev → Log → Prop) : Log → Prop := Since (fun e => resets e.2 = false) q

/-- A thread in the loop has slept since the last event that calls for a sleep, unless it is about to sleep. -/
def Rested (resets : Ev → Bool) (q : Tid × Ev → Log → Prop) : Assertion := fun _ b p σ log =>
  match b with
  | .head true => True
  | .sleep _ => True
  | .slept true => p = [] ∧ (σ.mAutosuspendEnabled = true → Paused resets q log)
  | .gotWakeupCount wakeupCount shouldSleep => (resets (.readWakeupCount wakeupCount) = true → shouldSleep = true) ∧
      (resets (.readWakeupCount wakeupCount) = false → Paused resets q log)
  | .readSuspendTime _ => True
  | .readWakeupReasons _ => True
  | _ => Paused resets q log

section rested

variable {cfg : Config} {ok : ServiceState → ServiceAction → Prop} {resets : Ev → Bool} {q : Tid × Ev → Log → Prop}
  {t : Tid} {b : LoopBlock} {p p' : ThreadCode} {σ σ' : Shared} {log new : Log}

theorem CallsForSleep.silent (hresets : CallsForSleep resets) {x : Ev} (hx : loopEvent x = false) : resets x = false := by
  by_contra hreset
  rcases hresets x (by simpa using hreset) with ⟨success, rfl⟩ | rfl
  · cases hx
  · cases hx

theorem CallsForSleep.other (hresets : CallsForSleep resets) {x : Ev} (hsuspend : ∀ success, x ≠ .suspend success)
    (hread : x ≠ .readWakeupCount []) : resets x = false := by
  by_contra hreset
  rcases hresets x (by simpa using hreset) with ⟨success, hx⟩ | hx
  · exact hsuspend success hx
  · exact hread hx

theorem Paused.append (h : Paused resets q log) (hresets : CallsForSleep resets)
    (hnew : ∀ e ∈ new, loopEvent e.2 = false) : Paused resets q (new ++ log) :=
  Since.append h fun e he => hresets.silent (hnew e he)

theorem Paused.cons {x : Ev} (h : Paused resets q log) (hx : resets x = false) : Paused resets q ((t, x) :: log) :=
  Or.inr ⟨hx, h⟩

theorem Rested.append (h : Rested resets q t b p σ log) (hresets : CallsForSleep resets)
    (hnew : ∀ e ∈ new, loopEvent e.2 = false)
    (hsame : b = .slept true → p = [] → p' = [] ∧ σ'.mAutosuspendEnabled = σ.mAutosuspendEnabled) :
    Rested resets q t b p' σ' (new ++ log) := by
  cases b with
  | head shouldSleep =>
    cases shouldSleep with
    | true => trivial
    | false => exact Paused.append h hresets hnew
  | slept shouldSleep =>
    cases shouldSleep with
    | true =>
      obtain ⟨hp, hpaused⟩ := h
      obtain ⟨hp', henabled⟩ := hsame rfl hp
      exact ⟨hp', fun he => (hpaused (henabled ▸ he)).append hresets hnew⟩
    | false => exact Paused.append h hresets hnew
  | gotWakeupCount wakeupCount shouldSleep => exact ⟨h.1, fun hread => (h.2 hread).append hresets hnew⟩
  | sleep woken => trivial
  | readSuspendTime success => trivial
  | readWakeupReasons success => trivial
  | _ => exact Paused.append h hresets hnew

theorem rested_exec {env : Env} (hresets : CallsForSleep resets) (hb : Rested resets q t b [] σ log)
    (hslept : ∀ woken, b = .sleep woken → σ.mAutosuspendEnabled = true → (woken && env.timedOut) = true →
      q (t, .slept σ.sleep.mSleepTime (woken && env.timedOut)) log)
    (hread : b = .readWakeupCount false → resets (.readWakeupCount env.bytes) = false) :
    Asserts (Rested resets q) t (execLoop env σ b).code (execLoop env σ b).state
      ((execLoop env σ b).events.map (t, ·) ++ log) := by
  cases b with
  | head shouldSleep =>
    simp only [execLoop]
    split
    · exact asserts_of_out rfl
    · cases shouldSleep with
      | true => exact asserts_goto (p := []) trivial
      | false => exact asserts_goto (p := []) (b := .slept false) (Paused.cons hb (hresets.other (by simp) (by simp)))
  | sleep woken =>
    simp only [execLoop]
    split
    · rename_i hended
      refine asserts_goto (p := []) (b := .slept true) ⟨rfl, fun henabled => ?_⟩
      have henabled : σ.mAutosuspendEnabled = true := henabled
      exact Or.inl (hslept woken rfl henabled (by simpa [henabled] using hended))
    · exact asserts_goto (p := [.wait mAutosuspendLock, .lock mAutosuspendLock]) trivial
  | slept shouldSleep =>
    simp only [execLoop]
    split
    · cases shouldSleep with
      | true => exact asserts_goto (p := []) trivial
      | false => exact asserts_goto (p := []) (b := .head false) hb
    · rename_i henabled
      have henabled : σ.mAutosuspendEnabled = true := by simpa using henabled
      refine asserts_goto (p := [.unlock mAutosuspendLock]) (b := .readWakeupCount shouldSleep) ?_
      cases shouldSleep with
      | true => exact hb.2 henabled
      | false => exact hb
  | readWakeupCount shouldSleep =>
    refine asserts_goto (p := [.lock mAutosuspendLock]) (b := .gotWakeupCount env.bytes shouldSleep)
      ⟨fun hreset => ?_, Paused.cons hb⟩
    cases shouldSleep with
    | true => rfl
    | false => exact absurd hreset (by simp [hread rfl])
  | gotWakeupCount wakeupCount shouldSleep =>
    simp only [execLoop]
    split
    · cases shouldSleep with
      | true => exact asserts_goto (p := []) trivial
      | false =>
        refine asserts_goto (p := []) (b := .head false) (hb.2 ?_)
        by_contra hreset
        exact absurd (hb.1 (by simpa using hreset)) (by simp)
    · rename_i hnonempty
      exact asserts_goto (p := []) (b := .awaitCounter wakeupCount) (hb.2 (hresets.other (by simp) (by simpa)))
  | awaitCounter wakeupCount =>
    simp only [execLoop]
    split
    · exact asserts_goto (p := []) (b := .counterIdle wakeupCount) hb
    · exact asserts_goto (p := [.wait mAutosuspendLock, .lock mAutosuspendLock]) (b := .awaitCounter wakeupCount) hb
  | counterIdle wakeupCount =>
    simp only [execLoop]
    split
    · exact asserts_goto (p := []) (b := .head false) hb
    · exact asserts_goto (b := .checkTokens wakeupCount) hb
  | checkTokens wakeupCount =>
    simp only [execLoop]
    split
    · exact asserts_goto (p := [.unlock mAutosuspendClientTokensLock]) (b := .head false)
        (Paused.cons hb (hresets.other (by simp) (by simp)))
    · exact asserts_goto (p := []) (b := .checkCounter wakeupCount) hb
  | checkCounter wakeupCount =>
    simp only [execLoop]
    split
    · exact asserts_goto (p := [.unlock mAutosuspendClientTokensLock]) (b := .head false) hb
    · exact asserts_goto (p := []) (b := .writeWakeupCount wakeupCount)
        (Paused.cons hb (hresets.other (by simp) (by simp)))
  | writeWakeupCount wakeupCount =>
    have hafter := Paused.cons (t := t) (x := .wroteWakeupCount wakeupCount env.ok) hb
      (hresets.other (by simp) (by simp))
    simp only [execLoop]
    split
    · exact asserts_goto (p := []) (b := .writeState) hafter
    · exact asserts_goto (p := [.unlock mAutosuspendClientTokensLock]) (b := .head false) hafter
  | writeState => exact asserts_goto (p := [.unlock mAutosuspendLock, .unlock mAutosuspendClientTokensLock]) trivial
  | readSuspendTime success => exact asserts_goto (b := .readWakeupReasons success) trivial
  | readWakeupReasons success =>
    exact asserts_goto (Q := Rested resets q) (b := .head true) (p := lockGuard wakeupListLock [.run (.updateWakeupList
      (wakeupReasons env σ).1)] ++ callNotifyWakeup success (wakeupReasons env σ).1 ++ [.lock mAutosuspendLock]) trivial

theorem rested_inductive (hresets : CallsForSleep resets)
    (hslept : ∀ {s t env pick woken}, (program cfg).Reach ok s → ok s (.step t env pick) →
      s.code t = [.run (.loop (.sleep woken))] → s.shared.mAutosuspendEnabled = true → (woken && env.timedOut) = true →
      q (t, .slept s.shared.sleep.mSleepTime (woken && env.timedOut)) s.log)
    (hread : ∀ {s t env pick}, ok s (.step t env pick) → s.code t = [.run (.loop (.readWakeupCount false))] →
      resets (.readWakeupCount env.bytes) = false) : Inductive cfg ok (Rested resets q) where
  spawn _ := trivial
  others σ' new h hnew hheld := by
    refine h.append hresets (fun e he => (hnew e he).1) fun hb hp => ⟨hp, ?_⟩
    subst hb hp
    exact congrArg Shared.Autosuspend.mAutosuspendEnabled (hheld ⟨List.mem_cons_self, Or.inl rfl⟩)
  advance q σ' new h hnew _ := h.append hresets hnew fun _ hp => absurd hp (List.cons_ne_nil _ _)
  exec hreach hok hcode hb := by
    refine rested_exec hresets hb (fun woken hpoint => ?_) fun hpoint => hread hok (by rw [hcode, hpoint])
    exact hslept hreach hok (by rw [hcode, hpoint])

theorem CallsForSleep.point (hresets : CallsForSleep resets) {env : Env} {x : Ev} (hx : x ∈ (execLoop env σ b).events)
    (hreset : resets x = true) (hb : Rested resets q t b [] σ log) :
    (execLoop env σ b).events = [x] ∧ Paused resets q log := by
  rcases hresets x hreset with ⟨success, rfl⟩ | rfl
  · have hexec : exec smallConfig t env σ (.loop b) = some (execLoop env σ b) := rfl
    obtain rfl := Block.loop.inj (block_of_suspend hexec hx)
    obtain rfl : success = env.ok := by simpa [execLoop] using hx
    exact ⟨rfl, hb⟩
  · cases b with
    | readWakeupCount shouldSleep =>
      have hbytes : [] = env.bytes := by simpa [execLoop] using hx
      refine ⟨?_, hb⟩
      rw [hbytes]
      rfl
    | writeWakeupCount wakeupCount => simp [execLoop] at hx
    | writeState => simp [execLoop] at hx
    | readSuspendTime success => simp [execLoop] at hx
    | _ =>
      simp only [execLoop] at hx
      split at hx <;> simp [disableAutosuspendLocked] at hx

/-- Whatever calls for a sleep comes after a sleep since the last such event. -/
theorem reach_paused (hresets : CallsForSleep resets) (hrested : Inductive cfg ok (Rested resets q)) {s : ServiceState}
    (h : (program cfg).Reach ok s) :
    Historically (fun e earlier => resets e.2 = true → Paused resets q earlier) s.log := by
  refine hrested.historically (fun e log he hreset => ?_) (fun {s t b env pick} _ _ _ hb hs => ?_) h
  · rw [hresets.silent he] at hreset
    cases hreset
  · by_cases hnone : ∃ x ∈ (execLoop env s.shared b).events, resets x = true
    · obtain ⟨x, hx, hreset⟩ := hnone
      obtain ⟨hevents, hpaused⟩ := hresets.point hx hreset hb
      rw [hevents]
      exact ⟨fun _ => hpaused, hs⟩
    · refine hs.append fun e he earlier hreset => ?_
      obtain ⟨x, hx, rfl⟩ := List.mem_map.mp he
      exact absurd ⟨x, hx, hreset⟩ hnone

end rested

section attempts

variable {cfg : Config} {s : ServiceState} {t : Tid}

theorem callsForSleep_isAttempt : CallsForSleep isAttempt := by
  intro x hx
  cases x with
  | suspend success => exact Or.inl ⟨success, rfl⟩
  | _ => cases hx

theorem fullSleep_slept {woken : Bool} {env : Env} (hreach : (program cfg).Reach Served s)
    (hcode : s.code t = [.run (.loop (.sleep woken))]) (henabled : s.shared.mAutosuspendEnabled = true)
    (htimeout : (woken && env.timedOut) = true) :
    FullSleep cfg (t, .slept s.shared.sleep.mSleepTime (woken && env.timedOut)) s.log := by
  obtain ⟨hen, hsleep⟩ := reach_enabled_sleep hreach
  refine ⟨t, ?_, hen.symm.trans henabled, ?_⟩
  · rw [htimeout, hsleep]
  · exact (reach_settles hreach).at_point (reach_loops hreach) (reach_onlyLoopWorks hreach) hcode rfl

theorem reach_waited (h : (program cfg).Reach Served s) :
    Historically (fun e earlier => isAttempt e.2 = true → Waited cfg earlier) s.log :=
  reach_paused callsForSleep_isAttempt
    (rested_inductive callsForSleep_isAttempt (fun hreach _ => fullSleep_slept hreach) fun _ _ => rfl) h

/-- What is recorded between an attempt of `t` and the next one, newest first: a sleep that timed out while autosuspend
was enabled, and that took the time set by the only update of the sleep time since the attempt, which is the one of `t`. -/
def SleepsBetween (cfg : Config) (t : Tid) (success : Bool) (between earlier : Log) : Prop :=
  ∃ after u sleepTime middle time before,
    between = after ++ (u, .slept sleepTime true) :: (middle ++ (t, .updateSleepTime success time) :: before) ∧
    (∀ e ∈ middle ++ before, isDone .sleepTime e.2 = false) ∧
    sleepTime =
      ((sleepAfter cfg (before ++ earlier)).updateSleepTime cfg.sleepTimeConfig success time).mSleepTime ∧
    enabledAfter (middle ++ (t, .updateSleepTime success time) :: (before ++ earlier)) = true

theorem sleepAfter_update {middle before : Log} {success : Bool} {time : SuspendTime}
    (hmiddle : ∀ e ∈ middle, isDone .sleepTime e.2 = false) :
    sleepAfter cfg (middle ++ (t, .updateSleepTime success time) :: before) =
      (sleepAfter cfg before).updateSleepTime cfg.sleepTimeConfig success time := by
  have hnone : middle.filterMap attempt? = [] := by
    refine List.filterMap_eq_nil_iff.mpr fun e he => ?_
    obtain ⟨u, x⟩ := e
    cases x with
    | updateSleepTime success time => cases hmiddle _ he
    | _ => rfl
  rw [sleepAfter, List.filterMap_append, hnone]
  rfl

theorem Settled.update {between earlier : Log} {success : Bool} (h : Settled (between ++ (t, .suspend success) :: earlier))
    (hbetween : ∀ e ∈ between, isAttempt e.2 = false) :
    ∃ middle time before, between = middle ++ (t, .updateSleepTime success time) :: before ∧
      ∀ e ∈ middle ++ before, isDone .sleepTime e.2 = false := by
  have hattempt : ¬ Between (t, .suspend success) := by simp [Between, isAttempt]
  rcases h with hnone | hsince
  · exact absurd (hnone _ (List.mem_append_right _ List.mem_cons_self)) (by simp [isAttempt])
  · obtain ⟨middle, e, before, rfl, ⟨u, success', time, rfl, hattempted⟩, hmiddle⟩ := hsince.newer hattempt (by simp)
    have hother : ∀ y ∈ before, y ≠ (u, .suspend success') := by
      rintro y hy rfl
      cases hbetween _ (List.mem_append_right _ (List.mem_cons_of_mem _ hy))
    obtain ⟨hsame, hbefore⟩ := Since.reaches hattempted hattempt fun y hy _ => hother y hy
    cases hsame
    refine ⟨middle, time, before, rfl, fun e he => ?_⟩
    rcases List.mem_append.mp he with he | he
    · exact (hmiddle e he).2
    · exact (hbefore e he).2

theorem Waited.sleepsBetween {between earlier : Log} {success : Bool}
    (h : Waited cfg (between ++ (t, .suspend success) :: earlier)) (hbetween : ∀ e ∈ between, isAttempt e.2 = false) :
    SleepsBetween cfg t success between ((t, .suspend success) :: earlier) := by
  obtain ⟨after, e, slept, rfl, ⟨u, rfl, henabled, hsettled⟩, -⟩ := Since.newer h (by simp [isAttempt]) (by simp [FullSleep])
  obtain ⟨middle, time, before, rfl, hupdates⟩ := hsettled.update fun e he => hbetween e (by simp [he])
  rw [List.append_assoc, List.cons_append] at henabled ⊢
  refine ⟨after, u, _, middle, time, before, rfl, hupdates, ?_, henabled⟩
  rw [sleepAfter_update fun e he => hupdates e (List.mem_append_left _ he)]

/-- The back-off between attempts. The record tells whether autosuspend is enabled and what the sleep state is; between two
attempts there is a full sleep, with the time set after the first one; and a cycle that follows one that is tried again
begins without a sleep. -/
theorem backoff_enforced (cfg : Config) (h : (program cfg).Reach Served s) :
    (s.shared.mAutosuspendEnabled = enabledAfter s.log ∧ s.shared.sleep = sleepAfter cfg s.log) ∧
    (∀ later t₂ success₂ between t₁ success₁ earlier,
      s.log = later ++ (t₂, .suspend success₂) :: (between ++ (t₁, .suspend success₁) :: earlier) →
      (∀ e ∈ between, isAttempt e.2 = false) →
      SleepsBetween cfg t₁ success₁ between ((t₁, .suspend success₁) :: earlier)) ∧
    (∀ t later events shouldSleep earlier, loopLog t s.log = later ++ (events ++ .loopHead shouldSleep :: earlier) →
      (∀ x ∈ events, isHead x = false) → Retried (earlier.takeWhile fun x => !isHead x) →
      shouldSleep = false ∧ ∀ sleepTime timedOut, .slept sleepTime timedOut ∉ events) := by
  refine ⟨reach_enabled_sleep h, ?_, ?_⟩
  · intro later t₂ success₂ between t₁ success₁ earlier hlog hbetween
    exact Waited.sleepsBetween (historically_iff.mp (reach_waited h) _ _ _ hlog rfl) hbetween
  · intro t later events shouldSleep earlier hlog hevents hretried
    have hcycles : Inductive cfg Served (InCycle False) := inCycle_inductive cfg fun hcareful => hcareful.elim
    have horder := reach_cycleRecord hcycles h
    obtain ⟨σ, hended⟩ := Historically.ended horder (hlog.trans (List.append_assoc ..).symm)
    have hfalse := hended.retried hretried
    refine ⟨hfalse, fun sleepTime timedOut hslept => ?_⟩
    rw [Historically.sleeps horder hlog hevents hslept] at hfalse
    cases hfalse

theorem backoff_enforced_second : ∃ s between earlier, (program smallConfig).Reach Served s ∧
    s.log = (.autosuspend 0, .suspend true) :: (between ++ (.autosuspend 0, .suspend true) :: earlier) ∧
    SleepsBetween smallConfig (.autosuspend 0) true between ((.autosuspend 0, .suspend true) :: earlier) := by
  obtain ⟨s, hreach, hs⟩ := Program.Reach.of_run (program smallConfig) (fun _ a => servedAction a)
    (toSuspend ++ go (.autosuspend 0) 18 ++ secondCycle)
    (fun s => s.log = (.autosuspend 0, .suspend true) ::
        ((s.log.take 10).tail ++ (.autosuspend 0, .suspend true) :: s.log.drop 11) &&
      (s.log.take 10).tail.all fun e => !isAttempt e.2)
    (fun _ _ h => h) (by decide +kernel)
  simp only [Bool.and_eq_true, decide_eq_true_eq, List.all_eq_true, Bool.not_eq_true'] at hs
  exact ⟨s, _, _, hreach, hs.1, (backoff_enforced smallConfig hreach).2.1 [] _ _ _ _ _ _ hs.1 hs.2⟩

end attempts

end HardwareInterfaces.Suspend.Service
