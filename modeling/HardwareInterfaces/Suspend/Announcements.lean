import HardwareInterfaces.Suspend.Attempts
import HardwareInterfaces.Suspend.LoopPoints
import HardwareInterfaces.Suspend.Registrations

/-!
# The announcement of wakeups

Every system wakeup is to be announced to the suspend callbacks, in a round of calls. An autosuspend thread makes one
round after each of its writes of "mem": what it records of its attempts and rounds is a sequence of segments
(`Announces`), each of them an attempt, the start of the round and a call of every callback copied at that moment, and only
the newest may be unfinished. `forceSuspend` writes "mem" too and announces nothing (`forced_wakeup_unannounced`), so that
every wakeup is announced in the runs in which none of its writes succeeds (`wakeups_announced`).
-/

namespace HardwareInterfaces.Suspend.Service

open CppStd Monitor Mutex History

/-! ### The registered callbacks -/

def afterEvent : Ev → List Callback → List Callback
  | .registerCallback (some cb) true, callbacks => callbacks ++ [cb]
  | .binderDied who, callbacks => callbacks.filter fun i => i.binder ≠ who
  | _, callbacks => callbacks

def callbacksAfter (log : Log) : List Callback := log.foldr (fun e => afterEvent e.2) []

theorem callbacksAfter_append {new log : Log} (hnew : ∀ e ∈ new, registryEvent e.2 = false) :
    callbacksAfter (new ++ log) = callbacksAfter log := by
  induction new with
  | nil => rfl
  | cons e new ih =>
    have hsame : ∀ x callbacks, registryEvent x = false → afterEvent x callbacks = callbacks := by
      intro x callbacks hx
      cases x with
      | registerCallback cb ret =>
        obtain rfl : ret = false := hx
        cases cb <;> rfl
      | binderDied who => cases hx
      | _ => rfl
    rw [List.cons_append, callbacksAfter, List.foldr_cons, hsame _ _ (hnew e List.mem_cons_self)]
    exact ih fun x hx => hnew x (List.mem_cons_of_mem e hx)

section callbacks

variable {cfg : Config} {t : Tid} {env : Env} {σ : Shared} {b : Block} {o : Out}

theorem exec_callbacks (h : exec cfg t env σ b = some o) {log : Log}
    (hlog : σ.control.mCallbacks = callbacksAfter log) :
    o.state.control.mCallbacks = callbacksAfter (o.events.map (t, ·) ++ log) := by
  have hframe := exec_frame h
  cases hb : b.registers with
  | true =>
    cases b with
    | pushCallback cb =>
      obtain rfl := Option.some.inj h
      simp [callbacksAfter, afterEvent, Registry.pushCallback, hlog]
    | pushWakelockCallback cb name =>
      obtain rfl := Option.some.inj h
      exact Registry.pushWakelockCallback_mCallbacks.trans hlog
    | eraseCallbacks who =>
      obtain rfl := Option.some.inj h
      simp [callbacksAfter, afterEvent, Registry.eraseCallbacks, hlog]
    | _ => cases hb
  | false =>
    rw [callbacksAfter_append (not_of_filter (hframe.registry hb) t), ← hlog]
    cases hcontrol : b.changesControl with
    | false => rw [hframe.control hcontrol]
    | true =>
      cases b with
      | registerCallback cb =>
        obtain rfl := Option.some.inj h
        simp only [registerCallback]
        split
        · rename_i hlink
          exact Registry.linkCallback_mCallbacks hlink
        · rfl
      | registerWakelockCallback cb name =>
        obtain rfl := Option.some.inj h
        simp only [registerWakelockCallback]
        split <;> exact Registry.linkWakelockCallback_mCallbacks
      | eraseWakelockCallbacks who =>
        obtain rfl := Option.some.inj h
        rfl
      | _ => simp [Block.changesControl, Block.registers] at hcontrol hb

theorem reach_callbacks {ok : ServiceState → ServiceAction → Prop} {s : ServiceState} (h : (program cfg).Reach ok s) :
    s.shared.control.mCallbacks = callbacksAfter s.log := by
  refine h.on_blocks (I := fun σ log => σ.control.mCallbacks = callbacksAfter log) rfl ?_
  intro s a s' t b env c o _ _ hr hs
  exact exec_callbacks (exec_of_ran hr) hs

end callbacks

/-! ### Attempts and rounds -/

def isRound : Ev → Bool
  | .notifyWakeup .. => true
  | _ => false

def isTold : Ev → Bool
  | .callback _ (.notifyWakeup ..) => true
  | _ => false

def wakeupEvent (x : Ev) : Bool := isAttempt x || isRound x || isTold x

def wakeupLog (log : Log) : Log := log.filter fun e => wakeupEvent e.2

def calls (t : Tid) (success : Bool) (wakeupReasons : List StdString) (callbacks : List Callback) : Log :=
  callbacks.map fun cb => (t, .callback cb (.notifyWakeup success wakeupReasons))

/-- What is left to do for the announcement of an attempt. -/
inductive Announcement
  | start (success : Bool)
  | tell (callback : Callback) (success : Bool) (wakeupReasons : List StdString)
  deriving DecidableEq

def announce? : Block → Option Announcement
  | .loop (.readSuspendTime success) => some (.start success)
  | .loop (.readWakeupReasons success) => some (.start success)
  | .notifyWakeup success _ => some (.start success)
  | .callback cb (.notifyWakeup success wakeupReasons) => some (.tell cb success wakeupReasons)
  | _ => none

/-- What thread `t` has recorded since its attempt, newest first, for what it has left to do. -/
inductive Stage (t : Tid) : List Announcement → Log → Prop
  | started (success : Bool) : Stage t [.start success] [(t, .suspend success)]
  | telling (success : Bool) (wakeupReasons : List StdString) (told left : List Callback) :
      Stage t (left.map (.tell · success wakeupReasons))
        (calls t success wakeupReasons told ++
          [(t, .notifyWakeup success wakeupReasons (told.reverse ++ left)), (t, .suspend success)])

theorem Stage.segment {t : Tid} {todo : List Announcement} {log : Log} (h : Stage t todo log) :
    Segment (fun e => isAttempt e.2) log := by
  cases h with
  | started success => exact ⟨[], _, rfl, rfl, by simp⟩
  | telling success reasons told left =>
    refine ⟨calls t success reasons told ++ [_], _, by rw [List.append_assoc]; rfl, rfl, fun e he => ?_⟩
    rcases List.mem_append.mp he with he | he
    · obtain ⟨cb, -, rfl⟩ := List.mem_map.mp he
      rfl
    · rw [List.mem_singleton.mp he]
      rfl

theorem Stage.of_start {t : Tid} {success : Bool} {rest : List Announcement} {log : Log}
    (h : Stage t (.start success :: rest) log) : rest = [] ∧ log = [(t, .suspend success)] := by
  generalize htodo : Announcement.start success :: rest = todo at h
  cases h with
  | started success' =>
    obtain ⟨hsame, rfl⟩ := List.cons.inj htodo
    cases hsame
    exact ⟨rfl, rfl⟩
  | telling success' reasons told left => cases left <;> cases htodo

theorem Stage.of_tell {t : Tid} {cb : Callback} {success : Bool} {reasons : List StdString} {rest : List Announcement}
    {log : Log} (h : Stage t (.tell cb success reasons :: rest) log) :
    ∃ told left, rest = left.map (.tell · success reasons) ∧ log = calls t success reasons told ++
      [(t, .notifyWakeup success reasons (told.reverse ++ cb :: left)), (t, .suspend success)] := by
  generalize htodo : Announcement.tell cb success reasons :: rest = todo at h
  cases h with
  | started success' => cases htodo
  | telling success' reasons' told left =>
    cases left with
    | nil => cases htodo
    | cons cb' left =>
      cases htodo
      exact ⟨told, left, rfl, rfl⟩

theorem Stage.of_nil {t : Tid} {log : Log} (h : Stage t [] log) :
    ∃ success reasons told, log = calls t success reasons told ++ [(t, .notifyWakeup success reasons told.reverse)] ++
      [(t, .suspend success)] := by
  generalize htodo : ([] : List Announcement) = todo at h
  cases h with
  | started success => cases htodo
  | telling success reasons told left =>
    obtain rfl := List.map_eq_nil_iff.mp htodo.symm
    exact ⟨success, reasons, told, by simp⟩

theorem announce_eq_nil {c : ThreadCode} (hloop : OutOfLoop c) (hwork : c.duties Block.work? = [])
    (hcalls : c.duties Block.callback? = []) : c.duties announce? = [] := by
  refine Code.duties_eq_nil fun b hb => ?_
  cases b with
  | notifyWakeup success reasons => cases Code.none_of_duties hwork hb
  | loop l => cases Code.none_of_duties hloop hb
  | callback cb n => cases Code.none_of_duties hcalls hb
  | _ => rfl

theorem announce_notifyAll (m : Mutex) (callbacks : List Callback) (n : Notification) :
    (notifyAll m callbacks n).duties announce? = callbacks.filterMap fun cb => announce? (.callback cb n) := by
  rw [notifyAll, Code.duties_unlock, Code.duties, List.filterMap_map]
  rfl

section blocks

variable {cfg : Config} {t : Tid} {env : Env} {σ : Shared} {b : Block} {o : Out}

theorem no_wakeupEvent (h : exec cfg t env σ b = some o) (hattempt : b ≠ .loop .writeState)
    (hround : b.notifies = false) (htold : b.callback? = none) : ∀ e ∈ o.events.map (t, ·), wakeupEvent e.2 = false := by
  rintro ⟨u, x⟩ he
  have hround := not_of_filter ((exec_frame h).rounds hround) t _ he
  have htold := not_of_filter ((exec_frame h).told htold) t _ he
  cases x with
  | suspend success =>
    obtain ⟨x, hx, hsame⟩ := List.mem_map.mp he
    obtain ⟨-, rfl⟩ := Prod.mk.inj hsame
    exact absurd (block_of_suspend h hx) hattempt
  | notifyWakeup success reasons callbacks => cases hround
  | callback cb n => cases htold
  | _ => rfl

theorem announce_execLoop (l : LoopBlock) (hl : l ≠ .writeState) :
    (execLoop env σ l).code.duties announce? = (announce? (.loop l)).toList := by
  cases l with
  | head shouldSleep =>
    simp only [execLoop]
    split
    · rfl
    · cases shouldSleep <;> rfl
  | readWakeupCount shouldSleep => rfl
  | writeWakeupCount wakeupCount =>
    simp only [execLoop]
    split <;> rfl
  | writeState => exact absurd rfl hl
  | readSuspendTime success => rfl
  | readWakeupReasons success => rfl
  | _ =>
    simp only [execLoop]
    split <;> rfl

theorem exec_announce (h : exec cfg t env σ b = some o) (hserved : b.unserved? = none) :
    (b = .loop .writeState ∧ o.code.duties announce? = [.start env.ok] ∧ o.events = [.suspend env.ok]) ∨
    (∃ success reasons, b = .notifyWakeup success reasons ∧
      o.code.duties announce? = σ.control.mCallbacks.map (.tell · success reasons) ∧
      o.events = [.notifyWakeup success reasons σ.control.mCallbacks]) ∨
    (∃ cb success reasons, b = .callback cb (.notifyWakeup success reasons) ∧ o.code.duties announce? = [] ∧
      o.events = [.callback cb (.notifyWakeup success reasons)]) ∨
    (o.code.duties announce? = (announce? b).toList ∧ ∀ e ∈ o.events.map (t, ·), wakeupEvent e.2 = false) := by
  have hframe := exec_frame h
  cases hloop : b.loop? with
  | some l =>
    obtain rfl := Block.eq_loop hloop
    by_cases hl : l = .writeState
    · subst hl
      obtain rfl := Option.some.inj h
      exact Or.inl ⟨rfl, rfl, rfl⟩
    · have hevents := no_wakeupEvent h (fun hb => hl (Block.loop.inj hb)) rfl rfl
      obtain rfl := Option.some.inj h
      exact Or.inr (Or.inr (Or.inr ⟨announce_execLoop l hl, hevents⟩))
  | none =>
    have hnone := announce_eq_nil (hframe.loops hloop) (hframe.work hloop hserved)
    cases b with
    | notifyWakeup success reasons =>
      obtain rfl := Option.some.inj h
      refine Or.inr (Or.inl ⟨success, reasons, rfl, ?_, rfl⟩)
      exact (announce_notifyAll _ _ _).trans (congrFun List.filterMap_eq_map _)
    | notifyWakelock change holder =>
      obtain rfl := Option.some.inj h
      refine Or.inr (Or.inr (Or.inr ⟨(announce_notifyAll _ _ _).trans ?_, List.forall_mem_singleton.mpr rfl⟩))
      cases change <;> exact List.filterMap_eq_nil_iff.mpr fun _ _ => rfl
    | callback cb n =>
      have hcode := hnone (hframe.calls rfl)
      obtain rfl := Option.some.inj h
      cases n with
      | notifyWakeup success reasons => exact Or.inr (Or.inr (Or.inl ⟨cb, success, reasons, rfl, hcode, rfl⟩))
      | notifyAcquired => exact Or.inr (Or.inr (Or.inr ⟨hcode, List.forall_mem_singleton.mpr rfl⟩))
      | notifyReleased => exact Or.inr (Or.inr (Or.inr ⟨hcode, List.forall_mem_singleton.mpr rfl⟩))
    | loop l => cases hloop
    | _ => exact Or.inr (Or.inr (Or.inr ⟨hnone (hframe.calls rfl), no_wakeupEvent h (by simp) rfl rfl⟩))

end blocks

/-! ### Whole runs -/

abbrev todo (s : ServiceState) (t : Tid) : List Announcement := (s.code t).duties announce?

def Complete (log : Log) : Prop := ∃ t, Stage t [] log

/-- The attempts and rounds so far: only the newest may be unfinished, and then the thread in the loop has the rest to do. -/
structure Announces (s : ServiceState) : Prop where
  only : ∀ t, OutOfLoop (s.code t) → todo s t = []
  pending : ∀ t, todo s t ≠ [] →
    ∃ last, ∃ rounds : List Log, wakeupLog s.log = last ++ rounds.flatten ∧ Stage t (todo s t) last ∧
      ∀ l ∈ rounds, Complete l
  settled : (∀ t, todo s t = []) → ∃ rounds : List Log, wakeupLog s.log = rounds.flatten ∧ ∀ l ∈ rounds, Complete l

section announces

variable {cfg : Config} {s s' : ServiceState} {a : ServiceAction} {t : Tid} {b : Block} {env : Env} {c : ThreadCode}
  {o : Out}

theorem wakeupLog_append {new log : Log} (hnew : ∀ e ∈ new, wakeupEvent e.2 = false) :
    wakeupLog (new ++ log) = wakeupLog log := by
  have hnone : (new.filter fun e => wakeupEvent e.2) = [] :=
    List.filter_eq_nil_iff.mpr fun e he => by simp [hnew e he]
  rw [wakeupLog, List.filter_append, hnone, List.nil_append, wakeupLog]

theorem Announces.same (h : Announces s) (honly : ∀ u, OutOfLoop (s'.code u) → todo s' u = [])
    (hsame : ∀ u, todo s' u = todo s u) (hlog : wakeupLog s'.log = wakeupLog s.log) : Announces s' := by
  refine ⟨honly, fun u hu => ?_, fun hnone => ?_⟩
  · rw [hsame] at hu ⊢
    rw [hlog]
    exact h.pending u hu
  · rw [hlog]
    exact h.settled fun u => by rw [← hsame, hnone u]

/-- Only one thread has something left to do, and what is recorded since its attempt fits to it. -/
theorem Announces.next (honly : ∀ u, OutOfLoop (s'.code u) → todo s' u = []) (hother : ∀ u, u ≠ t → todo s' u = [])
    {last : Log} {rounds : List Log} (hlog : wakeupLog s'.log = last ++ rounds.flatten)
    (hstage : Stage t (todo s' t) last) (hrounds : ∀ l ∈ rounds, Complete l) : Announces s' := by
  refine ⟨honly, fun u hu => ?_, fun hnone => ⟨last :: rounds, hlog, ?_⟩⟩
  · by_cases hut : u = t
    · subst hut
      exact ⟨last, rounds, hlog, hstage, hrounds⟩
    · exact absurd (hother u hut) hu
  · rw [hnone t] at hstage
    exact List.forall_mem_cons.mpr ⟨⟨t, hstage⟩, hrounds⟩

theorem Announces.thread (h : Announces s) (hloops : Loops s) (ht : todo s t ≠ []) : loopThread s.shared = some t :=
  hloops.thread_eq fun hout => ht (h.only t hout)

theorem Announces.other (h : Announces s) (hloops : Loops s) (hr : (program cfg).Ran s a s' t b env c o)
    (ht : loopThread s.shared = some t) (u : Tid) (hu : u ≠ t) : todo s' u = [] := by
  rw [todo, hr.duties_other hu (duties_of_spawn hr rfl)]
  by_contra hne
  exact hu (Option.some.inj ((h.thread hloops hne).symm.trans ht))

/-- A block that belongs to an announcement is run by the thread in the loop, at the stage that it has come to. -/
theorem Announces.under_way (h : Announces s) (hloops : Loops s) (hr : (program cfg).Ran s a s' t b env c o)
    {d : Announcement} (hd : announce? b = some d) :
    loopThread s.shared = some t ∧ ∃ last, ∃ rounds : List Log, wakeupLog s.log = last ++ rounds.flatten ∧
      Stage t (d :: c.duties announce?) last ∧ ∀ l ∈ rounds, Complete l := by
  have hbefore : todo s t = d :: c.duties announce? := by
    rw [todo, hr.duties_before, hd]
    rfl
  have hne : todo s t ≠ [] := by
    rw [hbefore]
    exact List.cons_ne_nil _ _
  refine ⟨h.thread hloops hne, ?_⟩
  rw [← hbefore]
  exact h.pending t hne

theorem Announces.attempt (h : Announces s) (hloops : Loops s)
    (hr : (program cfg).Ran s a s' t (.loop .writeState) env c o) (honly : ∀ u, OutOfLoop (s'.code u) → todo s' u = [])
    (hcode : o.code.duties announce? = [.start env.ok]) (hevents : o.events = [.suspend env.ok]) : Announces s' := by
  obtain ⟨ht, rfl⟩ := hloops.at_point hr.code
  obtain ⟨rounds, hlog, hrounds⟩ := h.settled fun u => by
    by_contra hne
    obtain rfl := Option.some.inj ((h.thread hloops hne).symm.trans ht)
    exact hne (by rw [todo, hr.code]; rfl)
  have hafter : todo s' t = [.start env.ok] := by
    rw [todo, hr.duties_self, hcode]
    rfl
  have hlog' : wakeupLog s'.log = [(t, .suspend env.ok)] ++ rounds.flatten := by
    rw [hr.log, hevents, ← hlog]
    rfl
  refine .next honly (h.other hloops hr ht) hlog' ?_ hrounds
  rw [hafter]
  exact .started env.ok

theorem Announces.round (h : Announces s) (hloops : Loops s) {success : Bool} {reasons : List StdString}
    (hr : (program cfg).Ran s a s' t (.notifyWakeup success reasons) env c o)
    (honly : ∀ u, OutOfLoop (s'.code u) → todo s' u = [])
    (hcode : o.code.duties announce? = s.shared.control.mCallbacks.map (.tell · success reasons))
    (hevents : o.events = [.notifyWakeup success reasons s.shared.control.mCallbacks]) :
    Announces s' ∧ ∃ rest, wakeupLog s.log = (t, .suspend success) :: rest := by
  obtain ⟨ht, last, rounds, hlog, hstage, hrounds⟩ := h.under_way hloops hr (d := .start success) rfl
  obtain ⟨hrest, rfl⟩ := hstage.of_start
  have hlog' : wakeupLog s'.log = [(t, .notifyWakeup success reasons s.shared.control.mCallbacks),
      (t, .suspend success)] ++ rounds.flatten := by
    rw [hr.log, hevents]
    exact congrArg (List.cons _) hlog
  refine ⟨.next honly (h.other hloops hr ht) hlog' ?_ hrounds, rounds.flatten, hlog⟩
  rw [todo, hr.duties_self, hcode, hrest, List.append_nil]
  exact .telling success reasons [] s.shared.control.mCallbacks

theorem Announces.call (h : Announces s) (hloops : Loops s) {cb : Callback} {success : Bool} {reasons : List StdString}
    (hr : (program cfg).Ran s a s' t (.callback cb (.notifyWakeup success reasons)) env c o)
    (honly : ∀ u, OutOfLoop (s'.code u) → todo s' u = []) (hcode : o.code.duties announce? = [])
    (hevents : o.events = [.callback cb (.notifyWakeup success reasons)]) : Announces s' := by
  obtain ⟨ht, last, rounds, hlog, hstage, hrounds⟩ := h.under_way hloops hr (d := .tell cb success reasons) rfl
  obtain ⟨told, left, hrest, rfl⟩ := hstage.of_tell
  have hlog' : wakeupLog s'.log = (calls t success reasons (cb :: told) ++
      [(t, .notifyWakeup success reasons ((cb :: told).reverse ++ left)), (t, .suspend success)]) ++ rounds.flatten := by
    rw [hr.log, hevents, List.reverse_cons, List.append_assoc told.reverse]
    exact congrArg (List.cons _) hlog
  refine .next honly (h.other hloops hr ht) hlog' ?_ hrounds
  rw [todo, hr.duties_self, hcode, hrest, List.nil_append]
  exact .telling success reasons (cb :: told) left

/-- A round that is recorded was started after an attempt, with the callbacks of that moment. -/
def AfterAttempt (e : Tid × Ev) (earlier : Log) : Prop :=
  ∀ success reasons callbacks, e.2 = .notifyWakeup success reasons callbacks → callbacks = callbacksAfter earlier ∧
    Since (fun x => wakeupEvent x.2 = false) (fun x _ => x = (e.1, .suspend success)) earlier

theorem afterAttempt_of_not {e : Tid × Ev} (he : wakeupEvent e.2 = false) (earlier : Log) : AfterAttempt e earlier := by
  intro success reasons callbacks hround
  rw [hround] at he
  cases he

theorem since_of_wakeupLog {log rest : Log} {x : Tid × Ev} (h : wakeupLog log = x :: rest) :
    Since (fun e => wakeupEvent e.2 = false) (fun e _ => e = x) log := by
  obtain ⟨newer, older, rfl, hnewer, -, -⟩ := List.filter_eq_cons_iff.mp h
  exact since_iff.mpr ⟨newer, x, older, rfl, rfl, fun e he => by simpa using hnewer e he⟩

theorem Announces.ran (h : Announces s) (hlog : Historically AfterAttempt s.log) (hloops : Loops s)
    (hserved : ServedCode s) (hcallbacks : s.shared.control.mCallbacks = callbacksAfter s.log)
    (hr : (program cfg).Ran s a s' t b env c o) : Announces s' ∧ Historically AfterAttempt s'.log := by
  have hcases := exec_announce (exec_of_ran hr) (hserved.block hr)
  have honly : ∀ u, OutOfLoop (s'.code u) → todo s' u = [] := by
    refine onlyLoop_ran h.only hloops hr (fun hloop hnone => ?_) rfl
    rcases hcases with ⟨rfl, -⟩ | ⟨success, reasons, rfl, -⟩ | ⟨cb, success, reasons, rfl, hcode, -⟩ | ⟨hcode, -⟩
    · cases hloop
    · cases hnone
    · exact hcode
    · rw [hcode, hnone]
      rfl
  rw [hr.log]
  rcases hcases with ⟨rfl, hcode, hevents⟩ | ⟨success, reasons, rfl, hcode, hevents⟩ |
    ⟨cb, success, reasons, rfl, hcode, hevents⟩ | ⟨hcode, hevents⟩
  · refine ⟨h.attempt hloops hr honly hcode hevents, ?_⟩
    rw [hevents]
    exact ⟨by simp [AfterAttempt], hlog⟩
  · obtain ⟨hnext, rest, hattempt⟩ := h.round hloops hr honly hcode hevents
    rw [hevents]
    refine ⟨hnext, fun success' reasons' callbacks he => ?_, hlog⟩
    cases he
    exact ⟨hcallbacks, since_of_wakeupLog hattempt⟩
  · refine ⟨h.call hloops hr honly hcode hevents, ?_⟩
    rw [hevents]
    exact ⟨by simp [AfterAttempt], hlog⟩
  · refine ⟨h.same honly (hr.duties_same (duties_of_spawn hr rfl) hcode) ?_, ?_⟩
    · rw [hr.log, wakeupLog_append hevents]
    · exact hlog.append fun e he earlier => afterAttempt_of_not (hevents e he) earlier

theorem reach_announces (h : (program cfg).Reach Served s) : Announces s ∧ Historically AfterAttempt s.log := by
  have hinit : Announces (program cfg).init :=
    ⟨fun _ _ => rfl, fun t ht => absurd rfl ht, fun _ => ⟨[], rfl, by simp⟩⟩
  refine h.invariant (I := fun s => Announces s ∧ Historically AfterAttempt s.log) ⟨hinit, trivial⟩
    fun s a s' hreach _ hs hstep => ?_
  rcases hstep.quiet_or_ran with hq | ⟨t, b, env, c, o, hr⟩
  · have hsame : ∀ u, todo s' u = todo s u := duties_of_quiet hq fun _ => rfl
    rw [hq.log]
    refine ⟨hs.1.same (fun u hout => ?_) hsame (by rw [hq.log]), hs.2⟩
    rw [OutOfLoop, duties_of_quiet hq fun _ => rfl] at hout
    rw [hsame, hs.1.only u hout]
  · exact hs.1.ran hs.2 (reach_loops hreach) (reach_served hreach) (reach_callbacks hreach) hr

end announces

/-! ### Both ways to suspend -/

/-- The two ways on which "mem" is written. -/
inductive Path
  | autosuspend
  | forceSuspend
  deriving DecidableEq

/-- The write of "mem" an event is, and its success. -/
def write? : Ev → Option (Path × Bool)
  | .suspend success => some (.autosuspend, success)
  | .forceSuspend success => some (.forceSuspend, success)
  | _ => none

/-- Thread `t` has started one round since its write of "mem", told all callbacks that were registered when the round
started that the suspend was successful, and told nobody else. -/
def AnnouncedOnce (t : Tid) (since before : Log) : Prop :=
  ∃ newer reasons older,
    since = newer ++ (t, .notifyWakeup true reasons (callbacksAfter (older ++ before))) :: older ∧
    (∀ e ∈ newer ++ older, e.1 = t → isRound e.2 = false) ∧
    (newer.filter fun e => e.1 = t && isTold e.2) = calls t true reasons (callbacksAfter (older ++ before)).reverse ∧
    ∀ e ∈ older, e.1 = t → isTold e.2 = false

/-- No thread is at work: the clients have returned, and the autosuspend thread is at the head of its loop. -/
def Idling (s : ServiceState) : Prop := AtRest s ∧ ∀ n, s.code (.client n) = []

/-- Every wakeup is announced, and nothing else is. -/
structure Announced (s : ServiceState) : Prop where
  /-- Between a successful write of "mem" and the next write on the same way there is one round for it. -/
  between : ∀ later t₂ x₂ between t₁ x₁ earlier path success₂,
    s.log = later ++ (t₂, x₂) :: (between ++ (t₁, x₁) :: earlier) →
    write? x₁ = some (path, true) → write? x₂ = some (path, success₂) →
    (∀ e ∈ between, ∀ success, write? e.2 ≠ some (path, success)) → AnnouncedOnce t₁ between ((t₁, x₁) :: earlier)
  /-- There is one round for the last successful write when no thread is at work any more. -/
  last : Idling s → ∀ later t x earlier path, s.log = later ++ (t, x) :: earlier → write? x = some (path, true) →
    (∀ e ∈ later, ∀ success, write? e.2 ≠ some (path, success)) → AnnouncedOnce t later ((t, x) :: earlier)
  /-- A round comes after a write of the same thread, and announces its result; the thread has started no other since. -/
  rounds : Historically (fun e earlier => ∀ success reasons callbacks, e.2 = .notifyWakeup success reasons callbacks →
    Since (fun x => x.1 = e.1 → isRound x.2 = false)
      (fun x _ => x.1 = e.1 ∧ ∃ path, write? x.2 = some (path, success)) earlier) s.log

/-- A write of "mem" by `forceSuspend` that succeeds. -/
def forcesSuspend (s : ServiceState) : ServiceAction → Bool
  | .step t env _ => (s.code t).head? = some (.run .forceSuspend) && env.ok
  | _ => false

/-- Runs in which no forced suspend succeeds. -/
def NotForced (s : ServiceState) (a : ServiceAction) : Prop := Served s a ∧ forcesSuspend s a = false

section announced

variable {cfg : Config} {s : ServiceState} {t : Tid}

theorem isAttempt_of_write {x : Ev} {success : Bool} (h : write? x = some (.autosuspend, success)) :
    x = .suspend success := by
  cases x with
  | suspend success' => cases h; rfl
  | forceSuspend success' => cases h
  | _ => cases h

theorem not_of_wakeupEvent {x : Ev} (hx : wakeupEvent x = false) : isRound x = false ∧ isTold x = false := by
  rw [wakeupEvent, Bool.or_eq_false_iff, Bool.or_eq_false_iff] at hx
  exact ⟨hx.1.2, hx.2⟩

theorem mem_wakeupLog {log : Log} {e : Tid × Ev} (he : e ∈ log) (hevent : wakeupEvent e.2 = true) : e ∈ wakeupLog log :=
  List.mem_filter.mpr ⟨he, hevent⟩

theorem split_of_wakeupLog {since told : Log} {e : Tid × Ev} (h : wakeupLog since = told ++ [e]) :
    ∃ newer older, since = newer ++ e :: older ∧ wakeupLog newer = told ∧ wakeupLog older = [] := by
  obtain ⟨newer, rest, rfl, hnewer, hrest⟩ := List.filter_eq_append_iff.mp h
  obtain ⟨skipped, older, rfl, hskipped, -, holder⟩ := List.filter_eq_cons_iff.mp hrest
  refine ⟨newer ++ skipped, older, by simp, ?_, holder⟩
  have hnone : wakeupLog skipped = [] := List.filter_eq_nil_iff.mpr hskipped
  rw [wakeupLog, List.filter_append]
  exact (congrArg₂ (· ++ ·) hnewer hnone).trans (List.append_nil _)

theorem told_of_wakeupLog {log : Log} {reasons : List StdString} {callbacks : List Callback}
    (h : wakeupLog log = calls t true reasons callbacks) :
    (log.filter fun e => e.1 = t && isTold e.2) = calls t true reasons callbacks := by
  have htold : ∀ e ∈ calls t true reasons callbacks, (decide (e.1 = t) && isTold e.2) = true := by
    intro e he
    obtain ⟨cb, -, rfl⟩ := List.mem_map.mp he
    simp [isTold]
  rw [← List.filter_eq_self.mpr htold, ← h, wakeupLog, List.filter_filter]
  refine List.filter_congr fun e _ => ?_
  cases hevent : isTold e.2 with
  | true => simp [wakeupEvent, hevent]
  | false => simp

theorem Complete.announcedOnce {since earlier : Log}
    (hlog : Historically AfterAttempt (since ++ (t, .suspend true) :: earlier))
    (h : Complete (wakeupLog since ++ [(t, .suspend true)])) : AnnouncedOnce t since ((t, .suspend true) :: earlier) := by
  obtain ⟨u, hstage⟩ := h
  obtain ⟨success, reasons, told, hround⟩ := hstage.of_nil
  obtain ⟨hsince, hattempt⟩ := List.append_inj' hround rfl
  cases hattempt
  obtain ⟨newer, older, rfl, hnewer, holder⟩ := split_of_wakeupLog hsince
  rw [List.append_assoc, List.cons_append] at hlog
  have hcallbacks := (historically_iff.mp hlog _ _ _ rfl true reasons told.reverse rfl).1
  have hquiet : ∀ e ∈ older, wakeupEvent e.2 = false := fun e he => by simpa using List.filter_eq_nil_iff.mp holder e he
  refine ⟨newer, reasons, older, by rw [hcallbacks], fun e he _ => ?_, ?_, fun e he _ => ?_⟩
  · rcases List.mem_append.mp he with he | he
    · by_contra hevent
      have hmem := mem_wakeupLog he (by simp [wakeupEvent, hevent])
      rw [hnewer] at hmem
      obtain ⟨cb, -, rfl⟩ := List.mem_map.mp hmem
      exact hevent rfl
    · exact (not_of_wakeupEvent (hquiet e he)).1
  · rw [← hcallbacks, List.reverse_reverse]
    exact told_of_wakeupLog hnewer
  · exact (not_of_wakeupEvent (hquiet e he)).2

theorem wakeupLog_attempt {later earlier : Log} {success : Bool} :
    wakeupLog (later ++ (t, .suspend success) :: earlier) =
      wakeupLog later ++ (t, .suspend success) :: wakeupLog earlier := by
  simp [wakeupLog, wakeupEvent, isAttempt]

/-- All attempts and rounds so far begin with an attempt. -/
theorem Announces.segments (h : Announces s) :
    ∃ segments : List Log, wakeupLog s.log = segments.flatten ∧ (∀ l ∈ segments, Segment (fun e => isAttempt e.2) l) ∧
      ((∀ u, todo s u = []) → ∀ l ∈ segments, Complete l) ∧ ∀ l ∈ segments.tail, Complete l := by
  have hsegment : ∀ l, Complete l → Segment (fun e => isAttempt e.2) l := by
    rintro l ⟨t, hstage⟩
    exact hstage.segment
  by_cases hnone : ∀ u, todo s u = []
  · obtain ⟨rounds, hlog, hrounds⟩ := h.settled hnone
    exact ⟨rounds, hlog, fun l hl => hsegment l (hrounds l hl), fun _ => hrounds,
      fun l hl => hrounds l (List.mem_of_mem_tail hl)⟩
  · push Not at hnone
    obtain ⟨t, ht⟩ := hnone
    obtain ⟨last, rounds, hlog, hstage, hrounds⟩ := h.pending t ht
    refine ⟨last :: rounds, hlog, ?_, fun hnone => absurd (hnone t) ht, hrounds⟩
    exact List.forall_mem_cons.mpr ⟨hstage.segment, fun l hl => hsegment l (hrounds l hl)⟩

theorem reach_notForced (h : (program cfg).Reach NotForced s) : ∀ e ∈ s.log, e.2 ≠ .forceSuspend true := by
  rintro ⟨t, x⟩ he hforced
  obtain rfl : x = .forceSuspend true := hforced
  obtain ⟨s₀, a, s₁, b, env, c, o, -, hok, hr, hmem, -⟩ := h.recorded he
  cases hb : b.forces with
  | false => cases not_of_filter ((exec_frame (exec_of_ran hr)).forced hb) t _ (List.mem_map_of_mem hmem)
  | true =>
    cases b with
    | forceSuspend =>
      obtain ⟨pick, rfl, -⟩ := hr.action
      obtain rfl := Option.some.inj (exec_of_ran hr)
      have hnot := hok.2
      simp [forcesSuspend, hr.code, ← Ev.forceSuspend.inj (List.mem_singleton.mp hmem)] at hnot
    | _ => cases hb

theorem write_of_notForced (h : (program cfg).Reach NotForced s) {x : Ev} {path : Path} (hmem : (t, x) ∈ s.log)
    (hx : write? x = some (path, true)) : path = .autosuspend ∧ x = .suspend true := by
  have hnot := reach_notForced h (t, x) hmem
  cases x with
  | suspend success =>
    cases hx
    exact ⟨rfl, rfl⟩
  | forceSuspend success =>
    cases hx
    exact absurd rfl hnot
  | _ => cases hx

theorem no_attempt {log : Log} (h : ∀ e ∈ log, ∀ success, write? e.2 ≠ some (.autosuspend, success)) :
    ∀ e ∈ wakeupLog log, isAttempt e.2 = false := by
  rintro ⟨t, x⟩ he
  have hnot := h _ (List.mem_filter.mp he).1
  cases x with
  | suspend success => exact absurd rfl (hnot success)
  | _ => rfl

theorem Announces.idling (h : Announces s) (hidling : Idling s) (u : Tid) : todo s u = [] := by
  by_cases hout : OutOfLoop (s.code u)
  · exact h.only u hout
  · obtain ⟨shouldSleep, hcode⟩ := hidling.1 u hout
    rw [todo, hcode]
    rfl

/-- Without a forced suspend every wakeup is announced. -/
theorem wakeups_announced (cfg : Config) (h : (program cfg).Reach NotForced s) : Announced s := by
  obtain ⟨hannounces, hlog⟩ := reach_announces (h.mono fun _ _ hok => hok.1)
  obtain ⟨segments, hsegments, hall, hsettled, hcomplete⟩ := hannounces.segments
  refine ⟨?_, ?_, ?_⟩
  · intro later t₂ x₂ between t₁ x₁ earlier path success₂ hsplit hx₁ hx₂ hbetween
    obtain ⟨rfl, rfl⟩ := write_of_notForced h (t := t₁) (by simp [hsplit]) hx₁
    obtain rfl := isAttempt_of_write hx₂
    rw [hsplit, wakeupLog_attempt, wakeupLog_attempt] at hsegments
    rw [hsplit] at hlog
    have hmem := between_marked hall hsegments.symm rfl rfl (no_attempt hbetween)
    exact (hcomplete _ hmem).announcedOnce hlog.earlier.2
  · intro hidling later t x earlier path hsplit hx hlater
    obtain ⟨rfl, rfl⟩ := write_of_notForced h (t := t) (by simp [hsplit]) hx
    rw [hsplit, wakeupLog_attempt] at hsegments
    rw [hsplit] at hlog
    obtain ⟨rest, rfl, -⟩ := newest_segment hall hsegments.symm rfl (no_attempt hlater)
    exact (hsettled (hannounces.idling hidling) _ List.mem_cons_self).announcedOnce hlog
  · refine historically_iff.mpr fun later e earlier hsplit success reasons callbacks hround => ?_
    obtain ⟨-, hattempt⟩ := historically_iff.mp hlog later e earlier hsplit success reasons callbacks hround
    refine hattempt.mono (fun x hx _ => (not_of_wakeupEvent hx).1) ?_
    rintro x - rfl
    exact ⟨rfl, .autosuspend, rfl⟩

/-- Two cycles of the autosuspend loop with a callback registered: it is told once between the two attempts. -/
theorem wakeups_announced_cycles : ∃ s between earlier, (program smallConfig).Reach NotForced s ∧
    s.log = (.autosuspend 0, .suspend true) :: (between ++ (.autosuspend 0, .suspend true) :: earlier) ∧
    callbacksAfter earlier = [⟨7, true⟩] ∧
    AnnouncedOnce (.autosuspend 0) between ((.autosuspend 0, .suspend true) :: earlier) := by
  obtain ⟨s, hreach, hs⟩ := Program.Reach.of_run (program smallConfig)
    (fun s a => servedAction a && !forcesSuspend s a)
    (goCall (.client 1) (.registerCallback (some ⟨7, true⟩)) 5 ++ toSuspend ++ go (.autosuspend 0) 19 ++ secondCycle)
    (fun s => s.log = (.autosuspend 0, .suspend true) ::
        ((s.log.take 11).tail ++ (.autosuspend 0, .suspend true) :: s.log.drop 12) &&
      ((s.log.take 11).tail.all fun e => write? e.2 = none) && callbacksAfter (s.log.drop 12) = [⟨7, true⟩])
    (fun s a h => by simpa using h) (by decide +kernel)
  simp only [Bool.and_eq_true, decide_eq_true_eq, List.all_eq_true] at hs
  obtain ⟨⟨hlog, hnone⟩, hcallbacks⟩ := hs
  refine ⟨s, _, _, hreach, hlog, hcallbacks, ?_⟩
  refine (wakeups_announced smallConfig hreach).between [] _ _ _ _ _ _ .autosuspend true hlog rfl rfl ?_
  intro e he success
  rw [hnone e he]
  simp

end announced

/-- Two forced suspends succeed one after the other, and the registered callback is told nothing. -/
theorem forced_wakeup_unannounced : ∃ s, (program smallConfig).Reach Served s ∧
    s.shared.control.mCallbacks = [⟨7, true⟩] ∧ ¬ Announced s := by
  obtain ⟨s, hreach, hs⟩ := Program.Reach.of_run (program smallConfig) (fun _ a => servedAction a)
    (goCall (.client 0) (.registerCallback (some ⟨7, true⟩)) 5 ++ goCall (.client 0) .forceSuspend 4 ++
      goCall (.client 0) .forceSuspend 4)
    (fun s => s.log = (.client 0, .forceSuspend true) :: ([] ++ (.client 0, .forceSuspend true) :: s.log.drop 2) &&
      s.shared.control.mCallbacks = [⟨7, true⟩])
    (fun _ _ h => h) (by decide +kernel)
  simp only [Bool.and_eq_true, decide_eq_true_eq] at hs
  obtain ⟨hlog, hcallbacks⟩ := hs
  refine ⟨s, hreach, hcallbacks, fun hannounced => ?_⟩
  obtain ⟨newer, reasons, older, hround, -⟩ := hannounced.between [] _ _ _ _ _ _ .forceSuspend true hlog rfl rfl (by simp)
  simp at hround

end HardwareInterfaces.Suspend.Service
