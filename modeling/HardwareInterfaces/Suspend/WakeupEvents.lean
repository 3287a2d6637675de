import HardwareInterfaces.Suspend.Handshake
import HardwareInterfaces.Suspend.SafeSuspend

/-!
# Wakeup events

What the handshake is for: the system does not go to sleep between a wakeup event and the end of its handling. The
kernel keeps an event in progress until the process that handles it has a wake lock, and reports no count while an event
is in progress. The service reads the count before it looks at the counter and writes it back after, so an event that
came before the read has its wake lock counted by then, and an event that comes later makes the write or the suspend
fail (`no_wakeup_slept_through`).
-/

namespace HardwareInterfaces.Suspend.Service

open CppStd Monitor Mutex History

/-! ### What is recorded of the counter -/

def Happened (wl : Nat) (k : LockEvent) (h : List ServiceEvent) : Prop :=
  ∃ u x, .did u x ∈ h ∧ lockEvent? x = some (wl, k)

/-- A lock is counted once and uncounted later, and when the thread finds the counter at 0 no lock is counted. -/
structure InAccount (e : ServiceEvent) (earlier : List ServiceEvent) : Prop where
  inc : ∀ u x wl, e = .did u x → lockEvent? x = some (wl, .inc) → ¬ Happened wl .inc earlier
  dec : ∀ u x wl, e = .did u x → lockEvent? x = some (wl, .dec) → Happened wl .inc earlier
  checked : ∀ u wl, e = .did u .checkedCounter → Happened wl .inc earlier → Happened wl .dec earlier

/-- Runs in which there are never as many unreleased wake locks as the counter has values. -/
def FewLocks (s : ServiceState) (a : ServiceAction) : Prop := Served s a ∧ unreleasedLocks s < counterModulus

section account

variable {cfg : Config} {s s' : ServiceState} {a : ServiceAction} {t : Tid} {b : Block} {env : Env} {σ : Shared} {c : ThreadCode}
  {o : Out} {wl : Nat} {k : LockEvent}

theorem happened_iff : Happened wl k s.history ↔ (wl, k) ∈ lockLog s := by
  simp only [lockLog, State.log, List.mem_filterMap, Happened]
  constructor
  · rintro ⟨u, x, hmem, hx⟩
    exact ⟨(u, x), ⟨_, hmem, rfl⟩, hx⟩
  · rintro ⟨⟨u, x⟩, ⟨e, he, hdid⟩, hx⟩
    cases e with
    | did v y =>
      cases hdid
      exact ⟨u, x, he, hx⟩
    | _ => cases hdid

theorem happened_append {later earlier : List ServiceEvent} :
    Happened wl k (later ++ earlier) ↔ Happened wl k later ∨ Happened wl k earlier := by
  simp only [Happened, List.mem_append]
  grind

theorem LogInv.inc_once (h : LogInv s) (wl : Nat) : (lockLog s).count (wl, .inc) ≤ 1 := by
  by_cases hmem : (wl, .inc) ∈ lockLog s
  · rw [h.inc wl _ (List.getElem?_eq_getElem (h.made _ hmem))]
    exact Bool.toNat_le _
  · rw [List.count_eq_zero.mpr hmem]
    exact Nat.zero_le 1

theorem LogInv.inc_of_dec (h : LogInv s) (hlocks : Locks s) (hdec : (wl, .dec) ∈ lockLog s) :
    (wl, .inc) ∈ lockLog s := by
  obtain ⟨w, hw⟩ : ∃ w, s.shared.wakeLocks[wl]? = some w := ⟨_, List.getElem?_eq_getElem (h.made _ hdec)⟩
  have hpos := List.count_pos_iff.mpr hdec
  rw [h.dec wl _ hw] at hpos
  have hreleased : w.mReleased ≠ .idle := by
    intro hidle
    simp [WakeLock.decremented, hidle] at hpos
  have hreturned := (hlocks.inv wl _ hw).released hreleased
  rw [← List.count_pos_iff, h.inc wl _ hw, WakeLock.incremented, hreturned]
  exact Nat.one_pos

def concernsCounter : Ev → Bool
  | .incSuspendCounter _ => true
  | .decSuspendCounter _ => true
  | .checkedCounter => true
  | _ => false

theorem concernsCounter_of_lockEvent {x : Ev} (hx : lockEvent? x = some (wl, .inc) ∨ lockEvent? x = some (wl, .dec)) :
    concernsCounter x = true := by
  cases x with
  | incSuspendCounter holder => rfl
  | decSuspendCounter holder => rfl
  | _ => simp [lockEvent?] at hx

theorem loop_of_checkedCounter (h : exec cfg t env σ b = some o) (hx : .checkedCounter ∈ o.events) :
    o.events = [.checkedCounter] ∧ σ.mSuspendCounter = 0 := by
  cases hloop : b.loop? with
  | none =>
    have hsilent := List.filter_eq_nil_iff.mp ((exec_frame h).silent hloop) _ hx
    exact absurd rfl hsilent
  | some l =>
    obtain rfl := Block.eq_loop hloop
    obtain rfl := Option.some.inj h
    cases l with
    | checkCounter wakeupCount =>
      simp only [execLoop] at hx ⊢
      split at hx
      · cases hx
      · rename_i hcounter
        rw [if_neg hcounter]
        exact ⟨rfl, Nat.eq_zero_of_not_pos hcounter⟩
    | readWakeupCount shouldSleep => simp [execLoop] at hx
    | writeWakeupCount wakeupCount => simp [execLoop] at hx
    | writeState => simp [execLoop] at hx
    | readSuspendTime success => simp [execLoop] at hx
    | readWakeupReasons success =>
      simp only [execLoop] at hx
      split at hx <;> simp at hx
    | checkTokens wakeupCount =>
      simp only [execLoop, disableAutosuspendLocked] at hx
      split at hx <;> simp at hx
    | _ =>
      simp only [execLoop] at hx
      split at hx <;> simp at hx

theorem events_of_concernsCounter (hmode : cfg.useSuspendCounter = true) (h : exec cfg t env σ b = some o) {x : Ev}
    (hx : x ∈ o.events) (hcounter : concernsCounter x = true) : o.events = [x] := by
  cases x with
  | incSuspendCounter holder =>
    obtain rfl := block_of_inc h hx
    obtain rfl := Option.some.inj h
    rw [incSuspendCounter, if_pos hmode]
  | decSuspendCounter holder =>
    have hmem := mem_recorded h hx rfl
    obtain rfl : b = .decSuspendCounter holder := by
      unfold recorded at hmem
      split at hmem <;> simp at hmem
      rw [hmem]
    obtain rfl := Option.some.inj h
    rw [decSuspendCounter, if_pos hmode]
  | checkedCounter => exact (loop_of_checkedCounter h hx).1
  | _ => cases hcounter

theorem inAccount_ran (hmode : cfg.useSuspendCounter = true) (hreach : (program cfg).Reach FewLocks s)
    (hreach' : (program cfg).Reach FewLocks s') (hfew : unreleasedLocks s < counterModulus)
    (hr : (program cfg).Ran s a s' t b env c o) {x : Ev} (hevents : o.events = [x]) :
    InAccount (.did t x) s.history := by
  have hlog := reach_logInv hreach
  have hlog' := reach_logInv hreach'
  have hnew : ∀ {e}, lockEvent? x = some e → lockLog s' = e :: lockLog s := by
    intro e he
    rw [lockLog_ran hr, ← exec_lockEvents (exec_of_ran hr), hevents, List.filterMap_cons, he]
    rfl
  refine ⟨fun u y wl hy hinc => ?_, fun u y wl hy hdec => ?_, fun u wl hy hinc => ?_⟩
  · obtain ⟨-, rfl⟩ := Event.did.inj hy
    have honce := hlog'.inc_once wl
    rw [hnew hinc, List.count_cons_self] at honce
    rw [happened_iff, ← List.count_pos_iff]
    omega
  · obtain ⟨-, rfl⟩ := Event.did.inj hy
    have hmem : (wl, .dec) ∈ lockLog s' := by
      rw [hnew hdec]
      exact List.mem_cons_self
    have hcounted := hlog'.inc_of_dec (reach_locks hreach') hmem
    rw [hnew hdec] at hcounted
    exact happened_iff.mpr (by simpa using hcounted)
  · obtain ⟨-, rfl⟩ := Event.did.inj hy
    have hzero := (loop_of_checkedCounter (exec_of_ran hr) (by rw [hevents]; exact List.mem_cons_self)).2
    have hcounted := reach_counted (hreach.mono fun _ _ hok => hok.1)
    rw [Counted, if_pos hmode, hzero, ← hlog.unreleasedLocks_eq, Nat.mod_eq_of_lt hfew] at hcounted
    rw [happened_iff] at hinc ⊢
    have hnone := List.countP_eq_zero.mp hcounted.symm wl (List.mem_range.mpr (hlog.made _ hinc))
    simpa [hinc] using hnone

theorem reach_inAccount (hmode : cfg.useSuspendCounter = true) (h : (program cfg).Reach FewLocks s) :
    Historically InAccount s.history := by
  induction h with
  | init => trivial
  | @step s s' a hreach hok hstep ih =>
    have hreach' : (program cfg).Reach FewLocks s' := .step hreach hok hstep
    have hother : ∀ {e : ServiceEvent} {earlier}, (∀ u x, e = .did u x → concernsCounter x = false) →
        InAccount e earlier := by
      intro e earlier he
      refine ⟨fun u x wl hx hk => ?_, fun u x wl hx hk => ?_, fun u wl hx => ?_⟩
      · exact absurd (he u x hx) (by simp [concernsCounter_of_lockEvent (Or.inl hk)])
      · exact absurd (he u x hx) (by simp [concernsCounter_of_lockEvent (Or.inr hk)])
      · exact absurd (he u _ hx) (by simp [concernsCounter])
    cases Program.step_cases hstep with
    | lock => exact ⟨hother (by simp), ih⟩
    | unlock => exact ⟨hother (by simp), ih⟩
    | wait => exact ⟨hother (by simp), ih⟩
    | @run t env pick b c o left awake code exec spawn notified =>
      rw [State.ran_history]
      by_cases hcounter : ∃ x ∈ o.events, concernsCounter x = true
      · obtain ⟨x, hx, hcounter⟩ := hcounter
        have hevents := events_of_concernsCounter hmode exec hx hcounter
        have hr : (program cfg).Ran s (.step t env pick) (s.ran t c o left) t b env c o :=
          ⟨⟨pick, rfl, notified⟩, awake, code, exec, spawn, rfl⟩
        rw [hevents]
        exact ⟨inAccount_ran hmode hreach hreach' hok.2 hr hevents, ih⟩
      · push Not at hcounter
        refine ih.append fun e he earlier => hother fun u x hx => ?_
        subst hx
        obtain ⟨y, hy, hsame⟩ := List.mem_map.mp he
        obtain ⟨-, rfl⟩ := Event.did.inj hsame
        simpa using hcounter y hy
    | wake => exact ih
    | call => exact ih
    | env => exact ⟨hother (by simp), ih⟩

end account

/-! ### The count that the kernel has saved -/

/-- Events that neither save a count nor end the check that a saved count asks for. -/
def keepsSaved : ServiceEvent → Bool
  | .did _ (.wroteWakeupCount ..) => false
  | .did _ (.suspend _) => false
  | .did _ (.forceSuspend _) => false
  | _ => true

/-- If the kernel has a saved count, whether there was a wakeup event since. -/
def wakeupSinceSaved : List ServiceEvent → Option Bool
  | [] => none
  | .did _ (.wroteWakeupCount _ true) :: _ => some false
  | e :: h => if keepsSaved e then (wakeupSinceSaved h).map (· || decide (e = .env .kernelWakeup)) else none

def Saved (t : Tid) (wakeupCount : StdString) : List ServiceEvent → Prop :=
  Since (fun e => StillIdle t e ∧ keepsSaved e = true) fun e h =>
    e = .did t (.wroteWakeupCount wakeupCount true) ∧ HasChecked t wakeupCount h

theorem wakeupSinceSaved_append {t : Tid} {wakeupCount : StdString} {later earlier : List ServiceEvent}
    (h : ∀ e ∈ later, keepsSaved e = true) :
    wakeupSinceSaved (later ++ .did t (.wroteWakeupCount wakeupCount true) :: earlier) =
      some (decide (.env .kernelWakeup ∈ later)) := by
  induction later with
  | nil => rfl
  | cons e later ih =>
    have hkeeps := h e List.mem_cons_self
    rw [List.cons_append, wakeupSinceSaved, if_pos hkeeps, ih fun x hx => h x (List.mem_cons_of_mem e hx)]
    · simp [Bool.or_comm, eq_comm]
    · rintro u wakeupCount' rfl
      cases hkeeps

structure SavesCount (s : ServiceState) : Prop where
  ready : ∀ t p, s.code t = .run (.loop .writeState) :: p → ∃ wakeupCount, wakeupCount ≠ [] ∧ Saved t wakeupCount s.history
  written : Historically (fun e h => ∀ t success, e = .did t (.suspend success) →
    ∃ wakeupCount, wakeupCount ≠ [] ∧ Saved t wakeupCount h) s.history

section saved

variable {cfg : Config} {s s' : ServiceState} {a : ServiceAction} {t : Tid}

theorem block_of_forceSuspend {b : Block} {env : Env} {σ : Shared} {o : Out} {success : Bool}
    (h : exec cfg t env σ b = some o) (he : .forceSuspend success ∈ o.events) : b = .forceSuspend := by
  cases hb : b.forces with
  | false => exact absurd rfl (List.filter_eq_nil_iff.mp ((exec_frame h).forced hb) _ he)
  | true =>
    cases b with
    | forceSuspend => rfl
    | _ => cases hb

theorem others_keepSaved (hloops : Loops s) (hdisc : Program.Disciplined typing s) {p : ThreadCode}
    (hcode : s.code t = .run (.loop .writeState) :: p) (ha : ¬ a.By t) (hstep : (program cfg).Step s a s') :
    ∃ new, s'.history = new ++ s.history ∧ ∀ e ∈ new, StillIdle t e ∧ keepsSaved e = true := by
  obtain ⟨hpoint, rfl⟩ := hloops.at_point hcode
  obtain ⟨new, hhistory, hcycle, hheld⟩ := others_spare (p := []) hloops hdisc hcode ha hstep
  obtain ⟨new', hhistory', hnew⟩ := hstep.others_history hdisc ha
  obtain rfl : new = new' := List.append_cancel_right (hhistory.symm.trans hhistory')
  have hheld := hheld rfl List.mem_cons_self
  refine ⟨new, hhistory, fun e he => ⟨⟨⟨hcycle e he, (hheld e he).1⟩, (hheld e he).2⟩, ?_⟩⟩
  cases e with
  | did u x =>
    obtain ⟨hu, b, c, env, o, hcode', hexec, hx⟩ := (hnew _ he).2 u x rfl
    have hnoloop : b.loop? = none := by
      cases hb : b.loop? with
      | none => rfl
      | some l =>
        obtain rfl := Block.eq_loop hb
        exact absurd (Option.some.inj ((hloops.at_point hcode').1.symm.trans hpoint)) hu
    have hsilent := List.filter_eq_nil_iff.mp ((exec_frame hexec).silent hnoloop) x hx
    cases x with
    | wroteWakeupCount wakeupCount success => exact absurd rfl hsilent
    | suspend success => exact absurd rfl hsilent
    | forceSuspend success =>
      obtain rfl := block_of_forceSuspend hexec hx
      have howner : s.owner mAutosuspendLock = some u := (hdisc.owns_iff hcode').mpr List.mem_cons_self
      have howner' : s.owner mAutosuspendLock = some t := (hdisc.owns_iff hcode).mpr List.mem_cons_self
      exact absurd (Option.some.inj (howner.symm.trans howner')) hu
    | _ => rfl
  | _ => rfl

theorem SavesCount.ready_self {ok : ServiceState → ServiceAction → Prop} (hs : SavesCount s)
    (hreach : (program cfg).Reach ok s) (ha : a.By t) (hstep : (program cfg).Step s a s') {p : ThreadCode}
    (hcode : s'.code t = .run (.loop .writeState) :: p) :
    ∃ wakeupCount, wakeupCount ≠ [] ∧ Saved t wakeupCount s'.history := by
  have hloops := reach_loops hreach
  obtain ⟨-, rfl⟩ := (hloops.step hstep).at_point hcode
  have halong := (reach_handshakes hreach).along t
  cases hstep with
  | @lock u _ _ m c awake code free =>
    obtain rfl : u = t := ha
    dsimp only at hcode
    rw [Function.update_self] at hcode
    cases (halong [.lock m] .writeState (by rw [code, hcode]; rfl)).1
  | @unlock u _ _ m c awake code =>
    obtain rfl : u = t := ha
    dsimp only at hcode
    rw [Function.update_self] at hcode
    cases (halong [.unlock m] .writeState (by rw [code, hcode]; rfl)).1
  | @wait u _ _ m c awake code =>
    obtain rfl : u = t := ha
    dsimp only at hcode
    rw [Function.update_self] at hcode
    cases (halong [.wait m] .writeState (by rw [code, hcode]; rfl)).1
  | @run u env _ b c o left awake code exec spawn notified =>
    obtain rfl : u = t := ha
    rw [State.ran_code_self] at hcode
    rw [State.ran_history]
    cases hb : b.loop? with
    | none =>
      -- what the block adds is outside the loop, so that the write was already there
      have hout : o.code.duties Block.loop? = [] := (exec_frame exec).loops hb
      cases hnew : o.code with
      | nil =>
        rw [hnew, List.nil_append] at hcode
        cases (halong [.run b] .writeState (by rw [code, hcode]; rfl)).1
      | cons i q =>
        rw [hnew] at hcode hout
        obtain ⟨rfl, -⟩ := List.cons.inj hcode
        cases hout
    | some l =>
      obtain rfl := Block.eq_loop hb
      obtain ⟨-, rfl⟩ := hloops.at_point code
      obtain rfl := Option.some.inj exec
      rw [List.append_nil] at hcode
      cases l with
      | writeWakeupCount wakeupCount =>
        obtain ⟨-, hne, hchecked⟩ := halong [] _ code
        simp only [execLoop] at hcode ⊢
        split at hcode
        · rename_i hok
          exact ⟨wakeupCount, hne, Or.inl ⟨by rw [hok], hchecked⟩⟩
        · cases hcode
      | head shouldSleep =>
        simp only [execLoop] at hcode
        split at hcode
        · cases hcode
        · cases shouldSleep <;> cases hcode
      | readWakeupCount shouldSleep => cases hcode
      | writeState => cases hcode
      | readSuspendTime success => cases hcode
      | readWakeupReasons success => cases hcode
      | _ =>
        simp only [execLoop] at hcode
        split at hcode <;> cases hcode
  | wake => exact hs.ready t [] hcode
  | @call u b idle awake entry =>
    obtain rfl : u = t := ha
    dsimp only at hcode
    rw [Function.update_self] at hcode
    obtain ⟨n, op, rfl, rfl⟩ := entry_op entry
    cases hcode
  | env => exact ha.elim

theorem SavesCount.written_step (hs : SavesCount s) (hloops : Loops s) (hstep : (program cfg).Step s a s') :
    Historically (fun e h => ∀ t success, e = .did t (.suspend success) →
      ∃ wakeupCount, wakeupCount ≠ [] ∧ Saved t wakeupCount h) s'.history := by
  cases hstep with
  | lock => exact ⟨by simp, hs.written⟩
  | unlock => exact ⟨by simp, hs.written⟩
  | wait => exact ⟨by simp, hs.written⟩
  | @run t env _ b c o left awake code exec spawn notified =>
    rw [State.ran_history]
    by_cases hb : b = .loop .writeState
    · subst hb
      obtain ⟨-, rfl⟩ := hloops.at_point code
      obtain rfl := Option.some.inj exec
      refine ⟨?_, hs.written⟩
      rintro u success he
      obtain ⟨rfl, -⟩ := Event.did.inj he
      exact hs.ready t _ code
    · refine hs.written.append fun e he earlier u success hsuspend => ?_
      obtain ⟨x, hx, rfl⟩ := List.mem_map.mp he
      obtain ⟨-, rfl⟩ := Event.did.inj hsuspend
      exact absurd (block_of_suspend exec hx) hb
  | wake => exact hs.written
  | call => exact hs.written
  | env => exact ⟨by simp, hs.written⟩

theorem reach_savesCount {ok : ServiceState → ServiceAction → Prop} (h : (program cfg).Reach ok s) : SavesCount s := by
  refine h.invariant ⟨fun t p hcode => (by cases hcode), trivial⟩ fun s a s' hreach _ hs hstep => ?_
  have hloops := reach_loops hreach
  refine ⟨fun t p hcode => ?_, hs.written_step hloops hstep⟩
  by_cases ha : a.By t
  · exact hs.ready_self hreach ha hstep hcode
  · rcases hstep.others_code ha with hsame | ⟨u, b, env, o, hexec, hspawn⟩
    · rw [hsame] at hcode
      obtain ⟨new, hhistory, hnew⟩ := others_keepSaved hloops (hreach.disciplined (typing_sound cfg)) hcode ha hstep
      obtain ⟨wakeupCount, hne, hsaved⟩ := hs.ready t p hcode
      exact ⟨wakeupCount, hne, by rw [hhistory]; exact Since.append hsaved hnew⟩
    · rw [exec_spawn_code hexec hspawn] at hcode
      cases hcode

end saved

/-! ### The kernel and the handlers -/

/-- The kernel's side with the events that are in progress. -/
structure WakeupSources extends Kernel where
  inProgress : List ServiceEvent → Bool

namespace WakeupSources

variable (K : WakeupSources)

/-- No count is read while an event is in progress, and no suspend succeeds after an event that came after the count was
saved. -/
def allows : ServiceEvent → List ServiceEvent → Bool
  | .did _ (.readWakeupCount wakeupCount), h => wakeupCount = [] || !K.inProgress h
  | .did _ (.suspend success), h => !success || wakeupSinceSaved h ≠ some true
  | _, _ => true

def Answered (h : List ServiceEvent) : Prop :=
  K.toKernel.Answered h ∧ Historically (fun e earlier => K.allows e earlier = true) h

instance (h : List ServiceEvent) : Decidable (K.Answered h) := inferInstanceAs (Decidable (_ ∧ Historically _ h))

/-- The wakeup event after `earlier` is in progress at least until its handler has the wake lock `wl`. -/
def HandledBy (wl : Nat) (earlier h : List ServiceEvent) : Prop :=
  ∀ later since, h = later ++ (since ++ .env .kernelWakeup :: earlier) → ¬ Happened wl .inc since →
    K.inProgress (since ++ .env .kernelWakeup :: earlier) = true

def awaits (wl : Nat) : List ServiceEvent → Bool
  | [] => false
  | .env .kernelWakeup :: _ => true
  | .did _ (.incSuspendCounter (.wakeLock wl')) :: h => wl' ≠ wl && awaits wl h
  | _ :: h => awaits wl h

theorem awaits_append {wl : Nat} {since earlier : List ServiceEvent} (h : ¬ Happened wl .inc since) :
    awaits wl (since ++ .env .kernelWakeup :: earlier) = true := by
  induction since with
  | nil => rfl
  | cons e since ih =>
    have ih := ih fun hhappened => h (happened_append.mpr (.inr hhappened) : Happened wl .inc ([e] ++ since))
    rw [List.cons_append]
    unfold awaits
    split
    · rename_i hnil
      cases hnil
    · rfl
    · rename_i u wl' rest hsame
      obtain ⟨rfl, rfl⟩ := List.cons.inj hsame
      have hother : wl' ≠ wl := by
        rintro rfl
        exact h ⟨u, _, List.mem_cons_self, rfl⟩
      simpa using ⟨hother, ih⟩
    · rename_i hsame
      obtain ⟨-, rfl⟩ := List.cons.inj hsame
      exact ih

def awaiting (wl : Nat) : WakeupSources := { Kernel.unary with inProgress := awaits wl }

theorem awaiting_handledBy (wl : Nat) (earlier h : List ServiceEvent) : (awaiting wl).HandledBy wl earlier h :=
  fun _ _ _ => awaits_append

end WakeupSources

section handled

variable {wl : Nat} {h later earlier : List ServiceEvent}

theorem Happened.inc_split (hh : Happened wl .inc h) :
    ∃ later u earlier, h = later ++ .did u (.incSuspendCounter (.wakeLock wl)) :: earlier := by
  obtain ⟨u, x, hmem, hx⟩ := hh
  obtain ⟨later, earlier, rfl⟩ := List.append_of_mem hmem
  cases x with
  | incSuspendCounter holder =>
    cases holder with
    | wakeLock wl' => cases hx; exact ⟨later, u, earlier, rfl⟩
    | direct name pid => cases hx
  | decSuspendCounter holder => cases holder <;> cases hx
  | _ => cases hx

theorem Happened.dec_split (hh : Happened wl .dec h) :
    ∃ later u earlier, h = later ++ .did u (.decSuspendCounter (.wakeLock wl)) :: earlier := by
  obtain ⟨u, x, hmem, hx⟩ := hh
  obtain ⟨later, earlier, rfl⟩ := List.append_of_mem hmem
  cases x with
  | decSuspendCounter holder =>
    cases holder with
    | wakeLock wl' => cases hx; exact ⟨later, u, earlier, rfl⟩
    | direct name pid => cases hx
  | incSuspendCounter holder => cases holder <;> cases hx
  | _ => cases hx

theorem dec_after_inc {u : Tid} (haccount : Historically InAccount h)
    (hsplit : h = later ++ .did u (.incSuspendCounter (.wakeLock wl)) :: earlier) (hdec : Happened wl .dec h) :
    Happened wl .dec later := by
  rw [hsplit, happened_append] at hdec
  refine hdec.resolve_right fun hearlier => ?_
  have hinc := (historically_iff.mp haccount _ _ _ hsplit).inc u _ wl rfl rfl
  obtain ⟨newer, v, older, hsplit'⟩ := hearlier.dec_split
  cases newer with
  | nil =>
    obtain ⟨hx, -⟩ := List.cons.inj hsplit'
    cases hx
  | cons y newer =>
    obtain rfl : earlier = newer ++ .did v (.decSuspendCounter (.wakeLock wl)) :: older := (List.cons.inj hsplit').2
    have hcounted := historically_iff.mp haccount (later ++ .did u (.incSuspendCounter (.wakeLock wl)) :: newer)
      (.did v (.decSuspendCounter (.wakeLock wl))) older (by rw [hsplit]; simp)
    obtain ⟨w, x, hmem, hx⟩ := hcounted.dec v _ wl rfl rfl
    exact hinc ⟨w, x, by simp [hmem], hx⟩

end handled

/-- A wakeup event before a successful suspend came before the read of the count that the suspend rests on, and the thread
has looked at the counter since. -/
theorem read_after_wakeup {cfg : Config} {ok : ServiceState → ServiceAction → Prop} {s : ServiceState}
    (h : (program cfg).Reach ok s) {K : WakeupSources} (hanswered : K.Answered s.history) {t : Tid}
    {later middle earlier : List ServiceEvent}
    (hsplit : s.history = later ++ .did t (.suspend true) :: (middle ++ .env .kernelWakeup :: earlier)) :
    ∃ wakeupCount newer sinceRead sinceEvent, wakeupCount ≠ [] ∧ middle = newer ++ .did t .checkedCounter ::
      (sinceRead ++ .did t (.readWakeupCount wakeupCount) :: sinceEvent) := by
  obtain ⟨wakeupCount, hne, hsaved⟩ := historically_iff.mp (reach_savesCount h).written _ _ _ hsplit t true rfl
  obtain ⟨afterWrite, _, h₁, hwritten, ⟨rfl, hchecked⟩, hkeeps⟩ := since_iff.mp hsaved
  obtain ⟨afterCheck, _, h₂, rfl, ⟨rfl, hlocked⟩, -⟩ := since_iff.mp hchecked
  obtain ⟨sinceLock, _, h₃, rfl, ⟨rfl, hread⟩, -⟩ := since_iff.mp hlocked
  obtain ⟨sinceRead, _, before, rfl, rfl, -⟩ := since_iff.mp hread
  -- the kernel lets no suspend through after an event that came after the write
  have hafter : .env .kernelWakeup ∉ afterWrite := by
    have hsuspend := historically_iff.mp hanswered.2 _ _ _ hsplit
    rw [hwritten, WakeupSources.allows, wakeupSinceSaved_append fun e he => (hkeeps e he).2] at hsuspend
    simpa using hsuspend
  -- and no write after an event that came after the read
  have hbetween : .env .kernelWakeup ∉ afterCheck ++ .did t .checkedCounter :: (sinceLock ++
      .locked t mAutosuspendLock :: sinceRead) := by
    have hsuffix := hanswered.1
    have hsame : s.history = (later ++ .did t (.suspend true) :: afterWrite) ++
        .did t (.wroteWakeupCount wakeupCount true) :: ((afterCheck ++ .did t .checkedCounter :: (sinceLock ++
          .locked t mAutosuspendLock :: sinceRead)) ++ .did t (.readWakeupCount wakeupCount) :: before) := by
      rw [hsplit, hwritten]
      simp
    rw [Kernel.Answered, hsame] at hsuffix
    exact K.no_wakeup_between hne rfl (Historically.earlier hsuffix)
  have hsplit' : middle ++ .env .kernelWakeup :: earlier = (afterWrite ++ .did t (.wroteWakeupCount wakeupCount true) ::
      (afterCheck ++ .did t .checkedCounter :: (sinceLock ++ .locked t mAutosuspendLock :: sinceRead))) ++
        .did t (.readWakeupCount wakeupCount) :: before := by
    rw [hwritten]
    simp
  obtain ⟨rest, rfl, holder⟩ := split_beyond hsplit' (by simpa using ⟨hafter, by simpa using hbetween⟩)
  cases rest with
  | nil => cases (List.cons.inj holder).1
  | cons e sinceEvent =>
    obtain ⟨rfl, -⟩ := List.cons.inj holder
    exact ⟨wakeupCount, afterWrite ++ .did t (.wroteWakeupCount wakeupCount true) :: afterCheck,
      sinceLock ++ .locked t mAutosuspendLock :: sinceRead, sinceEvent, hne, by simp⟩

/-- The system does not suspend between a wakeup event and its handling: after an event that stays in progress until its
handler has acquired a wake lock, a suspend succeeds only when that lock was acquired and released in between. -/
theorem no_wakeup_slept_through (cfg : Config) (hmode : cfg.useSuspendCounter = true) {s : ServiceState}
    (h : (program cfg).Reach FewLocks s) (K : WakeupSources) (hanswered : K.Answered s.history) {t : Tid} {wl : Nat}
    {later middle earlier : List ServiceEvent} (hhandled : K.HandledBy wl earlier s.history)
    (hsplit : s.history = later ++ .did t (.suspend true) :: (middle ++ .env .kernelWakeup :: earlier)) :
    ∃ after u between v before, middle = after ++ .did u (.decSuspendCounter (.wakeLock wl)) ::
      (between ++ .did v (.incSuspendCounter (.wakeLock wl)) :: before) := by
  have haccount := reach_inAccount hmode h
  obtain ⟨wakeupCount, newer, sinceRead, sinceEvent, hne, rfl⟩ := read_after_wakeup h hanswered hsplit
  -- when the count was read the event was over, so that its handler had the lock
  have hinc : Happened wl .inc sinceEvent := by
    by_contra hnot
    have hread : s.history = (later ++ .did t (.suspend true) :: (newer ++ .did t .checkedCounter :: sinceRead)) ++
        .did t (.readWakeupCount wakeupCount) :: (sinceEvent ++ .env .kernelWakeup :: earlier) := by
      rw [hsplit]
      simp
    have hprogress := hhandled _ sinceEvent (hread.trans (List.append_cons ..)) hnot
    have hallows := historically_iff.mp hanswered.2 _ _ _ hread
    simp [WakeupSources.allows, hne, hprogress] at hallows
  obtain ⟨sinceInc, v, beforeInc, rfl⟩ := hinc.inc_split
  -- and when the counter was found at 0 the lock was released
  have hsame : s.history = (later ++ .did t (.suspend true) :: newer) ++ .did t .checkedCounter :: ((sinceRead ++
      .did t (.readWakeupCount wakeupCount) :: sinceInc) ++ .did v (.incSuspendCounter (.wakeLock wl)) ::
        (beforeInc ++ .env .kernelWakeup :: earlier)) := by
    rw [hsplit]
    simp
  have hcounted := (historically_iff.mp haccount _ _ _ hsame).checked t wl rfl
    ⟨v, .incSuspendCounter (.wakeLock wl), by simp, rfl⟩
  rw [hsame] at haccount
  obtain ⟨after, u, between, hdec⟩ := (dec_after_inc (Historically.earlier haccount).2 rfl hcounted).dec_split
  refine ⟨newer ++ .did t .checkedCounter :: after, u, between, v, beforeInc, ?_⟩
  calc newer ++ .did t .checkedCounter :: (sinceRead ++ .did t (.readWakeupCount wakeupCount) ::
        (sinceInc ++ .did v (.incSuspendCounter (.wakeLock wl)) :: beforeInc))
      = newer ++ .did t .checkedCounter :: ((sinceRead ++ .did t (.readWakeupCount wakeupCount) :: sinceInc) ++
          .did v (.incSuspendCounter (.wakeLock wl)) :: beforeInc) := by simp
    _ = _ := by rw [hdec]; simp

/-- There is a wakeup event while the thread sleeps. A client acquires a lock for it and releases it, and the thread
goes on until it has written "mem". -/
def toHandled : List ServiceAction :=
  toSleep ++ .env .kernelWakeup :: goCall (.client 1) (.acquireWakeLock .aidl (str "wl")) 12 ++
    goCall (.client 1) (.release 0) 3 ++ .step (.client 1) {} (some (.autosuspend 0)) :: go (.client 1) 1 ++
    go (.autosuspend 0) 1 ++ .step (.autosuspend 0) { timedOut := true } none :: go (.autosuspend 0) 2 ++
    .step (.autosuspend 0) { bytes := str "11" } none :: go (.autosuspend 0) 11

theorem no_wakeup_slept_through_handled : ∃ (s : ServiceState) (middle earlier : List ServiceEvent),
    (program smallConfig).Reach FewLocks s ∧
    s.history = .did (.autosuspend 0) (.suspend true) :: (middle ++ .env .kernelWakeup :: earlier) ∧
    ∃ after u between v before, middle = after ++ .did u (.decSuspendCounter (.wakeLock 0)) ::
      (between ++ .did v (.incSuspendCounter (.wakeLock 0)) :: before) := by
  obtain ⟨s, hreach, hs⟩ := Program.Reach.of_run (program smallConfig)
    (fun s a => servedAction a && decide (unreleasedLocks s < counterModulus)) toHandled
    (fun s => s.history.head? = some (.did (.autosuspend 0) (.suspend true)) && decide (.env .kernelWakeup ∈ s.history.tail) &&
      decide ((WakeupSources.awaiting 0).Answered s.history))
    (fun _ _ hok => by simpa [FewLocks, Served] using hok) (by decide +kernel)
  simp only [Bool.and_eq_true, decide_eq_true_eq] at hs
  obtain ⟨⟨hhead, hmem⟩, hanswered⟩ := hs
  obtain ⟨rest, hhistory⟩ := List.head?_eq_some_iff.mp hhead
  rw [hhistory, List.tail_cons] at hmem
  obtain ⟨middle, earlier, rfl⟩ := List.append_of_mem hmem
  exact ⟨s, middle, earlier, hreach, hhistory, no_wakeup_slept_through smallConfig rfl hreach (.awaiting 0) hanswered
    (WakeupSources.awaiting_handledBy 0 earlier _) (hhistory.trans (List.nil_append _).symm)⟩

end HardwareInterfaces.Suspend.Service
