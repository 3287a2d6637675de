import HardwareInterfaces.Suspend.AutosuspendThread

/-!
# The wakeup count handshake

What the autosuspend thread has done in its current cycle when it comes to a point of its loop, as a property of the
history: it has read the wakeup count (`HasRead`), taken `mAutosuspendLock` for the last time (`HasLocked`),
found the counter at 0 (`HasChecked`) and written back what it read (`HasWritten`). From the point where it takes the
lock on, no other thread can add an event that would spoil this.
-/

namespace HardwareInterfaces.Suspend.Service

open CppStd Monitor Mutex History

def IsSuspend : ServiceEvent → Prop
  | .did _ (.suspend _) => True
  | _ => False

def IsHead (t : Tid) : ServiceEvent → Prop
  | .did u (.loopHead _) => u = t
  | _ => False

def IsInc : ServiceEvent → Prop
  | .did _ (.incSuspendCounter _) => True
  | _ => False

/-- Events that neither end the current cycle of `t` nor suspend. -/
def SameCycle (t : Tid) (e : ServiceEvent) : Prop := ¬ IsSuspend e ∧ ¬ IsHead t e

/-- Events that, in addition, do not end the current hold of `mAutosuspendLock`. -/
def SameHold (t : Tid) (e : ServiceEvent) : Prop := SameCycle t e ∧ ¬ e.Touches mAutosuspendLock

def StillIdle (t : Tid) (e : ServiceEvent) : Prop := SameHold t e ∧ ¬ IsInc e

def HasRead (t : Tid) (wakeupCount : StdString) : List ServiceEvent → Prop :=
  Since (SameCycle t) fun e _ => e = .did t (.readWakeupCount wakeupCount)

def HasLocked (t : Tid) (wakeupCount : StdString) : List ServiceEvent → Prop :=
  Since (SameHold t) fun e h => e = .locked t mAutosuspendLock ∧ HasRead t wakeupCount h

def HasChecked (t : Tid) (wakeupCount : StdString) : List ServiceEvent → Prop :=
  Since (StillIdle t) fun e h => e = .did t .checkedCounter ∧ HasLocked t wakeupCount h

def HasWritten (t : Tid) (wakeupCount : StdString) : List ServiceEvent → Prop :=
  Since (StillIdle t) fun e h => e = .did t (.wroteWakeupCount wakeupCount true) ∧ HasChecked t wakeupCount h

/-- What thread `t` has done when the point `b` of the loop comes after the code `p`. -/
def Progress (t : Tid) (b : LoopBlock) (p : ThreadCode) (h : List ServiceEvent) : Prop :=
  match b with
  | .gotWakeupCount wakeupCount _ => HasRead t wakeupCount h
  | .awaitCounter wakeupCount => wakeupCount ≠ [] ∧ HasRead t wakeupCount h
  | .counterIdle wakeupCount => wakeupCount ≠ [] ∧ HasRead t wakeupCount h
  | .checkTokens wakeupCount => wakeupCount ≠ [] ∧
      (p.getLast? = some (.lock mAutosuspendLock) ∧ HasRead t wakeupCount h ∨ p = [] ∧ HasLocked t wakeupCount h)
  | .checkCounter wakeupCount => p = [] ∧ wakeupCount ≠ [] ∧ HasLocked t wakeupCount h
  | .writeWakeupCount wakeupCount => p = [] ∧ wakeupCount ≠ [] ∧ HasChecked t wakeupCount h
  | .writeState => p = [] ∧ ∃ wakeupCount, wakeupCount ≠ [] ∧ HasWritten t wakeupCount h
  | _ => True

def Along (t : Tid) (c : ThreadCode) (h : List ServiceEvent) : Prop :=
  ∀ p b, c = p ++ [.run (.loop b)] → Progress t b p h

section progress

variable {t : Tid} {b : LoopBlock} {p c : ThreadCode} {h : List ServiceEvent}

theorem Progress.along (hb : Progress t b p h) : Along t (p ++ goto b) h := by
  intro p' b' hcode
  obtain ⟨rfl, hlast⟩ := List.append_inj' hcode rfl
  cases hlast
  exact hb

theorem along_of_out (hc : OutOfLoop c) : Along t c h := by
  rintro p b rfl
  simp [OutOfLoop, Block.loop?] at hc

theorem Progress.others {new : List ServiceEvent} (hb : Progress t b p h) (hcycle : ∀ e ∈ new, SameCycle t e)
    (hheld : p = [] → mAutosuspendLock ∈ loopNeeds b → ∀ e ∈ new, ¬ e.Touches mAutosuspendLock ∧ ¬ IsInc e) :
    Progress t b p (new ++ h) := by
  have hidle : p = [] → mAutosuspendLock ∈ loopNeeds b → ∀ e ∈ new, StillIdle t e := by
    intro hp hneeds e he
    obtain ⟨htouch, hinc⟩ := hheld hp hneeds e he
    exact ⟨⟨hcycle e he, htouch⟩, hinc⟩
  cases b with
  | gotWakeupCount wakeupCount shouldSleep => exact Since.append hb hcycle
  | awaitCounter wakeupCount => exact ⟨hb.1, Since.append hb.2 hcycle⟩
  | counterIdle wakeupCount => exact ⟨hb.1, Since.append hb.2 hcycle⟩
  | checkTokens wakeupCount =>
    obtain ⟨hne, ⟨hlast, hread⟩ | ⟨hp, hlocked⟩⟩ := hb
    · exact ⟨hne, Or.inl ⟨hlast, Since.append hread hcycle⟩⟩
    · exact ⟨hne, Or.inr ⟨hp, Since.append hlocked fun e he => (hidle hp List.mem_cons_self e he).1⟩⟩
  | checkCounter wakeupCount =>
    obtain ⟨hp, hne, hlocked⟩ := hb
    exact ⟨hp, hne, Since.append hlocked fun e he => (hidle hp List.mem_cons_self e he).1⟩
  | writeWakeupCount wakeupCount =>
    obtain ⟨hp, hne, hchecked⟩ := hb
    exact ⟨hp, hne, Since.append hchecked (hidle hp List.mem_cons_self)⟩
  | writeState =>
    obtain ⟨hp, wakeupCount, hne, hwritten⟩ := hb
    exact ⟨hp, wakeupCount, hne, Since.append hwritten (hidle hp List.mem_cons_self)⟩
  | _ => trivial

theorem Progress.advance {i : Instr Mutex Block} {q : ThreadCode} {new : List ServiceEvent}
    (hb : Progress t b (i :: p) h) (hcycle : ∀ e ∈ new, SameCycle t e)
    (hlock : i = .lock mAutosuspendLock → q = [] ∧ new = [.locked t mAutosuspendLock]) :
    Progress t b (q ++ p) (new ++ h) := by
  cases b with
  | gotWakeupCount wakeupCount shouldSleep => exact Since.append hb hcycle
  | awaitCounter wakeupCount => exact ⟨hb.1, Since.append hb.2 hcycle⟩
  | counterIdle wakeupCount => exact ⟨hb.1, Since.append hb.2 hcycle⟩
  | checkTokens wakeupCount =>
    obtain ⟨hne, ⟨hlast, hread⟩ | ⟨hp, -⟩⟩ := hb
    · refine ⟨hne, ?_⟩
      cases p with
      | nil =>
        obtain ⟨rfl, rfl⟩ := hlock (Option.some.inj hlast)
        exact Or.inr ⟨rfl, Or.inl ⟨rfl, hread⟩⟩
      | cons j p =>
        rw [List.getLast?_cons_cons] at hlast
        exact Or.inl ⟨by rw [List.getLast?_append_cons, hlast], Since.append hread hcycle⟩
    · cases hp
  | checkCounter wakeupCount => cases hb.1
  | writeWakeupCount wakeupCount => cases hb.1
  | writeState => cases hb.1
  | _ => trivial

theorem Along.advance {i : Instr Mutex Block} {q : ThreadCode} (hc : Along t (i :: c) h) (hq : OutOfLoop q)
    (new : List ServiceEvent) (hcycle : ∀ e ∈ new, SameCycle t e)
    (hlock : i = .lock mAutosuspendLock → q = [] ∧ new = [.locked t mAutosuspendLock]) :
    Along t (q ++ c) (new ++ h) := by
  intro p b hcode
  obtain ⟨c', rfl, rfl⟩ := hq.point_behind hcode
  exact (hc (i :: c') b (by simp)).advance hcycle hlock

end progress

theorem execLoop_along {t : Tid} {b : LoopBlock} {h : List ServiceEvent} (env : Env) (σ : Shared)
    (hb : Progress t b [] h) :
    Along t (execLoop env σ b).code ((execLoop env σ b).events.map (Event.did t) ++ h) := by
  cases b with
  | head shouldSleep =>
    simp only [execLoop]
    split
    · exact along_of_out rfl
    · cases shouldSleep <;> exact Progress.along (p := []) trivial
  | sleep woken =>
    simp only [execLoop]
    split
    · exact Progress.along (p := []) trivial
    · exact Progress.along (p := [.wait mAutosuspendLock, .lock mAutosuspendLock]) trivial
  | slept shouldSleep =>
    simp only [execLoop]
    split
    · exact Progress.along (p := []) trivial
    · exact Progress.along (p := [.unlock mAutosuspendLock]) trivial
  | readWakeupCount shouldSleep => exact Progress.along (p := [.lock mAutosuspendLock]) (Or.inl rfl)
  | gotWakeupCount wakeupCount shouldSleep =>
    simp only [execLoop]
    split
    · exact Progress.along (p := []) trivial
    · rename_i hne
      exact Progress.along (p := []) ⟨hne, hb⟩
  | awaitCounter wakeupCount =>
    simp only [execLoop]
    split
    · exact Progress.along (p := []) hb
    · exact Progress.along (p := [.wait mAutosuspendLock, .lock mAutosuspendLock]) hb
  | counterIdle wakeupCount =>
    simp only [execLoop]
    split
    · exact Progress.along (p := []) trivial
    · exact Progress.along (b := .checkTokens wakeupCount) ⟨hb.1, Or.inl ⟨rfl, hb.2⟩⟩
  | checkTokens wakeupCount =>
    obtain ⟨hne, ⟨hlast, -⟩ | ⟨-, hlocked⟩⟩ := hb
    · cases hlast
    · simp only [execLoop]
      split
      · exact Progress.along (p := [.unlock mAutosuspendClientTokensLock]) trivial
      · exact Progress.along (p := []) ⟨rfl, hne, hlocked⟩
  | checkCounter wakeupCount =>
    obtain ⟨-, hne, hlocked⟩ := hb
    simp only [execLoop]
    split
    · exact Progress.along (p := [.unlock mAutosuspendClientTokensLock]) trivial
    · exact Progress.along (p := []) ⟨rfl, hne, Or.inl ⟨rfl, hlocked⟩⟩
  | writeWakeupCount wakeupCount =>
    obtain ⟨-, hne, hchecked⟩ := hb
    simp only [execLoop]
    split
    · rename_i hok
      exact Progress.along (p := []) ⟨rfl, wakeupCount, hne, Or.inl ⟨by rw [hok], hchecked⟩⟩
    · exact Progress.along (p := [.unlock mAutosuspendClientTokensLock]) trivial
  | writeState =>
    exact Progress.along (p := [.unlock mAutosuspendLock, .unlock mAutosuspendClientTokensLock]) trivial
  | readSuspendTime success => exact Progress.along (b := .readWakeupReasons success) trivial
  | readWakeupReasons success =>
    exact Progress.along (b := .head true) (p := lockGuard wakeupListLock [.run (.updateWakeupList
      (wakeupReasons env σ).1)] ++ callNotifyWakeup success (wakeupReasons env σ).1 ++ [.lock mAutosuspendLock]) trivial

/-! ### Whole runs -/

section events

variable {cfg : Config} {t : Tid} {env : Env} {σ : Shared} {b : Block} {o : Out}

theorem sameCycle_of_block (h : exec cfg t env σ b = some o) (hb : b.loop? = none) :
    ∀ e ∈ o.events.map (Event.did t), SameCycle t e := by
  intro e he
  obtain ⟨x, hx, rfl⟩ := List.mem_map.mp he
  refine ⟨fun hsuspend => ?_, fun hhead => ?_⟩
  · cases x with
    | suspend success =>
      rw [block_of_suspend h hx] at hb
      cases hb
    | _ => exact hsuspend
  · cases x with
    | loopHead shouldSleep =>
      rw [block_of_loopHead h hx] at hb
      cases hb
    | _ => exact hhead

end events

/-- A write of "mem" comes after the writing back of what was read. -/
def Prepared (e : ServiceEvent) (earlier : List ServiceEvent) : Prop :=
  ∀ t success, e = .did t (.suspend success) → ∃ wakeupCount, wakeupCount ≠ [] ∧ HasWritten t wakeupCount earlier

structure Handshakes (s : ServiceState) : Prop where
  along : ∀ t, Along t (s.code t) s.history
  prepared : Historically Prepared s.history

section invariant

variable {cfg : Config} {s s' : ServiceState} {a : ServiceAction}

theorem others_spare (hloops : Loops s) (hdisc : Program.Disciplined typing s) {t : Tid} {p : ThreadCode}
    {b : LoopBlock} (hcode : s.code t = p ++ [.run (.loop b)]) (ha : ¬ a.By t) (hstep : (program cfg).Step s a s') :
    ∃ new, s'.history = new ++ s.history ∧ (∀ e ∈ new, SameCycle t e) ∧
      (p = [] → mAutosuspendLock ∈ loopNeeds b → ∀ e ∈ new, ¬ e.Touches mAutosuspendLock ∧ ¬ IsInc e) := by
  obtain ⟨new, hhistory, hnew⟩ := hstep.others_history hdisc ha
  have ht : loopThread s.shared = some t := hloops.thread_eq (by simp [hcode, OutOfLoop, Block.loop?])
  refine ⟨new, hhistory, fun e he => ⟨fun hsuspend => ?_, fun hhead => ?_⟩, fun hp hneeds e he => ?_⟩
  · cases e with
    | did u x =>
      cases x with
      | suspend success =>
        obtain ⟨hu, b', c, env, o, hcode', hexec, hx⟩ := (hnew _ he).2 u _ rfl
        rw [block_of_suspend hexec hx] at hcode'
        exact hu (Option.some.inj ((hloops.at_point hcode').1.symm.trans ht))
      | _ => exact hsuspend
    | _ => exact hsuspend
  · cases e with
    | did u x =>
      cases x with
      | loopHead shouldSleep => exact ((hnew _ he).2 u _ rfl).1 hhead
      | _ => exact hhead
    | _ => exact hhead
  · subst hp
    have howner : s.owner mAutosuspendLock = some t := (hdisc.owns_iff hcode).mpr hneeds
    refine ⟨(hnew e he).1 _ howner, fun hinc => ?_⟩
    cases e with
    | did u x =>
      cases x with
      | incSuspendCounter holder =>
        obtain ⟨hu, b', c, env, o, hcode', hexec, hx⟩ := (hnew _ he).2 u _ rfl
        rw [block_of_inc hexec hx] at hcode'
        have howner' : s.owner mAutosuspendLock = some u := (hdisc.owns_iff hcode').mpr List.mem_cons_self
        exact hu (Option.some.inj (howner'.symm.trans howner))
      | _ => exact hinc
    | _ => exact hinc

theorem Handshakes.along_self (h : Handshakes s) (hloops : Loops s) {t : Tid} (ha : a.By t)
    (hstep : (program cfg).Step s a s') : Along t (s'.code t) s'.history := by
  cases hstep with
  | @lock u _ _ m c awake code free =>
    obtain rfl : u = t := ha
    have hbefore := h.along u
    rw [code] at hbefore
    dsimp only
    rw [Function.update_self]
    refine hbefore.advance (q := []) rfl [.locked u m] (fun e he => ?_) fun hm => ⟨rfl, ?_⟩
    · rw [List.mem_singleton.mp he]
      exact ⟨id, id⟩
    · rw [Instr.lock.inj hm]
  | @unlock u _ _ m c awake code =>
    obtain rfl : u = t := ha
    have hbefore := h.along u
    rw [code] at hbefore
    dsimp only
    rw [Function.update_self]
    refine hbefore.advance (q := []) rfl [.unlocked u m] (fun e he => ?_) (by simp)
    rw [List.mem_singleton.mp he]
    exact ⟨id, id⟩
  | @wait u _ _ m c awake code =>
    obtain rfl : u = t := ha
    have hbefore := h.along u
    rw [code] at hbefore
    dsimp only
    rw [Function.update_self]
    refine hbefore.advance (q := []) rfl [.unlocked u m] (fun e he => ?_) (by simp)
    rw [List.mem_singleton.mp he]
    exact ⟨id, id⟩
  | @run u env _ b c o left awake code exec spawn notified =>
    obtain rfl : u = t := ha
    have hbefore := h.along u
    rw [code] at hbefore
    rw [State.ran_code_self, State.ran_history]
    cases hb : b.loop? with
    | none => exact hbefore.advance ((exec_frame exec).loops hb) _ (sameCycle_of_block exec hb) (by simp)
    | some l =>
      obtain rfl := Block.eq_loop hb
      obtain ⟨-, rfl⟩ := hloops.at_point code
      obtain rfl := Option.some.inj exec
      rw [List.append_nil]
      exact execLoop_along env s.shared (hbefore [] l rfl)
  | wake => exact h.along t
  | @call u b idle awake entry =>
    obtain rfl : u = t := ha
    dsimp only
    rw [Function.update_self]
    obtain ⟨n, p, rfl, rfl⟩ := entry_op entry
    exact along_of_out rfl
  | env => exact ha.elim

theorem Handshakes.prepared_step (h : Handshakes s) (hloops : Loops s) (hstep : (program cfg).Step s a s') :
    Historically Prepared s'.history := by
  cases hstep with
  | lock => exact ⟨by simp [Prepared], h.prepared⟩
  | unlock => exact ⟨by simp [Prepared], h.prepared⟩
  | wait => exact ⟨by simp [Prepared], h.prepared⟩
  | @run t env _ b c o left awake code exec spawn notified =>
    rw [State.ran_history]
    by_cases hb : b = .loop .writeState
    · subst hb
      obtain ⟨-, rfl⟩ := hloops.at_point code
      obtain rfl := Option.some.inj exec
      refine ⟨?_, h.prepared⟩
      rintro u success he
      obtain ⟨rfl, -⟩ := Event.did.inj he
      exact (h.along t [] .writeState code).2
    · refine h.prepared.append fun e he earlier u success hsuspend => ?_
      obtain ⟨x, hx, rfl⟩ := List.mem_map.mp he
      obtain ⟨-, rfl⟩ := Event.did.inj hsuspend
      exact absurd (block_of_suspend exec hx) hb
  | wake => exact h.prepared
  | call => exact h.prepared
  | env => exact ⟨by simp [Prepared], h.prepared⟩

theorem Handshakes.step (h : Handshakes s) (hloops : Loops s) (hdisc : Program.Disciplined typing s)
    (hstep : (program cfg).Step s a s') : Handshakes s' := by
  refine ⟨fun t => ?_, h.prepared_step hloops hstep⟩
  by_cases ha : a.By t
  · exact h.along_self hloops ha hstep
  · rcases hstep.others_code ha with hsame | ⟨u, b, env, o, hexec, hspawn⟩
    · rw [hsame]
      intro p b hcode
      obtain ⟨new, hhistory, hcycle, hheld⟩ := others_spare hloops hdisc hcode ha hstep
      rw [hhistory]
      exact (h.along t p b hcode).others hcycle hheld
    · rw [exec_spawn_code hexec hspawn]
      exact Progress.along (p := [.lock mAutosuspendLock]) (b := .head true) trivial

theorem reach_handshakes {ok : ServiceState → ServiceAction → Prop} (h : (program cfg).Reach ok s) :
    Handshakes s := by
  refine h.invariant ⟨fun t => along_of_out rfl, trivial⟩ fun s a s' hreach _ hs hstep => ?_
  exact hs.step (reach_loops hreach) (hreach.disciplined (typing_sound cfg)) hstep

end invariant

/-! ### The kernel -/

/-- The kernel's side: the number of wakeup events it has counted after a history, and the text of the file for it.
A wakeup event increases the number, and nothing decreases it. -/
structure Kernel where
  count : List ServiceEvent → Nat
  render : Nat → StdString
  mono : ∀ e h, count h ≤ count (e :: h)
  wakeup : ∀ h, count h < count (.env .kernelWakeup :: h)
  injective : Function.Injective render

namespace Kernel

variable (K : Kernel)

/-- A read returns the current number, or fails; a write succeeds if and only if it writes the current number. -/
def answers : ServiceEvent → List ServiceEvent → Bool
  | .did _ (.readWakeupCount wakeupCount), h => wakeupCount = [] ∨ wakeupCount = K.render (K.count h)
  | .did _ (.wroteWakeupCount wakeupCount success), h => success = true ↔ wakeupCount = K.render (K.count h)
  | _, _ => true

def Answered (h : List ServiceEvent) : Prop := Historically (fun e h => K.answers e h = true) h

instance (h : List ServiceEvent) : Decidable (K.Answered h) := inferInstanceAs (Decidable (Historically _ h))

theorem count_le_append (new h : List ServiceEvent) : K.count h ≤ K.count (new ++ h) := by
  induction new with
  | nil => exact Nat.le_refl _
  | cons e new ih => exact Nat.le_trans ih (K.mono e _)

/-- Between a read and a successful write of what was read there is no wakeup event. -/
theorem no_wakeup_between {t u : Tid} {wakeupCount : StdString} {between before h : List ServiceEvent}
    (hne : wakeupCount ≠ []) (hsplit : h = between ++ .did t (.readWakeupCount wakeupCount) :: before)
    (hanswered : K.Answered (.did u (.wroteWakeupCount wakeupCount true) :: h)) :
    .env .kernelWakeup ∉ between := by
  intro hmem
  obtain ⟨hwrite, hanswered⟩ := hanswered
  have hwritten : wakeupCount = K.render (K.count h) := by simpa [answers] using hwrite
  have hread : wakeupCount = K.render (K.count before) := by
    have hanswer := historically_iff.mp hanswered between _ before hsplit
    simpa [answers, hne] using hanswer
  have hsame : K.count h = K.count before := K.injective (hwritten.symm.trans hread)
  obtain ⟨after, earlier, rfl⟩ := List.append_of_mem hmem
  have hlater := K.count_le_append after (.env .kernelWakeup :: (earlier ++
    .did t (.readWakeupCount wakeupCount) :: before))
  have hwake := K.wakeup (earlier ++ .did t (.readWakeupCount wakeupCount) :: before)
  have hearlier := K.count_le_append earlier (.did t (.readWakeupCount wakeupCount) :: before)
  have hmono := K.mono (.did t (.readWakeupCount wakeupCount)) before
  rw [hsplit, List.append_assoc, List.cons_append] at hsame
  omega

def unary : Kernel where
  count h := h.count (.env .kernelWakeup)
  render n := List.replicate (n + 1) 49
  mono e h := List.count_le_count_cons
  wakeup h := by simp
  injective m n h := by simpa using congrArg List.length h

end Kernel

/-- How each write of "mem" by an autosuspend thread was prepared, from the newest event back: `t` wrote the wakeup
count, had found the counter at 0, had taken `mAutosuspendLock`, and had read the wakeup count. It kept the lock from
then on, nobody suspended since the read, which is in the same cycle of the loop, and nobody acquired a wake lock since
the check. If the kernel answers as it should, there was no wakeup event between the read and the write. -/
theorem wakeup_count_handshake (cfg : Config) {ok : ServiceState → ServiceAction → Prop} {s : ServiceState}
    (h : (program cfg).Reach ok s) {t : Tid} {success : Bool} {later earlier : List ServiceEvent}
    (hsuspend : s.history = later ++ .did t (.suspend success) :: earlier) :
    ∃ wakeupCount afterWrite afterCheck sinceLock sinceRead before,
      earlier = afterWrite ++ .did t (.wroteWakeupCount wakeupCount true) :: (afterCheck ++ .did t .checkedCounter ::
        (sinceLock ++ .locked t mAutosuspendLock :: (sinceRead ++ .did t (.readWakeupCount wakeupCount) :: before))) ∧
      wakeupCount ≠ [] ∧
      (∀ e ∈ afterWrite ++ afterCheck ++ sinceLock, ¬ e.Touches mAutosuspendLock) ∧
      (∀ e ∈ afterWrite ++ afterCheck ++ sinceLock ++ sinceRead, ¬ IsSuspend e ∧ ¬ IsHead t e) ∧
      (∀ e ∈ afterWrite ++ afterCheck, ¬ IsInc e) ∧
      (∀ K : Kernel, K.Answered s.history → .env .kernelWakeup ∉ afterCheck ++ sinceLock ++ sinceRead) := by
  obtain ⟨wakeupCount, hne, hwritten⟩ :=
    historically_iff.mp (reach_handshakes h).prepared later _ earlier hsuspend t success rfl
  obtain ⟨afterWrite, _, h₁, rfl, ⟨rfl, hchecked⟩, hidle₁⟩ := since_iff.mp hwritten
  obtain ⟨afterCheck, _, h₂, rfl, ⟨rfl, hlocked⟩, hidle₂⟩ := since_iff.mp hchecked
  obtain ⟨sinceLock, _, h₃, rfl, ⟨rfl, hread⟩, hhold⟩ := since_iff.mp hlocked
  obtain ⟨sinceRead, _, before, rfl, rfl, hcycle⟩ := since_iff.mp hread
  have hidle : ∀ e ∈ afterWrite ++ afterCheck, StillIdle t e := by
    intro e he
    exact (List.mem_append.mp he).elim (hidle₁ e) (hidle₂ e)
  have hheld : ∀ e ∈ afterWrite ++ afterCheck ++ sinceLock, SameHold t e := by
    intro e he
    exact (List.mem_append.mp he).elim (fun he => (hidle e he).1) (hhold e)
  refine ⟨wakeupCount, afterWrite, afterCheck, sinceLock, sinceRead, before, rfl, hne, fun e he => (hheld e he).2,
    fun e he => ?_, fun e he => (hidle e he).2, fun K hanswered hwake => ?_⟩
  · exact (List.mem_append.mp he).elim (fun he => (hheld e he).1) (hcycle e)
  · have hanswered₁ : K.Answered (.did t (.wroteWakeupCount wakeupCount true) :: (afterCheck ++
        .did t .checkedCounter :: (sinceLock ++ .locked t mAutosuspendLock ::
          (sinceRead ++ .did t (.readWakeupCount wakeupCount) :: before)))) := by
      rw [Kernel.Answered, hsuspend, historically_iff] at hanswered
      refine historically_iff.mpr fun later' e earlier' hsplit => hanswered (later ++ .did t (.suspend success) ::
        (afterWrite ++ later')) e earlier' ?_
      rw [hsplit]
      simp
    have hsplit : afterCheck ++ .did t .checkedCounter :: (sinceLock ++ .locked t mAutosuspendLock ::
        (sinceRead ++ .did t (.readWakeupCount wakeupCount) :: before)) =
        (afterCheck ++ .did t .checkedCounter :: (sinceLock ++ .locked t mAutosuspendLock :: sinceRead)) ++
          .did t (.readWakeupCount wakeupCount) :: before := by simp
    refine K.no_wakeup_between hne hsplit hanswered₁ ?_
    simpa [or_assoc] using hwake

theorem wakeup_count_handshake_first :
    ∃ (s : ServiceState) (earlier : List ServiceEvent), (program smallConfig).Reach Served s ∧
      s.history = .did (.autosuspend 0) (.suspend true) :: earlier ∧ Kernel.unary.Answered s.history ∧
      ∃ wakeupCount afterWrite afterCheck sinceLock sinceRead before,
        earlier = afterWrite ++ .did (.autosuspend 0) (.wroteWakeupCount wakeupCount true) ::
          (afterCheck ++ .did (.autosuspend 0) .checkedCounter :: (sinceLock ++
            .locked (.autosuspend 0) mAutosuspendLock ::
              (sinceRead ++ .did (.autosuspend 0) (.readWakeupCount wakeupCount) :: before))) ∧
        .env .kernelWakeup ∉ afterCheck ++ sinceLock ++ sinceRead := by
  obtain ⟨s, hreach, hs⟩ := Program.Reach.of_run (program smallConfig) (fun _ a => servedAction a)
    (toSuspend ++ go (.autosuspend 0) 1)
    (fun s => s.history.head? = some (.did (.autosuspend 0) (.suspend true)) &&
      decide (Kernel.unary.Answered s.history))
    (fun _ _ h => h) (by decide +kernel)
  simp only [Bool.and_eq_true, decide_eq_true_eq] at hs
  obtain ⟨hhead, hanswered⟩ := hs
  obtain ⟨earlier, hhistory⟩ := List.head?_eq_some_iff.mp hhead
  have hsplit : s.history = [] ++ .did (.autosuspend 0) (.suspend true) :: earlier := hhistory
  obtain ⟨wakeupCount, afterWrite, afterCheck, sinceLock, sinceRead, before, hearlier, -, -, -, -, hkernel⟩ :=
    wakeup_count_handshake smallConfig hreach hsplit
  exact ⟨s, earlier, hreach, hhistory, hanswered, wakeupCount, afterWrite, afterCheck, sinceLock, sinceRead, before,
    hearlier, hkernel Kernel.unary hanswered⟩

end HardwareInterfaces.Suspend.Service
