import HardwareInterfaces.Suspend.LoopPoints

/-!
# The cycles of the autosuspend loop

What a thread records in one cycle of its loop, for each point of the loop at which the cycle may stand and for each way in
which it may end (`Ended`): it sleeps or not, reads the wakeup count, finds the counter at 0, writes the count back and
suspends, and it goes back to the head of the loop from every point on the way.
-/

namespace HardwareInterfaces.Suspend.Service

open CppStd Monitor Mutex History

def loopLog (t : Tid) (log : Log) : List Ev := (log.filter fun e => e.1 = t && loopEvent e.2).map Prod.snd

def isHead : Ev → Bool
  | .loopHead _ => true
  | _ => false

/-- What a thread has recorded in its current cycle, newest first. -/
def cycle (t : Tid) (log : Log) : List Ev := (loopLog t log).takeWhile fun x => !isHead x

def cycleHead (t : Tid) (log : Log) : Option Ev := (loopLog t log).find? isHead

/-- The beginning of a cycle, up to the read: with a sleep that timed out, or without one. -/
def Opening : Bool → List Ev → Prop
  | true, cyc => ∃ sleepTime, cyc = [.slept sleepTime true]
  | false, cyc => cyc = []

/-- How a cycle ended that leads to the head of the loop with `shouldSleep`; `careful` excludes an empty read in a cycle
without a sleep. -/
inductive Ended (careful : Prop) (σ : Shared) : Bool → List Ev → Prop
  | start : Ended careful σ true []
  | interrupted (sleepTime : Int) (timedOut : Bool) : Ended careful σ true [.slept sleepTime timedOut]
  | skipped (disabled : σ.mAutosuspendEnabled = false) : Ended careful σ false []
  | emptyRead {shouldSleep : Bool} {cyc : List Ev} (opening : Opening shouldSleep cyc)
      (sleeps : careful → shouldSleep = true) : Ended careful σ shouldSleep (.readWakeupCount [] :: cyc)
  | stopped {shouldSleep : Bool} {cyc : List Ev} {wakeupCount : StdString} (opening : Opening shouldSleep cyc)
      (read : wakeupCount ≠ []) (reason : σ.mAutosuspendEnabled = false ∨ 0 < σ.mSuspendCounter) :
      Ended careful σ false (.readWakeupCount wakeupCount :: cyc)
  | failedWrite {shouldSleep : Bool} {cyc : List Ev} {wakeupCount : StdString} (opening : Opening shouldSleep cyc)
      (read : wakeupCount ≠ []) : Ended careful σ false
        (.wroteWakeupCount wakeupCount false :: .checkedCounter :: .readWakeupCount wakeupCount :: cyc)
  | attempted {shouldSleep : Bool} {cyc after : List Ev} {wakeupCount : StdString} (success : Bool)
      (opening : Opening shouldSleep cyc) (read : wakeupCount ≠ [])
      (reopened : ∀ x ∈ after, ∃ fd, x = .reopenedWakeupReasons fd) :
      Ended careful σ true (after ++
        .suspend success :: .wroteWakeupCount wakeupCount true :: .checkedCounter :: .readWakeupCount wakeupCount :: cyc)

/-- The cycle is to be tried again: the wakeup count could not be written back, or it was read and no attempt was made,
because the counter was raised. -/
def Retried (cyc : List Ev) : Prop :=
  (∃ wakeupCount, .wroteWakeupCount wakeupCount false ∈ cyc) ∨
    (∃ wakeupCount, wakeupCount ≠ [] ∧ .readWakeupCount wakeupCount ∈ cyc) ∧ ∀ success, .suspend success ∉ cyc

/-- What the current cycle of a thread has recorded when it comes to a point of the loop. -/
def InCycle (careful : Prop) : Assertion := fun t b p σ log =>
  match b with
  | .head true => Ended careful σ true (cycle t log)
  | .head false => Held p (.head false) ∧ Ended careful σ false (cycle t log)
  | .sleep _ => cycleHead t log = some (.loopHead true) ∧ cycle t log = []
  | .slept true => p = [] ∧ cycleHead t log = some (.loopHead true) ∧
      ∃ sleepTime timedOut, cycle t log = [.slept sleepTime timedOut] ∧ (σ.mAutosuspendEnabled = true → timedOut = true)
  | .slept false => cycleHead t log = some (.loopHead false) ∧ cycle t log = []
  | .readWakeupCount shouldSleep => cycleHead t log = some (.loopHead shouldSleep) ∧ Opening shouldSleep (cycle t log)
  | .gotWakeupCount wakeupCount shouldSleep => (careful → wakeupCount = [] → shouldSleep = true) ∧
      ∃ cyc, Opening shouldSleep cyc ∧ cycle t log = .readWakeupCount wakeupCount :: cyc
  | .awaitCounter wakeupCount | .counterIdle wakeupCount | .checkTokens wakeupCount | .checkCounter wakeupCount =>
      wakeupCount ≠ [] ∧ ∃ shouldSleep cyc, Opening shouldSleep cyc ∧ cycle t log = .readWakeupCount wakeupCount :: cyc
  | .writeWakeupCount wakeupCount => wakeupCount ≠ [] ∧ ∃ shouldSleep cyc, Opening shouldSleep cyc ∧
      cycle t log = .checkedCounter :: .readWakeupCount wakeupCount :: cyc
  | .writeState => ∃ wakeupCount shouldSleep cyc, wakeupCount ≠ [] ∧ Opening shouldSleep cyc ∧
      cycle t log = .wroteWakeupCount wakeupCount true :: .checkedCounter :: .readWakeupCount wakeupCount :: cyc
  | .readSuspendTime _ | .readWakeupReasons _ => ∃ success wakeupCount shouldSleep cyc, wakeupCount ≠ [] ∧
      Opening shouldSleep cyc ∧ cycle t log = .suspend success :: .wroteWakeupCount wakeupCount true ::
        .checkedCounter :: .readWakeupCount wakeupCount :: cyc

section

variable {careful : Prop} {t : Tid} {b : LoopBlock} {p q : ThreadCode} {σ σ' : Shared} {log new : Log}

theorem loopLog_append (hnew : ∀ e ∈ new, loopEvent e.2 = false ∨ e.1 ≠ t) : loopLog t (new ++ log) = loopLog t log := by
  have hnone : (new.filter fun e => e.1 = t && loopEvent e.2) = [] := by
    refine List.filter_eq_nil_iff.mpr fun e he => ?_
    rcases hnew e he with hevent | hthread
    · simp [hevent]
    · simp [hthread]
  rw [loopLog, List.filter_append, hnone, List.nil_append, loopLog]

theorem loopLog_cons (x : Ev) (hx : loopEvent x = true) : loopLog t ((t, x) :: log) = x :: loopLog t log := by
  simp [loopLog, hx]

theorem cycle_cons {x : Ev} (hx : loopEvent x = true) (hhead : isHead x = false) :
    cycle t ((t, x) :: log) = x :: cycle t log := by
  simp [cycle, loopLog_cons x hx, hhead]

theorem cycleHead_cons {x : Ev} (hx : loopEvent x = true) (hhead : isHead x = false) :
    cycleHead t ((t, x) :: log) = cycleHead t log := by
  simp [cycleHead, loopLog_cons x hx, hhead]

theorem cycle_loopHead (shouldSleep : Bool) : cycle t ((t, .loopHead shouldSleep) :: log) = [] := by
  simp [cycle, loopLog_cons (.loopHead shouldSleep) rfl, isHead]

theorem cycleHead_loopHead (shouldSleep : Bool) :
    cycleHead t ((t, .loopHead shouldSleep) :: log) = some (.loopHead shouldSleep) := by
  simp [cycleHead, loopLog_cons (.loopHead shouldSleep) rfl, isHead]

theorem Ended.any {cyc : List Ev} (h : Ended careful σ true cyc) : Ended careful σ' true cyc := by
  cases h with
  | start => exact .start
  | interrupted sleepTime timedOut => exact .interrupted sleepTime timedOut
  | emptyRead opening sleeps => exact .emptyRead opening sleeps
  | attempted success opening read reopened => exact .attempted success opening read reopened

theorem Ended.congr {shouldSleep : Bool} {cyc : List Ev} (h : Ended careful σ shouldSleep cyc)
    (hsame : σ'.autosuspend = σ.autosuspend) : Ended careful σ' shouldSleep cyc := by
  have henabled : σ'.mAutosuspendEnabled = σ.mAutosuspendEnabled := congrArg Shared.Autosuspend.mAutosuspendEnabled hsame
  have hcounter : σ'.mSuspendCounter = σ.mSuspendCounter := congrArg Shared.Autosuspend.mSuspendCounter hsame
  cases h with
  | start => exact .start
  | interrupted sleepTime timedOut => exact .interrupted sleepTime timedOut
  | skipped disabled => exact .skipped (henabled.trans disabled)
  | emptyRead opening sleeps => exact .emptyRead opening sleeps
  | stopped opening read reason => exact .stopped opening read (by rwa [henabled, hcounter])
  | failedWrite opening read => exact .failedWrite opening read
  | attempted success opening read reopened => exact .attempted success opening read reopened

theorem Opening.mem {shouldSleep : Bool} {cyc : List Ev} {x : Ev} (h : Opening shouldSleep cyc) (hx : x ∈ cyc) :
    ∃ sleepTime, x = .slept sleepTime true := by
  cases shouldSleep with
  | true =>
    obtain ⟨sleepTime, rfl⟩ := h
    exact ⟨sleepTime, by simpa using hx⟩
  | false =>
    rw [h] at hx
    cases hx

/-- The cycle after one that is tried again does not sleep. -/
theorem Ended.retried {shouldSleep : Bool} {cyc : List Ev} (h : Ended careful σ shouldSleep cyc) (hretried : Retried cyc) :
    shouldSleep = false := by
  cases h with
  | start => simp [Retried] at hretried
  | interrupted sleepTime timedOut => simp [Retried] at hretried
  | skipped disabled => rfl
  | emptyRead opening sleeps =>
    rcases hretried with ⟨wakeupCount, hmem⟩ | ⟨⟨wakeupCount, hne, hmem⟩, -⟩
    · obtain ⟨sleepTime, hx⟩ := opening.mem (by simpa using hmem)
      cases hx
    · rcases List.mem_cons.mp hmem with hx | hmem
      · exact absurd (Ev.readWakeupCount.inj hx) hne
      · obtain ⟨sleepTime, hx⟩ := opening.mem hmem
        cases hx
  | stopped opening read reason => rfl
  | failedWrite opening read => rfl
  | attempted success opening read reopened =>
    rcases hretried with ⟨wakeupCount, hmem⟩ | ⟨-, hnone⟩
    · rcases List.mem_append.mp hmem with hx | hmem
      · obtain ⟨fd, hx⟩ := reopened _ hx
        cases hx
      · obtain ⟨sleepTime, hx⟩ := opening.mem (by simpa using hmem)
        cases hx
    · exact absurd (List.mem_append_right _ List.mem_cons_self) (hnone success)

theorem InCycle.append (h : InCycle careful t b p σ log) (hnew : ∀ e ∈ new, loopEvent e.2 = false ∨ e.1 ≠ t)
    (hheld : Held p b → Held q b ∧ σ'.autosuspend = σ.autosuspend) (hnil : p = [] → q = []) :
    InCycle careful t b q σ' (new ++ log) := by
  have hcycle : cycle t (new ++ log) = cycle t log := by rw [cycle, loopLog_append hnew, cycle]
  have hhead : cycleHead t (new ++ log) = cycleHead t log := by rw [cycleHead, loopLog_append hnew, cycleHead]
  cases b with
  | head shouldSleep =>
    cases shouldSleep with
    | true =>
      have hended : Ended careful σ true (cycle t log) := h
      rw [InCycle, hcycle]
      exact hended.any
    | false =>
      obtain ⟨hp, hended⟩ := h
      obtain ⟨hq, hsame⟩ := hheld hp
      rw [InCycle, hcycle]
      exact ⟨hq, hended.congr hsame⟩
  | slept shouldSleep =>
    cases shouldSleep with
    | true =>
      obtain ⟨hp, hbegan, sleepTime, timedOut, hcyc, htimeout⟩ := h
      have hsame := (hheld ⟨List.mem_cons_self, Or.inl hp⟩).2
      have henabled : σ'.mAutosuspendEnabled = σ.mAutosuspendEnabled :=
        congrArg Shared.Autosuspend.mAutosuspendEnabled hsame
      rw [InCycle, hcycle, hhead]
      exact ⟨hnil hp, hbegan, sleepTime, timedOut, hcyc, fun he => htimeout (henabled ▸ he)⟩
    | false =>
      rw [InCycle, hcycle, hhead]
      exact h
  | _ =>
    rw [InCycle]
    try rw [hhead]
    rw [hcycle]
    exact h

theorem Held.tail {i : Instr Mutex Block} (h : Held (i :: p) b) : p = [] ∧ Held p b := by
  obtain ⟨hneeds, hnil | hunlock⟩ := h
  · cases hnil
  · obtain rfl := (List.cons.inj hunlock).2
    exact ⟨rfl, hneeds, Or.inl rfl⟩

theorem cycle_of_unborn (h : ∀ x, (t, x) ∉ log) : cycle t log = [] := by
  have hnone : (log.filter fun e => e.1 = t && loopEvent e.2) = [] := by
    refine List.filter_eq_nil_iff.mpr fun e he => ?_
    have hne : e.1 ≠ t := by
      rintro rfl
      exact h e.2 he
    simp [hne]
  rw [cycle, loopLog, hnone]
  rfl

end

/-! ### The points of the loop -/

section exec

variable {careful : Prop} {t : Tid} {env : Env} {σ : Shared} {log : Log}

theorem inCycle_head {shouldSleep : Bool} :
    Asserts (InCycle careful) t (execLoop env σ (.head shouldSleep)).code (execLoop env σ (.head shouldSleep)).state
      ((execLoop env σ (.head shouldSleep)).events.map (t, ·) ++ log) := by
  simp only [execLoop]
  split
  · exact asserts_of_out rfl
  · cases shouldSleep with
    | true => exact asserts_goto (p := []) (b := .sleep false) ⟨cycleHead_loopHead true, cycle_loopHead true⟩
    | false => exact asserts_goto (p := []) (b := .slept false) ⟨cycleHead_loopHead false, cycle_loopHead false⟩

theorem inCycle_sleep {woken : Bool} (h : InCycle careful t (.sleep woken) [] σ log) :
    Asserts (InCycle careful) t (execLoop env σ (.sleep woken)).code (execLoop env σ (.sleep woken)).state
      ((execLoop env σ (.sleep woken)).events.map (t, ·) ++ log) := by
  obtain ⟨hhead, hcycle⟩ := h
  simp only [execLoop]
  split
  · rename_i hended
    refine asserts_goto (p := []) (b := .slept true) ⟨rfl, ?_, σ.sleep.mSleepTime, woken && env.timedOut, ?_, ?_⟩
    · exact (cycleHead_cons rfl rfl).trans hhead
    · exact (cycle_cons rfl rfl).trans (congrArg (List.cons _) hcycle)
    · intro henabled
      have henabled : σ.mAutosuspendEnabled = true := henabled
      simpa [henabled] using hended
  · exact asserts_goto (p := [.wait mAutosuspendLock, .lock mAutosuspendLock]) (b := .sleep true) ⟨hhead, hcycle⟩

theorem inCycle_slept {shouldSleep : Bool} (h : InCycle careful t (.slept shouldSleep) [] σ log) :
    Asserts (InCycle careful) t (execLoop env σ (.slept shouldSleep)).code (execLoop env σ (.slept shouldSleep)).state
      ((execLoop env σ (.slept shouldSleep)).events.map (t, ·) ++ log) := by
  simp only [execLoop]
  cases shouldSleep with
  | true =>
    obtain ⟨-, hhead, sleepTime, timedOut, hcycle, htimeout⟩ := h
    split
    · refine asserts_goto (p := []) (b := .head true) ?_
      show Ended careful σ true (cycle t log)
      rw [hcycle]
      exact .interrupted sleepTime timedOut
    · rename_i henabled
      refine asserts_goto (p := [.unlock mAutosuspendLock]) (b := .readWakeupCount true) ⟨hhead, sleepTime, ?_⟩
      rw [← htimeout (by simpa using henabled)]
      exact hcycle
  | false =>
    obtain ⟨hhead, hcycle⟩ := h
    split
    · rename_i hdisabled
      refine asserts_goto (p := []) (b := .head false) ⟨⟨List.mem_cons_self, Or.inl rfl⟩, ?_⟩
      show Ended careful σ false (cycle t log)
      rw [hcycle]
      exact .skipped (by simpa using hdisabled)
    · exact asserts_goto (p := [.unlock mAutosuspendLock]) (b := .readWakeupCount false) ⟨hhead, hcycle⟩

theorem inCycle_readWakeupCount {shouldSleep : Bool} (h : InCycle careful t (.readWakeupCount shouldSleep) [] σ log)
    (hread : careful → env.bytes = [] → shouldSleep = true) :
    Asserts (InCycle careful) t (execLoop env σ (.readWakeupCount shouldSleep)).code
      (execLoop env σ (.readWakeupCount shouldSleep)).state
      ((execLoop env σ (.readWakeupCount shouldSleep)).events.map (t, ·) ++ log) :=
  asserts_goto (p := [.lock mAutosuspendLock]) (b := .gotWakeupCount env.bytes shouldSleep)
    ⟨hread, cycle t log, h.2, cycle_cons rfl rfl⟩

theorem inCycle_gotWakeupCount {wakeupCount : StdString} {shouldSleep : Bool}
    (h : InCycle careful t (.gotWakeupCount wakeupCount shouldSleep) [] σ log) :
    Asserts (InCycle careful) t (execLoop env σ (.gotWakeupCount wakeupCount shouldSleep)).code
      (execLoop env σ (.gotWakeupCount wakeupCount shouldSleep)).state
      ((execLoop env σ (.gotWakeupCount wakeupCount shouldSleep)).events.map (t, ·) ++ log) := by
  obtain ⟨hread, cyc, hopening, hcycle⟩ := h
  simp only [execLoop]
  split
  · rename_i hempty
    subst hempty
    have hended : Ended careful σ shouldSleep (cycle t log) := by
      rw [hcycle]
      exact .emptyRead hopening fun hcareful => hread hcareful rfl
    cases shouldSleep with
    | true => exact asserts_goto (p := []) (b := .head true) hended
    | false => exact asserts_goto (p := []) (b := .head false) ⟨⟨List.mem_cons_self, Or.inl rfl⟩, hended⟩
  · rename_i hread
    exact asserts_goto (p := []) (b := .awaitCounter wakeupCount) ⟨hread, shouldSleep, cyc, hopening, hcycle⟩

/-- The head of the loop that a cycle comes to without an attempt, because autosuspend was disabled or the counter is
raised. -/
theorem inCycle_stopped {wakeupCount : StdString} {p : ThreadCode} (hread : wakeupCount ≠ [])
    (hcycle : ∃ shouldSleep cyc, Opening shouldSleep cyc ∧ cycle t log = .readWakeupCount wakeupCount :: cyc)
    (hp : p = [] ∨ p = [.unlock mAutosuspendClientTokensLock])
    (hreason : σ.mAutosuspendEnabled = false ∨ 0 < σ.mSuspendCounter) :
    InCycle careful t (.head false) p σ log := by
  obtain ⟨shouldSleep, cyc, hopening, hcycle⟩ := hcycle
  refine ⟨⟨List.mem_cons_self, hp⟩, ?_⟩
  rw [hcycle]
  exact .stopped hopening hread hreason

theorem inCycle_waiting {b : LoopBlock} {wakeupCount : StdString}
    (hb : b = .awaitCounter wakeupCount ∨ b = .counterIdle wakeupCount)
    (h : InCycle careful t b [] σ log) :
    Asserts (InCycle careful) t (execLoop env σ b).code (execLoop env σ b).state
      ((execLoop env σ b).events.map (t, ·) ++ log) := by
  rcases hb with rfl | rfl
  · simp only [execLoop]
    split
    · exact asserts_goto (p := []) (b := .counterIdle wakeupCount) h
    · exact asserts_goto (p := [.wait mAutosuspendLock, .lock mAutosuspendLock]) (b := .awaitCounter wakeupCount) h
  · simp only [execLoop]
    split
    · rename_i hdisabled
      exact asserts_goto (p := []) (inCycle_stopped h.1 h.2 (Or.inl rfl) (Or.inl (by simpa using hdisabled)))
    · exact asserts_goto (b := .checkTokens wakeupCount) h

theorem inCycle_checks {b : LoopBlock} {wakeupCount : StdString}
    (hb : b = .checkTokens wakeupCount ∨ b = .checkCounter wakeupCount)
    (h : InCycle careful t b [] σ log) :
    Asserts (InCycle careful) t (execLoop env σ b).code (execLoop env σ b).state
      ((execLoop env σ b).events.map (t, ·) ++ log) := by
  rcases hb with rfl | rfl
  · obtain ⟨hread, shouldSleep, cyc, hopening, hcycle⟩ := h
    simp only [execLoop]
    split
    · refine asserts_goto (p := [.unlock mAutosuspendClientTokensLock]) (inCycle_stopped hread ⟨_, cyc, hopening, ?_⟩
        (Or.inr rfl) (Or.inl rfl))
      -- disabling autosuspend is no event of the loop
      have hsame : loopLog t ([(t, .disableAutosuspend)] ++ log) = loopLog t log := loopLog_append (by simp [loopEvent])
      exact (congrArg (List.takeWhile fun x => !isHead x) hsame).trans hcycle
    · exact asserts_goto (p := []) (b := .checkCounter wakeupCount) ⟨hread, shouldSleep, cyc, hopening, hcycle⟩
  · simp only [execLoop]
    split
    · rename_i hraised
      exact asserts_goto (p := [.unlock mAutosuspendClientTokensLock])
        (inCycle_stopped h.1 h.2 (Or.inr rfl) (Or.inr hraised))
    · obtain ⟨hread, shouldSleep, cyc, hopening, hcycle⟩ := h
      exact asserts_goto (p := []) (b := .writeWakeupCount wakeupCount)
        ⟨hread, shouldSleep, cyc, hopening, (cycle_cons rfl rfl).trans (congrArg (List.cons _) hcycle)⟩

theorem inCycle_writeWakeupCount {wakeupCount : StdString} (h : InCycle careful t (.writeWakeupCount wakeupCount) [] σ log) :
    Asserts (InCycle careful) t (execLoop env σ (.writeWakeupCount wakeupCount)).code
      (execLoop env σ (.writeWakeupCount wakeupCount)).state
      ((execLoop env σ (.writeWakeupCount wakeupCount)).events.map (t, ·) ++ log) := by
  obtain ⟨hread, shouldSleep, cyc, hopening, hcycle⟩ := h
  have hafter : cycle t ((t, .wroteWakeupCount wakeupCount env.ok) :: log) =
      .wroteWakeupCount wakeupCount env.ok :: .checkedCounter :: .readWakeupCount wakeupCount :: cyc := by
    rw [cycle_cons rfl rfl, hcycle]
  simp only [execLoop]
  cases hok : env.ok with
  | true =>
    rw [hok] at hafter
    exact asserts_goto (p := []) (b := .writeState) ⟨wakeupCount, shouldSleep, cyc, hread, hopening, hafter⟩
  | false =>
    rw [hok] at hafter
    refine asserts_goto (p := [.unlock mAutosuspendClientTokensLock]) (b := .head false)
      ⟨⟨List.mem_cons_self, Or.inr rfl⟩, ?_⟩
    show Ended careful σ false (cycle t ((t, .wroteWakeupCount wakeupCount false) :: log))
    rw [hafter]
    exact .failedWrite hopening hread

theorem inCycle_writeState (h : InCycle careful t .writeState [] σ log) :
    Asserts (InCycle careful) t (execLoop env σ .writeState).code (execLoop env σ .writeState).state
      ((execLoop env σ .writeState).events.map (t, ·) ++ log) := by
  obtain ⟨wakeupCount, shouldSleep, cyc, hread, hopening, hcycle⟩ := h
  exact asserts_goto (p := [.unlock mAutosuspendLock, .unlock mAutosuspendClientTokensLock])
    (b := .readSuspendTime env.ok)
    ⟨env.ok, wakeupCount, shouldSleep, cyc, hread, hopening, (cycle_cons rfl rfl).trans (congrArg (List.cons _) hcycle)⟩

theorem inCycle_readWakeupReasons {success : Bool} (h : InCycle careful t (.readWakeupReasons success) [] σ log) :
    Asserts (InCycle careful) t (execLoop env σ (.readWakeupReasons success)).code
      (execLoop env σ (.readWakeupReasons success)).state
      ((execLoop env σ (.readWakeupReasons success)).events.map (t, ·) ++ log) := by
  obtain ⟨success', wakeupCount, shouldSleep, cyc, hread, hopening, hcycle⟩ := h
  refine asserts_goto (Q := InCycle careful) (b := .head true) (p := lockGuard wakeupListLock [.run (.updateWakeupList
    (wakeupReasons env σ).1)] ++ callNotifyWakeup success (wakeupReasons env σ).1 ++ [.lock mAutosuspendLock]) ?_
  rw [InCycle]
  simp only [execLoop]
  split
  · rw [List.map_singleton, List.singleton_append, cycle_cons rfl rfl, hcycle]
    exact .attempted success' hopening hread (List.forall_mem_singleton.mpr ⟨_, rfl⟩)
  · rw [List.map_nil, List.nil_append, hcycle]
    exact .attempted success' hopening hread (List.forall_mem_nil _)

theorem inCycle_exec {b : LoopBlock} (h : InCycle careful t b [] σ log)
    (hread : careful → b = .readWakeupCount false → env.bytes ≠ []) :
    Asserts (InCycle careful) t (execLoop env σ b).code (execLoop env σ b).state
      ((execLoop env σ b).events.map (t, ·) ++ log) := by
  cases b with
  | head shouldSleep => exact inCycle_head
  | sleep woken => exact inCycle_sleep h
  | slept shouldSleep => exact inCycle_slept h
  | readWakeupCount shouldSleep =>
    refine inCycle_readWakeupCount h fun hcareful hempty => ?_
    cases shouldSleep with
    | true => rfl
    | false => exact absurd hempty (hread hcareful rfl)
  | gotWakeupCount wakeupCount shouldSleep => exact inCycle_gotWakeupCount h
  | awaitCounter wakeupCount => exact inCycle_waiting (Or.inl rfl) h
  | counterIdle wakeupCount => exact inCycle_waiting (Or.inr rfl) h
  | checkTokens wakeupCount => exact inCycle_checks (Or.inl rfl) h
  | checkCounter wakeupCount => exact inCycle_checks (Or.inr rfl) h
  | writeWakeupCount wakeupCount => exact inCycle_writeWakeupCount h
  | writeState => exact inCycle_writeState h
  | readSuspendTime success => exact asserts_goto (b := .readWakeupReasons success) h
  | readWakeupReasons success => exact inCycle_readWakeupReasons h

end exec

/-! ### Whole runs -/

theorem inCycle_inductive {careful : Prop} (cfg : Config) {ok : ServiceState → ServiceAction → Prop}
    (hread : ∀ {s t env pick}, careful → ok s (.step t env pick) → s.code t = [.run (.loop (.readWakeupCount false))] →
      env.bytes ≠ []) : Inductive cfg ok (InCycle careful) where
  spawn {t σ log} hunborn := by
    show Ended careful σ true (cycle t log)
    rw [cycle_of_unborn hunborn]
    exact .start
  others σ' new h hnew hheld := h.append (fun e he => Or.inl (hnew e he).1) (fun hp => ⟨hp, hheld hp⟩) id
  advance q σ' new h hnew hheld := by
    refine h.append (fun e he => Or.inl (hnew e he)) (fun hp => ?_) fun hp => absurd hp (List.cons_ne_nil _ _)
    obtain ⟨rfl, rfl⟩ := hheld hp
    exact ⟨hp.tail.2, rfl⟩
  exec _ hok hcode hb := inCycle_exec hb fun hcareful hpoint => hread hcareful hok (by rw [hcode, hpoint])

def CycleRecord (careful : Prop) : Tid × Ev → Log → Prop
  | (t, .loopHead shouldSleep), earlier => ∃ σ, Ended careful σ shouldSleep (cycle t earlier)
  | (t, .slept ..), earlier => cycleHead t earlier = some (.loopHead true)
  | (t, .readWakeupCount _), earlier =>
    ∃ shouldSleep, cycleHead t earlier = some (.loopHead shouldSleep) ∧ Opening shouldSleep (cycle t earlier)
  | _, _ => True

section run

variable {careful : Prop} {cfg : Config} {ok : ServiceState → ServiceAction → Prop} {s : ServiceState} {t : Tid}
  {later earlier events : List Ev} {shouldSleep : Bool}

theorem reach_cycleRecord (hQ : Inductive cfg ok (InCycle careful)) (h : (program cfg).Reach ok s) :
    Historically (CycleRecord careful) s.log := by
  refine hQ.historically (fun e log he => ?_) (fun {s t b env pick} _ _ _ hb hs => ?_) h
  · obtain ⟨t, x⟩ := e
    cases x with
    | loopHead shouldSleep => cases he
    | slept sleepTime timedOut => cases he
    | readWakeupCount wakeupCount => cases he
    | _ => trivial
  · cases b with
    | head shouldSleep =>
      have hended : ∃ σ, Ended careful σ shouldSleep (cycle t s.log) := by
        cases shouldSleep with
        | true => exact ⟨s.shared, hb⟩
        | false => exact ⟨s.shared, hb.2⟩
      simp only [execLoop]
      split
      · exact ⟨trivial, hended, hs⟩
      · exact ⟨hended, hs⟩
    | sleep woken =>
      simp only [execLoop]
      split
      · exact ⟨hb.1, hs⟩
      · exact hs
    | readWakeupCount shouldSleep => exact ⟨⟨shouldSleep, hb⟩, hs⟩
    | writeWakeupCount wakeupCount => exact ⟨trivial, hs⟩
    | writeState => exact ⟨trivial, hs⟩
    | readSuspendTime success => exact hs
    | _ =>
      simp only [execLoop]
      split
      · first | exact ⟨trivial, hs⟩ | exact hs
      · first | exact ⟨trivial, hs⟩ | exact hs

theorem loopLog_split {log : Log} {x : Ev} (h : loopLog t log = later ++ x :: earlier) :
    ∃ after before, log = after ++ (t, x) :: before ∧ loopLog t before = earlier := by
  obtain ⟨_, rest, hlog, -, hrest⟩ := List.map_eq_append_iff.mp h
  obtain ⟨e, tail, rfl, hx, htail⟩ := List.map_eq_cons_iff.mp hrest
  obtain ⟨after, log', rfl, -, hlog'⟩ := List.filter_eq_append_iff.mp hlog
  obtain ⟨skipped, before, rfl, hskipped, he, hbefore⟩ := List.filter_eq_cons_iff.mp hlog'
  refine ⟨after ++ skipped, before, ?_, ?_⟩
  · have ht : e.1 = t := of_decide_eq_true (Bool.and_eq_true_iff.mp he).1
    rw [List.append_assoc, ← ht, ← hx]
  · rw [loopLog, hbefore, htail]

theorem Historically.ended (h : Historically (CycleRecord careful) s.log)
    (hsplit : loopLog t s.log = later ++ .loopHead shouldSleep :: earlier) :
    ∃ σ, Ended careful σ shouldSleep (earlier.takeWhile fun x => !isHead x) := by
  obtain ⟨after, before, hlog, rfl⟩ := loopLog_split hsplit
  exact historically_iff.mp h _ _ _ hlog

theorem cycle_of_split {log : Log} (h : loopLog t log = events ++ .loopHead shouldSleep :: earlier)
    (hevents : ∀ x ∈ events, isHead x = false) :
    cycleHead t log = some (.loopHead shouldSleep) ∧ cycle t log = events := by
  constructor
  · have hnone : events.find? isHead = none := List.find?_eq_none.mpr fun x hx => by simp [hevents x hx]
    rw [cycleHead, h, List.find?_append, hnone, Option.none_or]
    rfl
  · have hall : ∀ x ∈ events, (!isHead x) = true := fun x hx => by simp [hevents x hx]
    rw [cycle, h, List.takeWhile_append_of_pos hall]
    simp [isHead]

/-- An event of a cycle, with what the cycle has recorded before it. -/
theorem Historically.in_cycle (h : Historically (CycleRecord careful) s.log)
    (hsplit : loopLog t s.log = later ++ (events ++ .loopHead shouldSleep :: earlier))
    (hevents : ∀ x ∈ events, isHead x = false) {x : Ev} (hx : x ∈ events) :
    ∃ newer older before, events = newer ++ x :: older ∧ CycleRecord careful (t, x) before ∧
      cycleHead t before = some (.loopHead shouldSleep) ∧ cycle t before = older := by
  obtain ⟨newer, older, rfl⟩ := List.append_of_mem hx
  have hlast : loopLog t s.log = (later ++ newer) ++ x :: (older ++ .loopHead shouldSleep :: earlier) := by simp [hsplit]
  obtain ⟨after, before, hlog, hbefore⟩ := loopLog_split hlast
  obtain ⟨hhead, hcycle⟩ := cycle_of_split hbefore fun y hy => hevents y (by simp [hy])
  exact ⟨newer, older, before, rfl, historically_iff.mp h _ _ _ hlog, hhead, hcycle⟩

theorem Historically.sleeps (h : Historically (CycleRecord careful) s.log)
    (hsplit : loopLog t s.log = later ++ (events ++ .loopHead shouldSleep :: earlier))
    (hevents : ∀ x ∈ events, isHead x = false) {sleepTime : Int} {timedOut : Bool}
    (hslept : .slept sleepTime timedOut ∈ events) : shouldSleep = true := by
  obtain ⟨-, -, before, -, horder, hhead, -⟩ := Historically.in_cycle h hsplit hevents hslept
  have hbegan : cycleHead t before = some (.loopHead true) := horder
  rw [hhead] at hbegan
  exact Ev.loopHead.inj (Option.some.inj hbegan)

/-- A cycle that begins with a sleep reads the wakeup count after it. -/
theorem Historically.reads (h : Historically (CycleRecord careful) s.log)
    (hsplit : loopLog t s.log = later ++ (events ++ .loopHead true :: earlier))
    (hevents : ∀ x ∈ events, isHead x = false) {wakeupCount : StdString}
    (hread : .readWakeupCount wakeupCount ∈ events) :
    ∃ newer sleepTime, events = newer ++ [.readWakeupCount wakeupCount, .slept sleepTime true] := by
  obtain ⟨newer, older, before, rfl, ⟨shouldSleep, hbegan, hopening⟩, hhead, rfl⟩ :=
    Historically.in_cycle h hsplit hevents hread
  rw [hhead] at hbegan
  obtain rfl := Ev.loopHead.inj (Option.some.inj hbegan)
  obtain ⟨sleepTime, hcycle⟩ := hopening
  exact ⟨newer, sleepTime, by rw [hcycle]⟩

end run

end HardwareInterfaces.Suspend.Service
