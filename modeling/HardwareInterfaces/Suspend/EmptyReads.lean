import HardwareInterfaces.Suspend.SleepCycles

/-!
# Reads of the wakeup count that come back empty

The loop is to skip its sleep only after a cycle that did not come to an attempt because the wakeup count could not be
written back or the counter was raised. An empty read goes back to the head of the loop with `shouldSleep` as it was, so
that after a cycle without a sleep the next one has none either, and the thread reads again and again while the file
cannot be read (`spins_on_empty_reads`). In the runs in which the reads of the cycles without a sleep succeed, the loop
does what it is to do (`no_spin`).
-/

namespace HardwareInterfaces.Suspend.Service

open CppStd Monitor Mutex History

structure NoSpin (cfg : Config) (s : ServiceState) : Prop where
  /-- A thread at the head of the loop that will not sleep has read the wakeup count in the cycle before, and made no
  attempt, because the count could not be written back or the counter is raised. -/
  skips : ∀ t c, s.code t = .run (.loop (.head false)) :: c → s.shared.mAutosuspendEnabled = true →
    (∃ wakeupCount, wakeupCount ≠ [] ∧ .readWakeupCount wakeupCount ∈ cycle t s.log) ∧
    (∀ success, .suspend success ∉ cycle t s.log) ∧
    ((∃ wakeupCount, .wroteWakeupCount wakeupCount false ∈ cycle t s.log) ∨ 0 < s.shared.mSuspendCounter)
  /-- The cycle after one with an empty read begins with a sleep, which times out before the cycle goes on. -/
  sleeps : ∀ t later events shouldSleep earlier,
    loopLog t s.log = later ++ (events ++ .loopHead shouldSleep :: earlier) → (∀ x ∈ events, isHead x = false) →
    .readWakeupCount [] ∈ earlier.takeWhile (fun x => !isHead x) →
    shouldSleep = true ∧ ∀ wakeupCount, .readWakeupCount wakeupCount ∈ events →
      ∃ newer sleepTime, events = newer ++ [.readWakeupCount wakeupCount, .slept sleepTime true]
  /-- Between two empty reads, of one thread or of two, there is a sleep that took its time, while autosuspend stays
  enabled. -/
  pauses : ∀ later t₂ between t₁ earlier,
    s.log = later ++ (t₂, .readWakeupCount []) :: (between ++ (t₁, .readWakeupCount []) :: earlier) →
    (∀ e ∈ between, switch? e ≠ some false) →
    ∃ after t before, between =
        after ++ (t, .slept (sleepAfter cfg (before ++ (t₁, .readWakeupCount []) :: earlier)).mSleepTime true) :: before ∧
      enabledAfter (before ++ (t₁, .readWakeupCount []) :: earlier) = true

/-- A read of the wakeup count that comes back empty, in a cycle that did not begin with a sleep. -/
def emptyReadAfterSkip (s : ServiceState) : ServiceAction → Bool
  | .step t env _ => s.code t = [.run (.loop (.readWakeupCount false))] && env.bytes = []
  | _ => false

/-- Runs in which the wakeup count can be read in every cycle that does not begin with a sleep. -/
def ReadsAfterSkip (s : ServiceState) (a : ServiceAction) : Prop := Served s a ∧ emptyReadAfterSkip s a = false

def isEmptyRead : Ev → Bool
  | .readWakeupCount wakeupCount => wakeupCount = []
  | _ => false

theorem callsForSleep_isEmptyRead : CallsForSleep isEmptyRead := by
  intro x hx
  cases x with
  | readWakeupCount wakeupCount =>
    obtain rfl : wakeupCount = [] := of_decide_eq_true hx
    exact Or.inr rfl
  | _ => cases hx

section

variable {cfg : Config} {s : ServiceState} {t : Tid} {σ : Shared} {shouldSleep : Bool} {cyc : List Ev}

theorem Ended.skips (h : Ended True σ false cyc) (henabled : σ.mAutosuspendEnabled = true) :
    (∃ wakeupCount, wakeupCount ≠ [] ∧ .readWakeupCount wakeupCount ∈ cyc) ∧ (∀ success, .suspend success ∉ cyc) ∧
      ((∃ wakeupCount, .wroteWakeupCount wakeupCount false ∈ cyc) ∨ 0 < σ.mSuspendCounter) := by
  cases h with
  | skipped disabled =>
    rw [disabled] at henabled
    cases henabled
  | emptyRead opening sleeps => cases sleeps trivial
  | @stopped shouldSleep cyc wakeupCount opening read reason =>
    refine ⟨⟨wakeupCount, read, List.mem_cons_self⟩, fun success hmem => ?_, Or.inr ?_⟩
    · obtain ⟨sleepTime, hx⟩ := opening.mem (by simpa using hmem)
      cases hx
    · exact reason.resolve_left (by simp [henabled])
  | @failedWrite shouldSleep cyc wakeupCount opening read =>
    refine ⟨⟨wakeupCount, read, by simp⟩, fun success hmem => ?_, Or.inl ⟨wakeupCount, List.mem_cons_self⟩⟩
    obtain ⟨sleepTime, hx⟩ := opening.mem (by simpa using hmem)
    cases hx

theorem Ended.sleeps_of_emptyRead (h : Ended True σ shouldSleep cyc) (hread : .readWakeupCount [] ∈ cyc) :
    shouldSleep = true := by
  cases h with
  | start => rfl
  | interrupted sleepTime timedOut => rfl
  | skipped disabled => cases hread
  | emptyRead opening sleeps => exact sleeps trivial
  | stopped opening read reason =>
    rcases List.mem_cons.mp hread with hx | hmem
    · exact absurd (Ev.readWakeupCount.inj hx).symm read
    · obtain ⟨sleepTime, hx⟩ := opening.mem hmem
      cases hx
  | failedWrite opening read =>
    simp only [List.mem_cons, reduceCtorEq, false_or] at hread
    rcases hread with hx | hmem
    · exact absurd (Ev.readWakeupCount.inj hx).symm read
    · obtain ⟨sleepTime, hx⟩ := opening.mem hmem
      cases hx
  | attempted success opening read reopened => rfl

theorem ReadsAfterSkip.read {env : Env} {pick : Option Tid} (h : ReadsAfterSkip s (.step t env pick))
    (hcode : s.code t = [.run (.loop (.readWakeupCount false))]) : env.bytes ≠ [] := by
  intro hempty
  have hread := h.2
  simp [emptyReadAfterSkip, hcode, hempty] at hread

/-- The loop does not spin in the runs in which the reads of the cycles without a sleep succeed. -/
theorem no_spin (cfg : Config) (h : (program cfg).Reach ReadsAfterSkip s) : NoSpin cfg s := by
  have hcycles : Inductive cfg ReadsAfterSkip (InCycle True) := inCycle_inductive cfg fun _ hok hcode => hok.read hcode
  have horder := reach_cycleRecord hcycles h
  have hrested : Inductive cfg ReadsAfterSkip (Rested isEmptyRead (FullSleep cfg)) := by
    refine rested_inductive callsForSleep_isEmptyRead (fun hreach _ => ?_) fun hok hcode => ?_
    · exact fullSleep_slept (hreach.mono fun _ _ hok => hok.1)
    · exact decide_eq_false (hok.read hcode)
  refine ⟨?_, ?_, ?_⟩
  · intro t c hcode henabled
    obtain ⟨-, rfl⟩ := (reach_loops h).at_point hcode
    obtain ⟨-, hended⟩ := hcycles.reach h t [] (.head false) hcode
    exact hended.skips henabled
  · intro t later events shouldSleep earlier hlog hevents hempty
    obtain ⟨σ, hended⟩ := Historically.ended horder (hlog.trans (List.append_assoc ..).symm)
    obtain rfl := hended.sleeps_of_emptyRead hempty
    exact ⟨rfl, fun wakeupCount hread => Historically.reads horder hlog hevents hread⟩
  · intro later t₂ between t₁ earlier hlog _
    have hpaused := historically_iff.mp (reach_paused callsForSleep_isEmptyRead hrested h) _ _ _ hlog rfl
    obtain ⟨after, e, before, rfl, ⟨t, rfl, henabled, -⟩, -⟩ :=
      Since.newer hpaused (by simp [isEmptyRead]) (by simp [FullSleep])
    exact ⟨after, t, before, rfl, henabled⟩

end

def toFailedWrite : List ServiceAction :=
  toRead ++ go (.autosuspend 0) 9 ++ [.step (.autosuspend 0) { ok := false } none]

theorem no_spin_failedWrite : ∃ s, (program smallConfig).Reach ReadsAfterSkip s ∧
    (∃ wakeupCount, wakeupCount ≠ [] ∧ .readWakeupCount wakeupCount ∈ cycle (.autosuspend 0) s.log) := by
  obtain ⟨s, hreach, hs⟩ := Program.Reach.of_run (program smallConfig)
    (fun s a => servedAction a && !emptyReadAfterSkip s a) (toFailedWrite ++ go (.autosuspend 0) 1)
    (fun s => s.code (.autosuspend 0) = [.run (.loop (.head false))] && s.shared.mAutosuspendEnabled)
    (fun s a h => by simpa using h) (by decide +kernel)
  simp only [Bool.and_eq_true, decide_eq_true_eq] at hs
  exact ⟨s, hreach, ((no_spin smallConfig hreach).skips _ [] hs.1 hs.2).1⟩

/-- The write fails, the next read comes back empty, and so does the one after it: there is no sleep in between. -/
theorem spins_on_empty_reads : ∃ s, (program smallConfig).Reach Served s ∧ ¬ NoSpin smallConfig s := by
  obtain ⟨s, hreach, hs⟩ := Program.Reach.of_run (program smallConfig) (fun _ a => servedAction a)
    (toFailedWrite ++ go (.autosuspend 0) 11)
    (fun s => s.log = (.autosuspend 0, .readWakeupCount []) ::
      ([(.autosuspend 0, .loopHead false)] ++ (.autosuspend 0, .readWakeupCount []) :: s.log.drop 3))
    (fun _ _ h => h) (by decide +kernel)
  have hlog := of_decide_eq_true hs
  refine ⟨s, hreach, fun hspin => ?_⟩
  obtain ⟨after, t, before, hbetween, -⟩ := hspin.pauses [] _ _ _ _ hlog (by simp [switch?])
  simp [List.cons_eq_append_iff] at hbetween

end HardwareInterfaces.Suspend.Service
