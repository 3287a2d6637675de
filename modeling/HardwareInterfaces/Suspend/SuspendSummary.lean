import HardwareInterfaces.Suspend.Backoff

/-!
# The suspend statistics over a history of attempts

`SuspendInfo` after any history of attempts, field by field, as a function of the history. The two backoff
counters are numbers of the maximal runs of bad attempts, which `updateSleepTime` never stores: it compares the length of
the run so far with the threshold before it counts the attempt.
-/

namespace HardwareInterfaces.Suspend

namespace SuspendInfo

variable (config : SleepTimeConfig)

/-- The maximal runs of bad attempts. -/
def badRuns (history : List Attempt) : List (List Attempt) :=
  (history.splitOnP fun a => ¬ a.Bad config).filter (· ≠ [])

def suspendMillis (a : Attempt) : Int := roundToMillis a.time.suspendTime

def overheadMillis (a : Attempt) : Int := roundToMillis a.time.suspendOverhead

def summary (history : List Attempt) : SuspendInfo where
  suspendAttemptCount := history.length
  failedSuspendCount := history.countP fun a => a.success = false
  shortSuspendCount := history.countP fun a => a.Short config
  suspendTimeMillis := ((history.filter fun a => a.success = true).map suspendMillis).sum
  shortSuspendTimeMillis := ((history.filter fun a => a.Short config).map suspendMillis).sum
  suspendOverheadTimeMillis := ((history.filter fun a => a.success = true).map overheadMillis).sum
  failedSuspendOverheadTimeMillis := ((history.filter fun a => a.success = false).map overheadMillis).sum
  newBackoffCount := (badRuns config history).countP fun run => config.backoffThreshold < run.length
  backoffContinueCount := ((badRuns config history).map fun run => run.length - config.backoffThreshold - 1).sum
  sleepTimeMillis := (history.tails.tail.map fun earlier => (SleepState.after config earlier).mSleepTime).sum

/-! ### Maximal runs -/

section runs

variable {α : Type} {p : α → Bool}

theorem splitOnP_eq_cons (l : List α) : ∃ rest, l.splitOnP p = l.takeWhile (fun x => !p x) :: rest := by
  induction l with
  | nil => exact ⟨[], rfl⟩
  | cons x l ih =>
    obtain ⟨rest, ih⟩ := ih
    rw [List.splitOnP_cons_eq_if_modifyHead, ih]
    cases hx : p x with
    | true => exact ⟨l.takeWhile (fun x => !p x) :: rest, by simp [hx]⟩
    | false => exact ⟨rest, by simp [hx]⟩

theorem sum_filter_ne_nil {f : List α → Nat} (hf : f [] = 0) (l : List (List α)) :
    ((l.filter (· ≠ [])).map f).sum = (l.map f).sum := by
  induction l with
  | nil => rfl
  | cons run l ih =>
    rw [List.filter_cons]
    cases run with
    | nil => simpa [hf] using ih
    | cons x run => simpa using ih

end runs

theorem sum_badRuns_cons {f : List Attempt → Nat} (hf : f [] = 0) (a : Attempt) (earlier : List Attempt) :
    ((badRuns config (a :: earlier)).map f).sum +
        (if a.Bad config then f (earlier.takeWhile fun b => b.Bad config) else 0) =
      ((badRuns config earlier).map f).sum +
        if a.Bad config then f (a :: earlier.takeWhile fun b => b.Bad config) else 0 := by
  have htake : (earlier.takeWhile fun b => !decide (¬ b.Bad config)) = earlier.takeWhile fun b => b.Bad config := by
    simp
  obtain ⟨rest, hrest⟩ := splitOnP_eq_cons (p := fun b : Attempt => decide (¬ b.Bad config)) earlier
  rw [htake] at hrest
  rw [badRuns, badRuns, sum_filter_ne_nil hf, sum_filter_ne_nil hf, List.splitOnP_cons_eq_if_modifyHead, hrest]
  by_cases ha : a.Bad config
  · simp only [ha, not_true_eq_false, decide_false, Bool.false_eq_true, if_false, if_true, List.modifyHead_cons,
      List.map_cons, List.sum_cons]
    omega
  · simp [ha, hf]

theorem countP_badRuns (history : List Attempt) :
    (badRuns config history).countP (fun run => config.backoffThreshold < run.length) =
      ((badRuns config history).map fun run => if config.backoffThreshold < run.length then 1 else 0).sum := by
  induction badRuns config history with
  | nil => rfl
  | cons run runs ih =>
    rw [List.countP_cons, ih, List.map_cons, List.sum_cons, Nat.add_comm]
    simp

/-- A bad attempt starts a new backoff when it makes its run longer than the threshold. -/
theorem newBackoffCount_cons (a : Attempt) (earlier : List Attempt) :
    (summary config (a :: earlier)).newBackoffCount = (summary config earlier).newBackoffCount +
      if a.Bad config ∧ SleepState.badRun config earlier = config.backoffThreshold then 1 else 0 := by
  have hsum := sum_badRuns_cons config (f := fun run => if config.backoffThreshold < run.length then 1 else 0)
    (if_neg (Nat.not_lt_zero _)) a earlier
  have hrun : (earlier.takeWhile fun b => b.Bad config).length = SleepState.badRun config earlier := rfl
  simp only [List.length_cons, hrun] at hsum
  simp only [summary]
  rw [countP_badRuns, countP_badRuns]
  by_cases ha : a.Bad config
  · simp only [ha, if_true, true_and] at hsum ⊢
    split at hsum <;> split at hsum <;> split <;> omega
  · simp only [ha, if_false, false_and] at hsum ⊢
    omega

/-- A bad attempt continues a backoff when its run was already longer than the threshold. -/
theorem backoffContinueCount_cons (a : Attempt) (earlier : List Attempt) :
    (summary config (a :: earlier)).backoffContinueCount = (summary config earlier).backoffContinueCount +
      if a.Bad config ∧ config.backoffThreshold < SleepState.badRun config earlier then 1 else 0 := by
  have hsum := sum_badRuns_cons config (f := fun run => run.length - config.backoffThreshold - 1)
    (by simp) a earlier
  have hrun : (earlier.takeWhile fun b => b.Bad config).length = SleepState.badRun config earlier := rfl
  simp only [List.length_cons, hrun] at hsum
  simp only [summary]
  by_cases ha : a.Bad config
  · simp only [ha, if_true, true_and] at hsum ⊢
    split <;> omega
  · simp only [ha, if_false, false_and] at hsum ⊢
    omega

/-! ### One attempt -/

theorem recorded_eq (info : SuspendInfo) (sleepTime : Int) (a : Attempt) :
    info.recorded config sleepTime a.success a.time =
      { info with
        suspendAttemptCount := info.suspendAttemptCount + 1
        failedSuspendCount := info.failedSuspendCount + if a.success = false then 1 else 0
        shortSuspendCount := info.shortSuspendCount + if a.Short config then 1 else 0
        suspendTimeMillis := info.suspendTimeMillis + if a.success = true then suspendMillis a else 0
        shortSuspendTimeMillis := info.shortSuspendTimeMillis + if a.Short config then suspendMillis a else 0
        suspendOverheadTimeMillis :=
          info.suspendOverheadTimeMillis + if a.success = true then overheadMillis a else 0
        failedSuspendOverheadTimeMillis :=
          info.failedSuspendOverheadTimeMillis + if a.success = false then overheadMillis a else 0
        sleepTimeMillis := info.sleepTimeMillis + sleepTime } := by
  have hshort := Attempt.shortSuspend_iff config a
  unfold recorded
  by_cases hs : a.Short config
  · rw [if_pos (hshort.mpr hs)]
    cases hsuccess : a.success <;> simp [hs, suspendMillis, overheadMillis]
  · rw [if_neg (mt hshort.mp hs)]
    cases hsuccess : a.success <;> simp [hs, suspendMillis, overheadMillis]

theorem updateSleepTime_info (s : SleepState) (a : Attempt) :
    (s.updateSleepTime config a.success a.time).mSuspendInfo =
      { s.mSuspendInfo.recorded config s.mSleepTime a.success a.time with
        newBackoffCount := s.mSuspendInfo.newBackoffCount +
          if a.Bad config ∧ s.mNumConsecutiveBadSuspends = config.backoffThreshold then 1 else 0
        backoffContinueCount := s.mSuspendInfo.backoffContinueCount +
          if a.Bad config ∧ config.backoffThreshold < s.mNumConsecutiveBadSuspends then 1 else 0 } := by
  have hbad := Attempt.badSuspend_iff config a
  rw [recorded_eq]
  simp only [SleepState.updateSleepTime, recorded_eq]
  by_cases ha : a.Bad config
  · simp only [hbad.mpr ha, ha, Bool.not_true, Bool.false_eq_true, if_false, true_and, SleepState.backedOff]
    rcases lt_trichotomy s.mNumConsecutiveBadSuspends config.backoffThreshold with hn | hn | hn
    · simp [Nat.not_le.mpr hn, hn.ne, Nat.not_lt.mpr hn.le]
    · simp [hn]
    · simp [hn.le, hn.ne', hn]
  · have hgood : config.badSuspend a.success a.time = false := by simpa using mt hbad.mp ha
    simp [hgood, ha]

theorem summary_cons (a : Attempt) (earlier : List Attempt) :
    summary config (a :: earlier) =
      { (summary config earlier).recorded config (SleepState.after config earlier).mSleepTime a.success a.time with
        newBackoffCount := (summary config earlier).newBackoffCount +
          if a.Bad config ∧ SleepState.badRun config earlier = config.backoffThreshold then 1 else 0
        backoffContinueCount := (summary config earlier).backoffContinueCount +
          if a.Bad config ∧ config.backoffThreshold < SleepState.badRun config earlier then 1 else 0 } := by
  rw [← newBackoffCount_cons, ← backoffContinueCount_cons, recorded_eq]
  simp only [summary, List.length_cons, List.countP_cons, List.filter_cons, List.tails, List.tail_cons,
    Nat.cast_add, Nat.cast_one, decide_eq_true_eq, mk.injEq, true_and]
  have htails : earlier.tails = earlier :: earlier.tails.tail := by cases earlier <;> rfl
  refine ⟨?_, ?_, ?_, ?_, ?_, ?_, ?_⟩
  · split <;> simp
  · split <;> simp
  · split <;> simp [Int.add_comm]
  · split <;> simp [Int.add_comm]
  · split <;> simp [Int.add_comm]
  · split <;> simp [Int.add_comm]
  · conv_lhs => rw [htails]
    rw [List.map_cons, List.sum_cons, Int.add_comm]

theorem after_info (history : List Attempt) :
    (SleepState.after config history).mSuspendInfo = summary config history := by
  induction history with
  | nil => simp [SleepState.after, SleepState.initial, summary, badRuns]
  | cons a earlier ih => rw [SleepState.after, updateSleepTime_info, SleepState.after_bad, ih, summary_cons]

/-! ### The whole history -/

end SuspendInfo

end HardwareInterfaces.Suspend
