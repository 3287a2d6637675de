import HardwareInterfaces.Suspend.SleepTime
import HardwareInterfaces.Suspend.SuspendStats
import HardwareInterfaces.Suspend.WakeLockTable

/-!
# The suspend statistics of `dump`

The two sections of `dump` about suspends: what the kernel says of them, and what the service has counted itself. Each
line is a name and a value. The values are numbers but for two texts of the kernel, which `getSuspendStats` has taken
the newlines out of and which are printed up to their first NUL. So the sections tell the numbers, and these two texts
(`report_eq_iff`).
-/

namespace HardwareInterfaces.Suspend

open CppStd

/-! ### The text -/

def label (name : StdString) : StdString := name ++ str ": "

def line (name value : StdString) : StdString := label name ++ value ++ [newline]

def suspendStatsText (stats : SuspendStats) : StdString :=
  str "----- Suspend Stats -----" ++ [newline] ++
    line (str "success") (toDecimal stats.success) ++
    line (str "fail") (toDecimal stats.fail) ++
    line (str "failed_freeze") (toDecimal stats.failedFreeze) ++
    line (str "failed_prepare") (toDecimal stats.failedPrepare) ++
    line (str "failed_suspend") (toDecimal stats.failedSuspend) ++
    line (str "failed_suspend_late") (toDecimal stats.failedSuspendLate) ++
    line (str "failed_suspend_noirq") (toDecimal stats.failedSuspendNoirq) ++
    line (str "failed_resume") (toDecimal stats.failedResume) ++
    line (str "failed_resume_early") (toDecimal stats.failedResumeEarly) ++
    line (str "failed_resume_noirq") (toDecimal stats.failedResumeNoirq) ++
    [newline] ++ str "Last Failures:" ++ [newline] ++
    line (str "    last_failed_dev") (cStr stats.lastFailedDev) ++
    line (str "    last_failed_errno") (toDecimal stats.lastFailedErrno) ++
    line (str "    last_failed_step") (cStr stats.lastFailedStep) ++
    str "----------" ++ [newline, newline]

/-- What `dump` prints for `--kernel_suspends`. -/
def kernelSuspendsSection (stats : SuspendStats) : StdString :=
  [newline] ++ cStr (suspendStatsText stats) ++ [newline]

def suspendInfoText (info : SuspendInfo) : StdString :=
  line (str "suspend attempts") (toDecimal info.suspendAttemptCount) ++
    line (str "failed suspends") (toDecimal info.failedSuspendCount) ++
    line (str "short suspends") (toDecimal info.shortSuspendCount) ++
    line (str "total suspend time") (toDecimal info.suspendTimeMillis ++ str " ms") ++
    line (str "short suspend time") (toDecimal info.shortSuspendTimeMillis ++ str " ms") ++
    line (str "suspend overhead") (toDecimal info.suspendOverheadTimeMillis ++ str " ms") ++
    line (str "failed suspend overhead") (toDecimal info.failedSuspendOverheadTimeMillis ++ str " ms") ++
    line (str "new backoffs") (toDecimal info.newBackoffCount) ++
    line (str "backoff continuations") (toDecimal info.backoffContinueCount) ++
    line (str "total sleep time between suspends") (toDecimal info.sleepTimeMillis ++ str " ms")

/-- What `dump` prints for `--suspend_controls`. -/
def suspendControlsSection (info : SuspendInfo) : StdString :=
  str "Suspend Info:" ++ [newline] ++ cStr (suspendInfoText info) ++ [newline]

/-- The statistics up to what the format cuts off. -/
def SuspendStats.shown (stats : SuspendStats) : SuspendStats :=
  { stats with lastFailedDev := cStr stats.lastFailedDev, lastFailedStep := cStr stats.lastFailedStep }

/-! ### Its lines -/

def reportLabels : List StdString :=
  [[], str "----- Suspend Stats -----", label (str "success"), label (str "fail"), label (str "failed_freeze"),
    label (str "failed_prepare"), label (str "failed_suspend"), label (str "failed_suspend_late"),
    label (str "failed_suspend_noirq"), label (str "failed_resume"), label (str "failed_resume_early"),
    label (str "failed_resume_noirq"), [], str "Last Failures:", label (str "    last_failed_dev"),
    label (str "    last_failed_errno"), label (str "    last_failed_step"), str "----------", [], [],
    str "Suspend Info:", label (str "suspend attempts"), label (str "failed suspends"), label (str "short suspends"),
    label (str "total suspend time"), label (str "short suspend time"), label (str "suspend overhead"),
    label (str "failed suspend overhead"), label (str "new backoffs"), label (str "backoff continuations"),
    label (str "total sleep time between suspends"), []]

def reportValues (stats : SuspendStats) (info : SuspendInfo) : List StdString :=
  [[], [], toDecimal stats.success, toDecimal stats.fail, toDecimal stats.failedFreeze, toDecimal stats.failedPrepare,
    toDecimal stats.failedSuspend, toDecimal stats.failedSuspendLate, toDecimal stats.failedSuspendNoirq,
    toDecimal stats.failedResume, toDecimal stats.failedResumeEarly, toDecimal stats.failedResumeNoirq, [], [],
    stats.lastFailedDev, toDecimal stats.lastFailedErrno, stats.lastFailedStep, [], [], [],
    [], toDecimal info.suspendAttemptCount, toDecimal info.failedSuspendCount, toDecimal info.shortSuspendCount,
    toDecimal info.suspendTimeMillis ++ str " ms", toDecimal info.shortSuspendTimeMillis ++ str " ms",
    toDecimal info.suspendOverheadTimeMillis ++ str " ms", toDecimal info.failedSuspendOverheadTimeMillis ++ str " ms",
    toDecimal info.newBackoffCount, toDecimal info.backoffContinueCount, toDecimal info.sleepTimeMillis ++ str " ms", []]

theorem report_lines (stats : SuspendStats) (info : SuspendInfo) :
    [newline] ++ suspendStatsText stats ++ [newline] ++
        (str "Suspend Info:" ++ [newline] ++ suspendInfoText info ++ [newline]) =
      unlines newline (List.zipWith (· ++ ·) reportLabels (reportValues stats.shown info)) := by
  unfold suspendStatsText suspendInfoText line reportLabels reportValues SuspendStats.shown unlines
  generalize str = text
  simp only [List.zipWith_cons_cons, List.zipWith_nil_left, List.flatMap_cons, List.flatMap_nil, List.append_assoc,
    List.nil_append, List.append_nil, List.cons_append]

theorem printable_toDecimal (v : Int) : Printable (toDecimal v) :=
  ⟨fun h => (plain_toDecimal v newline h).2.1 rfl, fun h => (plain_toDecimal v 0 h).2.2 rfl⟩

theorem Printable.append {s s' : StdString} (h : Printable s) (h' : Printable s') : Printable (s ++ s') :=
  ⟨fun hmem => (List.mem_append.mp hmem).elim h.1 h'.1, fun hmem => (List.mem_append.mp hmem).elim h.2 h'.2⟩

theorem printable_cStr {s : StdString} (h : newline ∉ s) : Printable (cStr s) := by
  refine ⟨fun hmem => h ((List.takeWhile_sublist _).subset hmem), fun hmem => ?_⟩
  have hne := List.mem_takeWhile_imp hmem
  simp at hne

/-- The texts of the kernel are one line each. -/
structure OneLine (stats : SuspendStats) : Prop where
  dev : newline ∉ stats.lastFailedDev
  step : newline ∉ stats.lastFailedStep

theorem printable_values {stats : SuspendStats} (h : OneLine stats) (info : SuspendInfo) :
    ∀ value ∈ reportValues stats.shown info, Printable value := by
  have hnil : Printable [] := ⟨List.not_mem_nil, List.not_mem_nil⟩
  have hms : ∀ v : Int, Printable (toDecimal v ++ str " ms") := fun v => (printable_toDecimal v).append (by decide)
  simp only [reportValues, SuspendStats.shown, List.forall_mem_cons, hnil, hms, printable_toDecimal, printable_cStr h.dev,
    printable_cStr h.step, List.not_mem_nil, false_implies, implies_true, and_self]

theorem printable_labels : ∀ l ∈ reportLabels, Printable l := by
  decide +kernel

theorem report_eq {stats : SuspendStats} (h : OneLine stats) (info : SuspendInfo) :
    kernelSuspendsSection stats ++ suspendControlsSection info =
      unlines newline (List.zipWith (· ++ ·) reportLabels (reportValues stats.shown info)) := by
  have hnul : (0 : UInt8) ∉ unlines newline (List.zipWith (· ++ ·) reportLabels (reportValues stats.shown info)) := by
    intro hmem
    rcases mem_unlines_labelled hmem with hline | ⟨l, hl, hzero⟩ | ⟨value, hvalue, hzero⟩
    · exact absurd hline (by decide)
    · exact (printable_labels l hl).2 hzero
    · exact (printable_values h info value hvalue).2 hzero
  have hlines := report_lines stats info
  rw [← hlines] at hnul
  rw [← hlines, kernelSuspendsSection, suspendControlsSection, cStr_of_notMem fun hmem => hnul (by simp [hmem]),
    cStr_of_notMem fun hmem => hnul (by simp [hmem])]

theorem values_inj {stats stats' : SuspendStats} {info info' : SuspendInfo}
    (h : reportValues stats info = reportValues stats' info') : stats = stats' ∧ info = info' := by
  have hms : ∀ {v v' : Int}, toDecimal v ++ str " ms" = toDecimal v' ++ str " ms" → v = v' := fun h =>
    toDecimal_injective (List.append_cancel_right h)
  simp only [reportValues, List.cons.injEq, and_true, true_and, toDecimal_injective.eq_iff] at h
  obtain ⟨h₁, h₂, h₃, h₄, h₅, h₆, h₇, h₈, h₉, h₁₀, hdev, herrno, hstep, i₁, i₂, i₃, i₄, i₅, i₆, i₇, i₈, i₉, i₁₀⟩ := h
  obtain ⟨success, fail, failedFreeze, failedPrepare, failedSuspend, failedSuspendLate, failedSuspendNoirq, failedResume,
    failedResumeEarly, failedResumeNoirq, lastFailedDev, lastFailedErrno, lastFailedStep⟩ := stats
  obtain ⟨suspendAttemptCount, failedSuspendCount, shortSuspendCount, suspendTimeMillis, shortSuspendTimeMillis,
    suspendOverheadTimeMillis, failedSuspendOverheadTimeMillis, newBackoffCount, backoffContinueCount, sleepTimeMillis⟩ := info
  rw [SuspendStats.mk.injEq, SuspendInfo.mk.injEq]
  exact ⟨⟨h₁, h₂, h₃, h₄, h₅, h₆, h₇, h₈, h₉, h₁₀, hdev, herrno, hstep⟩, i₁, i₂, i₃, hms i₄, hms i₅, hms i₆, hms i₇, i₈, i₉,
    hms i₁₀⟩

/-! ### What `getSuspendStats` returns -/

theorem newline_notMem_withoutNewlines (text : StdString) : newline ∉ withoutNewlines text := by
  simp [withoutNewlines]

namespace SuspendStats

theorem readStat_oneLine {stats stats' : SuspendStats} {de : Sigma fun _ : StdString => File} (h : OneLine stats)
    (hread : readStat stats de = .ok stats') : OneLine stats' := by
  unfold readStat at hread
  split at hread
  · rw [← Except.ok.inj hread]
    exact h
  · split at hread
    · cases hread
    · cases hread
    · rename_i text hcontent
      dsimp only at hread
      split at hread
      · rw [← Except.ok.inj hread]
        exact ⟨newline_notMem_withoutNewlines text, h.step⟩
      · split at hread
        · rw [← Except.ok.inj hread]
          exact ⟨h.dev, newline_notMem_withoutNewlines text⟩
        · split at hread
          · cases hread
          · rename_i statVal hvalue
            obtain ⟨hdev, hstep⟩ := texts_setStat de.1 statVal stats
            rw [← Except.ok.inj hread]
            exact ⟨by rw [hdev]; exact h.dev, by rw [hstep]; exact h.step⟩

theorem foldlM_oneLine {entries : List (Sigma fun _ : StdString => File)} {stats stats' : SuspendStats} (h : OneLine stats)
    (hread : entries.foldlM readStat stats = .ok stats') : OneLine stats' := by
  induction entries generalizing stats with
  | nil =>
    rw [← Except.ok.inj hread]
    exact h
  | cons de entries ih =>
    rw [List.foldlM_cons] at hread
    cases hstep : readStat stats de with
    | error failure =>
      rw [hstep] at hread
      cases hread
    | ok next =>
      rw [hstep] at hread
      exact ih (readStat_oneLine h hstep) hread

theorem getSuspendStats_oneLine {dp : Option (Directory File)} {stats : SuspendStats}
    (h : getSuspendStats dp = .ok stats) : OneLine stats := by
  have hempty : OneLine {} := ⟨List.not_mem_nil, List.not_mem_nil⟩
  cases dp with
  | none =>
    rw [← Except.ok.inj h]
    exact hempty
  | some dp => exact foldlM_oneLine hempty h

end SuspendStats

/-- The two sections tell apart what was read of the kernel, up to the first NUL of its texts, and what was counted. -/
theorem report_eq_iff {dp dp' : Option (Directory File)} {stats stats' : SuspendStats}
    (h : SuspendStats.getSuspendStats dp = .ok stats) (h' : SuspendStats.getSuspendStats dp' = .ok stats')
    (info info' : SuspendInfo) :
    kernelSuspendsSection stats ++ suspendControlsSection info =
        kernelSuspendsSection stats' ++ suspendControlsSection info' ↔
      stats.shown = stats'.shown ∧ info = info' := by
  have hone := SuspendStats.getSuspendStats_oneLine h
  have hone' := SuspendStats.getSuspendStats_oneLine h'
  rw [report_eq hone, report_eq hone']
  constructor
  · intro heq
    have hlength : ∀ (stats : SuspendStats) (info : SuspendInfo), (reportValues stats info).length = reportLabels.length :=
      fun _ _ => rfl
    exact values_inj (unlines_labelled_inj (hlength _ _) (hlength _ _)
      (fun value hvalue => (printable_values hone info value hvalue).1)
      (fun value hvalue => (printable_values hone' info' value hvalue).1) heq)
  · rintro ⟨hshown, rfl⟩
    rw [hshown]

/-- A device whose name goes on after a NUL. -/
def nulStats (last : UInt8) : Directory File :=
  (AList.singleton (str "success") (.content (str "3\n"))).insert (str "last_failed_dev")
    (.content (str "usb" ++ [0, last, newline]))

theorem report_eq_nul : ∃ stats stats', SuspendStats.getSuspendStats (some (nulStats 49)) = .ok stats ∧
    SuspendStats.getSuspendStats (some (nulStats 50)) = .ok stats' ∧ stats ≠ stats' ∧
    kernelSuspendsSection stats ++ suspendControlsSection {} = kernelSuspendsSection stats' ++ suspendControlsSection {} := by
  have h : SuspendStats.getSuspendStats (some (nulStats 49)) =
      .ok { success := 3, lastFailedDev := str "usb" ++ [0, 49] } := rfl
  have h' : SuspendStats.getSuspendStats (some (nulStats 50)) =
      .ok { success := 3, lastFailedDev := str "usb" ++ [0, 50] } := rfl
  exact ⟨_, _, h, h', by decide, (report_eq_iff h h' {} {}).mpr (by decide)⟩

end HardwareInterfaces.Suspend
