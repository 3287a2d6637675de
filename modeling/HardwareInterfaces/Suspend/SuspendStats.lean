import HardwareInterfaces.Lib.Directory
import Mathlib.Tactic.SplitIfs

/-!
# Suspend statistics of the kernel

`getSuspendStats` reads every file of the suspend_stats directory. The two text files are taken as they are; the content
of every other file goes through `std::stoi` before its name is looked at, and nothing catches what that throws. So one
file that no field needs can end the call with an exception (`total_iff` says exactly which directories do
not), and a number followed by something else counts as that number.
-/

namespace HardwareInterfaces.Suspend

open CppStd

structure SuspendStats where
  success : Int := 0
  fail : Int := 0
  failedFreeze : Int := 0
  failedPrepare : Int := 0
  failedSuspend : Int := 0
  failedSuspendLate : Int := 0
  failedSuspendNoirq : Int := 0
  failedResume : Int := 0
  failedResumeEarly : Int := 0
  failedResumeNoirq : Int := 0
  lastFailedDev : StdString := []
  lastFailedErrno : Int := 0
  lastFailedStep : StdString := []
  deriving DecidableEq

namespace SuspendStats

inductive Failure
  | error (message : StdString)
  | exception
  deriving DecidableEq

def setStat (statName : StdString) (statVal : Int) (stats : SuspendStats) : SuspendStats :=
  if statName = str "success" then { stats with success := statVal }
  else if statName = str "fail" then { stats with fail := statVal }
  else if statName = str "failed_freeze" then { stats with failedFreeze := statVal }
  else if statName = str "failed_prepare" then { stats with failedPrepare := statVal }
  else if statName = str "failed_suspend" then { stats with failedSuspend := statVal }
  else if statName = str "failed_suspend_late" then { stats with failedSuspendLate := statVal }
  else if statName = str "failed_suspend_noirq" then { stats with failedSuspendNoirq := statVal }
  else if statName = str "failed_resume" then { stats with failedResume := statVal }
  else if statName = str "failed_resume_early" then { stats with failedResumeEarly := statVal }
  else if statName = str "failed_resume_noirq" then { stats with failedResumeNoirq := statVal }
  else if statName = str "last_failed_errno" then { stats with lastFailedErrno := statVal }
  else stats

def readStat (stats : SuspendStats) (de : Sigma fun _ : StdString => File) : Except Failure SuspendStats :=
  if de.1 = str "." || de.1 = str ".." then .ok stats
  else match de.2 with
    | .failsOpen => .error (.error (str "Failed to open " ++ de.1))
    | .failsRead => .error (.error (str "Failed to read " ++ de.1))
    | .content text =>
      let valStr := withoutNewlines text
      if de.1 = str "last_failed_dev" then .ok { stats with lastFailedDev := valStr }
      else if de.1 = str "last_failed_step" then .ok { stats with lastFailedStep := valStr }
      else match stoi valStr with
        | none => .error .exception
        | some statVal => .ok (setStat de.1 statVal stats)

/-- `dp` is `none` if the directory cannot be opened for listing. -/
def getSuspendStats (dp : Option (Directory File)) : Except Failure SuspendStats :=
  match dp with
  | none => .ok {}
  | some dp => dp.entries.foldlM readStat {}

/-! ### The numbers and their files -/

inductive Stat
  | success
  | fail
  | failedFreeze
  | failedPrepare
  | failedSuspend
  | failedSuspendLate
  | failedSuspendNoirq
  | failedResume
  | failedResumeEarly
  | failedResumeNoirq
  | lastFailedErrno
  deriving DecidableEq

namespace Stat

def file : Stat → StdString
  | success => str "success"
  | fail => str "fail"
  | failedFreeze => str "failed_freeze"
  | failedPrepare => str "failed_prepare"
  | failedSuspend => str "failed_suspend"
  | failedSuspendLate => str "failed_suspend_late"
  | failedSuspendNoirq => str "failed_suspend_noirq"
  | failedResume => str "failed_resume"
  | failedResumeEarly => str "failed_resume_early"
  | failedResumeNoirq => str "failed_resume_noirq"
  | lastFailedErrno => str "last_failed_errno"

def get : Stat → SuspendStats → Int
  | success => SuspendStats.success
  | fail => SuspendStats.fail
  | failedFreeze => SuspendStats.failedFreeze
  | failedPrepare => SuspendStats.failedPrepare
  | failedSuspend => SuspendStats.failedSuspend
  | failedSuspendLate => SuspendStats.failedSuspendLate
  | failedSuspendNoirq => SuspendStats.failedSuspendNoirq
  | failedResume => SuspendStats.failedResume
  | failedResumeEarly => SuspendStats.failedResumeEarly
  | failedResumeNoirq => SuspendStats.failedResumeNoirq
  | lastFailedErrno => SuspendStats.lastFailedErrno

def set (stat : Stat) (statVal : Int) (stats : SuspendStats) : SuspendStats :=
  match stat with
  | success => { stats with success := statVal }
  | fail => { stats with fail := statVal }
  | failedFreeze => { stats with failedFreeze := statVal }
  | failedPrepare => { stats with failedPrepare := statVal }
  | failedSuspend => { stats with failedSuspend := statVal }
  | failedSuspendLate => { stats with failedSuspendLate := statVal }
  | failedSuspendNoirq => { stats with failedSuspendNoirq := statVal }
  | failedResume => { stats with failedResume := statVal }
  | failedResumeEarly => { stats with failedResumeEarly := statVal }
  | failedResumeNoirq => { stats with failedResumeNoirq := statVal }
  | lastFailedErrno => { stats with lastFailedErrno := statVal }

theorem file_injective : Function.Injective file := by
  intro stat stat' h
  revert h
  cases stat <;> cases stat' <;> decide

theorem get_set (stat stat' : Stat) (statVal : Int) (stats : SuspendStats) :
    stat'.get (stat.set statVal stats) = if stat = stat' then statVal else stat'.get stats := by
  cases stat <;> cases stat' <;> rfl

end Stat

/-- The files that are not converted: the two entries every directory has, and the two texts. -/
def Unconverted (statName : StdString) : Prop :=
  statName = str "." ∨ statName = str ".." ∨ statName = str "last_failed_dev" ∨ statName = str "last_failed_step"

theorem Stat.converted (stat : Stat) : ¬ Unconverted stat.file := by
  unfold Unconverted
  cases stat <;> decide

theorem setStat_file (stat : Stat) (statVal : Int) (stats : SuspendStats) :
    setStat stat.file statVal stats = stat.set statVal stats := by
  cases stat <;> rfl

theorem setStat_other (statName : StdString) (statVal : Int) (stats : SuspendStats)
    (h : ∀ stat : Stat, statName ≠ stat.file) : setStat statName statVal stats = stats := by
  rw [setStat, if_neg (show statName ≠ str "success" from h .success),
    if_neg (show statName ≠ str "fail" from h .fail),
    if_neg (show statName ≠ str "failed_freeze" from h .failedFreeze),
    if_neg (show statName ≠ str "failed_prepare" from h .failedPrepare),
    if_neg (show statName ≠ str "failed_suspend" from h .failedSuspend),
    if_neg (show statName ≠ str "failed_suspend_late" from h .failedSuspendLate),
    if_neg (show statName ≠ str "failed_suspend_noirq" from h .failedSuspendNoirq),
    if_neg (show statName ≠ str "failed_resume" from h .failedResume),
    if_neg (show statName ≠ str "failed_resume_early" from h .failedResumeEarly),
    if_neg (show statName ≠ str "failed_resume_noirq" from h .failedResumeNoirq),
    if_neg (show statName ≠ str "last_failed_errno" from h .lastFailedErrno)]

theorem get_setStat (statName : StdString) (statVal : Int) (stats : SuspendStats) (stat : Stat) :
    stat.get (setStat statName statVal stats) = if statName = stat.file then statVal else stat.get stats :=
  get_assign Stat.file_injective Stat.get_set setStat_file setStat_other statName statVal stats stat

theorem texts_setStat (statName : StdString) (statVal : Int) (stats : SuspendStats) :
    (setStat statName statVal stats).lastFailedDev = stats.lastFailedDev ∧
      (setStat statName statVal stats).lastFailedStep = stats.lastFailedStep := by
  by_cases h : ∃ stat : Stat, statName = stat.file
  · obtain ⟨stat, rfl⟩ := h
    rw [setStat_file]
    cases stat <;> exact ⟨rfl, rfl⟩
  · rw [setStat_other statName statVal stats fun stat he => h ⟨stat, he⟩]
    exact ⟨rfl, rfl⟩

/-! ### One turn of the loop -/

section readStat

variable {stats : SuspendStats} {de : Sigma fun _ : StdString => File}

/-- A turn throws at a file whose text does not start with an `int`. -/
theorem readStat_exception :
    readStat stats de = .error .exception ↔
      ¬ Unconverted de.1 ∧ ∃ text, de.2 = .content text ∧ stoi (withoutNewlines text) = none := by
  obtain ⟨statName, file⟩ := de
  unfold readStat Unconverted
  by_cases hdots : statName = str "." ∨ statName = str ".."
  · simp only [Bool.or_eq_true, decide_eq_true_eq, hdots, if_true]
    rcases hdots with h | h <;> simp [h]
  · rw [if_neg (by simpa using hdots)]
    rw [not_or] at hdots
    cases file with
    | failsOpen => simp
    | failsRead => simp
    | content text =>
      dsimp only
      by_cases hdev : statName = str "last_failed_dev"
      · simp [hdev]
      · by_cases hstep : statName = str "last_failed_step"
        · rw [if_neg hdev, if_pos hstep]
          simp [hstep]
        · rw [if_neg hdev, if_neg hstep]
          cases hval : stoi (withoutNewlines text) with
          | none => simp [hdots, hdev, hstep, hval]
          | some statVal => simp [hval]

/-- A turn returns an error at a file that cannot be opened or read. -/
theorem readStat_error {message : StdString} (h : readStat stats de = .error (.error message)) :
    de.1 ≠ str "." ∧ de.1 ≠ str ".." ∧ de.2.text = none := by
  obtain ⟨statName, file⟩ := de
  unfold readStat at h
  split at h
  · cases h
  · rename_i hdots
    simp only [Bool.or_eq_true, decide_eq_true_eq, not_or] at hdots
    cases file with
    | failsOpen => exact ⟨hdots.1, hdots.2, rfl⟩
    | failsRead => exact ⟨hdots.1, hdots.2, rfl⟩
    | content text =>
      dsimp only at h
      split at h
      · cases h
      · split at h
        · cases h
        · split at h
          · cases h
          · cases h

def assigned (stats : SuspendStats) (de : Sigma fun _ : StdString => File) : SuspendStats :=
  match readStat stats de with
  | .ok stats' => stats'
  | .error _ => stats

theorem readStat_eq_ok (hread : de.1 = str "." ∨ de.1 = str ".." ∨ ∃ text, de.2 = .content text)
    (hstoi : ¬ Unconverted de.1 → ∀ text, de.2 = .content text → (stoi (withoutNewlines text)).isSome) :
    readStat stats de = .ok (assigned stats de) := by
  unfold assigned
  cases h : readStat stats de with
  | ok stats' => rfl
  | error e =>
    cases e with
    | error message =>
      obtain ⟨hdot, hdots, htext⟩ := readStat_error h
      rcases hread with hread | hread | ⟨text, hread⟩
      · exact absurd hread hdot
      · exact absurd hread hdots
      · rw [hread] at htext
        cases htext
    | exception =>
      obtain ⟨hname, text, hfile, hnone⟩ := readStat_exception.mp h
      have hsome := hstoi hname text hfile
      rw [hnone] at hsome
      cases hsome

theorem assigned_converted {statName text : StdString} (h : ¬ Unconverted statName) :
    assigned stats ⟨statName, .content text⟩ =
      match stoi (withoutNewlines text) with
      | none => stats
      | some statVal => setStat statName statVal stats := by
  simp only [Unconverted, not_or] at h
  obtain ⟨hdot, hdots, hdev, hstep⟩ := h
  unfold assigned readStat
  rw [if_neg (by simp [hdot, hdots])]
  dsimp only
  rw [if_neg hdev, if_neg hstep]
  cases stoi (withoutNewlines text) <;> rfl

theorem assigned_unread {statName : StdString} {file : File} (h : file.text = none) :
    assigned stats ⟨statName, file⟩ = stats := by
  unfold assigned readStat
  split
  · rename_i stats' hread
    split at hread
    · exact (Except.ok.inj hread).symm
    · cases file with
      | failsOpen => cases hread
      | failsRead => cases hread
      | content text => cases h
  · rfl

theorem assigned_dots {statName : StdString} (h : statName = str "." ∨ statName = str "..") (file : File) :
    assigned stats ⟨statName, file⟩ = stats := by
  unfold assigned readStat
  rw [if_pos (by simpa using h)]

theorem assigned_dev (text : StdString) :
    assigned stats ⟨str "last_failed_dev", .content text⟩ = { stats with lastFailedDev := withoutNewlines text } := rfl

theorem assigned_step (text : StdString) :
    assigned stats ⟨str "last_failed_step", .content text⟩ = { stats with lastFailedStep := withoutNewlines text } := rfl

theorem get_assigned (stats : SuspendStats) (de : Sigma fun _ : StdString => File) (stat : Stat) :
    stat.get (assigned stats de) =
      if de.1 = stat.file then (de.2.text.bind fun text => stoi (withoutNewlines text)).getD (stat.get stats)
      else stat.get stats := by
  obtain ⟨statName, file⟩ := de
  cases htext : file.text with
  | none =>
    rw [assigned_unread htext]
    simp
  | some text =>
    obtain rfl := File.eq_content htext
    by_cases hname : Unconverted statName
    · have hfile : statName ≠ stat.file := fun he => stat.converted (by rwa [he] at hname)
      rw [if_neg hfile]
      rcases hname with h | h | rfl | rfl
      · rw [assigned_dots (Or.inl h)]
      · rw [assigned_dots (Or.inr h)]
      · rw [assigned_dev]
        cases stat <;> rfl
      · rw [assigned_step]
        cases stat <;> rfl
    · rw [assigned_converted hname, Option.bind_some]
      cases stoi (withoutNewlines text) with
      | none => simp
      | some statVal => exact get_setStat statName statVal stats stat

theorem texts_assigned (stats : SuspendStats) (de : Sigma fun _ : StdString => File) :
    (assigned stats de).lastFailedDev =
        (if de.1 = str "last_failed_dev" then (de.2.text.map withoutNewlines).getD stats.lastFailedDev
        else stats.lastFailedDev) ∧
      (assigned stats de).lastFailedStep =
        (if de.1 = str "last_failed_step" then (de.2.text.map withoutNewlines).getD stats.lastFailedStep
        else stats.lastFailedStep) := by
  obtain ⟨statName, file⟩ := de
  cases htext : file.text with
  | none =>
    rw [assigned_unread htext]
    simp
  | some text =>
    obtain rfl := File.eq_content htext
    by_cases hname : Unconverted statName
    · rcases hname with rfl | rfl | rfl | rfl
      · exact ⟨rfl, rfl⟩
      · exact ⟨rfl, rfl⟩
      · exact ⟨rfl, rfl⟩
      · exact ⟨rfl, rfl⟩
    · have hset := texts_setStat statName
      rw [assigned_converted hname]
      simp only [Unconverted, not_or] at hname
      rw [if_neg hname.2.2.1, if_neg hname.2.2.2]
      cases stoi (withoutNewlines text) with
      | none => exact ⟨rfl, rfl⟩
      | some statVal => exact hset statVal stats

end readStat

/-! ### The whole directory -/

section directory

variable {dp : Directory File}

def Readable (dp : Directory File) : Prop :=
  ∀ statName file, dp.lookup statName = some file → statName ≠ str "." → statName ≠ str ".." →
    ∃ text, file = .content text

/-- The statistics of a directory: each number from its own file if that holds an `int`, each text from its own file. -/
structure Reads (dp : Directory File) (stats : SuspendStats) : Prop where
  numbers : ∀ stat : Stat, stat.get stats =
    ((Directory.text dp stat.file).bind fun text => intValue (withoutNewlines text)).getD 0
  lastFailedDev : stats.lastFailedDev = ((Directory.text dp (str "last_failed_dev")).map withoutNewlines).getD []
  lastFailedStep : stats.lastFailedStep = ((Directory.text dp (str "last_failed_step")).map withoutNewlines).getD []

/-- However the files are listed, `getSuspendStats` returns, with an error only if there is a file that cannot be read,
and otherwise with the statistics of the directory. -/
structure Total (dp : Directory File) : Prop where
  returns : ∀ dp' : Directory File, dp'.SameFiles dp → getSuspendStats (some dp') ≠ .error .exception
  errors : ∀ (dp' : Directory File) (message : StdString), dp'.SameFiles dp →
    getSuspendStats (some dp') = .error (.error message) → ¬ Readable dp
  stats : Readable dp → ∃ stats, Reads dp stats ∧
    ∀ dp' : Directory File, dp'.SameFiles dp → getSuspendStats (some dp') = .ok stats

/-- Every file but the two texts starts with an `int`, whatever its name; and if all can be read, none of the eleven
known numbers is followed by something else, unless it is 0. -/
structure Convertible (dp : Directory File) : Prop where
  starts : ∀ statName text, dp.lookup statName = some (.content text) → ¬ Unconverted statName →
    (stoi (withoutNewlines text)).isSome
  ends : Readable dp → ∀ (stat : Stat) (text : StdString), dp.lookup stat.file = some (.content text) →
    intValue (withoutNewlines text) = none → stoi (withoutNewlines text) = some 0

theorem getSuspendStats_eq_ok (hread : Readable dp) (hstarts : ∀ statName text,
    dp.lookup statName = some (.content text) → ¬ Unconverted statName → (stoi (withoutNewlines text)).isSome) :
    getSuspendStats (some dp) = .ok (dp.entries.foldl assigned {}) := by
  refine foldlM_eq_ok (fun de hde stats => ?_) _
  obtain ⟨statName, file⟩ := de
  have hlookup : dp.lookup statName = some file := AList.mem_lookup_iff.mpr hde
  refine readStat_eq_ok ?_ fun hname text hfile => hstarts statName text ?_ hname
  · by_cases hdot : statName = str "."
    · exact Or.inl hdot
    · by_cases hdots : statName = str ".."
      · exact Or.inr (Or.inl hdots)
      · exact Or.inr (Or.inr (hread statName file hlookup hdot hdots))
  · rw [hlookup]
    exact congrArg some hfile

/-- What the loop makes of a directory: `stoi` where the statistics should have the value of the whole text. -/
theorem foldl_assigned (dp : Directory File) :
    (∀ stat : Stat, stat.get (dp.entries.foldl assigned {}) =
      ((Directory.text dp stat.file).bind fun text => stoi (withoutNewlines text)).getD 0) ∧
    (dp.entries.foldl assigned {}).lastFailedDev =
      ((Directory.text dp (str "last_failed_dev")).map withoutNewlines).getD [] ∧
    (dp.entries.foldl assigned {}).lastFailedStep =
      ((Directory.text dp (str "last_failed_step")).map withoutNewlines).getD [] := by
  refine ⟨fun stat => ?_, ?_, ?_⟩
  · have hzero : stat.get {} = 0 := by cases stat <;> rfl
    have hget := get_foldl stat.get stat.file (fun file => file.text.bind fun text => stoi (withoutNewlines text))
      (fun stats de => get_assigned stats de stat) dp {}
    rwa [hzero, ← Option.bind_assoc] at hget
  · have hdev := get_foldl SuspendStats.lastFailedDev (str "last_failed_dev")
      (fun file => file.text.map withoutNewlines) (fun stats de => (texts_assigned stats de).1) dp {}
    rw [Directory.text, Option.map_bind]
    exact hdev
  · have hstep := get_foldl SuspendStats.lastFailedStep (str "last_failed_step")
      (fun file => file.text.map withoutNewlines) (fun stats de => (texts_assigned stats de).2) dp {}
    rw [Directory.text, Option.map_bind]
    exact hstep

theorem eq_of_fields {stats stats' : SuspendStats} (hnumbers : ∀ stat : Stat, stat.get stats = stat.get stats')
    (hdev : stats.lastFailedDev = stats'.lastFailedDev) (hstep : stats.lastFailedStep = stats'.lastFailedStep) :
    stats = stats' := by
  have h₁ : stats.success = stats'.success := hnumbers .success
  have h₂ : stats.fail = stats'.fail := hnumbers .fail
  have h₃ : stats.failedFreeze = stats'.failedFreeze := hnumbers .failedFreeze
  have h₄ : stats.failedPrepare = stats'.failedPrepare := hnumbers .failedPrepare
  have h₅ : stats.failedSuspend = stats'.failedSuspend := hnumbers .failedSuspend
  have h₆ : stats.failedSuspendLate = stats'.failedSuspendLate := hnumbers .failedSuspendLate
  have h₇ : stats.failedSuspendNoirq = stats'.failedSuspendNoirq := hnumbers .failedSuspendNoirq
  have h₈ : stats.failedResume = stats'.failedResume := hnumbers .failedResume
  have h₉ : stats.failedResumeEarly = stats'.failedResumeEarly := hnumbers .failedResumeEarly
  have h₁₀ : stats.failedResumeNoirq = stats'.failedResumeNoirq := hnumbers .failedResumeNoirq
  have h₁₁ : stats.lastFailedErrno = stats'.lastFailedErrno := hnumbers .lastFailedErrno
  cases stats
  cases stats'
  simp_all

theorem foldl_assigned_congr {dp' : Directory File} (hsame : dp'.SameFiles dp) :
    dp'.entries.foldl assigned {} = dp.entries.foldl assigned {} := by
  obtain ⟨hnumbers, hdev, hstep⟩ := foldl_assigned dp
  obtain ⟨hnumbers', hdev', hstep'⟩ := foldl_assigned dp'
  refine eq_of_fields (fun stat => ?_) ?_ ?_
  · rw [hnumbers, hnumbers', hsame.text]
  · rw [hdev, hdev', hsame.text]
  · rw [hstep, hstep', hsame.text]

theorem Readable.congr {dp' : Directory File} (hsame : dp'.SameFiles dp) (h : Readable dp) : Readable dp' :=
  fun statName file hlookup => h statName file (by rwa [hsame.lookup] at hlookup)

theorem Convertible.value (h : Convertible dp) (hread : Readable dp) (stat : Stat) :
    ((Directory.text dp stat.file).bind fun text => stoi (withoutNewlines text)).getD 0 =
      ((Directory.text dp stat.file).bind fun text => intValue (withoutNewlines text)).getD 0 := by
  cases htext : Directory.text dp stat.file with
  | none => rfl
  | some text =>
    obtain ⟨file, hlookup, hfile⟩ := Option.bind_eq_some_iff.mp htext
    obtain rfl := File.eq_content hfile
    rw [Option.bind_some, Option.bind_some]
    cases hvalue : intValue (withoutNewlines text) with
    | none => rw [h.ends hread stat text hlookup hvalue, Option.getD_some, Option.getD_none]
    | some v => rw [stoi_of_intValue hvalue]

theorem Convertible.total (h : Convertible dp) : Total dp := by
  have hstarts : ∀ dp' : Directory File, dp'.SameFiles dp → ∀ statName text,
      dp'.lookup statName = some (.content text) → ¬ Unconverted statName → (stoi (withoutNewlines text)).isSome := by
    intro dp' hsame statName text hlookup
    exact h.starts statName text (by rwa [hsame.lookup] at hlookup)
  refine ⟨fun dp' hsame hexc => ?_, fun dp' message hsame herr hread => ?_, fun hread => ?_⟩
  · obtain ⟨⟨statName, file⟩, hde, stats, hstat⟩ := foldlM_error hexc
    obtain ⟨hname, text, hfile, hnone⟩ := readStat_exception.mp hstat
    have hlookup : dp'.lookup statName = some file := AList.mem_lookup_iff.mpr hde
    have hsome := hstarts dp' hsame statName text (hlookup.trans (congrArg some hfile)) hname
    rw [hnone] at hsome
    cases hsome
  · obtain ⟨⟨statName, file⟩, hde, stats, hstat⟩ := foldlM_error herr
    obtain ⟨hdot, hdots, htext⟩ := readStat_error hstat
    have hlookup : dp'.lookup statName = some file := AList.mem_lookup_iff.mpr hde
    obtain ⟨text, rfl⟩ := hread statName file ((hsame.lookup statName).symm.trans hlookup) hdot hdots
    cases htext
  · obtain ⟨hnumbers, hdev, hstep⟩ := foldl_assigned dp
    refine ⟨dp.entries.foldl assigned {}, ⟨fun stat => ?_, hdev, hstep⟩, fun dp' hsame => ?_⟩
    · rw [hnumbers, h.value hread]
    · rw [getSuspendStats_eq_ok (hread.congr hsame) (hstarts dp' hsame), foldl_assigned_congr hsame]

theorem Total.starts (h : Total dp) {statName text : StdString} (hlookup : dp.lookup statName = some (.content text))
    (hname : ¬ Unconverted statName) : (stoi (withoutNewlines text)).isSome := by
  by_contra hnone
  rw [Option.not_isSome_iff_eq_none] at hnone
  obtain ⟨dp', rest, hsame, hfirst⟩ := Directory.exists_first hlookup
  refine h.returns dp' hsame ?_
  have hexc : readStat {} ⟨statName, .content text⟩ = .error .exception :=
    readStat_exception.mpr ⟨hname, text, rfl, hnone⟩
  show dp'.entries.foldlM readStat {} = .error .exception
  rw [hfirst, List.foldlM_cons, hexc]
  rfl

theorem Total.convertible (h : Total dp) : Convertible dp := by
  refine ⟨fun statName text hlookup hname => h.starts hlookup hname, fun hread stat text hlookup hvalue => ?_⟩
  obtain ⟨v, hv⟩ := Option.isSome_iff_exists.mp (h.starts hlookup stat.converted)
  obtain ⟨stats, hreads, hstats⟩ := h.stats hread
  have hok := hstats dp (List.Perm.refl _)
  rw [getSuspendStats_eq_ok hread fun statName text hlookup hname => h.starts hlookup hname] at hok
  obtain rfl := Except.ok.inj hok
  have htext : Directory.text dp stat.file = some text := by rw [Directory.text, hlookup]; rfl
  have hnumber := hreads.numbers stat
  rw [(foldl_assigned dp).1, htext, Option.bind_some, Option.bind_some, hv, hvalue] at hnumber
  rw [hv]
  exact congrArg some hnumber

/-- For which directories `getSuspendStats` is total and independent of the listing order. -/
theorem total_iff (dp : Directory File) : Total dp ↔ Convertible dp :=
  ⟨Total.convertible, Convertible.total⟩

def hwSleepStats : Directory File :=
  (AList.singleton (str "success") (.content (str "3\n"))).insert (str "total_hw_sleep") (.content (str "4294967296\n"))

/-- One file that belongs to no field ends the call with an exception; a field keeps a number that is only the start of
its file. -/
theorem not_total_hwSleepStats :
    (getSuspendStats (some hwSleepStats) = .error .exception ∧ ¬ Total hwSleepStats) ∧
    (getSuspendStats (some (AList.singleton (str "fail") (.content (str "7x\n")))) = .ok { fail := 7 } ∧
      ¬ Total (AList.singleton (str "fail") (.content (str "7x\n")))) := by
  have hthrows : getSuspendStats (some hwSleepStats) = .error .exception := rfl
  refine ⟨⟨hthrows, fun h => h.returns _ (List.Perm.refl _) hthrows⟩, rfl, fun h => ?_⟩
  have hread : Readable (AList.singleton (str "fail") (.content (str "7x\n"))) := by
    intro statName file hlookup hdot hdots
    have hmem := AList.mem_lookup_iff.mp hlookup
    rw [AList.singleton_entries, List.mem_singleton] at hmem
    cases hmem
    exact ⟨_, rfl⟩
  have hends := h.convertible.ends hread .fail (str "7x\n") (by decide) (by decide)
  exact absurd hends (by decide)

end directory

end SuspendStats

end HardwareInterfaces.Suspend
