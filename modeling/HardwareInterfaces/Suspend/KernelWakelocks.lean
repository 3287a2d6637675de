import HardwareInterfaces.Lib.Directory
import HardwareInterfaces.Suspend.WakeLockEntryList

/-!
# Kernel wake lock statistics

Below the wakeup class directory every entry is a directory with one file per statistic. `createKernelEntry` goes
through such a directory once, skips what it cannot read or parse, and derives `isActive` at the end;
`getWakeLockStats` appends one such entry per directory to the native ones. Every field comes from its own file
(`get_createKernelEntry`), whatever else is listed and in whatever order.

`parseInt` stands for `android::base::ParseInt` at `int64_t`.
-/

namespace HardwareInterfaces.Suspend

open CppStd

variable (parseInt : StdString → Option Int)

def isStatFile (statName : StdString) : Bool :=
  !(statName = str "." || statName = str ".." || statName = str "device" || statName = str "power" ||
    statName = str "subsystem" || statName = str "uevent")

/-- The assignments at the end of a turn of the loop. -/
def setKernelStat (statName : StdString) (statVal : Int) (info : WakeLockInfo) : WakeLockInfo :=
  if statName = str "active_count" then { info with activeCount := statVal }
  else if statName = str "active_time_ms" then { info with activeTime := statVal }
  else if statName = str "event_count" then { info with eventCount := statVal }
  else if statName = str "expire_count" then { info with expireCount := statVal }
  else if statName = str "last_change_ms" then { info with lastChange := statVal }
  else if statName = str "max_time_ms" then { info with maxTime := statVal }
  else if statName = str "prevent_suspend_time_ms" then { info with preventSuspendTime := statVal }
  else if statName = str "total_time_ms" then { info with totalTime := statVal }
  else if statName = str "wakeup_count" then { info with wakeupCount := statVal }
  else info

/-- One turn of the loop over the files of a wake lock. -/
def readKernelStat (info : WakeLockInfo) (de : Sigma fun _ : StdString => File) : WakeLockInfo :=
  if !isStatFile de.1 then info
  else match de.2.text with
    | none => info
    | some text =>
      let valStr := withoutNewlines text
      if de.1 = str "name" then { info with name := valStr }
      else match parseInt valStr with
        | none => info
        | some statVal => setKernelStat de.1 statVal info

/-- The entry of a wake lock before any of its files is read. -/
def noKernelStats : WakeLockInfo where
  name := []
  activeCount := 0
  lastChange := 0
  maxTime := 0
  totalTime := 0
  isActive := false
  activeTime := 0
  isKernelWakelock := true
  pid := -1
  eventCount := 0
  expireCount := 0
  preventSuspendTime := 0
  wakeupCount := 0

/-- `wakelockDp` is `none` if the directory cannot be opened. -/
def createKernelEntry (wakelockDp : Option (Directory File)) : WakeLockInfo :=
  let info := match wakelockDp with
    | none => noKernelStats
    | some dir => dir.entries.foldl (readKernelStat parseInt) noKernelStats
  { info with isActive := decide (info.activeTime > 0) }

def isDots (kwlId : StdString) : Bool := kwlId = str "." || kwlId = str ".."

def getKernelWakelockStats (dp : Option (Directory (Option (Directory File)))) : List WakeLockInfo :=
  match dp with
  | none => []
  | some dp => dp.entries.foldl (fun aidl_return de =>
      if isDots de.1 then aidl_return else aidl_return ++ [createKernelEntry parseInt de.2]) []

/-- The native entries, copied under the lock, and then the kernel entries. -/
def getWakeLockStats (l : WakeLockEntryList) (dp : Option (Directory (Option (Directory File)))) :
    List WakeLockInfo :=
  l.nativeStats ++ getKernelWakelockStats parseInt dp

/-! ### The statistics and their files -/

inductive KernelStat
  | activeCount
  | activeTime
  | eventCount
  | expireCount
  | lastChange
  | maxTime
  | preventSuspendTime
  | totalTime
  | wakeupCount
  deriving DecidableEq

namespace KernelStat

def file : KernelStat → StdString
  | activeCount => str "active_count"
  | activeTime => str "active_time_ms"
  | eventCount => str "event_count"
  | expireCount => str "expire_count"
  | lastChange => str "last_change_ms"
  | maxTime => str "max_time_ms"
  | preventSuspendTime => str "prevent_suspend_time_ms"
  | totalTime => str "total_time_ms"
  | wakeupCount => str "wakeup_count"

def get : KernelStat → WakeLockInfo → Int
  | activeCount => WakeLockInfo.activeCount
  | activeTime => WakeLockInfo.activeTime
  | eventCount => WakeLockInfo.eventCount
  | expireCount => WakeLockInfo.expireCount
  | lastChange => WakeLockInfo.lastChange
  | maxTime => WakeLockInfo.maxTime
  | preventSuspendTime => WakeLockInfo.preventSuspendTime
  | totalTime => WakeLockInfo.totalTime
  | wakeupCount => WakeLockInfo.wakeupCount

def set (stat : KernelStat) (statVal : Int) (info : WakeLockInfo) : WakeLockInfo :=
  match stat with
  | activeCount => { info with activeCount := statVal }
  | activeTime => { info with activeTime := statVal }
  | eventCount => { info with eventCount := statVal }
  | expireCount => { info with expireCount := statVal }
  | lastChange => { info with lastChange := statVal }
  | maxTime => { info with maxTime := statVal }
  | preventSuspendTime => { info with preventSuspendTime := statVal }
  | totalTime => { info with totalTime := statVal }
  | wakeupCount => { info with wakeupCount := statVal }

theorem isStatFile_file (stat : KernelStat) : isStatFile stat.file = true := by
  cases stat <;> decide

theorem file_ne_name (stat : KernelStat) : stat.file ≠ str "name" := by
  cases stat <;> decide

theorem file_injective : Function.Injective file := by
  intro stat stat' h
  revert h
  cases stat <;> cases stat' <;> decide

theorem get_set (stat stat' : KernelStat) (statVal : Int) (info : WakeLockInfo) :
    stat'.get (stat.set statVal info) = if stat = stat' then statVal else stat'.get info := by
  cases stat <;> cases stat' <;> rfl

end KernelStat

theorem setKernelStat_file (stat : KernelStat) (statVal : Int) (info : WakeLockInfo) :
    setKernelStat stat.file statVal info = stat.set statVal info := by
  cases stat <;> rfl

theorem setKernelStat_other (statName : StdString) (statVal : Int) (info : WakeLockInfo)
    (h : ∀ stat : KernelStat, statName ≠ stat.file) : setKernelStat statName statVal info = info := by
  rw [setKernelStat, if_neg (show statName ≠ str "active_count" from h .activeCount),
    if_neg (show statName ≠ str "active_time_ms" from h .activeTime),
    if_neg (show statName ≠ str "event_count" from h .eventCount),
    if_neg (show statName ≠ str "expire_count" from h .expireCount),
    if_neg (show statName ≠ str "last_change_ms" from h .lastChange),
    if_neg (show statName ≠ str "max_time_ms" from h .maxTime),
    if_neg (show statName ≠ str "prevent_suspend_time_ms" from h .preventSuspendTime),
    if_neg (show statName ≠ str "total_time_ms" from h .totalTime),
    if_neg (show statName ≠ str "wakeup_count" from h .wakeupCount)]

theorem get_setKernelStat (statName : StdString) (statVal : Int) (info : WakeLockInfo) (stat : KernelStat) :
    stat.get (setKernelStat statName statVal info) = if statName = stat.file then statVal else stat.get info :=
  get_assign KernelStat.file_injective KernelStat.get_set setKernelStat_file setKernelStat_other statName statVal info stat

theorem frame_setKernelStat (statName : StdString) (statVal : Int) (info : WakeLockInfo) :
    (setKernelStat statName statVal info).name = info.name ∧
      (setKernelStat statName statVal info).isKernelWakelock = info.isKernelWakelock ∧
      (setKernelStat statName statVal info).pid = info.pid := by
  by_cases h : ∃ stat : KernelStat, statName = stat.file
  · obtain ⟨stat, rfl⟩ := h
    rw [setKernelStat_file]
    cases stat <;> exact ⟨rfl, rfl, rfl⟩
  · rw [setKernelStat_other statName statVal info fun stat he => h ⟨stat, he⟩]
    exact ⟨rfl, rfl, rfl⟩

/-! ### One turn of the loop -/

variable {parseInt}

theorem get_readKernelStat (info : WakeLockInfo) (de : Sigma fun _ : StdString => File) (stat : KernelStat) :
    stat.get (readKernelStat parseInt info de) =
      if de.1 = stat.file then
        (de.2.text.bind fun text => parseInt (withoutNewlines text)).getD (stat.get info)
      else stat.get info := by
  unfold readKernelStat
  by_cases hstat : isStatFile de.1 = true
  · rw [if_neg (by simpa using hstat)]
    cases htext : de.2.text with
    | none => simp
    | some text =>
      dsimp only
      by_cases hname : de.1 = str "name"
      · have hfile : de.1 ≠ stat.file := fun he => stat.file_ne_name (he.symm.trans hname)
        rw [if_pos hname, if_neg hfile]
        cases stat <;> rfl
      · rw [if_neg hname, Option.bind_some]
        cases hparse : parseInt (withoutNewlines text) with
        | none => simp
        | some statVal => rw [get_setKernelStat, Option.getD_some]
  · have hfile : de.1 ≠ stat.file := fun he => hstat (he ▸ stat.isStatFile_file)
    rw [if_pos (by simpa using hstat), if_neg hfile]

theorem name_readKernelStat (info : WakeLockInfo) (de : Sigma fun _ : StdString => File) :
    (readKernelStat parseInt info de).name =
      if de.1 = str "name" then (de.2.text.map withoutNewlines).getD info.name else info.name := by
  unfold readKernelStat
  by_cases hstat : isStatFile de.1 = true
  · rw [if_neg (by simpa using hstat)]
    cases htext : de.2.text with
    | none => simp
    | some text =>
      dsimp only
      by_cases hname : de.1 = str "name"
      · rw [if_pos hname, if_pos hname]
        rfl
      · rw [if_neg hname, if_neg hname]
        cases hparse : parseInt (withoutNewlines text) with
        | none => rfl
        | some statVal => exact (frame_setKernelStat de.1 statVal info).1
  · have hname : de.1 ≠ str "name" := fun he => hstat (by rw [he]; decide)
    rw [if_pos (by simpa using hstat), if_neg hname]

theorem frame_readKernelStat (info : WakeLockInfo) (de : Sigma fun _ : StdString => File) :
    (readKernelStat parseInt info de).isKernelWakelock = info.isKernelWakelock ∧
      (readKernelStat parseInt info de).pid = info.pid := by
  unfold readKernelStat
  split
  · exact ⟨rfl, rfl⟩
  · split
    · exact ⟨rfl, rfl⟩
    · dsimp only
      split
      · exact ⟨rfl, rfl⟩
      · split
        · exact ⟨rfl, rfl⟩
        · exact (frame_setKernelStat ..).2

/-! ### One wake lock -/

/-- The text of a file of a wake lock; a directory that cannot be opened has none. -/
def statText (wakelockDp : Option (Directory File)) (statName : StdString) : Option StdString :=
  wakelockDp.bind fun dir => Directory.text dir statName

variable (parseInt) in
def statValue (wakelockDp : Option (Directory File)) (statName : StdString) : Option Int :=
  (statText wakelockDp statName).bind fun text => parseInt (withoutNewlines text)

variable (parseInt) in
/-- The entry before `isActive` is derived. -/
def readKernelStats (wakelockDp : Option (Directory File)) : WakeLockInfo :=
  match wakelockDp with
  | none => noKernelStats
  | some dir => dir.entries.foldl (readKernelStat parseInt) noKernelStats

theorem createKernelEntry_eq (wakelockDp : Option (Directory File)) :
    createKernelEntry parseInt wakelockDp =
      { readKernelStats parseInt wakelockDp with
        isActive := decide ((readKernelStats parseInt wakelockDp).activeTime > 0) } := rfl

/-- Every number comes from its own file. -/
theorem get_createKernelEntry (wakelockDp : Option (Directory File)) (stat : KernelStat) :
    stat.get (createKernelEntry parseInt wakelockDp) = (statValue parseInt wakelockDp stat.file).getD 0 := by
  have hactive : ∀ (info : WakeLockInfo) (isActive : Bool), stat.get { info with isActive } = stat.get info := by
    intro info isActive
    cases stat <;> rfl
  have hzero : stat.get noKernelStats = 0 := by cases stat <;> rfl
  rw [createKernelEntry_eq, hactive]
  cases wakelockDp with
  | none => exact hzero
  | some dir =>
    have hget := get_foldl stat.get stat.file (fun file => file.text.bind fun text => parseInt (withoutNewlines text))
      (fun info de => get_readKernelStat info de stat) dir noKernelStats
    rw [hzero, ← Option.bind_assoc] at hget
    exact hget

theorem name_createKernelEntry (wakelockDp : Option (Directory File)) :
    (createKernelEntry parseInt wakelockDp).name =
      ((statText wakelockDp (str "name")).map withoutNewlines).getD [] := by
  rw [createKernelEntry_eq]
  cases wakelockDp with
  | none => rfl
  | some dir =>
    have hname := get_foldl WakeLockInfo.name (str "name") (fun file => file.text.map withoutNewlines)
      (@name_readKernelStat parseInt) dir noKernelStats
    rw [statText, Option.bind_some, Directory.text, Option.map_bind]
    exact hname

theorem frame_createKernelEntry (wakelockDp : Option (Directory File)) :
    (createKernelEntry parseInt wakelockDp).isKernelWakelock = true ∧
      (createKernelEntry parseInt wakelockDp).pid = -1 := by
  rw [createKernelEntry_eq]
  cases wakelockDp with
  | none => exact ⟨rfl, rfl⟩
  | some dir =>
    exact ⟨get_foldl_const WakeLockInfo.isKernelWakelock (fun info de => (frame_readKernelStat info de).1) _ _,
      get_foldl_const WakeLockInfo.pid (fun info de => (frame_readKernelStat info de).2) _ _⟩

theorem isActive_createKernelEntry (wakelockDp : Option (Directory File)) :
    (createKernelEntry parseInt wakelockDp).isActive = true ↔
      0 < (createKernelEntry parseInt wakelockDp).activeTime := by
  rw [createKernelEntry_eq]
  exact decide_eq_true_iff

theorem eq_of_stats {info info' : WakeLockInfo} (hname : info.name = info'.name) (hpid : info.pid = info'.pid)
    (hkernel : info.isKernelWakelock = info'.isKernelWakelock) (hactive : info.isActive = info'.isActive)
    (hstats : ∀ stat : KernelStat, stat.get info = stat.get info') : info = info' := by
  have h₁ : info.activeCount = info'.activeCount := hstats .activeCount
  have h₂ : info.activeTime = info'.activeTime := hstats .activeTime
  have h₃ : info.eventCount = info'.eventCount := hstats .eventCount
  have h₄ : info.expireCount = info'.expireCount := hstats .expireCount
  have h₅ : info.lastChange = info'.lastChange := hstats .lastChange
  have h₆ : info.maxTime = info'.maxTime := hstats .maxTime
  have h₇ : info.preventSuspendTime = info'.preventSuspendTime := hstats .preventSuspendTime
  have h₈ : info.totalTime = info'.totalTime := hstats .totalTime
  have h₉ : info.wakeupCount = info'.wakeupCount := hstats .wakeupCount
  cases info
  cases info'
  simp_all

section congr

variable {wakelockDp wakelockDp' : Option (Directory File)}

theorem get_createKernelEntry_congr (stat : KernelStat)
    (h : statText wakelockDp stat.file = statText wakelockDp' stat.file) :
    stat.get (createKernelEntry parseInt wakelockDp) = stat.get (createKernelEntry parseInt wakelockDp') := by
  rw [get_createKernelEntry, get_createKernelEntry, statValue, statValue, h]

theorem name_createKernelEntry_congr (h : statText wakelockDp (str "name") = statText wakelockDp' (str "name")) :
    (createKernelEntry parseInt wakelockDp).name = (createKernelEntry parseInt wakelockDp').name := by
  rw [name_createKernelEntry, name_createKernelEntry, h]

theorem isActive_createKernelEntry_congr
    (h : statText wakelockDp (str "active_time_ms") = statText wakelockDp' (str "active_time_ms")) :
    (createKernelEntry parseInt wakelockDp).isActive = (createKernelEntry parseInt wakelockDp').isActive := by
  have htime : (createKernelEntry parseInt wakelockDp).activeTime = (createKernelEntry parseInt wakelockDp').activeTime :=
    get_createKernelEntry_congr .activeTime h
  rw [Bool.eq_iff_iff, isActive_createKernelEntry, isActive_createKernelEntry, htime]

theorem createKernelEntry_congr (hname : statText wakelockDp (str "name") = statText wakelockDp' (str "name"))
    (hstats : ∀ stat : KernelStat, statText wakelockDp stat.file = statText wakelockDp' stat.file) :
    createKernelEntry parseInt wakelockDp = createKernelEntry parseInt wakelockDp' := by
  obtain ⟨hkernel, hpid⟩ := @frame_createKernelEntry parseInt wakelockDp
  obtain ⟨hkernel', hpid'⟩ := @frame_createKernelEntry parseInt wakelockDp'
  exact eq_of_stats (name_createKernelEntry_congr hname) (hpid.trans hpid'.symm) (hkernel.trans hkernel'.symm)
    (isActive_createKernelEntry_congr (hstats .activeTime)) fun stat => get_createKernelEntry_congr stat (hstats stat)

end congr

/-- Listings of the same files of a wake lock, or of a wake lock that cannot be opened. -/
def SameStats (wakelockDp wakelockDp' : Option (Directory File)) : Prop :=
  Option.Rel Directory.SameFiles wakelockDp wakelockDp'

theorem SameStats.statText {wakelockDp wakelockDp' : Option (Directory File)} (h : SameStats wakelockDp wakelockDp')
    (statName : StdString) : statText wakelockDp statName = statText wakelockDp' statName := by
  cases h with
  | none => rfl
  | some hfiles => exact hfiles.text statName

theorem createKernelEntry_sameStats {wakelockDp wakelockDp' : Option (Directory File)}
    (h : SameStats wakelockDp wakelockDp') :
    createKernelEntry parseInt wakelockDp = createKernelEntry parseInt wakelockDp' :=
  createKernelEntry_congr (h.statText _) fun stat => h.statText stat.file

/-! ### All wake locks -/

theorem getKernelWakelockStats_eq (dp : Directory (Option (Directory File))) :
    getKernelWakelockStats parseInt (some dp) =
      (dp.entries.filter fun de => !isDots de.1).map fun de => createKernelEntry parseInt de.2 := by
  have hloop : ∀ (l : List (Sigma fun _ : StdString => Option (Directory File))) (acc : List WakeLockInfo),
      l.foldl (fun aidl_return de =>
        if isDots de.1 then aidl_return else aidl_return ++ [createKernelEntry parseInt de.2]) acc =
      acc ++ (l.filter fun de => !isDots de.1).map fun de => createKernelEntry parseInt de.2 := by
    intro l
    induction l with
    | nil => simp
    | cons de l ih =>
      intro acc
      rw [List.foldl_cons, ih]
      by_cases hdots : isDots de.1 = true
      · simp [hdots]
      · simp [hdots]
  exact hloop dp.entries []

/-- Entry by entry, the name decides whether it counts and the files decide what it says. -/
theorem kernelEntries_congr {l l' : List (Sigma fun _ : StdString => Option (Directory File))}
    (h : List.Forall₂ (fun de de' => de.1 = de'.1 ∧ SameStats de.2 de'.2) l l') :
    ((l.filter fun de => !isDots de.1).map fun de => createKernelEntry parseInt de.2) =
      (l'.filter fun de => !isDots de.1).map fun de => createKernelEntry parseInt de.2 := by
  induction h with
  | nil => rfl
  | @cons de de' rest rest' hde hrest ih =>
    have hentry : createKernelEntry parseInt de.2 = createKernelEntry parseInt de'.2 := createKernelEntry_sameStats hde.2
    rw [List.filter_cons, List.filter_cons, hde.1]
    split
    · rw [List.map_cons, List.map_cons, ih, hentry]
    · exact ih

/-- The statistics of all wake locks: the native entries, then one entry per directory of the class, each with its
fields from the files they are named after, whatever the other files are and in whatever order they are listed. -/
theorem getWakeLockStats_complete (parseInt : StdString → Option Int) (l : WakeLockEntryList)
    (dp : Directory (Option (Directory File))) :
    getWakeLockStats parseInt l (some dp) =
      l.entries ++ (dp.entries.filter fun de => de.1 ≠ str "." ∧ de.1 ≠ str "..").map
        (fun de => createKernelEntry parseInt de.2) ∧
    (∀ wakelockDp : Option (Directory File),
      (createKernelEntry parseInt wakelockDp).isKernelWakelock = true ∧
      (createKernelEntry parseInt wakelockDp).pid = -1 ∧
      (createKernelEntry parseInt wakelockDp).name =
        ((statText wakelockDp (str "name")).map withoutNewlines).getD [] ∧
      (∀ stat : KernelStat, stat.get (createKernelEntry parseInt wakelockDp) =
        ((statText wakelockDp stat.file).bind fun text => parseInt (withoutNewlines text)).getD 0) ∧
      ((createKernelEntry parseInt wakelockDp).isActive = true ↔
        0 < (createKernelEntry parseInt wakelockDp).activeTime)) ∧
    (∀ wakelockDp wakelockDp' : Option (Directory File),
      (∀ statName, statName = str "name" ∨ (∃ stat : KernelStat, statName = stat.file) →
        statText wakelockDp statName = statText wakelockDp' statName) →
      createKernelEntry parseInt wakelockDp = createKernelEntry parseInt wakelockDp') ∧
    (∀ (wakelockDp wakelockDp' : Option (Directory File)) (statName : StdString),
      (∀ other, other ≠ statName → statText wakelockDp other = statText wakelockDp' other) →
      (statName ≠ str "name" →
        (createKernelEntry parseInt wakelockDp).name = (createKernelEntry parseInt wakelockDp').name) ∧
      (∀ stat : KernelStat, statName ≠ stat.file →
        stat.get (createKernelEntry parseInt wakelockDp) = stat.get (createKernelEntry parseInt wakelockDp')) ∧
      (statName ≠ str "active_time_ms" →
        (createKernelEntry parseInt wakelockDp).isActive = (createKernelEntry parseInt wakelockDp').isActive)) ∧
    (∀ dp' : Directory (Option (Directory File)),
      List.Forall₂ (fun de de' => de.1 = de'.1 ∧ SameStats de.2 de'.2) dp.entries dp'.entries →
      getWakeLockStats parseInt l (some dp') = getWakeLockStats parseInt l (some dp)) ∧
    (∀ dp' : Directory (Option (Directory File)), dp'.SameFiles dp →
      ∃ kernel kernel', kernel'.Perm kernel ∧ getWakeLockStats parseInt l (some dp) = l.entries ++ kernel ∧
        getWakeLockStats parseInt l (some dp') = l.entries ++ kernel') := by
  have hall : ∀ dp, getWakeLockStats parseInt l (some dp) =
      l.entries ++ (dp.entries.filter fun de => !isDots de.1).map fun de => createKernelEntry parseInt de.2 := by
    intro dp
    rw [getWakeLockStats, getKernelWakelockStats_eq]
    rfl
  refine ⟨?_, fun wakelockDp => ?_, ?_, ?_, ?_, ?_⟩
  · rw [hall]
    congr 2
    refine List.filter_congr fun de _ => ?_
    simp [isDots]
  · obtain ⟨hkernel, hpid⟩ := @frame_createKernelEntry parseInt wakelockDp
    exact ⟨hkernel, hpid, name_createKernelEntry wakelockDp, get_createKernelEntry wakelockDp,
      isActive_createKernelEntry wakelockDp⟩
  · intro wakelockDp wakelockDp' h
    exact createKernelEntry_congr (h _ (Or.inl rfl)) fun stat => h _ (Or.inr ⟨stat, rfl⟩)
  · intro wakelockDp wakelockDp' statName h
    exact ⟨fun hne => name_createKernelEntry_congr (h _ (Ne.symm hne)),
      fun stat hne => get_createKernelEntry_congr stat (h _ (Ne.symm hne)),
      fun hne => isActive_createKernelEntry_congr (h _ (Ne.symm hne))⟩
  · intro dp' h
    rw [hall, hall]
    rw [kernelEntries_congr h]
  · intro dp' h
    exact ⟨_, _, (h.filter _).map _, hall dp, hall dp'⟩

end HardwareInterfaces.Suspend
