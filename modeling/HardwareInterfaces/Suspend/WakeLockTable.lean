import HardwareInterfaces.Lib.Ostream
import HardwareInterfaces.Suspend.WakeLockEntryList

/-!
# The wake lock table of `dump`

`operator<<` prints a `WakeLockEntryList` as a table with one row for each entry. `Row` is what a row is there to show:
the name up to the padding of its column, and the columns that apply to the kind of the lock. Rows show this and nothing
else (`row_eq_iff`), and so does the whole section that `dump` prints, where no name has a newline or a NUL
(`wakelocksSection_eq_iff`). No column is cut off, and a name may hold separators. A newline in it is another matter:
one lock can print as any two (`row_forged`).
-/

namespace HardwareInterfaces.Suspend

open CppStd

/-! ### The text -/

def sep : StdString := str " | "

def notApplicable : StdString := str "---"

def ms (time : Int) : StdString := toDecimal time ++ str "ms"

def row (entry : WakeLockInfo) : StdString :=
  let kernelWakelock := entry.isKernelWakelock
  sep ++ setwLeft 30 entry.name ++ sep ++
    setwRight 6 (if kernelWakelock then notApplicable else toDecimal entry.pid) ++ sep ++
    setwLeft 6 (if kernelWakelock then str "Kernel" else str "Native") ++ sep ++
    setwLeft 8 (if entry.isActive then str "Active" else str "Inactive") ++ sep ++
    setwRight 12 (toDecimal entry.activeCount) ++ sep ++
    setwRight 12 (ms entry.totalTime) ++ sep ++
    setwRight 12 (ms entry.maxTime) ++ sep ++
    setwRight 12 (if kernelWakelock then toDecimal entry.eventCount else notApplicable) ++ sep ++
    setwRight 12 (if kernelWakelock then toDecimal entry.wakeupCount else notApplicable) ++ sep ++
    setwRight 12 (if kernelWakelock then toDecimal entry.expireCount else notApplicable) ++ sep ++
    setwRight 20 (if kernelWakelock then ms entry.preventSuspendTime else notApplicable) ++ sep ++
    setwRight 16 (ms entry.lastChange) ++ sep

def width : Nat := 194

/-- The fill character is a dash, and what is filled up to the width is the newline. -/
def div : StdString := str "  " ++ [newline].leftpad width 45

def header : StdString :=
  sep ++ setwRight ((width - 14) / 2 + 14) (str "WAKELOCK STATS") ++ setwRight ((width - 14) / 2) sep ++ [newline]

def colNames : StdString :=
  sep ++ setwLeft 30 (str "NAME") ++ sep ++ setwLeft 6 (str "PID") ++ sep ++ setwLeft 6 (str "TYPE") ++ sep ++
    setwLeft 8 (str "STATUS") ++ sep ++ setwLeft 12 (str "ACTIVE COUNT") ++ sep ++ setwLeft 12 (str "TOTAL TIME") ++
    sep ++ setwLeft 12 (str "MAX TIME") ++ sep ++ setwLeft 12 (str "EVENT COUNT") ++ sep ++
    setwLeft 12 (str "WAKEUP COUNT") ++ sep ++ setwLeft 12 (str "EXPIRE COUNT") ++ sep ++
    setwLeft 20 (str "PREVENT SUSPEND TIME") ++ sep ++ setwLeft 16 (str "LAST CHANGE") ++ sep ++ [newline]

/-- `operator<<` of a `WakeLockEntryList`, `wlStats` being what `getWakeLockStats` returns. -/
def wakeLockTable (wlStats : List WakeLockInfo) : StdString :=
  div ++ header ++ div ++ colNames ++ div ++ (wlStats.flatMap fun entry => row entry ++ [newline]) ++ div

def wakelocksSection (wlStats : List WakeLockInfo) : StdString :=
  [newline] ++ cStr (wakeLockTable wlStats) ++ [newline]

/-! ### What it shows -/

/-- The statistics that the kernel alone keeps. -/
structure KernelColumns where
  eventCount : Int
  wakeupCount : Int
  expireCount : Int
  preventSuspendTime : Int
  deriving DecidableEq

structure Row where
  /-- Filled up with blanks. -/
  name : StdString
  /-- The pid of a native wake lock, or the statistics of one of the kernel. -/
  owner : Int ⊕ KernelColumns
  isActive : Bool
  activeCount : Int
  totalTime : Int
  maxTime : Int
  lastChange : Int
  deriving DecidableEq

namespace WakeLockInfo

def kernelColumns (entry : WakeLockInfo) : KernelColumns where
  eventCount := entry.eventCount
  wakeupCount := entry.wakeupCount
  expireCount := entry.expireCount
  preventSuspendTime := entry.preventSuspendTime

def shown (entry : WakeLockInfo) : Row where
  name := setwLeft 30 entry.name
  owner := if entry.isKernelWakelock then .inr entry.kernelColumns else .inl entry.pid
  isActive := entry.isActive
  activeCount := entry.activeCount
  totalTime := entry.totalTime
  maxTime := entry.maxTime
  lastChange := entry.lastChange

end WakeLockInfo

def Row.cells (r : Row) : List StdString :=
  [setwRight 6 (r.owner.elim toDecimal fun _ => notApplicable),
    setwLeft 6 (r.owner.elim (fun _ => str "Native") fun _ => str "Kernel"),
    setwLeft 8 (if r.isActive then str "Active" else str "Inactive"),
    setwRight 12 (toDecimal r.activeCount),
    setwRight 12 (ms r.totalTime),
    setwRight 12 (ms r.maxTime),
    setwRight 12 (r.owner.elim (fun _ => notApplicable) fun k => toDecimal k.eventCount),
    setwRight 12 (r.owner.elim (fun _ => notApplicable) fun k => toDecimal k.wakeupCount),
    setwRight 12 (r.owner.elim (fun _ => notApplicable) fun k => toDecimal k.expireCount),
    setwRight 20 (r.owner.elim (fun _ => notApplicable) fun k => ms k.preventSuspendTime),
    setwRight 16 (ms r.lastChange)]

def Row.printed (r : Row) : StdString := sep ++ columns sep r.name (r.cells ++ [[]])

theorem row_eq_printed (entry : WakeLockInfo) : row entry = entry.shown.printed := by
  unfold row Row.printed Row.cells
  rw [append_columns]
  generalize sep = sep
  simp only [List.cons_append, List.nil_append, columns_cons, columns_nil, List.append_nil]
  cases hkind : entry.isKernelWakelock
  · simp only [WakeLockInfo.shown, hkind]
    rfl
  · simp only [WakeLockInfo.shown, hkind]
    rfl

/-! ### The columns -/

/-- None of the bytes that separate columns or lines or end a text. -/
def Plain (s : StdString) : Prop := ∀ c ∈ s, c ≠ 124 ∧ c ≠ newline ∧ c ≠ 0

instance (s : StdString) : Decidable (Plain s) := List.decidableBAll _ s

theorem Plain.append {s s' : StdString} (h : Plain s) (h' : Plain s') : Plain (s ++ s') := by
  intro c hc
  exact (List.mem_append.mp hc).elim (h c) (h' c)

theorem Plain.setwRight {s : StdString} (h : Plain s) (w : Nat) : Plain (setwRight w s) := by
  intro c hc
  rcases mem_setwRight hc with rfl | hc
  · decide
  · exact h c hc

theorem Plain.setwLeft {s : StdString} (h : Plain s) (w : Nat) : Plain (setwLeft w s) := by
  intro c hc
  rcases mem_setwLeft hc with rfl | hc
  · decide
  · exact h c hc

theorem plain_toDecimal (v : Int) : Plain (toDecimal v) := by
  intro c hc
  rcases mem_toDecimal hc with rfl | hdigit
  · decide
  · refine ⟨?_, ?_, ?_⟩ <;>
    · rintro rfl
      exact absurd hdigit (by decide)

theorem plain_ms (time : Int) : Plain (ms time) := by
  refine (plain_toDecimal time).append ?_
  decide

theorem plain_notApplicable : Plain notApplicable := by decide

theorem plain_cells (r : Row) : ∀ cell ∈ r.cells, Plain cell := by
  have hnative : Plain (str "Native") := by decide
  have hkernel : Plain (str "Kernel") := by decide
  have hkind : Plain (r.owner.elim (fun _ => str "Native") fun _ => str "Kernel") := by
    cases r.owner with
    | inl pid => exact hnative
    | inr k => exact hkernel
  have hactive : Plain (if r.isActive then str "Active" else str "Inactive") := by
    cases r.isActive <;> decide
  have hpid : Plain (r.owner.elim toDecimal fun _ => notApplicable) := by
    cases r.owner with
    | inl pid => exact plain_toDecimal pid
    | inr k => exact plain_notApplicable
  have hstats : ∀ {column : KernelColumns → StdString}, (∀ k, Plain (column k)) →
      Plain (r.owner.elim (fun _ => notApplicable) column) := by
    intro column hcolumn
    cases r.owner with
    | inl pid => exact plain_notApplicable
    | inr k => exact hcolumn k
  simp only [Row.cells, List.forall_mem_cons]
  exact ⟨hpid.setwRight 6, hkind.setwLeft 6, hactive.setwLeft 8, (plain_toDecimal _).setwRight 12,
    (plain_ms _).setwRight 12, (plain_ms _).setwRight 12, (hstats fun _ => plain_toDecimal _).setwRight 12,
    (hstats fun _ => plain_toDecimal _).setwRight 12, (hstats fun _ => plain_toDecimal _).setwRight 12,
    (hstats fun _ => plain_ms _).setwRight 20, (plain_ms _).setwRight 16, fun _ h => absurd h List.not_mem_nil⟩

theorem head_toDecimal (v : Int) (s : StdString) : (toDecimal v ++ s).head? ≠ some 32 := by
  intro h
  cases hv : toDecimal v with
  | nil =>
    have hread := strtol_toDecimal v
    rw [hv] at hread
    cases hread
  | cons c rest =>
    rw [hv] at h
    obtain rfl : c = 32 := Option.some.inj h
    rcases mem_toDecimal (hv ▸ List.mem_cons_self) with hc | hc <;> exact absurd hc (by decide)

theorem setwRight_toDecimal_inj {w : Nat} {v v' : Int} (h : setwRight w (toDecimal v) = setwRight w (toDecimal v')) :
    v = v' := by
  have hhead : ∀ v, (toDecimal v).head? ≠ some 32 := by
    intro v
    rw [← List.append_nil (toDecimal v)]
    exact head_toDecimal v []
  exact toDecimal_injective (setwRight_inj (hhead v) (hhead v') h)

theorem setwRight_ms_inj {w : Nat} {v v' : Int} (h : setwRight w (ms v) = setwRight w (ms v')) : v = v' :=
  toDecimal_injective (List.append_cancel_right (setwRight_inj (head_toDecimal v _) (head_toDecimal v' _) h))

/-! ### The rows -/

theorem kinds_differ : setwLeft 6 (str "Native") ≠ setwLeft 6 (str "Kernel") := by
  decide

/-- The kind comes first: it says which columns apply. -/
theorem owner_eq_of_cells {r r' : Row} (h : r.cells = r'.cells) : r.owner = r'.owner := by
  simp only [Row.cells, List.cons.injEq, and_true] at h
  obtain ⟨hpid, hkind, -, -, -, -, hevent, hwakeup, hexpire, hprevent, -⟩ := h
  cases howner : r.owner with
  | inl pid =>
    cases howner' : r'.owner with
    | inl pid' =>
      rw [howner, howner'] at hpid
      rw [setwRight_toDecimal_inj hpid]
    | inr k' =>
      rw [howner, howner'] at hkind
      exact absurd hkind kinds_differ
  | inr k =>
    cases howner' : r'.owner with
    | inl pid' =>
      rw [howner, howner'] at hkind
      exact absurd hkind.symm kinds_differ
    | inr k' =>
      rw [howner, howner'] at hevent hwakeup hexpire hprevent
      congr 1
      obtain ⟨eventCount, wakeupCount, expireCount, preventSuspendTime⟩ := k
      rw [KernelColumns.mk.injEq]
      exact ⟨setwRight_toDecimal_inj hevent, setwRight_toDecimal_inj hwakeup, setwRight_toDecimal_inj hexpire,
        setwRight_ms_inj hprevent⟩

theorem active_of_text {b b' : Bool} (h : setwLeft 8 (if b then str "Active" else str "Inactive") =
    setwLeft 8 (if b' then str "Active" else str "Inactive")) : b = b' := by
  revert b b'
  decide

theorem printed_injective : Function.Injective Row.printed := by
  intro r r' h
  have hbar : ∀ r : Row, ∀ column ∈ r.cells ++ [[]], (124 : UInt8) ∉ column := by
    intro r column hcolumn hmem
    rcases List.mem_append.mp hcolumn with hcell | hlast
    · exact (plain_cells r column hcell 124 hmem).1 rfl
    · rw [List.mem_singleton.mp hlast] at hmem
      cases hmem
  have hsep : sep = [32] ++ 124 :: [32] := by decide
  have hcolumns := List.append_cancel_left h
  rw [hsep] at hcolumns
  obtain ⟨hname, hrest⟩ := columns_inj (by decide) (by simp [Row.cells]) (hbar r) (hbar r') hcolumns
  have hcells := List.append_cancel_right hrest
  have howner := owner_eq_of_cells hcells
  simp only [Row.cells, List.cons.injEq, and_true] at hcells
  obtain ⟨-, -, hactive, hcount, htotal, hmax, -, -, -, -, hchange⟩ := hcells
  obtain ⟨name, owner, isActive, activeCount, totalTime, maxTime, lastChange⟩ := r
  rw [Row.mk.injEq]
  exact ⟨hname, howner, active_of_text hactive, setwRight_toDecimal_inj hcount, setwRight_ms_inj htotal,
    setwRight_ms_inj hmax, setwRight_ms_inj hchange⟩

theorem row_eq_iff {entry entry' : WakeLockInfo} : row entry = row entry' ↔ entry.shown = entry'.shown := by
  rw [row_eq_printed, row_eq_printed, printed_injective.eq_iff]

/-- A newline in its name lets one lock print as any two. -/
theorem row_forged (entry entry' : WakeLockInfo) :
    ∃ name, row { entry' with name } = row entry ++ newline :: row entry' := by
  let name := setwLeft 30 entry.name ++ entry.shown.cells.flatMap (sep ++ ·) ++ sep ++ newline :: sep ++
    setwLeft 30 entry'.name
  have hlength : 30 ≤ name.length := by
    simp only [name, setwLeft, List.rightpad, List.length_append, List.length_replicate]
    omega
  have hname : setwLeft 30 name = name := by
    rw [setwLeft, List.rightpad, Nat.sub_eq_zero_of_le hlength, List.replicate_zero, List.append_nil]
  have hshown : ({ entry' with name } : WakeLockInfo).shown = { entry'.shown with name } := by
    rw [WakeLockInfo.shown, hname]
    rfl
  refine ⟨name, ?_⟩
  rw [row_eq_printed, row_eq_printed, row_eq_printed, hshown]
  simp [Row.printed, columns, name, Row.cells, WakeLockInfo.shown]

/-! ### The section -/

/-- A name that does not get into the way of the rows. -/
def Printable (name : StdString) : Prop := newline ∉ name ∧ (0 : UInt8) ∉ name

instance (name : StdString) : Decidable (Printable name) := inferInstanceAs (Decidable (_ ∧ _))

theorem mem_row {entry : WakeLockInfo} {c : UInt8} (hc : c = newline ∨ c = 0) (h : c ∈ row entry) :
    c ∈ entry.name := by
  have hsep : c ∉ sep := by
    rcases hc with rfl | rfl <;> decide
  have hblank : c ≠ 32 := by
    rcases hc with rfl | rfl <;> decide
  rw [row_eq_printed, Row.printed, columns] at h
  rcases List.mem_append.mp ((List.mem_append.mp h).resolve_left hsep) with hname | hcells
  · exact (mem_setwLeft hname).resolve_left hblank
  · obtain ⟨cell, hcell, hmem⟩ := List.mem_flatMap.mp hcells
    have hin := (List.mem_append.mp hmem).resolve_left hsep
    rcases List.mem_append.mp hcell with hcell | hlast
    · have hplain := plain_cells _ cell hcell c hin
      rcases hc with rfl | rfl
      · exact absurd rfl hplain.2.1
      · exact absurd rfl hplain.2.2
    · rw [List.mem_singleton.mp hlast] at hin
      cases hin

theorem nul_notMem_table {wlStats : List WakeLockInfo} (h : ∀ entry ∈ wlStats, Printable entry.name) :
    (0 : UInt8) ∉ wakeLockTable wlStats := by
  have hfixed : (0 : UInt8) ∉ div ++ header ++ div ++ colNames ++ div := by
    decide +kernel
  have hdiv : (0 : UInt8) ∉ div := by
    decide +kernel
  intro hmem
  rcases List.mem_append.mp hmem with hmem | hmem
  · obtain ⟨entry, hentry, hrow⟩ := List.mem_flatMap.mp ((List.mem_append.mp hmem).resolve_left hfixed)
    rcases List.mem_append.mp hrow with hrow | hline
    · exact (h entry hentry).2 (mem_row (Or.inr rfl) hrow)
    · exact absurd (List.mem_singleton.mp hline) (by decide)
  · exact hdiv hmem

/-- The table tells apart exactly what its rows show, in their order. -/
theorem wakelocksSection_eq_iff {wlStats wlStats' : List WakeLockInfo}
    (h : ∀ entry ∈ wlStats, Printable entry.name) (h' : ∀ entry ∈ wlStats', Printable entry.name) :
    wakelocksSection wlStats = wakelocksSection wlStats' ↔
      wlStats.map WakeLockInfo.shown = wlStats'.map WakeLockInfo.shown := by
  have hrows : ∀ {wlStats : List WakeLockInfo}, (∀ entry ∈ wlStats, Printable entry.name) →
      ∀ line ∈ wlStats.map row, newline ∉ line := by
    intro wlStats hprintable line hline hmem
    obtain ⟨entry, hentry, rfl⟩ := List.mem_map.mp hline
    exact (hprintable entry hentry).1 (mem_row (Or.inl rfl) hmem)
  have htext : ∀ wlStats : List WakeLockInfo,
      (wlStats.flatMap fun entry => row entry ++ [newline]) = unlines newline (wlStats.map row) := by
    intro wlStats
    rw [unlines, List.flatMap_map]
  have hprinted : ∀ wlStats : List WakeLockInfo,
      wlStats.map row = (wlStats.map WakeLockInfo.shown).map Row.printed := by
    intro wlStats
    rw [List.map_map]
    exact List.map_congr_left fun entry _ => row_eq_printed entry
  constructor
  · intro heq
    rw [wakelocksSection, wakelocksSection, cStr_of_notMem (nul_notMem_table h),
      cStr_of_notMem (nul_notMem_table h')] at heq
    have htable := List.append_cancel_left (List.append_cancel_right heq)
    have hlines := List.append_cancel_left (List.append_cancel_right htable)
    rw [htext, htext] at hlines
    have hsame := unlines_inj (hrows h) (hrows h') hlines
    rw [hprinted, hprinted] at hsame
    exact printed_injective.list_map hsame
  · intro hshown
    rw [wakelocksSection, wakelocksSection, wakeLockTable, wakeLockTable, htext, htext, hprinted, hprinted, hshown]

/-- A blank at the end of a name is lost in its column. -/
theorem wakelocksSection_blank :
    wakelocksSection [WakeLockEntryList.createNativeEntry (str "wifi", 1000) 5] =
      wakelocksSection [WakeLockEntryList.createNativeEntry (str "wifi ", 1000) 5] :=
  (wakelocksSection_eq_iff (by decide) (by decide)).mpr (by decide)

end HardwareInterfaces.Suspend
