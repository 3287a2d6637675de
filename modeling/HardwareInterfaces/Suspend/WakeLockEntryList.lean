import HardwareInterfaces.Lib.Lru
import HardwareInterfaces.Lib.StdList
import HardwareInterfaces.Lib.StdString

/-!
# Native wake lock statistics

`WakeLockEntryList` keeps one `WakeLockInfo` per pair of a wake lock name and a pid, the most recently touched
one in front, with a table of iterators into the list. Every touch erases the stale node and inserts the
updated entry in front; a full list loses its last entry before a new one is inserted. Times are
milliseconds of the monotonic clock; the operations take the value the clock had.

The proofs go through the plain list of entries (`onAcquire`, `onRelease`, `onNow`): the `_spec` theorems say
that no operation uses an invalid iterator, at any capacity but 0, and that each acts on the entries as
its counterpart does.
-/

namespace HardwareInterfaces.Suspend

open CppStd

/-- A wake lock name and the pid of the process that acquired it. -/
abbrev StatsKey := StdString × Int

structure WakeLockInfo where
  name : StdString
  activeCount : Int
  lastChange : Int
  maxTime : Int
  totalTime : Int
  isActive : Bool
  activeTime : Int
  isKernelWakelock : Bool
  pid : Int
  eventCount : Int
  expireCount : Int
  preventSuspendTime : Int
  wakeupCount : Int
  deriving DecidableEq

namespace WakeLockInfo

def key (entry : WakeLockInfo) : StatsKey := (entry.name, entry.pid)

def acquired (timeNow : Int) (entry : WakeLockInfo) : WakeLockInfo :=
  { entry with
    isActive := true
    activeTime := 0
    activeCount := entry.activeCount + 1
    lastChange := timeNow }

def released (timeNow : Int) (entry : WakeLockInfo) : WakeLockInfo :=
  let timeDelta := timeNow - entry.lastChange
  { entry with
    isActive := false
    maxTime := max entry.maxTime (entry.activeTime + timeDelta)
    activeTime := 0
    totalTime := entry.totalTime + timeDelta
    lastChange := timeNow }

/-- The update `updateNow` makes to an active entry; the others stay as they are. -/
def refreshed (timeNow : Int) (entry : WakeLockInfo) : WakeLockInfo :=
  if entry.isActive then
    let timeDelta := timeNow - entry.lastChange
    { entry with
      activeTime := entry.activeTime + timeDelta
      maxTime := max entry.maxTime (entry.activeTime + timeDelta)
      totalTime := entry.totalTime + timeDelta
      lastChange := timeNow }
  else entry

@[simp] theorem key_acquired (now : Int) (e : WakeLockInfo) : (e.acquired now).key = e.key := rfl

@[simp] theorem key_released (now : Int) (e : WakeLockInfo) : (e.released now).key = e.key := rfl

@[simp] theorem key_refreshed (now : Int) (e : WakeLockInfo) : (e.refreshed now).key = e.key := by
  unfold refreshed
  split <;> rfl

@[simp] theorem isActive_refreshed (now : Int) (e : WakeLockInfo) : (e.refreshed now).isActive = e.isActive := by
  unfold refreshed
  split <;> rfl

end WakeLockInfo

structure WakeLockEntryList where
  mCapacity : Nat
  store : Store StatsKey WakeLockInfo

namespace WakeLockEntryList

def mStats (l : WakeLockEntryList) : StdList WakeLockInfo := l.store.list

def mLookupTable (l : WakeLockEntryList) : AList fun _ : StatsKey => Iter := l.store.table

/-- The entries of `mStats`, most recently touched first. -/
def entries (l : WakeLockEntryList) : List WakeLockInfo := l.store.values

def create (capacity : Nat) : WakeLockEntryList := ⟨capacity, .empty⟩

def insertEntry (entry : WakeLockInfo) (l : WakeLockEntryList) : WakeLockEntryList :=
  { l with store := l.store.insert WakeLockInfo.key entry }

def deleteEntry (entry : Iter) (l : WakeLockEntryList) : Option WakeLockEntryList :=
  (l.store.erase WakeLockInfo.key entry).map fun store => { l with store }

/-- Evicts the last entry of a full list. At capacity 0 the empty list is full, and stepping back from its
end is undefined. -/
def evictIfFull (l : WakeLockEntryList) : Option WakeLockEntryList :=
  if l.mStats.size = l.mCapacity then do
    let evictIt ← l.mStats.prevEnd
    l.deleteEntry evictIt
  else some l

def createNativeEntry (key : StatsKey) (timeNow : Int) : WakeLockInfo where
  name := key.1
  activeCount := 1
  lastChange := timeNow
  maxTime := 0
  totalTime := 0
  isActive := true
  activeTime := 0
  isKernelWakelock := false
  pid := key.2
  eventCount := 0
  expireCount := 0
  preventSuspendTime := 0
  wakeupCount := 0

/-- Replace the entry at `staleEntry` by its update, in front. -/
def touch (update : WakeLockInfo → WakeLockInfo) (staleEntry : Iter) (l : WakeLockEntryList) :
    Option WakeLockEntryList := do
  let entry ← l.mStats.deref staleEntry
  let l ← l.deleteEntry staleEntry
  some (l.insertEntry (update entry))

def updateOnAcquire (key : StatsKey) (timeNow : Int) (l : WakeLockEntryList) : Option WakeLockEntryList :=
  match l.mLookupTable.lookup key with
  | none => do
    let l ← l.evictIfFull
    some (l.insertEntry (createNativeEntry key timeNow))
  | some staleEntry => l.touch (WakeLockInfo.acquired timeNow) staleEntry

def updateOnRelease (key : StatsKey) (timeNow : Int) (l : WakeLockEntryList) : Option WakeLockEntryList :=
  match l.mLookupTable.lookup key with
  | none => some l
  | some staleEntry => l.touch (WakeLockInfo.released timeNow) staleEntry

def updateNow (timeNow : Int) (l : WakeLockEntryList) : WakeLockEntryList :=
  { l with store := l.store.mapValues (WakeLockInfo.refreshed timeNow) }

/-- What `getWakeLockStats` copies under the lock. -/
def nativeStats (l : WakeLockEntryList) : List WakeLockInfo := l.entries

/-! ### The entries as a plain list -/

def keys (es : List WakeLockInfo) : List StatsKey := es.map WakeLockInfo.key

/-- Move the entry of `key` to the front and update it; `absent` if there is none. -/
def touched (update : WakeLockInfo → WakeLockInfo) (absent es : List WakeLockInfo) (key : StatsKey) :
    List WakeLockInfo :=
  match es.find? fun e => e.key = key with
  | none => absent
  | some e => update e :: es.filter fun v => v.key ≠ key

def onAcquire (cap : Nat) (es : List WakeLockInfo) (key : StatsKey) (now : Int) : List WakeLockInfo :=
  touched (WakeLockInfo.acquired now) (createNativeEntry key now :: Lru.makeRoom cap es) es key

def onRelease (es : List WakeLockInfo) (key : StatsKey) (now : Int) : List WakeLockInfo :=
  touched (WakeLockInfo.released now) es es key

def onNow (es : List WakeLockInfo) (now : Int) : List WakeLockInfo := es.map (WakeLockInfo.refreshed now)

/-- The list and its table agree, and the list fits. -/
structure Valid (l : WakeLockEntryList) : Prop where
  agrees : l.store.Agrees WakeLockInfo.key
  size : l.entries.length ≤ l.mCapacity

theorem create_valid (cap : Nat) : (create cap).Valid :=
  ⟨Store.agrees_empty, Nat.zero_le _⟩

theorem Valid.nodup {l : WakeLockEntryList} (h : l.Valid) : (keys l.entries).Nodup := h.agrees.keys

theorem Valid.absent {l : WakeLockEntryList} (h : l.Valid) {key : StatsKey}
    (hlookup : l.store.table.lookup key = none) : key ∉ keys l.entries :=
  (h.agrees.lookup_none key).mp hlookup

theorem find_key {es : List WakeLockInfo} (h : (keys es).Nodup) {e : WakeLockInfo} (he : e ∈ es) :
    (es.find? fun v => v.key = e.key) = some e := by
  cases hfind : es.find? fun v => v.key = e.key with
  | none =>
    have := List.find?_eq_none.mp hfind e he
    simp at this
  | some v =>
    have hkey : v.key = e.key := by simpa using List.find?_some hfind
    rw [List.inj_on_of_nodup_map h (List.mem_of_find?_eq_some hfind) he hkey]

theorem find_key_none {es : List WakeLockInfo} {key : StatsKey} (h : key ∉ keys es) :
    (es.find? fun v => v.key = key) = none := by
  rw [List.find?_eq_none]
  intro e he
  simp only [decide_eq_true_eq]
  exact fun hk => h (List.mem_map.mpr ⟨e, he, hk⟩)

theorem deleteEntry_spec {l : WakeLockEntryList} (h : l.Valid) {it : Iter} {e : WakeLockInfo}
    (he : (it, e) ∈ l.store.list.nodes) :
    ∃ l', l.deleteEntry it = some l' ∧ l'.store.Agrees WakeLockInfo.key ∧ l'.mCapacity = l.mCapacity ∧
      (l'.entries = l.entries.filter fun v => v.key ≠ e.key) ∧ l'.entries.length < l.entries.length := by
  obtain ⟨store, herase, hagrees, hvalues⟩ := h.agrees.erase he
  refine ⟨{ l with store }, ?_, hagrees, rfl, hvalues, ?_⟩
  · rw [deleteEntry, herase, Option.map_some]
  · change store.values.length < _
    rw [hvalues]
    exact List.length_filter_lt_length_iff_exists.mpr ⟨e, Store.mem_values.mpr ⟨it, he⟩, by simp⟩

theorem evictIfFull_spec {l : WakeLockEntryList} (h : l.Valid) (hcap : 0 < l.mCapacity) :
    ∃ l', l.evictIfFull = some l' ∧ l'.store.Agrees WakeLockInfo.key ∧ l'.mCapacity = l.mCapacity ∧
      l'.entries = Lru.makeRoom l.mCapacity l.entries ∧ l'.entries.length < l.mCapacity := by
  have hlen : l.mStats.size = l.entries.length := l.store.size_list
  by_cases hfull : l.entries.length = l.mCapacity
  · have hne : l.store.values ≠ [] := by
      intro he
      rw [entries, he] at hfull
      simp only [List.length_nil] at hfull
      omega
    obtain ⟨it, e, hprev, he, hdrop⟩ := h.agrees.prevEnd hne
    obtain ⟨l', hdelete, hagrees, hcap', hentries, hlt⟩ := deleteEntry_spec h he
    refine ⟨l', ?_, hagrees, hcap', ?_, hfull ▸ hlt⟩
    · rw [evictIfFull, hlen, if_pos hfull, mStats, hprev]
      exact hdelete
    · rw [Lru.makeRoom, if_pos hfull, hentries]
      exact hdrop
  · have := h.size
    refine ⟨l, ?_, h.agrees, rfl, ?_, by omega⟩
    · rw [evictIfFull, hlen, if_neg hfull]
    · rw [Lru.makeRoom, if_neg hfull]

theorem touch_spec {l : WakeLockEntryList} (h : l.Valid) {update : WakeLockInfo → WakeLockInfo}
    (hupdate : ∀ e, (update e).key = e.key) {key : StatsKey} {it : Iter}
    (hlookup : l.store.table.lookup key = some it) (absent : List WakeLockInfo) :
    ∃ l', l.touch update it = some l' ∧ l'.Valid ∧ l'.mCapacity = l.mCapacity ∧
      l'.entries = touched update absent l.entries key := by
  obtain ⟨e, he, hkey, hderef⟩ := h.agrees.lookup_some hlookup
  have hmem : e ∈ l.entries := Store.mem_values.mpr ⟨it, he⟩
  obtain ⟨l', hdelete, hagrees, hcap, hentries, hlt⟩ := deleteEntry_spec h he
  have hnew : (update e).key ∉ l'.store.values.map WakeLockInfo.key := by
    rw [show l'.store.values = _ from hentries, hupdate]
    simp
  have hsize := h.size
  refine ⟨l'.insertEntry (update e), ?_, ⟨hagrees.insert hnew, ?_⟩, hcap, ?_⟩
  · simp only [touch, mStats, hderef, Option.bind_eq_bind, Option.bind_some, hdelete]
  · change (_ :: l'.entries).length ≤ l'.mCapacity
    rw [List.length_cons, hcap]
    omega
  · change update e :: l'.entries = _
    rw [touched, ← hkey, find_key h.nodup hmem, hentries]

theorem updateOnAcquire_spec {l : WakeLockEntryList} (h : l.Valid) (hcap : 0 < l.mCapacity)
    (key : StatsKey) (now : Int) :
    ∃ l', l.updateOnAcquire key now = some l' ∧ l'.Valid ∧ l'.mCapacity = l.mCapacity ∧
      l'.entries = onAcquire l.mCapacity l.entries key now := by
  unfold updateOnAcquire mLookupTable
  cases hlookup : l.store.table.lookup key with
  | none =>
    have hnew := h.absent hlookup
    obtain ⟨l', hevict, hagrees, hcap', hentries, hlt⟩ := evictIfFull_spec h hcap
    have hroom : ∀ e ∈ l'.entries, e ∈ l.entries := by
      intro e he
      rw [hentries, Lru.makeRoom] at he
      split at he
      · exact List.dropLast_subset _ he
      · exact he
    have hkey : key ∉ l'.store.values.map WakeLockInfo.key := by
      intro hmem
      obtain ⟨e, he, hk⟩ := List.mem_map.mp hmem
      exact hnew (List.mem_map.mpr ⟨e, hroom e he, hk⟩)
    refine ⟨l'.insertEntry (createNativeEntry key now), ?_, ⟨hagrees.insert hkey, ?_⟩, hcap', ?_⟩
    · simp only [hevict, Option.bind_eq_bind, Option.bind_some]
    · change (_ :: l'.entries).length ≤ l'.mCapacity
      rw [List.length_cons, hcap']
      omega
    · change _ :: l'.entries = _
      rw [onAcquire, touched, find_key_none hnew, hentries]
  | some it => exact touch_spec h (WakeLockInfo.key_acquired now) hlookup _

/-- At capacity 0 no acquisition can be recorded. -/
theorem capacity_pos {l l' : WakeLockEntryList} (h : l.Valid) {key : StatsKey} {now : Int}
    (hacquire : l.updateOnAcquire key now = some l') : 0 < l.mCapacity := by
  by_contra hcap
  have hzero : l.mCapacity = 0 := by omega
  have hempty : l.entries = [] := by
    have hsize := h.size
    rw [hzero] at hsize
    exact List.eq_nil_of_length_eq_zero (Nat.le_zero.mp hsize)
  have hlookup : l.store.table.lookup key = none := by
    rw [h.agrees.lookup_none, show l.store.values = [] from hempty]
    exact List.not_mem_nil
  have hnodes : l.store.list.nodes = [] := by
    rw [← List.map_eq_nil_iff (f := Prod.snd)]
    exact hempty
  rw [updateOnAcquire, mLookupTable, hlookup] at hacquire
  simp [evictIfFull, hzero, mStats, StdList.size, StdList.prevEnd, hnodes] at hacquire

theorem updateOnRelease_spec {l : WakeLockEntryList} (h : l.Valid) (key : StatsKey) (now : Int) :
    ∃ l', l.updateOnRelease key now = some l' ∧ l'.Valid ∧ l'.mCapacity = l.mCapacity ∧
      l'.entries = onRelease l.entries key now := by
  unfold updateOnRelease mLookupTable
  cases hlookup : l.store.table.lookup key with
  | none =>
    refine ⟨l, rfl, h, rfl, ?_⟩
    rw [onRelease, touched, find_key_none (h.absent hlookup)]
  | some it => exact touch_spec h (WakeLockInfo.key_released now) hlookup _

theorem updateNow_spec {l : WakeLockEntryList} (h : l.Valid) (now : Int) :
    (l.updateNow now).Valid ∧ (l.updateNow now).entries = onNow l.entries now := by
  have hentries : (l.updateNow now).entries = onNow l.entries now := Store.values_mapValues _
  refine ⟨⟨h.agrees.mapValues (WakeLockInfo.key_refreshed now), ?_⟩, hentries⟩
  rw [hentries, onNow, List.length_map]
  exact h.size

end WakeLockEntryList

end HardwareInterfaces.Suspend
