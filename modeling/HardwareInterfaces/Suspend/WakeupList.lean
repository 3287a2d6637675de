import HardwareInterfaces.Lib.Lru
import HardwareInterfaces.Lib.StdList
import HardwareInterfaces.Lib.StdString

/-!
# Wakeup statistics

`WakeupList` counts how often each combination of wakeup reasons ended a suspend, in a list with the most
recent combination in front and a table of iterators into it. The list never holds more than `mCapacity`
entries: a new entry is inserted first and the last one erased afterwards if it no longer fits.

The proofs go through a plain list of entries (`updated`): `update_spec` says that `update` never uses an
invalid iterator and acts on the entries as `updated` does. Everything else is about `updated`.
-/

namespace HardwareInterfaces.Suspend

open CppStd

structure WakeupInfo where
  name : StdString
  count : Int
  deriving DecidableEq

structure WakeupList where
  mCapacity : Nat
  store : Store StdString WakeupInfo

namespace WakeupList

def mWakeups (l : WakeupList) : StdList WakeupInfo := l.store.list

def mLookupTable (l : WakeupList) : AList fun _ : StdString => Iter := l.store.table

def create (capacity : Nat) : WakeupList := ⟨capacity, .empty⟩

def insert (entry : WakeupInfo) (l : WakeupList) : WakeupList :=
  { l with store := l.store.insert WakeupInfo.name entry }

def erase (entry : Iter) (l : WakeupList) : Option WakeupList :=
  (l.store.erase WakeupInfo.name entry).map fun store => { l with store }

def evict (l : WakeupList) : Option WakeupList :=
  if l.mWakeups.size > l.mCapacity then do
    let it ← l.mWakeups.prevEnd
    l.erase it
  else some l

/-- The name under which a vector of reasons is counted. -/
def keyOf (wakeupReasons : List StdString) : StdString := join (str ";") wakeupReasons

def update (wakeupReasons : List StdString) (l : WakeupList) : Option WakeupList :=
  if wakeupReasons = [] then some l
  else
    let key := keyOf wakeupReasons
    match l.mLookupTable.lookup key with
    | none => (l.insert ⟨key, 1⟩).evict
    | some staleEntry => do
      let entry ← l.mWakeups.deref staleEntry
      let l ← l.erase staleEntry
      some (l.insert { entry with count := entry.count + 1 })

def getWakeupStats (l : WakeupList) : List WakeupInfo := l.store.values

/-- The list after a sequence of updates. -/
def run (capacity : Nat) (updates : List (List StdString)) : Option WakeupList :=
  updates.foldlM (fun l reasons => l.update reasons) (create capacity)

/-! ### The entries as a plain list -/

def names (ws : List WakeupInfo) : List StdString := ws.map WakeupInfo.name

/-- Counting `key` once more among the entries `ws`. -/
def updated (cap : Nat) (ws : List WakeupInfo) (key : StdString) : List WakeupInfo :=
  match ws.find? fun w => w.name = key with
  | none => (⟨key, 1⟩ :: ws).take cap
  | some w => { w with count := w.count + 1 } :: ws.filter fun v => v.name ≠ key

/-- The list and its table agree, and the list fits. -/
structure Valid (l : WakeupList) : Prop where
  agrees : l.store.Agrees WakeupInfo.name
  size : l.getWakeupStats.length ≤ l.mCapacity

theorem create_valid (cap : Nat) : (create cap).Valid :=
  ⟨Store.agrees_empty, Nat.zero_le _⟩

theorem find_name {ws : List WakeupInfo} (h : (names ws).Nodup) {w : WakeupInfo} (hw : w ∈ ws) :
    (ws.find? fun v => v.name = w.name) = some w := by
  cases hfind : ws.find? fun v => v.name = w.name with
  | none =>
    have := List.find?_eq_none.mp hfind w hw
    simp at this
  | some v =>
    have hname : v.name = w.name := by simpa using List.find?_some hfind
    rw [List.inj_on_of_nodup_map h (List.mem_of_find?_eq_some hfind) hw hname]

theorem erase_spec {l : WakeupList} (h : l.store.Agrees WakeupInfo.name) {it : Iter} {w : WakeupInfo}
    (hw : (it, w) ∈ l.store.list.nodes) :
    ∃ l', l.erase it = some l' ∧ l'.store.Agrees WakeupInfo.name ∧ l'.mCapacity = l.mCapacity ∧
      l'.getWakeupStats = l.getWakeupStats.filter fun v => v.name ≠ w.name := by
  obtain ⟨store, herase, hagrees, hvalues⟩ := h.erase hw
  refine ⟨{ l with store }, ?_, hagrees, rfl, hvalues⟩
  rw [erase, herase, Option.map_some]

theorem evict_spec {l : WakeupList} (h : l.store.Agrees WakeupInfo.name)
    (hsize : l.getWakeupStats.length ≤ l.mCapacity + 1) :
    ∃ l', l.evict = some l' ∧ l'.Valid ∧ l'.mCapacity = l.mCapacity ∧
      l'.getWakeupStats = l.getWakeupStats.take l.mCapacity := by
  have hlen : l.mWakeups.size = l.getWakeupStats.length := l.store.size_list
  by_cases hfull : l.mWakeups.size > l.mCapacity
  · have hne : l.store.values ≠ [] := by
      intro he
      rw [hlen, getWakeupStats, he] at hfull
      simp at hfull
    obtain ⟨it, w, hprev, hw, hdrop⟩ := h.prevEnd hne
    obtain ⟨l', herase, hagrees, hcap, hvalues⟩ := erase_spec h hw
    have htake : l'.getWakeupStats = l.getWakeupStats.take l.mCapacity := by
      rw [hvalues, getWakeupStats, hdrop, List.dropLast_eq_take]
      congr 1
      rw [hlen, getWakeupStats] at hfull
      rw [getWakeupStats] at hsize
      omega
    refine ⟨l', ?_, ⟨hagrees, ?_⟩, hcap, htake⟩
    · rw [evict, if_pos hfull, mWakeups, hprev]
      exact herase
    · rw [htake, hcap, List.length_take]
      exact Nat.min_le_left _ _
  · rw [hlen] at hfull
    refine ⟨l, ?_, ⟨h, by omega⟩, rfl, ?_⟩
    · rw [evict, hlen, if_neg hfull]
    · rw [List.take_of_length_le (by omega)]

/-- `update` uses valid iterators only, keeps the list and its table in agreement, and counts the key. -/
theorem update_spec {l : WakeupList} (h : l.Valid) {reasons : List StdString} (hne : reasons ≠ []) :
    ∃ l', l.update reasons = some l' ∧ l'.Valid ∧ l'.mCapacity = l.mCapacity ∧
      l'.getWakeupStats = updated l.mCapacity l.getWakeupStats (keyOf reasons) := by
  unfold update
  rw [if_neg hne]
  simp only [mLookupTable]
  cases hlookup : l.store.table.lookup (keyOf reasons) with
  | none =>
    have hnew := (h.agrees.lookup_none _).mp hlookup
    have hins : (l.insert ⟨keyOf reasons, 1⟩).store.Agrees WakeupInfo.name := h.agrees.insert hnew
    have hsize : (l.insert ⟨keyOf reasons, 1⟩).getWakeupStats.length ≤ l.mCapacity + 1 := by
      change (_ :: l.getWakeupStats).length ≤ _
      exact Nat.succ_le_succ h.size
    obtain ⟨l', hevict, hvalid, hcap, hvalues⟩ := evict_spec hins hsize
    refine ⟨l', hevict, hvalid, hcap, ?_⟩
    have hfind : (l.getWakeupStats.find? fun w => w.name = keyOf reasons) = none := by
      rw [List.find?_eq_none]
      intro w hw
      simp only [decide_eq_true_eq]
      exact fun he => hnew (List.mem_map.mpr ⟨w, hw, he⟩)
    rw [hvalues, updated, hfind]
    rfl
  | some it =>
    obtain ⟨w, hw, hname, hderef⟩ := h.agrees.lookup_some hlookup
    have hmem : w ∈ l.getWakeupStats := Store.mem_values.mpr ⟨it, hw⟩
    obtain ⟨l', herase, hagrees, hcap, hvalues⟩ := erase_spec h.agrees hw
    have hnew : w.name ∉ l'.store.values.map WakeupInfo.name := by
      rw [show l'.store.values = _ from hvalues]
      simp
    have hfind := find_name h.agrees.keys hmem
    have hstats : (l'.insert { w with count := w.count + 1 }).getWakeupStats =
        updated l.mCapacity l.getWakeupStats (keyOf reasons) := by
      rw [updated, ← hname, getWakeupStats, getWakeupStats, hfind]
      change _ :: l'.getWakeupStats = _
      rw [hvalues]
      rfl
    refine ⟨l'.insert { w with count := w.count + 1 }, ?_, ⟨hagrees.insert hnew, ?_⟩, hcap, hstats⟩
    · simp only [mWakeups, hderef, Option.bind_eq_bind, Option.bind_some, herase]
    · change (_ :: l'.getWakeupStats).length ≤ l'.mCapacity
      have hlt : l'.getWakeupStats.length < l.getWakeupStats.length := by
        rw [hvalues]
        exact List.length_filter_lt_length_iff_exists.mpr ⟨w, hmem, by simp⟩
      have := h.size
      rw [List.length_cons, hcap]
      omega

end WakeupList

end HardwareInterfaces.Suspend
