import HardwareInterfaces.Suspend.WakeLockEntryList

/-!
# The wake lock statistics are an LRU cache

Any sequence of `updateOnAcquire`, `updateOnRelease` and `updateNow` on a `WakeLockEntryList` of capacity at
least 1 is defined, and its keys are those of a plain LRU list (`reference`): an acquire of an absent key
makes room first, an acquire or release of a present key moves it to the front, a release of an absent key
and `updateNow` move nothing. An operation on one key changes no other entry.
-/

namespace HardwareInterfaces.Suspend.WakeLockEntryList

open CppStd

/-- The operations that change the statistics, with the time they read. -/
inductive StatsOp
  | updateOnAcquire (key : StatsKey) (timeNow : Int)
  | updateOnRelease (key : StatsKey) (timeNow : Int)
  | updateNow (timeNow : Int)
  deriving DecidableEq

namespace StatsOp

def key? : StatsOp → Option StatsKey
  | updateOnAcquire key _ => some key
  | updateOnRelease key _ => some key
  | updateNow _ => none

def apply : StatsOp → WakeLockEntryList → Option WakeLockEntryList
  | updateOnAcquire key timeNow, l => l.updateOnAcquire key timeNow
  | updateOnRelease key timeNow, l => l.updateOnRelease key timeNow
  | updateNow timeNow, l => some (l.updateNow timeNow)

/-- The operation on the plain list of entries. -/
def onEntries (cap : Nat) : StatsOp → List WakeLockInfo → List WakeLockInfo
  | updateOnAcquire key timeNow, es => onAcquire cap es key timeNow
  | updateOnRelease key timeNow, es => onRelease es key timeNow
  | updateNow timeNow, es => onNow es timeNow

def onKeys (cap : Nat) : StatsOp → List StatsKey → List StatsKey
  | updateOnAcquire key _, ks => if key ∈ ks then Lru.toFront key ks else key :: Lru.makeRoom cap ks
  | updateOnRelease key _, ks => if key ∈ ks then Lru.toFront key ks else ks
  | updateNow _, ks => ks

end StatsOp

def run (capacity : Nat) (ops : List StatsOp) : Option WakeLockEntryList :=
  ops.foldlM (fun l op => op.apply l) (create capacity)

/-- The reference list after a sequence of operations. -/
def reference (capacity : Nat) (ops : List StatsOp) : List StatsKey :=
  ops.foldl (fun ks op => op.onKeys capacity ks) []

theorem apply_spec {l : WakeLockEntryList} (h : l.Valid) (hcap : 0 < l.mCapacity) (op : StatsOp) :
    ∃ l', op.apply l = some l' ∧ l'.Valid ∧ l'.mCapacity = l.mCapacity ∧
      l'.entries = op.onEntries l.mCapacity l.entries := by
  cases op with
  | updateOnAcquire key timeNow => exact updateOnAcquire_spec h hcap key timeNow
  | updateOnRelease key timeNow => exact updateOnRelease_spec h key timeNow
  | updateNow timeNow =>
    obtain ⟨hvalid, hentries⟩ := updateNow_spec h timeNow
    exact ⟨_, rfl, hvalid, rfl, hentries⟩

theorem keys_touched {update : WakeLockInfo → WakeLockInfo} (hupdate : ∀ e, (update e).key = e.key)
    {es : List WakeLockInfo} (h : (keys es).Nodup) (absent : List WakeLockInfo) (key : StatsKey) :
    keys (touched update absent es key) = if key ∈ keys es then Lru.toFront key (keys es) else keys absent := by
  unfold touched
  cases hfind : es.find? fun e => e.key = key with
  | none =>
    have hkey : key ∉ keys es := by
      intro hmem
      obtain ⟨e, he, hk⟩ := List.mem_map.mp hmem
      have := List.find?_eq_none.mp hfind e he
      simp [hk] at this
    rw [if_neg hkey]
  | some e =>
    have hk : e.key = key := by simpa using List.find?_some hfind
    have hmem : key ∈ keys es := List.mem_map.mpr ⟨e, List.mem_of_find?_eq_some hfind, hk⟩
    rw [if_pos hmem, Lru.toFront_eq_filter h]
    simp only [keys, List.map_cons, hupdate, hk, List.filter_map]
    rfl

theorem keys_makeRoom (cap : Nat) (es : List WakeLockInfo) :
    keys (Lru.makeRoom cap es) = Lru.makeRoom cap (keys es) := by
  unfold Lru.makeRoom keys
  rw [List.length_map]
  split
  · rw [List.map_dropLast]
  · rfl

theorem keys_onEntries (cap : Nat) {es : List WakeLockInfo} (h : (keys es).Nodup) (op : StatsOp) :
    keys (op.onEntries cap es) = op.onKeys cap (keys es) := by
  cases op with
  | updateOnAcquire key timeNow =>
    rw [StatsOp.onEntries, onAcquire, keys_touched (WakeLockInfo.key_acquired timeNow) h, StatsOp.onKeys,
      ← keys_makeRoom]
    rfl
  | updateOnRelease key timeNow =>
    rw [StatsOp.onEntries, onRelease, keys_touched (WakeLockInfo.key_released timeNow) h, StatsOp.onKeys]
  | updateNow timeNow =>
    simp [StatsOp.onEntries, onNow, keys, StatsOp.onKeys, Function.comp_def]

theorem mem_touched {update : WakeLockInfo → WakeLockInfo} (hupdate : ∀ e, (update e).key = e.key)
    {absent es : List WakeLockInfo} {key : StatsKey} {e : WakeLockInfo}
    (he : e ∈ touched update absent es key) (hne : e.key ≠ key) : e ∈ absent ∨ e ∈ es := by
  unfold touched at he
  cases hfind : es.find? fun e => e.key = key with
  | none =>
    rw [hfind] at he
    exact Or.inl he
  | some v =>
    rw [hfind] at he
    have hk : v.key = key := by simpa using List.find?_some hfind
    rcases List.mem_cons.mp he with rfl | he
    · exact absurd ((hupdate v).trans hk) hne
    · exact Or.inr (List.mem_filter.mp he).1

theorem mem_touched_key {update : WakeLockInfo → WakeLockInfo} {absent es : List WakeLockInfo} {e : WakeLockInfo}
    (he : e ∈ touched update absent es e.key) : (∃ v ∈ es, e = update v) ∨ (e.key ∉ keys es ∧ e ∈ absent) := by
  unfold touched at he
  cases hfind : es.find? fun v => v.key = e.key with
  | none =>
    rw [hfind] at he
    refine Or.inr ⟨fun hmem => ?_, he⟩
    obtain ⟨v, hv, hk⟩ := List.mem_map.mp hmem
    simpa [hk] using List.find?_eq_none.mp hfind v hv
  | some v =>
    rw [hfind] at he
    rcases List.mem_cons.mp he with rfl | he
    · exact Or.inl ⟨v, List.mem_of_find?_eq_some hfind, rfl⟩
    · simpa using (List.mem_filter.mp he).2

theorem isActive_onAcquire {cap : Nat} {es : List WakeLockInfo} {now : Int} {e : WakeLockInfo}
    (he : e ∈ onAcquire cap es e.key now) : e.isActive = true := by
  rcases mem_touched_key he with ⟨v, -, rfl⟩ | ⟨hnew, he⟩
  · rfl
  · rcases List.mem_cons.mp he with he | he
    · rw [he]
      rfl
    · refine absurd (List.mem_map.mpr ⟨e, ?_, rfl⟩) hnew
      rw [Lru.makeRoom] at he
      split at he
      · exact List.dropLast_subset _ he
      · exact he

theorem isActive_onRelease {es : List WakeLockInfo} {now : Int} {e : WakeLockInfo}
    (he : e ∈ onRelease es e.key now) : e.isActive = false ∧ e.key ∈ keys es := by
  rcases mem_touched_key he with ⟨v, hv, he⟩ | ⟨hnew, he⟩
  · rw [he]
    exact ⟨rfl, List.mem_map.mpr ⟨v, hv, rfl⟩⟩
  · exact absurd (List.mem_map.mpr ⟨e, he, rfl⟩) hnew

/-- An operation on one key leaves every other entry as it is. -/
theorem mem_onEntries {cap : Nat} {es : List WakeLockInfo} {op : StatsOp} {key : StatsKey}
    (hop : op.key? = some key) {e : WakeLockInfo} (he : e ∈ op.onEntries cap es) (hne : e.key ≠ key) :
    e ∈ es := by
  cases op with
  | updateOnAcquire key' timeNow =>
    obtain rfl := Option.some.inj hop
    rcases mem_touched (WakeLockInfo.key_acquired timeNow) he hne with he | he
    · rcases List.mem_cons.mp he with rfl | he
      · exact absurd rfl hne
      · rw [Lru.makeRoom] at he
        split at he
        · exact List.dropLast_subset _ he
        · exact he
    · exact he
  | updateOnRelease key' timeNow =>
    obtain rfl := Option.some.inj hop
    exact (mem_touched (WakeLockInfo.key_released timeNow) he hne).elim id id
  | updateNow timeNow => cases hop

theorem run_append (cap : Nat) (ops : List StatsOp) (op : StatsOp) :
    run cap (ops ++ [op]) = (run cap ops).bind op.apply := by
  simp [run, List.foldlM_append]

theorem run_spec {cap : Nat} (hcap : 0 < cap) (ops : List StatsOp) :
    ∃ l, run cap ops = some l ∧ l.Valid ∧ l.mCapacity = cap ∧ keys l.entries = reference cap ops := by
  induction ops using List.reverseRecOn with
  | nil => exact ⟨create cap, rfl, create_valid cap, rfl, rfl⟩
  | append_singleton ops op ih =>
    obtain ⟨l, hrun, hvalid, hcap', hkeys⟩ := ih
    obtain ⟨l', happly, hvalid', hcap'', hentries⟩ := apply_spec hvalid (hcap' ▸ hcap) op
    refine ⟨l', ?_, hvalid', hcap''.trans hcap', ?_⟩
    · rw [run_append, hrun, Option.bind_some, happly]
    · rw [hentries, keys_onEntries _ hvalid.nodup, hkeys, hcap', reference, reference, List.foldl_append]
      rfl

/-- The statistics refine a plain LRU cache of their keys. -/
theorem refines_lru (capacity : Nat) (hcap : 1 ≤ capacity) (ops : List StatsOp) :
    ∃ l, run capacity ops = some l ∧
      (keys l.entries).Nodup ∧
      (∀ k, k ∈ l.mLookupTable ↔ k ∈ keys l.entries) ∧
      (∀ k it, l.mLookupTable.lookup k = some it ↔ ∃ e, (it, e) ∈ l.mStats.nodes ∧ e.key = k) ∧
      l.mStats.size ≤ capacity ∧
      keys l.entries = reference capacity ops ∧
      ∀ op : StatsOp, ∃ l', op.apply l = some l' ∧
        (∀ key, op.key? = some key → ∀ e ∈ l'.entries, e.key ≠ key → e ∈ l.entries) ∧
        (op.key? = none → l'.mStats.nodes.map Prod.fst = l.mStats.nodes.map Prod.fst ∧
          keys l'.entries = keys l.entries ∧ l'.mLookupTable = l.mLookupTable) := by
  obtain ⟨l, hrun, hvalid, hcap', hkeys⟩ := run_spec hcap ops
  refine ⟨l, hrun, hvalid.nodup, hvalid.agrees.mem_table, hvalid.agrees.table, ?_, hkeys, fun op => ?_⟩
  · rw [mStats, Store.size_list, ← hcap']
    exact hvalid.size
  · obtain ⟨l', happly, -, -, hentries⟩ := apply_spec hvalid (hcap' ▸ hcap) op
    refine ⟨l', happly, fun key hop e he hne => mem_onEntries hop (hentries ▸ he) hne, fun hop => ?_⟩
    cases op with
    | updateOnAcquire key timeNow => cases hop
    | updateOnRelease key timeNow => cases hop
    | updateNow timeNow =>
      obtain rfl := Option.some.inj happly
      refine ⟨?_, ?_, rfl⟩
      · simp [mStats, updateNow, Store.mapValues, StdList.mapValues, Function.comp_def]
      · rw [hentries, keys_onEntries _ hvalid.nodup]
        rfl

theorem refines_lru_two_locks :
    ∃ l, run 1 [.updateOnAcquire (str "a", 7) 10, .updateOnAcquire (str "b", 7) 20] = some l ∧
      keys l.entries = [(str "b", 7)] := by
  obtain ⟨l, hrun, -, -, -, -, hkeys, -⟩ := refines_lru 1 (Nat.le_refl 1)
    [.updateOnAcquire (str "a", 7) 10, .updateOnAcquire (str "b", 7) 20]
  exact ⟨l, hrun, hkeys.trans (by decide)⟩

end HardwareInterfaces.Suspend.WakeLockEntryList
