import HardwareInterfaces.Suspend.WakeupList
import Mathlib.Algebra.BigOperators.Group.List.Lemmas
import Mathlib.Algebra.BigOperators.Ring.Finset

/-!
# What the wakeup counts mean

The entries of a `WakeupList` after any sequence of updates, read off the sequence of counted keys: the names
are the contents of an LRU cache that saw these keys, and the count of an entry is the number of times its
key was counted since the update that inserted the entry (`CountedSince`), which is not the total number
of occurrences once entries have been evicted.
-/

namespace HardwareInterfaces.Suspend.WakeupList

open CppStd

/-- The keys a sequence of updates counts; updates without a reason are ignored. -/
def keys (updates : List (List StdString)) : List StdString := (updates.filter (· ≠ [])).map keyOf

/-- `n` counts the uses of `k` from the last one that found `k` outside the cache. -/
def CountedSince (cap : Nat) (ks : List StdString) (k : StdString) (n : Int) : Prop :=
  ∃ before after, ks = before ++ k :: after ∧ k ∉ Lru.run cap before ∧
    (∀ a b, after = a ++ k :: b → k ∈ Lru.run cap (before ++ k :: a)) ∧ n = (k :: after).count k

/-- The entries `ws` are what the counted keys `ks` leave behind. -/
structure Counts (cap : Nat) (ks : List StdString) (ws : List WakeupInfo) : Prop where
  names : names ws = Lru.run cap ks
  count : ∀ w ∈ ws, CountedSince cap ks w.name w.count

theorem names_updated (cap : Nat) {ws : List WakeupInfo} (h : (names ws).Nodup) (k : StdString) :
    names (updated cap ws k) = Lru.step cap (names ws) k := by
  unfold updated Lru.step
  cases hfind : ws.find? fun w => w.name = k with
  | none =>
    have hk : k ∉ names ws := by
      intro hmem
      obtain ⟨w, hw, rfl⟩ := List.mem_map.mp hmem
      have := List.find?_eq_none.mp hfind w hw
      simp at this
    rw [if_neg hk]
    simp [names, List.map_take]
  | some w =>
    have hname : w.name = k := by simpa using List.find?_some hfind
    have hk : k ∈ names ws := List.mem_map.mpr ⟨w, List.mem_of_find?_eq_some hfind, hname⟩
    rw [if_pos hk, Lru.toFront_eq_filter h]
    simp only [names, List.map_cons, hname, List.filter_map]
    rfl

theorem CountedSince.other {cap : Nat} {ks : List StdString} {k k' : StdString} {n : Int} (hne : k ≠ k')
    (h : CountedSince cap ks k n) : CountedSince cap (ks ++ [k']) k n := by
  obtain ⟨before, after, hsplit, hnew, hheld, hcount⟩ := h
  refine ⟨before, after ++ [k'], by simp [hsplit], hnew, ?_, ?_⟩
  · intro a b hab
    rcases List.eq_nil_or_concat' b with rfl | ⟨b, x, rfl⟩
    · have hlast : [k'] = [k] := List.append_inj_right' hab rfl
      exact absurd (List.singleton_inj.mp hlast).symm hne
    · rw [← List.cons_append, ← List.append_assoc] at hab
      exact hheld a b (List.append_inj_left' hab rfl)
  · rw [hcount]
    simp [List.count_append, hne.symm]

theorem CountedSince.again {cap : Nat} {ks : List StdString} {k : StdString} {n : Int}
    (hmem : k ∈ Lru.run cap ks) (h : CountedSince cap ks k n) : CountedSince cap (ks ++ [k]) k (n + 1) := by
  obtain ⟨before, after, hsplit, hnew, hheld, hcount⟩ := h
  refine ⟨before, after ++ [k], by simp [hsplit], hnew, ?_, ?_⟩
  · intro a b hab
    rcases List.eq_nil_or_concat' b with rfl | ⟨b, x, rfl⟩
    · rw [← List.append_inj_left' hab rfl, ← hsplit]
      exact hmem
    · rw [← List.cons_append, ← List.append_assoc] at hab
      exact hheld a b (List.append_inj_left' hab rfl)
  · rw [hcount]
    simp [List.count_append]

theorem CountedSince.first {cap : Nat} {ks : List StdString} {k : StdString} (hnew : k ∉ Lru.run cap ks) :
    CountedSince cap (ks ++ [k]) k 1 :=
  ⟨ks, [], rfl, hnew, fun a b hab => by simp at hab, by simp⟩

theorem Counts.nodup {cap : Nat} {ks : List StdString} {ws : List WakeupInfo} (h : Counts cap ks ws) :
    (WakeupList.names ws).Nodup := by
  rw [h.names]
  exact Lru.run_nodup cap ks

theorem counts_updated {cap : Nat} {ks : List StdString} {ws : List WakeupInfo} (h : Counts cap ks ws)
    (k : StdString) : Counts cap (ks ++ [k]) (updated cap ws k) := by
  refine ⟨?_, ?_⟩
  · rw [names_updated cap h.nodup, h.names, Lru.run_concat]
  · unfold updated
    cases hfind : ws.find? fun w => w.name = k with
    | none =>
      have hnone : ∀ w ∈ ws, w.name ≠ k := by simpa using hfind
      have hnew : k ∉ Lru.run cap ks := by
        rw [← h.names]
        intro hmem
        obtain ⟨w, hw, hname⟩ := List.mem_map.mp hmem
        exact hnone w hw hname
      intro w hw
      rcases List.mem_cons.mp (List.mem_of_mem_take hw) with rfl | hw
      · exact CountedSince.first hnew
      · exact (h.count w hw).other (hnone w hw)
    | some v =>
      have hname : v.name = k := by simpa using List.find?_some hfind
      have hv := List.mem_of_find?_eq_some hfind
      intro w hw
      rcases List.mem_cons.mp hw with rfl | hw
      · have hmem : v.name ∈ Lru.run cap ks := by
          rw [← h.names]
          exact List.mem_map.mpr ⟨v, hv, rfl⟩
        rw [← hname]
        exact (h.count v hv).again hmem
      · obtain ⟨hw, hne⟩ := List.mem_filter.mp hw
        exact (h.count w hw).other (by simpa using hne)

theorem run_append (cap : Nat) (updates : List (List StdString)) (reasons : List StdString) :
    run cap (updates ++ [reasons]) = (run cap updates).bind fun l => l.update reasons := by
  simp [run, List.foldlM_append]

theorem keys_append (updates : List (List StdString)) (reasons : List StdString) :
    keys (updates ++ [reasons]) = keys updates ++ if reasons = [] then [] else [keyOf reasons] := by
  by_cases h : reasons = []
  · simp [keys, h]
  · simp [keys, h]

theorem run_spec (cap : Nat) (updates : List (List StdString)) :
    ∃ l, run cap updates = some l ∧ l.Valid ∧ l.mCapacity = cap ∧
      Counts cap (keys updates) l.getWakeupStats := by
  induction updates using List.reverseRecOn with
  | nil => exact ⟨create cap, rfl, create_valid cap, rfl, ⟨rfl, fun w hw => by cases hw⟩⟩
  | append_singleton updates reasons ih =>
    obtain ⟨l, hrun, hvalid, hcap, hcounts⟩ := ih
    rw [run_append, hrun, keys_append, Option.bind_some]
    by_cases hne : reasons = []
    · refine ⟨l, ?_, hvalid, hcap, ?_⟩
      · rw [update, if_pos hne]
      · rw [if_pos hne, List.append_nil]
        exact hcounts
    · obtain ⟨l', hupdate, hvalid', hcap', hstats⟩ := update_spec hvalid hne
      refine ⟨l', hupdate, hvalid', hcap'.trans hcap, ?_⟩
      rw [if_neg hne, hstats, hcap]
      exact counts_updated hcounts (keyOf reasons)

/-- While every key fits, nothing is ever evicted and the counts are total. -/
theorem CountedSince.total {cap : Nat} {ks : List StdString} (hfit : ks.dedup.length ≤ cap) {k : StdString}
    {n : Int} (h : CountedSince cap ks k n) : n = ks.count k := by
  obtain ⟨before, after, hsplit, hnew, -, hcount⟩ := h
  have hsub : before.dedup.length ≤ cap := by
    refine le_trans (List.Subperm.length_le ?_) hfit
    refine List.subperm_of_subset (List.nodup_dedup before) fun x hx => ?_
    rw [List.mem_dedup] at hx ⊢
    rw [hsplit]
    exact List.mem_append_left _ hx
  rw [Lru.mem_run_of_card_le hsub] at hnew
  rw [hcount, hsplit, List.count_append, List.count_eq_zero.mpr hnew, Nat.zero_add]

theorem sum_counts {cap : Nat} {ks : List StdString} {ws : List WakeupInfo} (hfit : ks.dedup.length ≤ cap)
    (h : Counts cap ks ws) : (ws.map WakeupInfo.count).sum = ks.length := by
  have hcounts : ws.map WakeupInfo.count = (names ws).map fun k => (ks.count k : Int) := by
    rw [names, List.map_map]
    exact List.map_congr_left fun w hw => (h.count w hw).total hfit
  have hnames : (names ws).Perm ks.dedup := by
    rw [h.names, Lru.run_eq_take, List.take_of_length_le (by simpa [Lru.recency] using hfit)]
    exact List.reverse_perm _
  have hlength : (ks.dedup.map fun k => ks.count k).sum = ks.length := by
    rw [← List.sum_map_count_dedup_eq_length ks, lawful_beq_subsingleton List.instBEq instBEqOfDecidableEq]
  rw [hcounts, (hnames.map _).sum_eq, ← hlength, Nat.cast_list_sum, List.map_map]
  rfl

theorem sum_updated {cap : Nat} {ws : List WakeupInfo} (h : (names ws).Nodup) {k : StdString}
    (hroom : k ∈ names ws ∨ ws.length + 1 ≤ cap) :
    ((updated cap ws k).map WakeupInfo.count).sum = (ws.map WakeupInfo.count).sum + 1 := by
  unfold updated
  cases hfind : ws.find? fun w => w.name = k with
  | none =>
    have hlen : ws.length + 1 ≤ cap := by
      refine hroom.resolve_left fun hmem => ?_
      obtain ⟨w, hw, hname⟩ := List.mem_map.mp hmem
      simpa [hname] using List.find?_eq_none.mp hfind w hw
    rw [List.take_of_length_le (by simpa using hlen), List.map_cons, List.sum_cons]
    exact add_comm _ _
  | some w =>
    have hw := List.mem_of_find?_eq_some hfind
    obtain rfl : w.name = k := by simpa using List.find?_some hfind
    have hrest : ws.filter (fun v => v.name ≠ w.name) = ws.erase w := by
      rw [List.Nodup.erase_eq_filter (h.of_map _)]
      refine List.filter_congr fun v hv => ?_
      rw [Bool.eq_iff_iff, decide_eq_true_eq, bne_iff_ne]
      exact not_congr ⟨fun he => List.inj_on_of_nodup_map h hv hw he, fun he => by rw [he]⟩
    have hperm := ((List.perm_cons_erase hw).map WakeupInfo.count).sum_eq
    rw [List.map_cons, List.sum_cons] at hperm ⊢
    rw [hrest, hperm]
    dsimp only
    omega

/-- The statistics after any sequence of updates: an LRU cache of the counted keys with their counts. -/
theorem getWakeupStats_exact (capacity : Nat) (updates : List (List StdString)) :
    ∃ l, run capacity updates = some l ∧
      (names l.getWakeupStats).Nodup ∧
      l.getWakeupStats.length ≤ capacity ∧
      names l.getWakeupStats = Lru.run capacity (keys updates) ∧
      names l.getWakeupStats = (Lru.recency (keys updates)).take capacity ∧
      (∀ k, k ∈ l.mLookupTable ↔ k ∈ names l.getWakeupStats) ∧
      (∀ k it, l.mLookupTable.lookup k = some it ↔ ∃ w, (it, w) ∈ l.mWakeups.nodes ∧ w.name = k) ∧
      (∀ w ∈ l.getWakeupStats, CountedSince capacity (keys updates) w.name w.count) ∧
      ((keys updates).dedup.length ≤ capacity →
        (∀ w ∈ l.getWakeupStats, w.count = (keys updates).count w.name) ∧
        (l.getWakeupStats.map WakeupInfo.count).sum = (updates.filter (· ≠ [])).length) := by
  obtain ⟨l, hrun, hvalid, hcap, hcounts⟩ := run_spec capacity updates
  refine ⟨l, hrun, hcounts.nodup, hcap ▸ hvalid.size, hcounts.names, ?_, hvalid.agrees.mem_table,
    hvalid.agrees.table, hcounts.count, fun hfit => ⟨fun w hw => (hcounts.count w hw).total hfit, ?_⟩⟩
  · rw [hcounts.names, Lru.run_eq_take]
  · rw [sum_counts hfit hcounts, keys, List.length_map]

end HardwareInterfaces.Suspend.WakeupList
