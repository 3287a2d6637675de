import HardwareInterfaces.Suspend.WakeLockLru
import HardwareInterfaces.Suspend.WakeupCounts

/-!
# The two lists of statistics follow one policy

`WakeLockEntryList` makes room before it inserts, `WakeupList` inserts and then drops what does not fit. On the same
sequence of keys they hold the same keys in the same order, with the same counts, for every capacity but 0: there
the wake lock list looks for its last entry when it has none.
-/

namespace HardwareInterfaces.Suspend.SamePolicy

open CppStd

/-- The keys of a sequence of uses, as acquisitions by the process `pid` at the times of the uses. -/
def acquires (pid : Int) (uses : List (StdString × Int)) : List WakeLockEntryList.StatsOp :=
  uses.map fun use => .updateOnAcquire (use.1, pid) use.2

def wakeups (uses : List (StdString × Int)) : List (List StdString) := uses.map fun use => [use.1]

def lockTally (e : WakeLockInfo) : StatsKey × Int := (e.key, e.activeCount)

def wakeupTally (pid : Int) (w : WakeupInfo) : StatsKey × Int := ((w.name, pid), w.count)

/-- Both lists hold the same keys in the same order, with the same counts. -/
def Agree (pid : Int) (es : List WakeLockInfo) (ws : List WakeupInfo) : Prop :=
  es.map lockTally = ws.map (wakeupTally pid)

theorem makeRoom_eq_take {α : Type} {cap : Nat} {l : List α} (h : l.length ≤ cap) :
    Lru.makeRoom cap l = l.take (cap - 1) := by
  unfold Lru.makeRoom
  split
  · rename_i hfull
    rw [List.dropLast_eq_take, hfull]
  · exact (List.take_of_length_le (by omega)).symm

theorem find_tally (key : StatsKey) (es : List WakeLockInfo) :
    (es.find? fun e => e.key = key).map lockTally = (es.map lockTally).find? fun x => x.1 = key := by
  rw [List.find?_map]
  rfl

theorem find_wakeupTally (pid : Int) (name : StdString) (ws : List WakeupInfo) :
    (ws.find? fun w => w.name = name).map (wakeupTally pid) =
      (ws.map (wakeupTally pid)).find? fun x => x.1 = (name, pid) := by
  rw [List.find?_map]
  congr 2
  funext w
  simp [wakeupTally]

theorem Agree.step {cap : Nat} (hcap : 0 < cap) {pid : Int} {es : List WakeLockInfo} {ws : List WakeupInfo}
    (h : Agree pid es ws) (hsize : es.length ≤ cap) (name : StdString) (now : Int) :
    Agree pid (WakeLockEntryList.onAcquire cap es (name, pid) now) (WakeupList.updated cap ws name) := by
  have hfind : (es.find? fun e => e.key = (name, pid)).map lockTally =
      (ws.find? fun w => w.name = name).map (wakeupTally pid) := by
    rw [find_tally, find_wakeupTally, h]
  unfold Agree WakeLockEntryList.onAcquire WakeLockEntryList.touched WakeupList.updated
  cases hes : es.find? fun e => e.key = (name, pid) with
  | none =>
    rw [hes] at hfind
    rw [Option.map_eq_none_iff.mp hfind.symm]
    obtain ⟨room, rfl⟩ : ∃ room, cap = room + 1 := ⟨cap - 1, by omega⟩
    rw [makeRoom_eq_take hsize, List.take_succ_cons, List.map_cons, List.map_cons, List.map_take, List.map_take, h]
    rfl
  | some e =>
    rw [hes] at hfind
    obtain ⟨w, hws, htally⟩ := Option.map_eq_some_iff.mp hfind.symm
    rw [hws]
    have hkey : e.key = (w.name, pid) := congrArg Prod.fst htally.symm
    have hcount : e.activeCount = w.count := congrArg Prod.snd htally.symm
    have hhead : lockTally (e.acquired now) = wakeupTally pid { w with count := w.count + 1 } :=
      Prod.ext hkey (congrArg (· + 1) hcount)
    have hrest : (es.filter fun v => v.key ≠ (name, pid)).map lockTally =
        (ws.filter fun v => v.name ≠ name).map (wakeupTally pid) := by
      have hes : (fun v : WakeLockInfo => decide (v.key ≠ (name, pid))) =
          (fun x : StatsKey × Int => decide (x.1 ≠ (name, pid))) ∘ lockTally := rfl
      have hws : (fun v : WakeupInfo => decide (v.name ≠ name)) =
          (fun x : StatsKey × Int => decide (x.1 ≠ (name, pid))) ∘ wakeupTally pid := by
        funext v
        simp [wakeupTally]
      rw [hes, hws, ← List.filter_map, ← List.filter_map, h]
    dsimp only
    rw [List.map_cons, List.map_cons, hhead, hrest]

theorem run_agree {cap : Nat} (hcap : 0 < cap) (pid : Int) (uses : List (StdString × Int)) :
    ∃ l m, WakeLockEntryList.run cap (acquires pid uses) = some l ∧ WakeupList.run cap (wakeups uses) = some m ∧
      (l.Valid ∧ l.mCapacity = cap) ∧ (m.Valid ∧ m.mCapacity = cap) ∧ Agree pid l.entries m.getWakeupStats := by
  induction uses using List.reverseRecOn with
  | nil =>
    exact ⟨.create cap, .create cap, rfl, rfl, ⟨WakeLockEntryList.create_valid cap, rfl⟩,
      ⟨WakeupList.create_valid cap, rfl⟩, rfl⟩
  | append_singleton uses use ih =>
    obtain ⟨l, m, hl, hm, ⟨hvalid, hcapl⟩, ⟨hvalidm, hcapm⟩, hagree⟩ := ih
    obtain ⟨l', hacquire, hvalid', hcapl', hentries⟩ :=
      WakeLockEntryList.updateOnAcquire_spec hvalid (hcapl ▸ hcap) (use.1, pid) use.2
    obtain ⟨m', hupdate, hvalidm', hcapm', hstats⟩ :=
      WakeupList.update_spec hvalidm (List.cons_ne_nil use.1 [])
    refine ⟨l', m', ?_, ?_, ⟨hvalid', hcapl'.trans hcapl⟩, ⟨hvalidm', hcapm'.trans hcapm⟩, ?_⟩
    · rw [acquires, List.map_append, List.map_singleton, WakeLockEntryList.run_append, ← acquires, hl]
      exact hacquire
    · rw [wakeups, List.map_append, List.map_singleton, WakeupList.run_append, ← wakeups, hm]
      exact hupdate
    · have hkey : WakeupList.keyOf [use.1] = use.1 := by simp [WakeupList.keyOf, join, List.intercalate]
      rw [hentries, hstats, hcapl, hcapm, hkey]
      exact hagree.step hcap (hcapl ▸ hvalid.size) use.1 use.2

theorem run_capacity_zero (pid : Int) {uses : List (StdString × Int)} (h : uses ≠ []) :
    WakeLockEntryList.run 0 (acquires pid uses) = none := by
  cases uses with
  | nil => exact absurd rfl h
  | cons use uses =>
    have hfirst : (WakeLockEntryList.create 0).updateOnAcquire (use.1, pid) use.2 = none := by
      rw [Option.eq_none_iff_forall_not_mem]
      intro l hl
      exact absurd (WakeLockEntryList.capacity_pos (WakeLockEntryList.create_valid 0) hl) (Nat.lt_irrefl 0)
    rw [acquires, List.map_cons, WakeLockEntryList.run, List.foldlM_cons, WakeLockEntryList.StatsOp.apply, hfirst]
    rfl

/-- The two lists agree on every sequence of keys, unless there is no room for the first one. -/
theorem same_policy_iff (capacity : Nat) (pid : Int) (uses : List (StdString × Int)) :
    (∃ l m, WakeLockEntryList.run capacity (acquires pid uses) = some l ∧
      WakeupList.run capacity (wakeups uses) = some m ∧
      l.entries.map WakeLockInfo.key = (m.getWakeupStats.map fun w => (w.name, pid)) ∧
      l.entries.map WakeLockInfo.activeCount = m.getWakeupStats.map WakeupInfo.count) ↔
    1 ≤ capacity ∨ uses = [] := by
  constructor
  · rintro ⟨l, m, hl, -, -, -⟩
    by_contra hnot
    obtain ⟨hcap, huses⟩ := not_or.mp hnot
    obtain rfl : capacity = 0 := by omega
    rw [run_capacity_zero pid huses] at hl
    cases hl
  · rintro (hcap | rfl)
    · obtain ⟨l, m, hl, hm, -, -, hagree⟩ := run_agree hcap pid uses
      refine ⟨l, m, hl, hm, ?_, ?_⟩
      · have hkeys := congrArg (List.map Prod.fst) hagree
        rw [List.map_map, List.map_map] at hkeys
        exact hkeys
      · have hcounts := congrArg (List.map Prod.snd) hagree
        rw [List.map_map, List.map_map] at hcounts
        exact hcounts
    · exact ⟨.create capacity, .create capacity, rfl, rfl, rfl, rfl⟩

/-- A list of capacity 0 cannot record its first acquisition, while the wakeup list ignores its first wakeup. -/
theorem capacity_zero_undefined :
    WakeLockEntryList.run 0 (acquires 7 [(str "wl", 10)]) = none ∧
      (WakeupList.run 0 (wakeups [(str "wl", 10)])).map WakeupList.getWakeupStats = some [] :=
  ⟨rfl, rfl⟩

end HardwareInterfaces.Suspend.SamePolicy
