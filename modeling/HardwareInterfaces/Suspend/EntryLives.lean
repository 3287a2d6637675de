import HardwareInterfaces.Suspend.HoldTimes

/-!
# The life of an entry

An entry lives from the acquire that creates it to its eviction, and a key may have several entries one after the
other. `InLife` says that something happened in the life of the entry a key has at the end, in terms of the operations
and the reference list alone; `mem_onEntries_cases` says what one operation can do to an entry. From the two follow
the bounds that hold for every entry whatever the operations are, acquires of a key that is held and releases of one
that is not included: what is counted never exceeds the time that has passed since the entry was created.
-/

namespace HardwareInterfaces.Suspend.WakeLockEntryList

open CppStd

def StatsOp.onEntry : StatsOp → WakeLockInfo → WakeLockInfo
  | updateOnAcquire key timeNow, e => if e.key = key then e.acquired timeNow else e
  | updateOnRelease key timeNow, e => if e.key = key then e.released timeNow else e
  | updateNow timeNow, e => e.refreshed timeNow

/-- What an operation can do to an entry: update it, leave it alone, or create it. -/
theorem mem_onEntries_cases {cap : Nat} {es : List WakeLockInfo} {op : StatsOp} {e : WakeLockInfo}
    (he : e ∈ op.onEntries cap es) :
    (∃ v ∈ es, v.key = e.key ∧ e = op.onEntry v) ∨
      ∃ now, op = .updateOnAcquire e.key now ∧ e.key ∉ keys es ∧ e = createNativeEntry e.key now := by
  cases op with
  | updateOnAcquire key now =>
    by_cases hkey : e.key = key
    · subst hkey
      rcases mem_touched_key he with ⟨v, hv, heq⟩ | ⟨hnew, he⟩
      · have hk : v.key = e.key := by rw [heq, WakeLockInfo.key_acquired]
        exact Or.inl ⟨v, hv, hk, by rw [StatsOp.onEntry, if_pos hk]; exact heq⟩
      · refine Or.inr ⟨now, rfl, hnew, (List.mem_cons.mp he).resolve_right fun hroom => ?_⟩
        have hmem : e.key ∈ Lru.makeRoom cap (keys es) := keys_makeRoom cap es ▸ List.mem_map_of_mem hroom
        rw [Lru.makeRoom] at hmem
        split at hmem
        · exact hnew (List.dropLast_subset _ hmem)
        · exact hnew hmem
    · exact Or.inl ⟨e, mem_onEntries rfl he hkey, rfl, by rw [StatsOp.onEntry, if_neg hkey]⟩
  | updateOnRelease key now =>
    by_cases hkey : e.key = key
    · subst hkey
      rcases mem_touched_key he with ⟨v, hv, heq⟩ | ⟨hnew, he⟩
      · have hk : v.key = e.key := by rw [heq, WakeLockInfo.key_released]
        exact Or.inl ⟨v, hv, hk, by rw [StatsOp.onEntry, if_pos hk]; exact heq⟩
      · exact absurd (List.mem_map_of_mem he) hnew
    · exact Or.inl ⟨e, mem_onEntries rfl he hkey, rfl, by rw [StatsOp.onEntry, if_neg hkey]⟩
  | updateNow now =>
    obtain ⟨v, hv, rfl⟩ := List.mem_map.mp he
    exact Or.inl ⟨v, hv, (WakeLockInfo.key_refreshed now v).symm, rfl⟩

def entriesAfter (cap : Nat) (ops : List StatsOp) : List WakeLockInfo :=
  ops.foldl (fun es op => op.onEntries cap es) []

theorem entriesAfter_append (cap : Nat) (ops : List StatsOp) (op : StatsOp) :
    entriesAfter cap (ops ++ [op]) = op.onEntries cap (entriesAfter cap ops) := by
  rw [entriesAfter, List.foldl_append]
  rfl

theorem run_entriesAfter {cap : Nat} (hcap : 0 < cap) (ops : List StatsOp) :
    ∃ l, run cap ops = some l ∧ l.Valid ∧ l.mCapacity = cap ∧ l.entries = entriesAfter cap ops := by
  induction ops using List.reverseRecOn with
  | nil => exact ⟨create cap, rfl, create_valid cap, rfl, rfl⟩
  | append_singleton ops op ih =>
    obtain ⟨l, hrun, hvalid, hcap', hentries⟩ := ih
    obtain ⟨l', happly, hvalid', hcap'', hentries'⟩ := apply_spec hvalid (hcap' ▸ hcap) op
    refine ⟨l', ?_, hvalid', hcap''.trans hcap', ?_⟩
    · rw [run_append, hrun, Option.bind_some, happly]
    · rw [hentries', hcap', hentries, entriesAfter_append]

theorem keys_entriesAfter {cap : Nat} (hcap : 0 < cap) (ops : List StatsOp) :
    keys (entriesAfter cap ops) = reference cap ops ∧ (keys (entriesAfter cap ops)).Nodup := by
  obtain ⟨l, hrun, hvalid, -, hentries⟩ := run_entriesAfter hcap ops
  obtain ⟨l', hrun', -, -, hkeys⟩ := run_spec hcap ops
  obtain rfl : l = l' := Option.some.inj (hrun.symm.trans hrun')
  rw [← hentries]
  exact ⟨hkeys, hvalid.nodup⟩

theorem mem_reference {cap : Nat} (hcap : 0 < cap) {ops : List StatsOp} {e : WakeLockInfo}
    (he : e ∈ entriesAfter cap ops) : e.key ∈ reference cap ops := by
  rw [← (keys_entriesAfter hcap ops).1]
  exact List.mem_map_of_mem he

/-! ### Lives -/

/-- In the life of the entry that `k` has at the end, an operation satisfied `q`, together with the operations before
it. -/
def InLife (cap : Nat) (k : StatsKey) (q : StatsOp → List StatsOp → Prop) (ops : List StatsOp) : Prop :=
  ∃ earlier op later, ops = earlier ++ op :: later ∧ q op earlier ∧
    ∀ rest, rest <+: later → k ∈ reference cap (earlier ++ op :: rest)

/-- The entry of `k` was created at time `t`. -/
def Created (cap : Nat) (k : StatsKey) (t : Int) (ops : List StatsOp) : Prop :=
  InLife cap k (fun op earlier => op = .updateOnAcquire k t ∧ k ∉ reference cap earlier) ops

section

variable {cap : Nat} {k : StatsKey} {q : StatsOp → List StatsOp → Prop} {ops : List StatsOp} {op : StatsOp}

theorem not_inLife_nil : ¬ InLife cap k q [] := by
  rintro ⟨earlier, op, later, h, -⟩
  simp at h

theorem InLife.mem (h : InLife cap k q ops) : k ∈ reference cap ops := by
  obtain ⟨earlier, op, later, rfl, -, hlive⟩ := h
  exact hlive later (List.prefix_refl later)

theorem inLife_append :
    InLife cap k q (ops ++ [op]) ↔ k ∈ reference cap (ops ++ [op]) ∧ (q op ops ∨ InLife cap k q ops) := by
  constructor
  · intro h
    refine ⟨h.mem, ?_⟩
    obtain ⟨earlier, op', later, hsplit, hq, hlive⟩ := h
    rcases List.eq_nil_or_concat' later with rfl | ⟨later, last, rfl⟩
    · obtain ⟨rfl, hop⟩ := List.append_inj' hsplit rfl
      obtain rfl := List.cons.inj hop |>.1
      exact Or.inl hq
    · rw [← List.cons_append, ← List.append_assoc] at hsplit
      obtain ⟨rfl, -⟩ := List.append_inj' hsplit rfl
      exact Or.inr ⟨earlier, op', later, rfl, hq, fun rest hrest => hlive rest (hrest.trans (List.prefix_append _ _))⟩
  · rintro ⟨hmem, hq | ⟨earlier, op', later, rfl, hq, hlive⟩⟩
    · exact ⟨ops, op, [], rfl, hq, fun rest hrest => by rwa [List.prefix_nil.mp hrest]⟩
    · refine ⟨earlier, op', later ++ [op], by simp, hq, fun rest hrest => ?_⟩
      rcases List.prefix_concat_iff.mp hrest with rfl | hrest
      · simpa using hmem
      · exact hlive rest hrest

theorem Created.unique {t t' : Int} (h : Created cap k t ops) (h' : Created cap k t' ops) : t = t' := by
  induction ops using List.reverseRecOn with
  | nil => exact absurd h not_inLife_nil
  | append_singleton ops op ih =>
    obtain ⟨-, ⟨rfl, hnew⟩ | hold⟩ := inLife_append.mp h
    · obtain ⟨-, ⟨hop, -⟩ | hold'⟩ := inLife_append.mp h'
      · exact (StatsOp.updateOnAcquire.inj hop).2
      · exact absurd hold'.mem hnew
    · obtain ⟨-, ⟨rfl, hnew⟩ | hold'⟩ := inLife_append.mp h'
      · exact absurd hold.mem hnew
      · exact ih hold hold'

end

/-! ### The bounds -/

/-- An entry that was created at `created`, seen at `now`. -/
structure Bounds (created now : Int) (e : WakeLockInfo) : Prop where
  activeTime : 0 ≤ e.activeTime
  maxTime : e.activeTime ≤ e.maxTime
  totalTime : e.maxTime ≤ e.totalTime
  elapsed : e.totalTime ≤ e.lastChange - created
  activeCount : 1 ≤ e.activeCount
  lastChange : e.lastChange ≤ now
  inactive : e.isActive = false → e.activeTime = 0

namespace Bounds

variable {created now now' : Int} {e : WakeLockInfo}

theorem createNativeEntry (k : StatsKey) (now : Int) : Bounds now now (createNativeEntry k now) := by
  refine ⟨Int.le_refl 0, Int.le_refl 0, Int.le_refl 0, ?_, Int.le_refl 1, Int.le_refl now, fun _ => rfl⟩
  show (0 : Int) ≤ now - now
  omega

theorem mono (h : Bounds created now e) (hnow : now ≤ now') : Bounds created now' e :=
  ⟨h.activeTime, h.maxTime, h.totalTime, h.elapsed, h.activeCount, Int.le_trans h.lastChange hnow, h.inactive⟩

/-- An acquire drops the time since the last change: the bounds have room for that. -/
theorem acquired (h : Bounds created now e) (hnow : now ≤ now') : Bounds created now' (e.acquired now') := by
  obtain ⟨h₁, h₂, h₃, h₄, h₅, h₆, -⟩ := h
  refine ⟨Int.le_refl 0, ?_, h₃, ?_, ?_, Int.le_refl now', fun _ => rfl⟩
  · show 0 ≤ e.maxTime
    omega
  · show e.totalTime ≤ now' - created
    omega
  · show 1 ≤ e.activeCount + 1
    omega

theorem released (h : Bounds created now e) (hnow : now ≤ now') : Bounds created now' (e.released now') := by
  obtain ⟨h₁, h₂, h₃, h₄, h₅, h₆, -⟩ := h
  refine ⟨Int.le_refl 0, ?_, ?_, ?_, h₅, Int.le_refl now', fun _ => rfl⟩
  · show 0 ≤ max e.maxTime (e.activeTime + (now' - e.lastChange))
    omega
  · show max e.maxTime (e.activeTime + (now' - e.lastChange)) ≤ e.totalTime + (now' - e.lastChange)
    omega
  · show e.totalTime + (now' - e.lastChange) ≤ now' - created
    omega

theorem refreshed (h : Bounds created now e) (hnow : now ≤ now') : Bounds created now' (e.refreshed now') := by
  unfold WakeLockInfo.refreshed
  split
  · rename_i hactive
    obtain ⟨h₁, h₂, h₃, h₄, h₅, h₆, -⟩ := h
    refine ⟨?_, ?_, ?_, ?_, h₅, Int.le_refl now', fun hfalse => ?_⟩
    · show 0 ≤ e.activeTime + (now' - e.lastChange)
      omega
    · show e.activeTime + (now' - e.lastChange) ≤ max e.maxTime (e.activeTime + (now' - e.lastChange))
      omega
    · show max e.maxTime (e.activeTime + (now' - e.lastChange)) ≤ e.totalTime + (now' - e.lastChange)
      omega
    · show e.totalTime + (now' - e.lastChange) ≤ now' - created
      omega
    · have hfalse : e.isActive = false := hfalse
      rw [hactive] at hfalse
      cases hfalse
  · exact h.mono hnow

theorem onEntry (h : Bounds created now e) {op : StatsOp} (hnow : now ≤ op.time) :
    Bounds created op.time (op.onEntry e) := by
  cases op with
  | updateOnAcquire key timeNow =>
    rw [StatsOp.onEntry]
    split
    · exact h.acquired hnow
    · exact h.mono hnow
  | updateOnRelease key timeNow =>
    rw [StatsOp.onEntry]
    split
    · exact h.released hnow
    · exact h.mono hnow
  | updateNow timeNow => exact h.refreshed hnow

end Bounds

theorem times_append {ops : List StatsOp} {op : StatsOp} (h : ((ops ++ [op]).map StatsOp.time).Pairwise (· ≤ ·)) :
    (ops.map StatsOp.time).Pairwise (· ≤ ·) ∧ ∀ earlier ∈ ops, earlier.time ≤ op.time := by
  rw [List.map_append, List.pairwise_append] at h
  exact ⟨h.1, fun earlier hearlier => h.2.2 _ (List.mem_map_of_mem hearlier) _ (by simp)⟩

theorem bounds_entriesAfter {cap : Nat} (hcap : 0 < cap) {ops : List StatsOp}
    (htimes : (ops.map StatsOp.time).Pairwise (· ≤ ·)) {e : WakeLockInfo} (he : e ∈ entriesAfter cap ops) :
    ∃ created, Created cap e.key created ops ∧ ∀ now, (∀ op ∈ ops, op.time ≤ now) → Bounds created now e := by
  induction ops using List.reverseRecOn generalizing e with
  | nil => cases he
  | append_singleton ops op ih =>
    obtain ⟨htimes, hlast⟩ := times_append htimes
    have hmem := mem_reference hcap he
    rw [entriesAfter_append] at he
    rcases mem_onEntries_cases he with ⟨v, hv, hkey, heq⟩ | ⟨t, hop, hnew, heq⟩
    · obtain ⟨created, hcreated, hbounds⟩ := ih htimes hv
      refine ⟨created, inLife_append.mpr ⟨hmem, Or.inr (hkey ▸ hcreated)⟩, fun now hnow => ?_⟩
      rw [heq]
      exact ((hbounds op.time hlast).onEntry (Int.le_refl _)).mono (hnow op (by simp))
    · rw [(keys_entriesAfter hcap ops).1] at hnew
      refine ⟨t, inLife_append.mpr ⟨hmem, Or.inl ⟨hop, hnew⟩⟩, fun now hnow => ?_⟩
      rw [heq]
      refine (Bounds.createNativeEntry e.key t).mono ?_
      have htime := hnow op (by simp)
      rwa [hop] at htime

/-- The entries of the statistics, whatever the operations were: the chain of bounds from the current activity up to
the time since the entry was created. -/
theorem entry_bounds (capacity : Nat) (hcap : 1 ≤ capacity) (ops : List StatsOp)
    (htimes : (ops.map StatsOp.time).Pairwise (· ≤ ·)) (now : Int) (hnow : ∀ op ∈ ops, op.time ≤ now) :
    ∃ l, run capacity ops = some l ∧ ∀ e ∈ l.entries,
      (∃ created, Created capacity e.key created ops) ∧
      ∀ created, Created capacity e.key created ops →
        0 ≤ e.activeTime ∧ e.activeTime ≤ e.maxTime ∧ e.maxTime ≤ e.totalTime ∧
        e.totalTime ≤ e.lastChange - created ∧ 1 ≤ e.activeCount ∧ e.lastChange ≤ now ∧
        (e.isActive = false → e.activeTime = 0) := by
  obtain ⟨l, hrun, -, -, hentries⟩ := run_entriesAfter hcap ops
  refine ⟨l, hrun, fun e he => ?_⟩
  rw [hentries] at he
  obtain ⟨created, hcreated, hbounds⟩ := bounds_entriesAfter hcap htimes he
  refine ⟨⟨created, hcreated⟩, fun created' hcreated' => ?_⟩
  obtain rfl := hcreated.unique hcreated'
  obtain ⟨h₁, h₂, h₃, h₄, h₅, h₆, h₇⟩ := hbounds now hnow
  exact ⟨h₁, h₂, h₃, h₄, h₅, h₆, h₇⟩

/-- The surplus release counts time that nobody held the lock, and still keeps the bounds. -/
theorem entry_bounds_surplus_release :
    ∃ l, run 1 [.updateOnAcquire (str "a", 7) 10, .updateOnRelease (str "a", 7) 30, .updateOnRelease (str "a", 7) 70] =
        some l ∧
      l.entries = [{ createNativeEntry (str "a", 7) 70 with isActive := false, maxTime := 40, totalTime := 60 }] ∧
      ∀ e ∈ l.entries, e.maxTime ≤ e.totalTime ∧ ∃ created, e.totalTime ≤ e.lastChange - created := by
  obtain ⟨l, hrun, hall⟩ := entry_bounds 1 (Nat.le_refl 1)
    [.updateOnAcquire (str "a", 7) 10, .updateOnRelease (str "a", 7) 30, .updateOnRelease (str "a", 7) 70] (by decide)
    70 (by decide)
  refine ⟨l, hrun, ?_, fun e he => ?_⟩
  · have hentries : (run 1 [.updateOnAcquire (str "a", 7) 10, .updateOnRelease (str "a", 7) 30,
        .updateOnRelease (str "a", 7) 70]).map entries =
        some [{ createNativeEntry (str "a", 7) 70 with isActive := false, maxTime := 40, totalTime := 60 }] := by
      decide
    rw [hrun, Option.map_some] at hentries
    exact Option.some.inj hentries
  · obtain ⟨⟨created, hcreated⟩, hbounds⟩ := hall e he
    obtain ⟨-, -, htotal, helapsed, -⟩ := hbounds created hcreated
    exact ⟨htotal, created, helapsed⟩

end HardwareInterfaces.Suspend.WakeLockEntryList
