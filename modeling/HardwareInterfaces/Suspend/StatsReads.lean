import HardwareInterfaces.Lib.History
import HardwareInterfaces.Suspend.EntryLives

/-!
# What reading the statistics does to them

Every reader of the statistics calls `updateNow` first, which adds the time since the last change of an active entry to
its totals. A release would have added the same time, so that most readers leave no trace. An acquire of a lock that is
held already does not: it moves `lastChange` to the present without counting the time in between. What a reader has
counted by then stays counted, and what came after it is lost, so the totals depend on when they were read.

The two runs, with the readers and without, are compared entry by entry (`Follows`): the difference of the totals is the
time since the last acquire that has been read already, which the final `updateNow` makes up for, and the time that was
read before some acquire of the held lock (`lost`). The latter is positive exactly if there was such a reader
(`Disturbed`).
-/

namespace HardwareInterfaces.Suspend.WakeLockEntryList

open CppStd History

/-- The operations without the readers. -/
def withoutReads (ops : List StatsOp) : List StatsOp := ops.filter fun op => op.key?.isSome

def observed (e : WakeLockInfo) : StatsKey × Int × Int × Int × Int × Bool :=
  (e.key, e.totalTime, e.maxTime, e.activeTime, e.activeCount, e.isActive)

/-- The last operation on `k` is an acquire at time `t`. -/
def HeldSince (k : StatsKey) (t : Int) (ops : List StatsOp) : Prop :=
  Since (fun op => op.key? ≠ some k) (fun op _ => op = .updateOnAcquire k t) ops.reverse

/-- The last operation on `k` is an acquire, and after it `updateNow` came at a later time. -/
def ReadLater (k : StatsKey) (ops : List StatsOp) : Prop :=
  Since (fun op => op.key? ≠ some k)
    (fun op earlier => ∃ t r, op = .updateNow r ∧ HeldSince k t earlier.reverse ∧ t < r) ops.reverse

/-- In the life of its entry, `k` was acquired while it was held and after `updateNow` had counted some of the time
since the acquire before. -/
def Disturbed (cap : Nat) (k : StatsKey) (ops : List StatsOp) : Prop :=
  InLife cap k (fun op earlier => (∃ t, op = .updateOnAcquire k t) ∧ k ∈ reference cap earlier ∧ ReadLater k earlier) ops

section

variable {k : StatsKey} {t : Int} {ops : List StatsOp} {op : StatsOp}

theorem heldSince_append :
    HeldSince k t (ops ++ [op]) ↔ op = .updateOnAcquire k t ∨ op.key? ≠ some k ∧ HeldSince k t ops := by
  rw [HeldSince, List.reverse_append]
  exact Iff.rfl

theorem readLater_append :
    ReadLater k (ops ++ [op]) ↔
      (∃ t r, op = .updateNow r ∧ HeldSince k t ops ∧ t < r) ∨ op.key? ≠ some k ∧ ReadLater k ops := by
  rw [ReadLater, List.reverse_append]
  show (∃ t r, op = .updateNow r ∧ HeldSince k t ops.reverse.reverse ∧ t < r) ∨ _ ↔ _
  rw [List.reverse_reverse]
  exact Iff.rfl

theorem withoutReads_append :
    withoutReads (ops ++ [op]) = withoutReads ops ++ if op.key?.isSome then [op] else [] := by
  rw [withoutReads, List.filter_append, List.filter_singleton, withoutReads]
  cases op.key?.isSome <;> rfl

theorem reference_append (cap : Nat) : reference cap (ops ++ [op]) = op.onKeys cap (reference cap ops) := by
  rw [reference, List.foldl_append]
  rfl

theorem reference_withoutReads (cap : Nat) (ops : List StatsOp) :
    reference cap (withoutReads ops) = reference cap ops := by
  induction ops using List.reverseRecOn with
  | nil => rfl
  | append_singleton ops op ih =>
    cases op with
    | updateOnAcquire key now => rw [withoutReads_append, reference_append, ← ih]; exact reference_append cap
    | updateOnRelease key now => rw [withoutReads_append, reference_append, ← ih]; exact reference_append cap
    | updateNow now =>
      rw [withoutReads_append, reference_append, ← ih]
      exact congrArg (reference cap) (List.append_nil _)

end

/-! ### Two entries -/

/-- An entry with readers against the one without: `lost` is what the readers have counted and an acquire would have
dropped. -/
structure Follows (lost : Int) (e e' : WakeLockInfo) : Prop where
  key : e.key = e'.key
  isActive : e.isActive = e'.isActive
  activeCount : e.activeCount = e'.activeCount
  seen : e'.lastChange ≤ e.lastChange
  activeTime : e.activeTime = e.lastChange - e'.lastChange
  activeTime' : e'.activeTime = 0
  totalTime : e.totalTime = e'.totalTime + (e.lastChange - e'.lastChange) + lost
  lost_nonneg : 0 ≤ lost
  maxTime : lost = 0 → e.maxTime = max e'.maxTime (e.lastChange - e'.lastChange)
  maxTime' : 0 ≤ e'.maxTime
  inactive : e.isActive = false → e.lastChange = e'.lastChange

namespace Follows

variable {lost now : Int} {e e' : WakeLockInfo}

theorem created (k : StatsKey) (now : Int) : Follows 0 (createNativeEntry k now) (createNativeEntry k now) where
  key := rfl
  isActive := rfl
  activeCount := rfl
  seen := Int.le_refl _
  activeTime := (Int.sub_self now).symm
  activeTime' := rfl
  totalTime := by
    show (0 : Int) = 0 + (now - now) + 0
    omega
  lost_nonneg := Int.le_refl 0
  maxTime := by
    intro _
    show (0 : Int) = max 0 (now - now)
    omega
  maxTime' := Int.le_refl 0
  inactive := fun _ => rfl

/-- An acquire drops what was not read since the last change, on both sides. -/
theorem acquired (h : Follows lost e e') (now : Int) :
    Follows (lost + (e.lastChange - e'.lastChange)) (e.acquired now) (e'.acquired now) where
  key := h.key
  isActive := rfl
  activeCount := congrArg (· + 1) h.activeCount
  seen := Int.le_refl _
  activeTime := (Int.sub_self now).symm
  activeTime' := rfl
  totalTime := by
    have htotal := h.totalTime
    show e.totalTime = e'.totalTime + (now - now) + (lost + (e.lastChange - e'.lastChange))
    omega
  lost_nonneg := by
    have := h.lost_nonneg
    have := h.seen
    omega
  maxTime := by
    intro hzero
    have hlost := h.lost_nonneg
    have hseen := h.seen
    have hmax := h.maxTime (by omega)
    have hmax' := h.maxTime'
    show e.maxTime = max e'.maxTime (now - now)
    omega
  maxTime' := h.maxTime'
  inactive := fun _ => rfl

theorem released (h : Follows lost e e') (hnow : e.lastChange ≤ now) : Follows lost (e.released now) (e'.released now) where
  key := h.key
  isActive := rfl
  activeCount := h.activeCount
  seen := Int.le_refl _
  activeTime := (Int.sub_self now).symm
  activeTime' := rfl
  totalTime := by
    have htotal := h.totalTime
    show e.totalTime + (now - e.lastChange) = e'.totalTime + (now - e'.lastChange) + (now - now) + lost
    omega
  lost_nonneg := h.lost_nonneg
  maxTime := by
    intro hzero
    have hmax := h.maxTime hzero
    have hactive := h.activeTime
    have hactive' := h.activeTime'
    have hseen := h.seen
    show max e.maxTime (e.activeTime + (now - e.lastChange)) =
      max (max e'.maxTime (e'.activeTime + (now - e'.lastChange))) (now - now)
    omega
  maxTime' := by
    have hmax := h.maxTime'
    show 0 ≤ max e'.maxTime (e'.activeTime + (now - e'.lastChange))
    omega
  inactive := fun _ => rfl

theorem refreshed (h : Follows lost e e') (hnow : e.lastChange ≤ now) : Follows lost (e.refreshed now) e' := by
  unfold WakeLockInfo.refreshed
  split
  · rename_i hactive
    have hseen := h.seen
    refine ⟨h.key, h.isActive, h.activeCount, Int.le_trans hseen hnow, ?_, h.activeTime', ?_, h.lost_nonneg, ?_,
      h.maxTime', fun hfalse => ?_⟩
    · have htime := h.activeTime
      show e.activeTime + (now - e.lastChange) = now - e'.lastChange
      omega
    · have htotal := h.totalTime
      show e.totalTime + (now - e.lastChange) = e'.totalTime + (now - e'.lastChange) + lost
      omega
    · intro hzero
      have hmax := h.maxTime hzero
      have htime := h.activeTime
      show max e.maxTime (e.activeTime + (now - e.lastChange)) = max e'.maxTime (now - e'.lastChange)
      omega
    · have hfalse : e.isActive = false := hfalse
      rw [hactive] at hfalse
      cases hfalse
  · exact h

/-- After a last reader on both sides, nothing but the lost time makes a difference. -/
theorem observed_iff (h : Follows lost e e') (hnow : e.lastChange ≤ now) :
    observed (e.refreshed now) = observed (e'.refreshed now) ↔ lost = 0 := by
  have hkey : (e.refreshed now).key = (e'.refreshed now).key := by
    rw [WakeLockInfo.key_refreshed, WakeLockInfo.key_refreshed, h.key]
  have hseen := h.seen
  have htotal := h.totalTime
  have hcount := h.activeCount
  have htime := h.activeTime
  have htime' := h.activeTime'
  have hmax' := h.maxTime'
  rw [observed, observed, hkey]
  unfold WakeLockInfo.refreshed
  rw [← h.isActive]
  cases hactive : e.isActive with
  | true =>
    simp only [if_true, Prod.mk.injEq, true_and]
    constructor
    · rintro ⟨hsame, -⟩
      omega
    · intro hzero
      have hmax := h.maxTime hzero
      refine ⟨?_, ?_, ?_, hcount, trivial⟩ <;> omega
  | false =>
    have hlast := h.inactive hactive
    simp only [Bool.false_eq_true, if_false, Prod.mk.injEq, true_and]
    constructor
    · rintro ⟨hsame, -⟩
      omega
    · intro hzero
      have hmax := h.maxTime hzero
      refine ⟨?_, ?_, ?_, hcount, h.isActive⟩ <;> omega

end Follows

/-! ### Two runs -/

/-- Two entries of one key, and what the operations say about their difference. -/
structure Compared (cap : Nat) (ops : List StatsOp) (lost : Int) (e e' : WakeLockInfo) : Prop where
  follows : Follows lost e e'
  held : ∀ t, HeldSince e.key t ops ↔ e.isActive = true ∧ e'.lastChange = t
  read : ReadLater e.key ops ↔ e'.lastChange < e.lastChange
  disturbed : Disturbed cap e.key ops ↔ 0 < lost

namespace Compared

variable {cap : Nat} {ops : List StatsOp} {lost : Int} {e e' : WakeLockInfo} {k : StatsKey} {now : Int}

theorem created (hnew : k ∉ reference cap ops) :
    Compared cap (ops ++ [.updateOnAcquire k now]) 0 (createNativeEntry k now) (createNativeEntry k now) := by
  refine ⟨.created k now, fun t => ?_, ?_, ?_⟩
  · rw [show (createNativeEntry k now).key = k from rfl, heldSince_append]
    constructor
    · rintro (hop | ⟨hne, -⟩)
      · exact ⟨rfl, (StatsOp.updateOnAcquire.inj hop).2⟩
      · exact absurd rfl hne
    · rintro ⟨-, rfl⟩
      exact Or.inl rfl
  · rw [show (createNativeEntry k now).key = k from rfl, readLater_append]
    refine iff_of_false ?_ (Int.lt_irrefl _)
    rintro (⟨t, r, hop, -⟩ | ⟨hne, -⟩)
    · cases hop
    · exact hne rfl
  · rw [show (createNativeEntry k now).key = k from rfl, Disturbed, inLife_append]
    refine iff_of_false ?_ (Int.lt_irrefl 0)
    rintro ⟨-, ⟨-, hmem, -⟩ | hlife⟩
    · exact hnew hmem
    · exact hnew hlife.mem

theorem acquire (h : Compared cap ops lost e e') (hmem : e.key ∈ reference cap ops)
    (hmem' : e.key ∈ reference cap (ops ++ [.updateOnAcquire e.key now])) :
    Compared cap (ops ++ [.updateOnAcquire e.key now]) (lost + (e.lastChange - e'.lastChange)) (e.acquired now)
      (e'.acquired now) := by
  refine ⟨h.follows.acquired now, fun t => ?_, ?_, ?_⟩
  · rw [WakeLockInfo.key_acquired, heldSince_append]
    constructor
    · rintro (hop | ⟨hne, -⟩)
      · exact ⟨rfl, (StatsOp.updateOnAcquire.inj hop).2⟩
      · exact absurd rfl hne
    · rintro ⟨-, rfl⟩
      exact Or.inl rfl
  · rw [WakeLockInfo.key_acquired, readLater_append]
    refine iff_of_false ?_ (Int.lt_irrefl _)
    rintro (⟨t, r, hop, -⟩ | ⟨hne, -⟩)
    · cases hop
    · exact hne rfl
  · have hlost := h.follows.lost_nonneg
    have hseen := h.follows.seen
    rw [WakeLockInfo.key_acquired, Disturbed, inLife_append, ← Disturbed, h.disturbed, h.read]
    constructor
    · rintro ⟨-, ⟨-, -, hread⟩ | hpos⟩ <;> omega
    · intro hpos
      refine ⟨hmem', ?_⟩
      by_cases hread : e'.lastChange < e.lastChange
      · exact Or.inl ⟨⟨now, rfl⟩, hmem, hread⟩
      · exact Or.inr (by omega)

theorem release (h : Compared cap ops lost e e') (hnow : e.lastChange ≤ now)
    (hmem' : e.key ∈ reference cap (ops ++ [.updateOnRelease e.key now])) :
    Compared cap (ops ++ [.updateOnRelease e.key now]) lost (e.released now) (e'.released now) := by
  refine ⟨h.follows.released hnow, fun t => ?_, ?_, ?_⟩
  · rw [WakeLockInfo.key_released, heldSince_append]
    constructor
    · rintro (hop | ⟨hne, -⟩)
      · cases hop
      · exact absurd rfl hne
    · rintro ⟨hactive, -⟩
      cases hactive
  · rw [WakeLockInfo.key_released, readLater_append]
    refine iff_of_false ?_ (Int.lt_irrefl _)
    rintro (⟨t, r, hop, -⟩ | ⟨hne, -⟩)
    · cases hop
    · exact hne rfl
  · rw [WakeLockInfo.key_released, Disturbed, inLife_append, ← Disturbed, h.disturbed, and_iff_right hmem']
    refine or_iff_right ?_
    rintro ⟨⟨t, hop⟩, -⟩
    cases hop

theorem other (h : Compared cap ops lost e e') {op : StatsOp} (hop : op.key? = some k) (hne : e.key ≠ k)
    (hmem' : e.key ∈ reference cap (ops ++ [op])) : Compared cap (ops ++ [op]) lost e e' := by
  have hkey : op.key? ≠ some e.key := fun hk => hne (Option.some.inj (hk.symm.trans hop))
  refine ⟨h.follows, fun t => ?_, ?_, ?_⟩
  · rw [heldSince_append, ← h.held, and_iff_right hkey]
    refine or_iff_right ?_
    rintro rfl
    exact hkey rfl
  · rw [readLater_append, ← h.read, and_iff_right hkey]
    refine or_iff_right ?_
    rintro ⟨t, r, rfl, -⟩
    cases hop
  · rw [Disturbed, inLife_append, ← Disturbed, h.disturbed, and_iff_right hmem']
    refine or_iff_right ?_
    rintro ⟨⟨t, rfl⟩, -⟩
    exact hkey rfl

theorem updateNow (h : Compared cap ops lost e e') (hnow : e.lastChange ≤ now)
    (hmem' : e.key ∈ reference cap (ops ++ [.updateNow now])) :
    Compared cap (ops ++ [.updateNow now]) lost (e.refreshed now) e' := by
  refine ⟨h.follows.refreshed hnow, fun t => ?_, ?_, ?_⟩
  · rw [WakeLockInfo.key_refreshed, WakeLockInfo.isActive_refreshed, heldSince_append, ← h.held]
    constructor
    · rintro (hop | ⟨-, hheld⟩)
      · cases hop
      · exact hheld
    · exact fun hheld => Or.inr ⟨by simp [StatsOp.key?], hheld⟩
  · have hseen := h.follows.seen
    rw [WakeLockInfo.key_refreshed, readLater_append, h.read]
    unfold WakeLockInfo.refreshed
    split
    · rename_i hactive
      show _ ↔ e'.lastChange < now
      constructor
      · rintro (⟨t, r, hop, hheld, ht⟩ | ⟨-, hread⟩)
        · obtain rfl := StatsOp.updateNow.inj hop
          obtain ⟨-, rfl⟩ := (h.held t).mp hheld
          exact ht
        · omega
      · exact fun hlt => Or.inl ⟨e'.lastChange, now, rfl, (h.held _).mpr ⟨hactive, rfl⟩, hlt⟩
    · rename_i hactive
      constructor
      · rintro (⟨t, r, hop, hheld, ht⟩ | ⟨-, hread⟩)
        · exact absurd ((h.held t).mp hheld).1 hactive
        · exact hread
      · exact fun hread => Or.inr ⟨by simp [StatsOp.key?], hread⟩
  · rw [WakeLockInfo.key_refreshed, Disturbed, inLife_append, ← Disturbed, h.disturbed, and_iff_right hmem']
    refine or_iff_right ?_
    rintro ⟨⟨t, hop⟩, -⟩
    cases hop

theorem onEntry (h : Compared cap ops lost e e') {op : StatsOp} (hop : op.key?.isSome = true)
    (hnow : e.lastChange ≤ op.time) (hmem : e.key ∈ reference cap ops) (hmem' : e.key ∈ reference cap (ops ++ [op])) :
    ∃ lost', Compared cap (ops ++ [op]) lost' (op.onEntry e) (op.onEntry e') := by
  have hkey := h.follows.key
  cases op with
  | updateOnAcquire key now =>
    rw [StatsOp.onEntry, StatsOp.onEntry, ← hkey]
    split
    · rename_i hk
      subst hk
      exact ⟨_, h.acquire hmem hmem'⟩
    · rename_i hk
      exact ⟨lost, h.other rfl hk hmem'⟩
  | updateOnRelease key now =>
    rw [StatsOp.onEntry, StatsOp.onEntry, ← hkey]
    split
    · rename_i hk
      subst hk
      exact ⟨lost, h.release hnow hmem'⟩
    · rename_i hk
      exact ⟨lost, h.other rfl hk hmem'⟩
  | updateNow now => cases hop

end Compared

theorem compared_entriesAfter {cap : Nat} (hcap : 0 < cap) {ops : List StatsOp}
    (htimes : (ops.map StatsOp.time).Pairwise (· ≤ ·)) {e e' : WakeLockInfo} (he : e ∈ entriesAfter cap ops)
    (he' : e' ∈ entriesAfter cap (withoutReads ops)) (hkey : e.key = e'.key) :
    ∃ lost, Compared cap ops lost e e' := by
  induction ops using List.reverseRecOn generalizing e e' with
  | nil => cases he
  | append_singleton ops op ih =>
    obtain ⟨hearlier, hlast⟩ := times_append htimes
    have hmem' := mem_reference hcap he
    rw [entriesAfter_append] at he
    have hkeys := (keys_entriesAfter hcap ops).1
    have hkeys' := (keys_entriesAfter hcap (withoutReads ops)).1
    rw [reference_withoutReads] at hkeys'
    have hnow : ∀ v ∈ entriesAfter cap ops, v.lastChange ≤ op.time := by
      intro v hv
      obtain ⟨created, -, hbounds⟩ := bounds_entriesAfter hcap hearlier hv
      exact (hbounds op.time hlast).lastChange
    by_cases hop : op.key?.isSome = true
    · rw [withoutReads_append, if_pos hop, entriesAfter_append] at he'
      rcases mem_onEntries_cases he with ⟨v, hv, hvkey, rfl⟩ | ⟨t, rfl, hnew, heq⟩
      · have hvmem := mem_reference hcap hv
        rcases mem_onEntries_cases he' with ⟨v', hv', hvkey', rfl⟩ | ⟨t, rfl, hnew', -⟩
        · obtain ⟨lost, hcompared⟩ := ih hearlier hv hv' (by rw [hvkey, hvkey', hkey])
          exact hcompared.onEntry hop (hnow v hv) hvmem (hvkey ▸ hmem')
        · rw [hkeys', ← hkey, ← hvkey] at hnew'
          exact absurd hvmem hnew'
      · rw [hkeys] at hnew
        rcases mem_onEntries_cases he' with ⟨v', hv', hvkey', -⟩ | ⟨t', hop', -, heq'⟩
        · have hvmem : v'.key ∈ reference cap ops := by
            rw [← hkeys']
            exact List.mem_map_of_mem hv'
          exact absurd (by rwa [hvkey', ← hkey] at hvmem) hnew
        · obtain ⟨hk, rfl⟩ := StatsOp.updateOnAcquire.inj hop'
          rw [heq', ← hk, heq]
          exact ⟨0, .created hnew⟩
    · rw [withoutReads_append, if_neg hop, List.append_nil] at he'
      cases op with
      | updateOnAcquire key now => exact absurd rfl hop
      | updateOnRelease key now => exact absurd rfl hop
      | updateNow now =>
        obtain ⟨v, hv, rfl⟩ := List.mem_map.mp he
        rw [WakeLockInfo.key_refreshed] at hkey hmem'
        obtain ⟨lost, hcompared⟩ := ih hearlier hv he' hkey
        exact ⟨lost, hcompared.updateNow (hnow v hv) hmem'⟩

/-! ### What readers see -/

theorem map_observed_iff {α : Type} {f : WakeLockInfo → α} (hf : ∀ e e', f e = f e' → e.key = e'.key)
    {es es' : List WakeLockInfo} (hkeys : keys es = keys es') (hnodup : (keys es').Nodup) :
    es.map f = es'.map f ↔ ∀ e ∈ es, ∀ e' ∈ es', e.key = e'.key → f e = f e' := by
  constructor
  · intro hmap e he e' he' hkey
    obtain ⟨v, hv, hfv⟩ := List.mem_map.mp (hmap ▸ List.mem_map_of_mem he : f e ∈ es'.map f)
    have hsame : v = e' := List.inj_on_of_nodup_map hnodup hv he' ((hf v e hfv).trans hkey)
    rw [← hfv, hsame]
  · intro hall
    clear hnodup
    induction es generalizing es' with
    | nil =>
      have hnil : es' = [] := List.map_eq_nil_iff.mp hkeys.symm
      rw [hnil]
    | cons e es ih =>
      cases es' with
      | nil => cases hkeys
      | cons e' es' =>
        obtain ⟨hkey, hrest⟩ := List.cons.inj hkeys
        rw [List.map_cons, List.map_cons, hall e List.mem_cons_self e' List.mem_cons_self hkey,
          ih hrest fun v hv v' hv' => hall v (List.mem_cons_of_mem _ hv) v' (List.mem_cons_of_mem _ hv')]

/-- When the readers before a last one leave no trace in what it sees: if they never come between two acquires of a lock
without a release, later than the first of them. -/
theorem reads_leave_no_trace (capacity : Nat) (hcap : 1 ≤ capacity) (ops : List StatsOp) (T : Int)
    (htimes : ((ops ++ [StatsOp.updateNow T]).map StatsOp.time).Pairwise (· ≤ ·)) :
    ∃ l l', run capacity (ops ++ [.updateNow T]) = some l ∧
      run capacity (withoutReads ops ++ [.updateNow T]) = some l' ∧
      (l.entries.map observed = l'.entries.map observed ↔ ∀ k, ¬ Disturbed capacity k ops) := by
  obtain ⟨hearlier, hlast⟩ := times_append htimes
  obtain ⟨l, hrun, -, -, hentries⟩ := run_entriesAfter hcap (ops ++ [.updateNow T])
  obtain ⟨l', hrun', -, -, hentries'⟩ := run_entriesAfter hcap (withoutReads ops ++ [.updateNow T])
  refine ⟨l, l', hrun, hrun', ?_⟩
  have hkeys := (keys_entriesAfter hcap ops).1
  obtain ⟨hkeys', hnodup'⟩ := keys_entriesAfter hcap (withoutReads ops)
  rw [reference_withoutReads] at hkeys'
  -- each pair of entries of one key: equal after the last reader iff no time was lost
  have hpair : ∀ e ∈ entriesAfter capacity ops, ∀ e' ∈ entriesAfter capacity (withoutReads ops), e.key = e'.key →
      (observed (e.refreshed T) = observed (e'.refreshed T) ↔ ¬ Disturbed capacity e.key ops) := by
    intro e he e' he' hkey
    obtain ⟨lost, hcompared⟩ := compared_entriesAfter hcap hearlier he he' hkey
    obtain ⟨created, -, hbounds⟩ := bounds_entriesAfter hcap hearlier he
    have hlost := hcompared.follows.lost_nonneg
    rw [hcompared.follows.observed_iff (hbounds T hlast).lastChange, hcompared.disturbed]
    omega
  rw [hentries, hentries', entriesAfter_append, entriesAfter_append]
  show (List.map _ (List.map _ _)) = (List.map _ (List.map _ _)) ↔ _
  rw [List.map_map, List.map_map, map_observed_iff ?_ (hkeys.trans hkeys'.symm) hnodup']
  · constructor
    · intro hall k hdisturbed
      have hmem : k ∈ reference capacity ops := hdisturbed.mem
      obtain ⟨e, he, hk⟩ := List.mem_map.mp (hkeys ▸ hmem : k ∈ keys (entriesAfter capacity ops))
      obtain ⟨e', he', hk'⟩ := List.mem_map.mp (hkeys' ▸ hmem : k ∈ keys (entriesAfter capacity (withoutReads ops)))
      have hkey : e.key = e'.key := hk.trans hk'.symm
      exact (hpair e he e' he' hkey).mp (hall e he e' he' hkey) (hk ▸ hdisturbed)
    · exact fun hnone e he e' he' hkey => (hpair e he e' he' hkey).mpr (hnone e.key)
  · intro e e' h
    have hkey : (e.refreshed T).key = (e'.refreshed T).key := congrArg Prod.fst h
    rwa [WakeLockInfo.key_refreshed, WakeLockInfo.key_refreshed] at hkey

theorem reads_leave_no_trace_one_hold :
    ∃ l l', run 1 ([.updateOnAcquire (str "a", 7) 0, .updateNow 5, .updateOnRelease (str "a", 7) 10] ++
        [.updateNow 20]) = some l ∧
      run 1 (withoutReads [.updateOnAcquire (str "a", 7) 0, .updateNow 5, .updateOnRelease (str "a", 7) 10] ++
        [.updateNow 20]) = some l' ∧
      l.entries.map observed = l'.entries.map observed ∧
      ∀ k, ¬ Disturbed 1 k [.updateOnAcquire (str "a", 7) 0, .updateNow 5, .updateOnRelease (str "a", 7) 10] := by
  obtain ⟨l, l', hrun, hrun', hiff⟩ := reads_leave_no_trace 1 (Nat.le_refl 1)
    [.updateOnAcquire (str "a", 7) 0, .updateNow 5, .updateOnRelease (str "a", 7) 10] 20 (by decide)
  have hsame : (run 1 ([.updateOnAcquire (str "a", 7) 0, .updateNow 5, .updateOnRelease (str "a", 7) 10] ++
        [.updateNow 20])).map (fun l => l.entries.map observed) =
      (run 1 (withoutReads [.updateOnAcquire (str "a", 7) 0, .updateNow 5, .updateOnRelease (str "a", 7) 10] ++
        [.updateNow 20])).map fun l => l.entries.map observed := rfl
  rw [hrun, hrun', Option.map_some, Option.map_some] at hsame
  exact ⟨l, l', hrun, hrun', Option.some.inj hsame, hiff.mp (Option.some.inj hsame)⟩

/-- Two clients acquire one lock at 0 and 10, and somebody reads the statistics at 5: at 20 they report 15 instead of
10. -/
theorem reads_leave_a_trace :
    ∃ l l', run 1 ([.updateOnAcquire (str "a", 7) 0, .updateNow 5, .updateOnAcquire (str "a", 7) 10] ++
        [.updateNow 20]) = some l ∧
      run 1 (withoutReads [.updateOnAcquire (str "a", 7) 0, .updateNow 5, .updateOnAcquire (str "a", 7) 10] ++
        [.updateNow 20]) = some l' ∧
      l.entries.map observed = [((str "a", 7), 15, 10, 10, 2, true)] ∧
      l'.entries.map observed = [((str "a", 7), 10, 10, 10, 2, true)] ∧
      l.entries.map observed ≠ l'.entries.map observed := by
  refine ⟨_, _, rfl, rfl, rfl, rfl, ?_⟩
  show ([((str "a", 7), 15, 10, 10, 2, true)] : List (StatsKey × Int × Int × Int × Int × Bool)) ≠
    [((str "a", 7), 10, 10, 10, 2, true)]
  simp

end HardwareInterfaces.Suspend.WakeLockEntryList
