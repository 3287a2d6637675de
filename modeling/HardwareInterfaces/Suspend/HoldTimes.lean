import Mathlib.Algebra.Order.Ring.Int
import Mathlib.Data.List.Chain
import Mathlib.Data.List.Infix
import HardwareInterfaces.Suspend.WakeLockLru

/-!
# The times of one wake lock

What the entry of a key says about its holds, when nobody acquires the key twice and the entry is not evicted. The entry
accumulates each hold in pieces, one at every `updateNow` and the rest at the release. `Holds.entry` is the entry as
a function of the holds themselves and of the time it was last brought up to date; each operation takes one such
entry to another (`acquired_entry`, `released_entry`, `refreshed_entry`), so the pieces always add up.
-/

namespace HardwareInterfaces.Suspend.WakeLockEntryList

open CppStd

namespace StatsOp

def isAcquire : StatsOp → Bool
  | updateOnAcquire _ _ => true
  | updateOnRelease _ _ => false
  | updateNow _ => false

def time : StatsOp → Int
  | updateOnAcquire _ timeNow => timeNow
  | updateOnRelease _ timeNow => timeNow
  | updateNow timeNow => timeNow

end StatsOp

/-- The holds of one key: when the completed ones began and ended, the newest first, and when the current one
began. -/
structure Holds where
  acquires : Nat
  completed : List (Int × Int)
  since : Option Int
  deriving DecidableEq

namespace Holds

def start : Holds := ⟨0, [], none⟩

def acquire (timeNow : Int) (h : Holds) : Holds := { h with acquires := h.acquires + 1, since := some timeNow }

/-- A release of a key that nobody holds ends nothing. -/
def release (timeNow : Int) (h : Holds) : Holds :=
  match h.since with
  | some began => { h with completed := (began, timeNow) :: h.completed, since := none }
  | none => h

def next (h : Holds) : StatsOp → Holds
  | .updateOnAcquire _ timeNow => h.acquire timeNow
  | .updateOnRelease _ timeNow => h.release timeNow
  | .updateNow _ => h

def durations (T : Int) (h : Holds) : List Int :=
  (h.since.map fun began => T - began).toList ++ h.completed.map fun hold => hold.2 - hold.1

def current (T : Int) (h : Holds) : Int :=
  match h.since with
  | some began => T - began
  | none => 0

/-- The entry of a key with these holds, brought up to date at `seen`. -/
def entry (k : StatsKey) (seen : Int) (h : Holds) : WakeLockInfo :=
  { createNativeEntry k ((h.since.map fun _ => seen).getD ((h.completed.head?.map Prod.snd).getD 0)) with
    activeCount := h.acquires
    maxTime := (h.durations seen).foldr max 0
    totalTime := (h.durations seen).sum
    isActive := h.since.isSome
    activeTime := h.current seen }

variable {k : StatsKey} {h : Holds} {seen began now : Int}

theorem entry_of_free (hsince : h.since = none) (seen seen' : Int) : h.entry k seen = h.entry k seen' := by
  simp [entry, durations, current, hsince]

theorem foldr_max_nonneg (l : List Int) : 0 ≤ l.foldr max 0 := by
  induction l with
  | nil => exact Int.le_refl 0
  | cons d l ih =>
    rw [List.foldr_cons]
    omega

theorem createNativeEntry_eq : createNativeEntry k now = (start.acquire now).entry k now := by
  simp [entry, durations, current, start, acquire, createNativeEntry]

theorem acquired_entry (hsince : h.since = none) :
    (h.entry k seen).acquired now = (h.acquire now).entry k now := by
  have hmax := foldr_max_nonneg (h.completed.map fun hold => hold.2 - hold.1)
  simp only [WakeLockInfo.acquired, entry, durations, current, acquire, createNativeEntry, hsince, Option.isSome_some,
    Option.map_some, Option.map_none, Option.getD_some, Option.toList_some, Option.toList_none, List.nil_append,
    List.singleton_append, List.foldr_cons, List.sum_cons, Int.natCast_add, Int.natCast_one, WakeLockInfo.mk.injEq, true_and,
    and_true]
  refine ⟨?_, ?_, ?_⟩ <;> omega

theorem refreshed_entry (hsince : h.since = some began) (hnow : seen ≤ now) :
    (h.entry k seen).refreshed now = h.entry k now := by
  simp only [WakeLockInfo.refreshed, entry, durations, current, createNativeEntry, hsince, Option.isSome_some,
    if_true, Option.map_some, Option.getD_some, Option.toList_some, List.singleton_append, List.foldr_cons,
    List.sum_cons, WakeLockInfo.mk.injEq, true_and, and_true]
  refine ⟨?_, ?_, ?_⟩ <;> omega

theorem released_entry (hsince : h.since = some began) (hnow : seen ≤ now) :
    (h.entry k seen).released now = (h.release now).entry k now := by
  simp only [WakeLockInfo.released, entry, durations, current, release, createNativeEntry, hsince, Option.isSome_none,
    Option.isSome_some, Option.map_some, Option.map_none, Option.getD_some, Option.getD_none, Option.toList_some,
    Option.toList_none, List.nil_append, List.singleton_append, List.map_cons, List.foldr_cons, List.sum_cons,
    List.head?_cons, WakeLockInfo.mk.injEq, true_and, and_true]
  refine ⟨?_, ?_⟩ <;> omega

end Holds

/-- The operations on one key. -/
def onKey (k : StatsKey) (ops : List StatsOp) : List StatsOp := ops.filter fun op => op.key? = some k

def holds (k : StatsKey) (ops : List StatsOp) : Holds := (onKey k ops).foldl Holds.next .start

def Alternate (k : StatsKey) (ops : List StatsOp) : Prop :=
  (onKey k ops).IsChain fun op op' => op.isAcquire ≠ op'.isAcquire

instance (k : StatsKey) (ops : List StatsOp) : Decidable (Alternate k ops) := inferInstanceAs (Decidable (List.IsChain _ _))

/-- The key is never evicted once it has been acquired. -/
def Kept (cap : Nat) (k : StatsKey) (ops : List StatsOp) : Prop :=
  ∀ earlier, earlier <+: ops → (∃ t, .updateOnAcquire k t ∈ earlier) →
    ∃ l, run cap earlier = some l ∧ k ∈ keys l.entries

section

variable {k : StatsKey} {ops : List StatsOp} {op : StatsOp}

theorem onKey_append : onKey k (ops ++ [op]) = onKey k ops ++ if op.key? = some k then [op] else [] := by
  rw [onKey, List.filter_append, List.filter_singleton, onKey]
  simp

theorem holds_append :
    holds k (ops ++ [op]) = if op.key? = some k then (holds k ops).next op else holds k ops := by
  rw [holds, onKey_append, List.foldl_append]
  split <;> rfl

theorem acquires_holds (k : StatsKey) (ops : List StatsOp) :
    (holds k ops).acquires = ops.countP fun op => op.key? = some k ∧ op.isAcquire := by
  induction ops using List.reverseRecOn with
  | nil => rfl
  | append_singleton ops op ih =>
    rw [holds_append, List.countP_append, ← ih]
    cases op with
    | updateOnAcquire key now =>
      by_cases hkey : key = k <;> simp [StatsOp.key?, StatsOp.isAcquire, Holds.next, Holds.acquire, hkey]
    | updateOnRelease key now =>
      have hrelease : ((holds k ops).release now).acquires = (holds k ops).acquires := by
        unfold Holds.release
        split <;> rfl
      by_cases hkey : key = k <;> simp [StatsOp.key?, StatsOp.isAcquire, Holds.next, hrelease, hkey]
    | updateNow now => simp [StatsOp.key?]

theorem acquires_pos : 0 < (holds k ops).acquires ↔ ∃ t, .updateOnAcquire k t ∈ ops := by
  rw [acquires_holds, List.countP_pos_iff]
  constructor
  · rintro ⟨op, hop, hkey⟩
    cases op with
    | updateOnAcquire key now =>
      obtain rfl : key = k := by simpa [StatsOp.key?, StatsOp.isAcquire] using hkey
      exact ⟨now, hop⟩
    | updateOnRelease key now => simp [StatsOp.isAcquire] at hkey
    | updateNow now => simp [StatsOp.isAcquire] at hkey
  · rintro ⟨t, ht⟩
    exact ⟨_, ht, by simp [StatsOp.key?, StatsOp.isAcquire]⟩

/-- The key is held when the last operation on it was an acquire. -/
theorem since_holds (k : StatsKey) (ops : List StatsOp) :
    (holds k ops).since.isSome = ((onKey k ops).getLast?.map StatsOp.isAcquire).getD false := by
  induction ops using List.reverseRecOn with
  | nil => rfl
  | append_singleton ops op ih =>
    rw [holds_append, onKey_append]
    by_cases hkey : op.key? = some k
    · rw [if_pos hkey, if_pos hkey, List.getLast?_append_of_ne_nil _ (by simp)]
      cases op with
      | updateOnAcquire key now => rfl
      | updateOnRelease key now =>
        simp only [Holds.next, Holds.release, List.getLast?_singleton, Option.map_some, Option.getD_some,
          StatsOp.isAcquire]
        split
        · rfl
        · rename_i hnone
          rw [hnone]
          rfl
      | updateNow now => cases hkey
    · rw [if_neg hkey, if_neg hkey, List.append_nil]
      exact ih

theorem Alternate.earlier (h : Alternate k (ops ++ [op])) : Alternate k ops := by
  rw [Alternate, onKey_append, List.isChain_append] at h
  exact h.1

theorem Alternate.since (h : Alternate k (ops ++ [op])) (hop : op.key? = some k) (hpos : 0 < (holds k ops).acquires) :
    (holds k ops).since.isSome = !op.isAcquire := by
  rw [Alternate, onKey_append, if_pos hop, List.isChain_append] at h
  rw [since_holds]
  cases hlast : (onKey k ops).getLast? with
  | none =>
    rw [holds, List.getLast?_eq_none_iff.mp hlast] at hpos
    exact absurd hpos (Nat.lt_irrefl 0)
  | some last =>
    have hne := h.2.2 last hlast op rfl
    simpa using Bool.eq_not_of_ne hne

end

/-! ### The entry of the key -/

/-- The list has no entry of a key that was not acquired; the entry of the others is that of their holds. -/
def Tracks (k : StatsKey) (ops : List StatsOp) (es : List WakeLockInfo) : Prop :=
  (holds k ops = .start ∧ k ∉ keys es) ∨
    (0 < (holds k ops).acquires ∧
      ∃ seen, (holds k ops).entry k seen ∈ es ∧ ∀ now, (∀ op ∈ ops, op.time ≤ now) → seen ≤ now)

section

variable {cap : Nat} {k : StatsKey} {es : List WakeLockInfo} {ops : List StatsOp} {now : Int}

theorem touched_of_mem {update : WakeLockInfo → WakeLockInfo} {absent : List WakeLockInfo} (h : (keys es).Nodup)
    {e : WakeLockInfo} (he : e ∈ es) : update e ∈ touched update absent es e.key := by
  rw [touched, find_key h he]
  exact List.mem_cons_self

theorem Tracks.acquire (h : Tracks k ops es) (hnodup : (keys es).Nodup)
    (halt : Alternate k (ops ++ [.updateOnAcquire k now])) :
    Tracks k (ops ++ [.updateOnAcquire k now]) (onAcquire cap es k now) := by
  have hholds : holds k (ops ++ [.updateOnAcquire k now]) = (holds k ops).acquire now :=
    holds_append.trans (if_pos rfl)
  refine Or.inr ⟨?_, now, ?_, fun t ht => ht (.updateOnAcquire k now) (by simp)⟩
  · rw [hholds]
    exact Nat.succ_pos _
  · rw [hholds]
    rcases h with ⟨hstart, hnew⟩ | ⟨hpos, seen, hmem, -⟩
    · rw [onAcquire, touched, find_key_none hnew, hstart, ← Holds.createNativeEntry_eq]
      exact List.mem_cons_self
    · have hsince : (holds k ops).since = none := by simpa [StatsOp.isAcquire] using halt.since rfl hpos
      rw [← Holds.acquired_entry hsince]
      exact touched_of_mem hnodup hmem

theorem Tracks.release (h : Tracks k ops es) (hnodup : (keys es).Nodup)
    (halt : Alternate k (ops ++ [.updateOnRelease k now])) (htimes : ∀ op ∈ ops, op.time ≤ now) :
    Tracks k (ops ++ [.updateOnRelease k now]) (onRelease es k now) := by
  have hholds : holds k (ops ++ [.updateOnRelease k now]) = (holds k ops).release now :=
    holds_append.trans (if_pos rfl)
  rw [Tracks, hholds]
  rcases h with ⟨hstart, hnew⟩ | ⟨hpos, seen, hmem, hseen⟩
  · rw [onRelease, touched, find_key_none hnew, hstart]
    exact Or.inl ⟨rfl, hnew⟩
  · obtain ⟨began, hsince⟩ : ∃ began, (holds k ops).since = some began :=
      Option.isSome_iff_exists.mp (by simpa [StatsOp.isAcquire] using halt.since rfl hpos)
    refine Or.inr ⟨?_, now, ?_, fun t ht => ht (.updateOnRelease k now) (by simp)⟩
    · rw [Holds.release, hsince]
      exact hpos
    · rw [← Holds.released_entry hsince (hseen now htimes)]
      exact touched_of_mem hnodup hmem

theorem entry_onNow {h : Holds} {seen : Int} (hmem : h.entry k seen ∈ es) (hseen : seen ≤ now) :
    h.entry k now ∈ onNow es now := by
  refine List.mem_map.mpr ⟨_, hmem, ?_⟩
  cases hsince : h.since with
  | none =>
    have hfree : (h.entry k seen).isActive = false := by simp [Holds.entry, hsince]
    rw [WakeLockInfo.refreshed, hfree, Holds.entry_of_free hsince seen now]
    rfl
  | some began => exact Holds.refreshed_entry hsince hseen

theorem Tracks.updateNow (h : Tracks k ops es) (htimes : ∀ op ∈ ops, op.time ≤ now) :
    Tracks k (ops ++ [.updateNow now]) (onNow es now) := by
  have hholds : holds k (ops ++ [.updateNow now]) = holds k ops := by
    rw [holds_append, if_neg (by simp [StatsOp.key?])]
  rw [Tracks, hholds]
  rcases h with ⟨hstart, hnew⟩ | ⟨hpos, seen, hmem, hseen⟩
  · refine Or.inl ⟨hstart, ?_⟩
    simpa [onNow, keys, Function.comp_def] using hnew
  · exact Or.inr ⟨hpos, now, entry_onNow hmem (hseen now htimes), fun t ht => ht (.updateNow now) (by simp)⟩

/-- The operations on the other keys move the entry, and evict it if it is not kept. -/
theorem Tracks.other (h : Tracks k ops es) (hnodup : (keys es).Nodup) {op : StatsOp} {key : StatsKey}
    (hop : op.key? = some key) (hne : key ≠ k)
    (hkept : 0 < (holds k ops).acquires → k ∈ keys (op.onEntries cap es)) :
    Tracks k (ops ++ [op]) (op.onEntries cap es) := by
  have hholds : holds k (ops ++ [op]) = holds k ops := by
    rw [holds_append, if_neg (by simpa [hop] using hne)]
  rw [Tracks, hholds]
  have hold : ∀ e ∈ op.onEntries cap es, e.key = k → e ∈ es := by
    intro e he hk
    refine mem_onEntries hop he ?_
    rw [hk]
    exact hne.symm
  rcases h with ⟨hstart, hnew⟩ | ⟨hpos, seen, hmem, hseen⟩
  · refine Or.inl ⟨hstart, fun hk => hnew ?_⟩
    obtain ⟨e, he, hkey⟩ := List.mem_map.mp hk
    exact List.mem_map.mpr ⟨e, hold e he hkey, hkey⟩
  · obtain ⟨e, he, hkey⟩ := List.mem_map.mp (hkept hpos)
    have heq := List.inj_on_of_nodup_map hnodup (hold e he hkey) hmem hkey
    exact Or.inr ⟨hpos, seen, heq ▸ he, fun t ht => hseen t fun op' hop' => ht op' (List.mem_append_left _ hop')⟩

end

theorem run_tracks {cap : Nat} (hcap : 0 < cap) {k : StatsKey} {ops : List StatsOp}
    (htimes : (ops.map StatsOp.time).Pairwise (· ≤ ·)) (halt : Alternate k ops) (hkept : Kept cap k ops) :
    ∃ l, run cap ops = some l ∧ l.Valid ∧ l.mCapacity = cap ∧ Tracks k ops l.entries := by
  induction ops using List.reverseRecOn with
  | nil => exact ⟨create cap, rfl, create_valid cap, rfl, Or.inl ⟨rfl, List.not_mem_nil⟩⟩
  | append_singleton ops op ih =>
    rw [List.map_append, List.pairwise_append] at htimes
    obtain ⟨htimes, -, hlast⟩ := htimes
    obtain ⟨l, hrun, hvalid, hcap', htracks⟩ := ih htimes halt.earlier
      fun earlier hearlier => hkept earlier (hearlier.trans (List.prefix_append _ _))
    obtain ⟨l', happly, hvalid', hcap'', hentries⟩ := apply_spec hvalid (hcap' ▸ hcap) op
    have hrun' : run cap (ops ++ [op]) = some l' := by rw [run_append, hrun, Option.bind_some, happly]
    have hbefore : ∀ earlier ∈ ops, earlier.time ≤ op.time := fun earlier hearlier =>
      hlast _ (List.mem_map_of_mem hearlier) _ (by simp)
    refine ⟨l', hrun', hvalid', hcap''.trans hcap', ?_⟩
    have hother : ∀ key, op.key? = some key → key ≠ k → Tracks k (ops ++ [op]) l'.entries := by
      intro key hkey hne
      rw [hentries]
      refine htracks.other hvalid.nodup hkey hne fun hpos => ?_
      obtain ⟨t, ht⟩ := acquires_pos.mp hpos
      obtain ⟨l'', hrun'', hk⟩ := hkept (ops ++ [op]) (List.prefix_refl _) ⟨t, List.mem_append_left _ ht⟩
      obtain rfl : l' = l'' := Option.some.inj (hrun'.symm.trans hrun'')
      exact hentries ▸ hk
    cases op with
    | updateOnAcquire key now =>
      by_cases hkey : key = k
      · subst hkey
        exact hentries ▸ htracks.acquire hvalid.nodup halt
      · exact hother key rfl hkey
    | updateOnRelease key now =>
      by_cases hkey : key = k
      · subst hkey
        exact hentries ▸ htracks.release hvalid.nodup halt hbefore
      · exact hother key rfl hkey
    | updateNow now => exact hentries ▸ htracks.updateNow hbefore

/-! ### The durations -/

theorem holds_times {k : StatsKey} {ops : List StatsOp} (htimes : (ops.map StatsOp.time).Pairwise (· ≤ ·)) :
    (∀ began, (holds k ops).since = some began → ∃ op ∈ ops, op.time = began) ∧
      ∀ hold ∈ (holds k ops).completed, hold.1 ≤ hold.2 := by
  induction ops using List.reverseRecOn with
  | nil =>
    constructor
    · intro began hbegan
      cases hbegan
    · intro hold hhold
      cases hhold
  | append_singleton ops op ih =>
    rw [List.map_append, List.pairwise_append] at htimes
    obtain ⟨htimes, -, hlast⟩ := htimes
    obtain ⟨hsince, hcompleted⟩ := ih htimes
    have hkeep : ∀ began, (holds k ops).since = some began → ∃ op' ∈ ops ++ [op], op'.time = began := by
      intro began hbegan
      obtain ⟨op', hop', htime⟩ := hsince began hbegan
      exact ⟨op', List.mem_append_left _ hop', htime⟩
    rw [holds_append]
    split
    · cases op with
      | updateOnAcquire key now =>
        refine ⟨fun began hbegan => ⟨.updateOnAcquire key now, by simp, ?_⟩, hcompleted⟩
        exact Option.some.inj hbegan
      | updateOnRelease key now =>
        simp only [Holds.next, Holds.release]
        split
        · rename_i began hbegan
          refine ⟨fun later hlater => absurd hlater (by simp), fun hold hhold => ?_⟩
          rcases List.mem_cons.mp hhold with rfl | hhold
          · obtain ⟨op', hop', rfl⟩ := hsince began hbegan
            exact hlast _ (List.mem_map_of_mem hop') now (by simp [StatsOp.time])
          · exact hcompleted hold hhold
        · exact ⟨hkeep, hcompleted⟩
      | updateNow now => exact ⟨hkeep, hcompleted⟩
    · exact ⟨hkeep, hcompleted⟩

theorem durations_nonneg {k : StatsKey} {ops : List StatsOp} {T : Int}
    (htimes : ((ops ++ [StatsOp.updateNow T]).map StatsOp.time).Pairwise (· ≤ ·)) :
    ∀ d ∈ (holds k ops).durations T, 0 ≤ d := by
  rw [List.map_append, List.pairwise_append] at htimes
  obtain ⟨htimes, -, hlast⟩ := htimes
  obtain ⟨hsince, hcompleted⟩ := holds_times (k := k) htimes
  intro d hd
  rcases List.mem_append.mp hd with hd | hd
  · obtain ⟨began, hbegan, rfl⟩ := Option.map_eq_some_iff.mp (Option.mem_toList.mp hd)
    obtain ⟨op, hop, rfl⟩ := hsince began hbegan
    have := hlast _ (List.mem_map_of_mem hop) T (by simp [StatsOp.time])
    omega
  · obtain ⟨hold, hhold, rfl⟩ := List.mem_map.mp hd
    have := hcompleted hold hhold
    omega

theorem durations_ne_nil {k : StatsKey} {ops : List StatsOp} (hpos : 0 < (holds k ops).acquires) (T : Int) :
    (holds k ops).durations T ≠ [] := by
  have hheld : ∀ {h : Holds}, h.durations T = [] ↔ h.since = none ∧ h.completed = [] := by
    intro h
    simp [Holds.durations]
  induction ops using List.reverseRecOn with
  | nil => exact absurd hpos (Nat.lt_irrefl 0)
  | append_singleton ops op ih =>
    rw [holds_append] at hpos ⊢
    split at hpos
    · cases op with
      | updateOnAcquire key now => simp [Holds.next, Holds.acquire, *]
      | updateOnRelease key now =>
        rename_i hkey
        rw [if_pos hkey]
        simp only [Holds.next, Holds.release] at hpos ⊢
        split at hpos
        · simp [hheld]
        · exact ih hpos
      | updateNow now => rename_i hkey; cases hkey
    · rename_i hkey
      rw [if_neg hkey]
      exact ih hpos

theorem foldr_max_greatest {l : List Int} (hne : l ≠ []) (hpos : ∀ d ∈ l, 0 ≤ d) :
    l.foldr max 0 ∈ l ∧ ∀ d ∈ l, d ≤ l.foldr max 0 := by
  induction l with
  | nil => exact absurd rfl hne
  | cons d l ih =>
    have hd := hpos d List.mem_cons_self
    rw [List.foldr_cons]
    cases l with
    | nil =>
      rw [List.foldr_nil, Int.max_eq_left hd]
      exact ⟨List.mem_cons_self, fun x hx => Int.le_of_eq (List.mem_singleton.mp hx)⟩
    | cons d' l =>
      obtain ⟨hmem, hle⟩ := ih (List.cons_ne_nil d' l) fun x hx => hpos x (List.mem_cons_of_mem d hx)
      constructor
      · rcases Int.le_total d ((d' :: l).foldr max 0) with hmax | hmax
        · rw [Int.max_eq_right hmax]
          exact List.mem_cons_of_mem d hmem
        · rw [Int.max_eq_left hmax]
          exact List.mem_cons_self
      · intro x hx
        rcases List.mem_cons.mp hx with rfl | hx
        · exact Int.le_max_left x _
        · exact Int.le_trans (hle x hx) (Int.le_max_right d _)

/-- A sequence of operations in the order of time in which nobody acquires `k` while it is held, `k` is acquired, and
its entry stays. -/
structure SingleHolder (cap : Nat) (k : StatsKey) (ops : List StatsOp) (T : Int) : Prop where
  times : ((ops ++ [StatsOp.updateNow T]).map StatsOp.time).Pairwise (· ≤ ·)
  alternate : Alternate k ops
  kept : Kept cap k ops
  acquired : ∃ t, .updateOnAcquire k t ∈ ops

theorem run_valid {cap : Nat} {ops : List StatsOp} {l : WakeLockEntryList} (hrun : run cap ops = some l) :
    l.Valid ∧ l.mCapacity = cap := by
  induction ops using List.reverseRecOn generalizing l with
  | nil =>
    obtain rfl := Option.some.inj hrun
    exact ⟨create_valid cap, rfl⟩
  | append_singleton ops op ih =>
    rw [run_append] at hrun
    obtain ⟨before, hbefore, happly⟩ := Option.bind_eq_some_iff.mp hrun
    obtain ⟨hvalid, hcap⟩ := ih hbefore
    rw [← hcap]
    cases op with
    | updateOnAcquire key now =>
      obtain ⟨l', hl', hvalid', hcap', -⟩ := updateOnAcquire_spec hvalid (capacity_pos hvalid happly) key now
      obtain rfl := Option.some.inj (hl'.symm.trans happly)
      exact ⟨hvalid', hcap'⟩
    | updateOnRelease key now =>
      obtain ⟨l', hl', hvalid', hcap', -⟩ := updateOnRelease_spec hvalid key now
      obtain rfl := Option.some.inj (hl'.symm.trans happly)
      exact ⟨hvalid', hcap'⟩
    | updateNow now =>
      obtain rfl := Option.some.inj happly
      exact ⟨(updateNow_spec hvalid now).1, rfl⟩

theorem SingleHolder.entry {cap : Nat} {k : StatsKey} {ops : List StatsOp} {T : Int}
    (h : SingleHolder cap k ops T) :
    ∃ l, run cap (ops ++ [.updateNow T]) = some l ∧ (keys l.entries).Nodup ∧
      (holds k ops).entry k T ∈ l.entries := by
  have hcap : 0 < cap := by
    obtain ⟨l, hrun, hk⟩ := h.kept ops (List.prefix_refl ops) h.acquired
    obtain ⟨hvalid, hcap⟩ := run_valid hrun
    have hpos := List.length_pos_of_mem hk
    have hsize := hvalid.size
    rw [keys, List.length_map] at hpos
    omega
  have htimes := h.times
  rw [List.map_append, List.pairwise_append] at htimes
  obtain ⟨htimes, -, hlast⟩ := htimes
  have hbefore : ∀ op ∈ ops, op.time ≤ T := fun op hop =>
    hlast _ (List.mem_map_of_mem hop) T (by simp [StatsOp.time])
  obtain ⟨l, hrun, hvalid, -, htracks⟩ := run_tracks hcap htimes h.alternate h.kept
  obtain ⟨hvalid', hentries⟩ := updateNow_spec hvalid T
  refine ⟨l.updateNow T, ?_, hvalid'.nodup, ?_⟩
  · rw [run_append, hrun]
    rfl
  · rcases htracks with ⟨hstart, -⟩ | ⟨-, seen, hmem, hseen⟩
    · have hpos := acquires_pos.mpr h.acquired
      rw [hstart] at hpos
      exact absurd hpos (Nat.lt_irrefl 0)
    · rw [hentries]
      exact entry_onNow hmem (hseen T hbefore)

/-- The entry of a key accounts for its holds exactly, whatever else was done to the list and however often the
statistics were brought up to date. -/
theorem hold_times (capacity : Nat) (k : StatsKey) (ops : List StatsOp) (T : Int)
    (h : SingleHolder capacity k ops T) :
    ∃ l e, run capacity (ops ++ [.updateNow T]) = some l ∧
      (∀ e', (e' ∈ l.entries ∧ e'.key = k) ↔ e' = e) ∧
      e.activeCount = (ops.countP fun op => op.key? = some k ∧ op.isAcquire) ∧
      e.totalTime = ((holds k ops).durations T).sum ∧
      (e.maxTime ∈ (holds k ops).durations T ∧ ∀ d ∈ (holds k ops).durations T, d ≤ e.maxTime) ∧
      e.activeTime = (holds k ops).current T ∧
      (e.isActive ↔ (holds k ops).since.isSome) ∧
      ∀ capacity' ops' l' e', SingleHolder capacity' k ops' T → onKey k ops' = onKey k ops →
        run capacity' (ops' ++ [.updateNow T]) = some l' → e' ∈ l'.entries → e'.key = k → e' = e := by
  obtain ⟨l, hrun, hnodup, hmem⟩ := h.entry
  have hunique : ∀ {l : WakeLockEntryList}, (keys l.entries).Nodup → (holds k ops).entry k T ∈ l.entries →
      ∀ e' ∈ l.entries, e'.key = k → e' = (holds k ops).entry k T := by
    intro l hnodup hmem e' he' hkey
    exact List.inj_on_of_nodup_map hnodup he' hmem hkey
  have hmax := foldr_max_greatest (durations_ne_nil (acquires_pos.mpr h.acquired) T) (durations_nonneg h.times)
  refine ⟨l, (holds k ops).entry k T, hrun, fun e' => ⟨fun he' => ?_, ?_⟩, ?_, rfl, hmax, rfl, Iff.rfl, ?_⟩
  · exact hunique hnodup hmem e' he'.1 he'.2
  · rintro rfl
    exact ⟨hmem, rfl⟩
  · rw [← acquires_holds]
    rfl
  · intro capacity' ops' l' e' h' hsame hrun' he' hkey
    obtain ⟨l'', hrun'', hnodup', hmem'⟩ := h'.entry
    obtain rfl := Option.some.inj (hrun''.symm.trans hrun')
    rw [holds, hsame, ← holds] at hmem'
    exact hunique hnodup' hmem' e' he' hkey

/-- A lock held twice, with statistics read during both holds and an entry of another process. -/
theorem hold_times_two_holds :
    ∃ l e, run 2 [.updateOnAcquire (str "wl", 7) 10, .updateNow 12, .updateOnAcquire (str "wl", 8) 13,
        .updateOnRelease (str "wl", 7) 20, .updateOnAcquire (str "wl", 7) 30, .updateNow 31, .updateNow 34] = some l ∧
      e ∈ l.entries ∧ e.key = (str "wl", 7) ∧ e.activeCount = 2 ∧ e.totalTime = 14 ∧ 10 ≤ e.maxTime ∧
      e.activeTime = 4 ∧ e.isActive = true := by
  let ops : List StatsOp := [.updateOnAcquire (str "wl", 7) 10, .updateNow 12, .updateOnAcquire (str "wl", 8) 13,
    .updateOnRelease (str "wl", 7) 20, .updateOnAcquire (str "wl", 7) 30, .updateNow 31]
  have hkept : Kept 2 (str "wl", 7) ops := by
    intro earlier hearlier hacquired
    have hinits := (List.mem_inits _ _).mpr hearlier
    simp only [ops, List.inits, List.map_cons, List.map_nil, List.mem_cons, List.not_mem_nil, or_false] at hinits
    rcases hinits with rfl | rfl | rfl | rfl | rfl | rfl | rfl
    · obtain ⟨t, ht⟩ := hacquired
      cases ht
    all_goals exact ⟨_, rfl, by decide⟩
  obtain ⟨l, e, hrun, hentry, hcount, htotal, ⟨-, hmax⟩, htime, hactive, -⟩ := hold_times 2 (str "wl", 7) ops 34
    ⟨by decide, by decide, hkept, 10, by decide⟩
  have he := (hentry e).mpr rfl
  exact ⟨l, e, hrun, he.1, he.2, hcount, htotal, hmax 10 (by decide), htime, hactive.mpr (by decide)⟩

end HardwareInterfaces.Suspend.WakeLockEntryList
