import Mathlib.Data.List.Dedup
import Mathlib.Data.List.Induction

/-!
# Least-recently-used caches

A cache of at most `cap` keys, kept as the list of its keys, most recently used first. `step` is the
textbook policy: a hit moves the key to the front, a miss puts it there and drops what no longer fits.
`run_eq_take` is the reason for the name: after any sequence of uses the cache holds the `cap` most
recently used keys, in order of their last use. `makeRoom` is the variant that drops first and inserts
afterwards.
-/

namespace Lru

variable {κ : Type} [DecidableEq κ]

def toFront (k : κ) (ks : List κ) : List κ := k :: ks.erase k

def step (cap : Nat) (ks : List κ) (k : κ) : List κ :=
  if k ∈ ks then toFront k ks else (k :: ks).take cap

def run (cap : Nat) (uses : List κ) : List κ := uses.foldl (step cap) []

/-- The distinct keys of a sequence of uses, most recently used first. -/
def recency (uses : List κ) : List κ := uses.dedup.reverse

/-- Drop the least recently used key of a full cache. -/
def makeRoom {α : Type} (cap : Nat) (ks : List α) : List α := if ks.length = cap then ks.dropLast else ks

theorem erase_eq_filter {ks : List κ} (h : ks.Nodup) (k : κ) : ks.erase k = ks.filter (· ≠ k) := by
  rw [h.erase_eq_filter]
  exact List.filter_congr fun x _ => by rw [Bool.eq_iff_iff, bne_iff_ne, decide_eq_true_iff]

theorem toFront_eq_filter {ks : List κ} (h : ks.Nodup) (k : κ) : toFront k ks = k :: ks.filter (· ≠ k) := by
  rw [toFront, erase_eq_filter h]

theorem run_concat (cap : Nat) (uses : List κ) (k : κ) :
    run cap (uses ++ [k]) = step cap (run cap uses) k := by
  simp [run, List.foldl_append]

theorem step_nodup {cap : Nat} {ks : List κ} (h : ks.Nodup) (k : κ) : (step cap ks k).Nodup := by
  unfold step
  split
  · exact List.nodup_cons.mpr ⟨h.not_mem_erase, h.erase k⟩
  · rename_i hk
    exact (List.take_sublist _ _).nodup (List.nodup_cons.mpr ⟨hk, h⟩)

theorem run_nodup (cap : Nat) (uses : List κ) : (run cap uses).Nodup := by
  induction uses using List.reverseRecOn with
  | nil => exact List.nodup_nil
  | append_singleton uses k ih =>
    rw [run_concat]
    exact step_nodup ih k

theorem dedup_concat (uses : List κ) (k : κ) : (uses ++ [k]).dedup = uses.dedup.erase k ++ [k] := by
  induction uses with
  | nil => simp
  | cons a uses ih =>
    by_cases ha : a ∈ uses
    · rw [List.cons_append, List.dedup_cons_of_mem (List.mem_append_left _ ha), ih,
        List.dedup_cons_of_mem ha]
    · by_cases hk : a = k
      · subst hk
        rw [List.cons_append, List.dedup_cons_of_mem (by simp), ih, List.dedup_cons_of_notMem ha,
          List.erase_cons_head, List.erase_of_not_mem (by simpa using ha)]
      · rw [List.cons_append, List.dedup_cons_of_notMem (by simp [ha, hk]), ih,
          List.dedup_cons_of_notMem ha, List.erase_cons_tail (by simpa using hk), List.cons_append]

theorem recency_concat (uses : List κ) (k : κ) : recency (uses ++ [k]) = toFront k (recency uses) := by
  unfold recency toFront
  rw [dedup_concat, List.reverse_append, List.reverse_singleton, List.singleton_append,
    erase_eq_filter (List.nodup_dedup uses), erase_eq_filter (List.nodup_reverse.mpr (List.nodup_dedup uses)),
    List.filter_reverse]

theorem take_erase_of_not_mem {r : List κ} {k : κ} {c : Nat} (h : k ∉ r.take (c + 1)) :
    (r.erase k).take c = r.take c := by
  induction r generalizing c with
  | nil => rfl
  | cons a r ih =>
    rw [List.take_succ_cons, List.mem_cons, not_or] at h
    rw [List.erase_cons_tail (by simpa using Ne.symm h.1)]
    cases c with
    | zero => rfl
    | succ c => rw [List.take_succ_cons, List.take_succ_cons, ih h.2]

theorem erase_take_of_mem {r : List κ} {k : κ} {c : Nat} (h : k ∈ r.take (c + 1)) :
    (r.take (c + 1)).erase k = (r.erase k).take c := by
  induction r generalizing c with
  | nil => simp at h
  | cons a r ih =>
    rw [List.take_succ_cons] at h ⊢
    by_cases ha : a = k
    · subst ha
      rw [List.erase_cons_head, List.erase_cons_head]
    · have hk : k ∈ r.take c := (List.mem_cons.mp h).resolve_left (Ne.symm ha)
      cases c with
      | zero => simp at hk
      | succ c =>
        rw [List.erase_cons_tail (by simpa using ha), List.erase_cons_tail (by simpa using ha),
          List.take_succ_cons, ih hk]

theorem step_take (cap : Nat) (r : List κ) (k : κ) :
    step cap (r.take cap) k = (toFront k r).take cap := by
  unfold step toFront
  cases cap with
  | zero => simp
  | succ c =>
    split
    · rename_i hk
      rw [List.take_succ_cons, erase_take_of_mem hk]
    · rename_i hk
      rw [List.take_succ_cons, List.take_succ_cons, take_erase_of_not_mem hk, List.take_take,
        Nat.min_eq_left (Nat.le_succ c)]

/-- The cache holds the most recently used keys, in order of their last use. -/
theorem run_eq_take (cap : Nat) (uses : List κ) : run cap uses = (recency uses).take cap := by
  induction uses using List.reverseRecOn with
  | nil => simp [run, recency]
  | append_singleton uses k ih => rw [run_concat, ih, step_take, recency_concat]

/-- A cache that was never too small holds every key that was ever used. -/
theorem mem_run_of_card_le {cap : Nat} {uses : List κ} (h : uses.dedup.length ≤ cap) (k : κ) :
    k ∈ run cap uses ↔ k ∈ uses := by
  rw [run_eq_take, List.take_of_length_le (by simpa [recency] using h), recency, List.mem_reverse,
    List.mem_dedup]

end Lru
