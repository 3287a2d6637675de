import Mathlib.Data.List.AList

/-!
# Loops over the entries of a map

A loop over a map that overwrites the value of each entry or erases the entry, while it is at that entry, does to every
entry what it does to it at its turn.
-/

namespace CppStd

open AList

variable {α β : Type} [DecidableEq α] {a a' : α} {b : β} {m : AList fun _ : α => β}

theorem kreplace_cons (s : Sigma fun _ : α => β) (l : List (Sigma fun _ : α => β)) :
    List.kreplace a b (s :: l) = if a = s.1 then ⟨a, b⟩ :: l else s :: List.kreplace a b l := by
  rw [List.kreplace, List.lookmap_cons]
  by_cases hs : a = s.1
  · simp [hs]
  · simp [hs]

theorem lookup_replace (h : a ∈ m) : (m.replace a b).lookup a = some b := by
  obtain ⟨l, hl⟩ := m
  show (List.kreplace a b l).dlookup a = some b
  have hkeys : a ∈ l.keys := h
  clear h hl
  induction l with
  | nil => cases hkeys
  | cons s l ih =>
    rw [kreplace_cons]
    by_cases hs : a = s.1
    · rw [if_pos hs, List.dlookup_cons_eq]
    · rw [if_neg hs, List.dlookup_cons_ne _ _ hs]
      exact ih (by simpa [hs] using hkeys)

theorem lookup_replace_ne (hne : a' ≠ a) : (m.replace a b).lookup a' = m.lookup a' := by
  obtain ⟨l, hl⟩ := m
  show (List.kreplace a b l).dlookup a' = l.dlookup a'
  clear hl
  induction l with
  | nil => rfl
  | cons s l ih =>
    rw [kreplace_cons]
    obtain ⟨x, y⟩ := s
    by_cases hs : a = x
    · subst hs
      rw [if_pos rfl, List.dlookup_cons_ne _ _ hne, List.dlookup_cons_ne _ _ hne]
    · rw [if_neg hs]
      by_cases ha : a' = x
      · subst ha
        rw [List.dlookup_cons_eq, List.dlookup_cons_eq]
      · rw [List.dlookup_cons_ne _ _ ha, List.dlookup_cons_ne _ _ ha, ih]

theorem replace_self (h : m.lookup a = some b) : m.replace a b = m := by
  refine AList.ext ?_
  exact List.kreplace_self m.nodupKeys (AList.mem_lookup_iff.mp (Option.mem_def.mpr h))

section loop

variable {turn : (AList fun _ : α => β) → α → AList fun _ : α => β} {f : β → Option β}

/-- A loop over some of the keys, none of them twice. -/
theorem lookup_foldl (hself : ∀ m a, (turn m a).lookup a = (m.lookup a).bind f)
    (hother : ∀ m a a', a' ≠ a → (turn m a).lookup a' = m.lookup a') {keys : List α} (hkeys : keys.Nodup) (a : α) :
    (keys.foldl turn m).lookup a = if a ∈ keys then (m.lookup a).bind f else m.lookup a := by
  induction keys generalizing m with
  | nil => rfl
  | cons k keys ih =>
    obtain ⟨hk, hnodup⟩ := List.nodup_cons.mp hkeys
    rw [List.foldl_cons, ih hnodup]
    by_cases ha : a = k
    · subst ha
      rw [if_neg hk, if_pos List.mem_cons_self, hself]
    · rw [hother m k a ha]
      simp [ha]

theorem lookup_foldl_keys (hself : ∀ m a, (turn m a).lookup a = (m.lookup a).bind f)
    (hother : ∀ m a a', a' ≠ a → (turn m a).lookup a' = m.lookup a') (m : AList fun _ : α => β) (a : α) :
    (m.keys.foldl turn m).lookup a = (m.lookup a).bind f := by
  rw [lookup_foldl hself hother m.keys_nodup a]
  split
  · rfl
  · rename_i ha
    rw [AList.lookup_eq_none.mpr fun hmem => ha (AList.mem_keys.mp hmem)]
    rfl

end loop

end CppStd
