import HardwareInterfaces.Lib.StdMap
import HardwareInterfaces.Suspend.ControlService

/-!
# What the operations of the registry do

The lists of callbacks after each operation of `SuspendControlService` on its registry: a registration adds the callback
at the end of one list, and the death of a binder takes its callbacks out of all lists, and every name out of the map that
is left with none.
-/

namespace HardwareInterfaces.Suspend.Registry

open CppStd

variable {r : Registry} {cb : Callback} {name name' : StdString} {linked : Bool} {who : Binder}

def others (who : Binder) (cbs : List Callback) : List Callback := cbs.filter fun i => i.binder ≠ who

theorem mem_others {i : Callback} {cbs : List Callback} : i ∈ others who cbs ↔ i ∈ cbs ∧ i.binder ≠ who := by
  simp [others]

theorem others_others (cbs : List Callback) : others who (others who cbs) = others who cbs := by
  simp [others, List.filter_filter]

/-! ### Registrations -/

theorem wakelockSlot_fst (r : Registry) (name : StdString) : (r.wakelockSlot name).1 = r.wakelockCallbacks name := by
  unfold wakelockSlot wakelockCallbacks
  cases r.mWakelockCallbacks.lookup name <;> rfl

theorem lookup_wakelockSlot : (r.wakelockSlot name).2.mWakelockCallbacks.lookup name' =
    if name' = name then some (r.wakelockCallbacks name) else r.mWakelockCallbacks.lookup name' := by
  unfold wakelockSlot wakelockCallbacks
  cases h : r.mWakelockCallbacks.lookup name with
  | some cbs =>
    by_cases hname : name' = name
    · subst hname
      simp [h]
    · simp [hname]
  | none =>
    by_cases hname : name' = name
    · subst hname
      simp
    · simp [hname, AList.lookup_insert_ne hname]

theorem wakelockCallbacks_wakelockSlot (r : Registry) (name name' : StdString) :
    (r.wakelockSlot name).2.wakelockCallbacks name' = r.wakelockCallbacks name' := by
  rw [wakelockCallbacks, lookup_wakelockSlot]
  split
  · rename_i hname
    rw [hname]
    rfl
  · rfl

theorem wakelockSlot_mCallbacks (r : Registry) (name : StdString) : (r.wakelockSlot name).2.mCallbacks = r.mCallbacks := by
  unfold wakelockSlot
  split <;> rfl

theorem wakelockSlot_deathLinks (r : Registry) (name : StdString) : (r.wakelockSlot name).2.deathLinks = r.deathLinks := by
  unfold wakelockSlot
  split <;> rfl

/-- A registration that goes on has linked a remote callback, unless it is registered already. -/
theorem linkCallback_eq {r' : Registry} (h : r.linkCallback cb linked = some r') :
    (r' = r ∧ (cb.remote = true → ∃ i ∈ r.mCallbacks, i.binder = cb.binder)) ∨
      (cb.remote = true ∧ linked = true ∧ r' = { r with deathLinks := cb.binder :: r.deathLinks }) := by
  unfold linkCallback at h
  split at h
  · rename_i hnew
    simp only [Bool.and_eq_true, Bool.not_eq_true'] at hnew
    split at h
    · rename_i hlinked
      exact Or.inr ⟨hnew.1, hlinked, (Option.some.inj h).symm⟩
    · cases h
  · rename_i hold
    refine Or.inl ⟨(Option.some.inj h).symm, fun hremote => ?_⟩
    simpa [hremote, hasCb] using hold

theorem linkCallback_mCallbacks {r' : Registry} (h : r.linkCallback cb linked = some r') :
    r'.mCallbacks = r.mCallbacks := by
  rcases linkCallback_eq h with ⟨rfl, -⟩ | ⟨-, -, rfl⟩ <;> rfl

/-- A registration under a name gives up, or goes on without a link for a local callback, or with a new link. -/
theorem linkWakelockCallback_cases (r : Registry) (cb : Callback) (name : StdString) (linked : Bool) :
    r.linkWakelockCallback cb name linked = (false, (r.wakelockSlot name).2) ∨
    ((∀ i ∈ r.wakelockCallbacks name, i.binder ≠ cb.binder) ∧ cb.remote = false ∧
      r.linkWakelockCallback cb name linked = (true, (r.wakelockSlot name).2)) ∨
    ((∀ i ∈ r.wakelockCallbacks name, i.binder ≠ cb.binder) ∧ cb.remote = true ∧ linked = true ∧
      r.linkWakelockCallback cb name linked =
        (true, { (r.wakelockSlot name).2 with deathLinks := cb.binder :: r.deathLinks })) := by
  have hfst := wakelockSlot_fst r name
  have hlinks := wakelockSlot_deathLinks r name
  unfold linkWakelockCallback
  rw [← hfst, ← hlinks]
  dsimp only
  split
  · exact Or.inl rfl
  · rename_i hnew
    have hnew : ∀ i ∈ (r.wakelockSlot name).1, i.binder ≠ cb.binder := by simpa using hnew
    split
    · rename_i hremote
      split
      · rename_i hlinked
        exact Or.inr (Or.inr ⟨hnew, hremote, hlinked, rfl⟩)
      · exact Or.inl rfl
    · rename_i hlocal
      exact Or.inr (Or.inl ⟨hnew, by simpa using hlocal, rfl⟩)

theorem linkWakelockCallback_mCallbacks : (r.linkWakelockCallback cb name linked).2.mCallbacks = r.mCallbacks := by
  rcases linkWakelockCallback_cases r cb name linked with h | ⟨-, -, h⟩ | ⟨-, -, -, h⟩ <;> rw [h] <;>
    exact wakelockSlot_mCallbacks r name

theorem wakelockCallbacks_link :
    (r.linkWakelockCallback cb name linked).2.wakelockCallbacks name' = r.wakelockCallbacks name' := by
  rcases linkWakelockCallback_cases r cb name linked with h | ⟨-, -, h⟩ | ⟨-, -, -, h⟩ <;> rw [h] <;>
    exact wakelockCallbacks_wakelockSlot r name name'

theorem pushWakelockCallback_mCallbacks : (r.pushWakelockCallback cb name).mCallbacks = r.mCallbacks :=
  wakelockSlot_mCallbacks r name

theorem pushWakelockCallback_deathLinks : (r.pushWakelockCallback cb name).deathLinks = r.deathLinks :=
  wakelockSlot_deathLinks r name

theorem wakelockCallbacks_push : (r.pushWakelockCallback cb name).wakelockCallbacks name' =
    if name' = name then r.wakelockCallbacks name ++ [cb] else r.wakelockCallbacks name' := by
  by_cases hname : name' = name
  · subst hname
    rw [if_pos rfl, ← wakelockSlot_fst r]
    simp [pushWakelockCallback, wakelockCallbacks]
  · rw [if_neg hname, ← wakelockCallbacks_wakelockSlot r name]
    simp [pushWakelockCallback, wakelockCallbacks, AList.lookup_insert_ne hname]

/-! ### Deaths -/

def survivors (who : Binder) (cbs : List Callback) : Option (List Callback) :=
  if others who cbs = [] then none else some (others who cbs)

theorem lookup_eraseUnder (m : AList fun _ : StdString => List Callback) (name : StdString) :
    (eraseUnder who m name).lookup name = (m.lookup name).bind (survivors who) := by
  unfold eraseUnder
  cases h : m.lookup name with
  | none => simp [h]
  | some cbs =>
    have hmem : name ∈ m := AList.lookup_isSome.mp (by rw [h]; rfl)
    by_cases hnone : others who cbs = []
    · rw [Option.bind_some, survivors, if_pos hnone]
      exact (congrArg (AList.lookup name) (if_pos hnone)).trans (AList.lookup_erase name m)
    · rw [Option.bind_some, survivors, if_neg hnone]
      exact (congrArg (AList.lookup name) (if_neg hnone)).trans (lookup_replace hmem)

theorem lookup_eraseUnder_ne (m : AList fun _ : StdString => List Callback) (name name' : StdString)
    (hne : name' ≠ name) : (eraseUnder who m name).lookup name' = m.lookup name' := by
  unfold eraseUnder
  split
  · rfl
  · dsimp only
    split
    · exact AList.lookup_erase_ne hne
    · exact lookup_replace_ne hne

/-- The second loop of `binderDied`, which erases names while it goes over them. -/
theorem lookup_eraseWakelockCallbacks : (r.eraseWakelockCallbacks who).mWakelockCallbacks.lookup name =
    (r.mWakelockCallbacks.lookup name).bind (survivors who) :=
  lookup_foldl_keys lookup_eraseUnder lookup_eraseUnder_ne r.mWakelockCallbacks name

theorem wakelockCallbacks_erase :
    (r.eraseWakelockCallbacks who).wakelockCallbacks name = others who (r.wakelockCallbacks name) := by
  rw [wakelockCallbacks, lookup_eraseWakelockCallbacks, wakelockCallbacks]
  cases r.mWakelockCallbacks.lookup name with
  | none => rfl
  | some cbs =>
    simp only [Option.bind_some, survivors]
    split
    · rename_i hnone
      exact hnone.symm
    · rfl

/-- No name is left with an empty list. -/
theorem ne_nil_of_erase {cbs : List Callback}
    (h : (r.eraseWakelockCallbacks who).mWakelockCallbacks.lookup name = some cbs) : cbs ≠ [] := by
  rw [lookup_eraseWakelockCallbacks] at h
  obtain ⟨before, -, hsurvivors⟩ := Option.bind_eq_some_iff.mp h
  unfold survivors at hsurvivors
  split at hsurvivors
  · cases hsurvivors
  · rename_i hne
    obtain rfl := Option.some.inj hsurvivors
    exact hne

/-- The second death of a binder finds nothing to take out. -/
theorem eraseWakelockCallbacks_erase :
    (r.eraseWakelockCallbacks who).eraseWakelockCallbacks who = r.eraseWakelockCallbacks who := by
  have hsame : ∀ keys : List StdString, keys.foldl (eraseUnder who)
      (r.eraseWakelockCallbacks who).mWakelockCallbacks = (r.eraseWakelockCallbacks who).mWakelockCallbacks := by
    intro keys
    induction keys with
    | nil => rfl
    | cons name keys ih =>
      rw [List.foldl_cons]
      suffices heq : eraseUnder who (r.eraseWakelockCallbacks who).mWakelockCallbacks name =
          (r.eraseWakelockCallbacks who).mWakelockCallbacks by rw [heq, ih]
      unfold eraseUnder
      cases hlookup : (r.eraseWakelockCallbacks who).mWakelockCallbacks.lookup name with
      | none => rfl
      | some cbs =>
        have hothers : others who cbs = cbs := by
          rw [lookup_eraseWakelockCallbacks] at hlookup
          obtain ⟨before, -, hsurvivors⟩ := Option.bind_eq_some_iff.mp hlookup
          unfold survivors at hsurvivors
          split at hsurvivors
          · cases hsurvivors
          · rw [← Option.some.inj hsurvivors, others_others]
        have hne : ¬ others who cbs = [] := by
          rw [hothers]
          exact ne_nil_of_erase hlookup
        have hself := replace_self hlookup
        rw [← hothers] at hself
        exact (if_neg hne).trans hself
  rw [eraseWakelockCallbacks, hsame]

end HardwareInterfaces.Suspend.Registry
