import HardwareInterfaces.Suspend.CallbackLists

/-!
# Registrations that fail

A registration either adds its callback, and a death link, or leaves the registry as it was. The one exception is a
wakelock callback that cannot be linked to death under a name that nobody has registered for: the lookup of the name
has put an empty list there by then, and nothing takes it out again. Apart from that, the only empty list there ever is
belongs to a registration that is about to put its callback into it.
-/

namespace HardwareInterfaces.Suspend

open CppStd Monitor Mutex

namespace Registry

/-! ### Whole calls -/

def registerCallback (callback : Option Callback) (linked : Bool) (r : Registry) : Bool × Registry :=
  match callback with
  | none => (false, r)
  | some cb =>
    match r.linkCallback cb linked with
    | none => (false, r)
    | some r' => (true, r'.pushCallback cb)

def registerWakelockCallback (callback : Option Callback) (name : StdString) (linked : Bool) (r : Registry) :
    Bool × Registry :=
  match callback with
  | none => (false, r)
  | some cb =>
    if name = [] then (false, r)
    else
      let (goesOn, r') := r.linkWakelockCallback cb name linked
      if goesOn then (true, r'.pushWakelockCallback cb name) else (false, r')

def AtMostOneLink (cb : Callback) (r r' : Registry) : Prop :=
  r'.deathLinks = r.deathLinks ∨ r'.deathLinks = cb.binder :: r.deathLinks

/-- A failed call has changed nothing, a successful one has added the callback at the end of the suspend callbacks. -/
def AddsOrFails (callback : Option Callback) (r : Registry) (result : Bool × Registry) : Prop :=
  (result.1 = false → result.2 = r) ∧
  (result.1 = true → ∃ cb, callback = some cb ∧ result.2.mCallbacks = r.mCallbacks ++ [cb] ∧
    result.2.mWakelockCallbacks = r.mWakelockCallbacks ∧ AtMostOneLink cb r result.2)

/-- The same for the callbacks of a wakelock. -/
def ListsOrFails (callback : Option Callback) (name : StdString) (r : Registry) (result : Bool × Registry) : Prop :=
  (result.1 = false → result.2 = r) ∧
  (result.1 = true → ∃ cb, callback = some cb ∧ result.2.mCallbacks = r.mCallbacks ∧
    (∀ name', result.2.mWakelockCallbacks.lookup name' =
      if name' = name then some (r.wakelockCallbacks name ++ [cb]) else r.mWakelockCallbacks.lookup name') ∧
    AtMostOneLink cb r result.2)

/-- A remote callback that cannot be linked to death, for a wakelock nobody has registered for. -/
def FailsNewName (cb : Callback) (name : StdString) (linked : Bool) (r : Registry) : Prop :=
  cb.remote = true ∧ linked = false ∧ name ∉ r.mWakelockCallbacks

variable {r : Registry} {cb : Callback} {name name' : StdString} {linked : Bool}

theorem registerCallback_atomic (callback : Option Callback) (linked : Bool) (r : Registry) :
    AddsOrFails callback r (r.registerCallback callback linked) := by
  unfold registerCallback
  cases callback with
  | none => exact ⟨fun _ => rfl, fun h => absurd h (by simp)⟩
  | some cb =>
    dsimp only
    cases hlink : r.linkCallback cb linked with
    | none => exact ⟨fun _ => rfl, fun h => absurd h (by simp)⟩
    | some r' =>
      refine ⟨fun h => absurd h (by simp), fun _ => ⟨cb, rfl, ?_⟩⟩
      rcases linkCallback_eq hlink with ⟨rfl, -⟩ | ⟨-, -, rfl⟩
      · exact ⟨rfl, rfl, Or.inl rfl⟩
      · exact ⟨rfl, rfl, Or.inr rfl⟩

theorem wakelockSlot_of_mem (h : name ∈ r.mWakelockCallbacks) : (r.wakelockSlot name).2 = r := by
  unfold wakelockSlot
  cases hlookup : r.mWakelockCallbacks.lookup name with
  | some cbs => rfl
  | none => exact absurd h (AList.lookup_eq_none.mp hlookup)

theorem mem_wakelockSlot (r : Registry) (name : StdString) : name ∈ (r.wakelockSlot name).2.mWakelockCallbacks := by
  rw [← AList.lookup_isSome, lookup_wakelockSlot, if_pos rfl]
  rfl

theorem lookup_push : (r.pushWakelockCallback cb name).mWakelockCallbacks.lookup name' =
    if name' = name then some (r.wakelockCallbacks name ++ [cb]) else r.mWakelockCallbacks.lookup name' := by
  by_cases hname : name' = name
  · subst hname
    rw [if_pos rfl, ← wakelockSlot_fst r]
    simp [pushWakelockCallback]
  · have hslot := @lookup_wakelockSlot r name name'
    rw [if_neg hname] at hslot ⊢
    rw [← hslot]
    simp [pushWakelockCallback, AList.lookup_insert_ne hname]

theorem listsOrFails_push {r' : Registry} (hcallbacks : r'.mCallbacks = r.mCallbacks)
    (hmap : r'.mWakelockCallbacks = (r.wakelockSlot name).2.mWakelockCallbacks) (hlinks : AtMostOneLink cb r r') :
    ListsOrFails (some cb) name r (true, r'.pushWakelockCallback cb name) := by
  refine ⟨fun h => absurd h (by simp), fun _ => ⟨cb, rfl, ?_, fun name' => ?_, ?_⟩⟩
  · rw [pushWakelockCallback_mCallbacks, hcallbacks]
  · have hlist : r'.wakelockCallbacks name = r.wakelockCallbacks name := by
      rw [wakelockCallbacks, hmap]
      exact wakelockCallbacks_wakelockSlot r name name
    rw [lookup_push, hlist, hmap]
    split
    · rfl
    · rename_i hname
      rw [lookup_wakelockSlot, if_neg hname]
  · rw [AtMostOneLink, pushWakelockCallback_deathLinks]
    exact hlinks

/-- A registration that gives up has changed nothing, unless it failed to link a callback for a new name. -/
theorem linkWakelockCallback_failed (h : (r.linkWakelockCallback cb name linked).1 = false) :
    (r.linkWakelockCallback cb name linked).2 = r ↔ ¬ FailsNewName cb name linked r := by
  have hslot : (r.linkWakelockCallback cb name linked).2 = (r.wakelockSlot name).2 := by
    rcases linkWakelockCallback_cases r cb name linked with hlink | ⟨-, -, hlink⟩ | ⟨-, -, -, hlink⟩
    · rw [hlink]
    · rw [hlink] at h
      cases h
    · rw [hlink] at h
      cases h
  rw [hslot]
  by_cases hmem : name ∈ r.mWakelockCallbacks
  · exact iff_of_true (wakelockSlot_of_mem hmem) fun hfails => hfails.2.2 hmem
  · -- a new name has no callbacks, so it is the link that has failed
    have hnone : r.wakelockSlot name = ([], (r.wakelockSlot name).2) := by
      refine Prod.ext ?_ rfl
      rw [wakelockSlot_fst, wakelockCallbacks, AList.lookup_eq_none.mpr hmem]
      rfl
    have hfailed : cb.remote = true ∧ linked = false := by
      rw [linkWakelockCallback, hnone] at h
      cases hremote : cb.remote <;> cases linked <;> simp [hremote] at h ⊢
    refine iff_of_false (fun hsame => hmem ?_) fun hnot => hnot ⟨hfailed.1, hfailed.2, hmem⟩
    rw [← hsame]
    exact mem_wakelockSlot r name

theorem linkWakelockCallback_goesOn (h : (r.linkWakelockCallback cb name linked).1 = true) :
    ListsOrFails (some cb) name r (true, (r.linkWakelockCallback cb name linked).2.pushWakelockCallback cb name) ∧
      ¬ FailsNewName cb name linked r := by
  rcases linkWakelockCallback_cases r cb name linked with hlink | ⟨-, hlocal, hlink⟩ | ⟨-, -, hlinked, hlink⟩
  · rw [hlink] at h
    cases h
  · rw [hlink]
    refine ⟨listsOrFails_push (wakelockSlot_mCallbacks r name) rfl (Or.inl (wakelockSlot_deathLinks r name)), ?_⟩
    rintro ⟨hremote, -⟩
    rw [hlocal] at hremote
    cases hremote
  · rw [hlink]
    refine ⟨listsOrFails_push (wakelockSlot_mCallbacks r name) rfl (Or.inr rfl), ?_⟩
    rintro ⟨-, hfailed, -⟩
    rw [hlinked] at hfailed
    cases hfailed

theorem registerWakelockCallback_atomic_iff (callback : Option Callback) (name : StdString) (linked : Bool)
    (r : Registry) :
    ListsOrFails callback name r (r.registerWakelockCallback callback name linked) ↔
      ¬ (name ≠ [] ∧ ∃ cb, callback = some cb ∧ FailsNewName cb name linked r) := by
  cases callback with
  | none =>
    refine iff_of_true ⟨fun _ => rfl, fun h => absurd h (by simp [registerWakelockCallback])⟩ ?_
    rintro ⟨-, cb, hcb, -⟩
    cases hcb
  | some cb =>
    have hfails : (name ≠ [] ∧ ∃ cb', some cb = some cb' ∧ FailsNewName cb' name linked r) ↔
        name ≠ [] ∧ FailsNewName cb name linked r := by
      simp
    rw [hfails, registerWakelockCallback]
    dsimp only
    by_cases hname : name = []
    · rw [if_pos hname]
      exact iff_of_true ⟨fun _ => rfl, fun h => absurd h (by simp)⟩ fun h => h.1 hname
    · rw [if_neg hname, and_iff_right hname]
      cases hgoes : (r.linkWakelockCallback cb name linked).1 with
      | true =>
        obtain ⟨hlists, hnot⟩ := linkWakelockCallback_goesOn hgoes
        exact iff_of_true hlists hnot
      | false =>
        rw [← linkWakelockCallback_failed hgoes]
        exact ⟨fun h => h.1 rfl, fun h => ⟨fun _ => h, fun hfalse => absurd hfalse (by simp)⟩⟩

end Registry

namespace Service

open Registry

/-! ### The blocks of a call -/

section blocks

variable {name : StdString}

theorem registerCallback_blocks (env : Env) (σ : Shared) (cb : Callback) :
    ((registerCallback env σ cb).code = [.run (.pushCallback cb)] ∧
      σ.control.registerCallback (some cb) env.linked =
        (true, (registerCallback env σ cb).state.control.pushCallback cb)) ∨
    ((registerCallback env σ cb).code = [] ∧
      σ.control.registerCallback (some cb) env.linked = (false, (registerCallback env σ cb).state.control)) := by
  unfold registerCallback Registry.registerCallback
  cases hlink : σ.control.linkCallback cb env.linked with
  | none => exact Or.inr ⟨rfl, by simp [hlink]⟩
  | some r' => exact Or.inl ⟨rfl, by simp [hlink]⟩

theorem registerWakelockCallback_blocks (env : Env) (σ : Shared) (cb : Callback) (hname : name ≠ []) :
    ((registerWakelockCallback env σ cb name).code = [.run (.pushWakelockCallback cb name)] ∧
      σ.control.registerWakelockCallback (some cb) name env.linked =
        (true, (registerWakelockCallback env σ cb name).state.control.pushWakelockCallback cb name)) ∨
    ((registerWakelockCallback env σ cb name).code = [] ∧
      σ.control.registerWakelockCallback (some cb) name env.linked =
        (false, (registerWakelockCallback env σ cb name).state.control)) := by
  unfold registerWakelockCallback Registry.registerWakelockCallback
  dsimp only
  rw [if_neg hname]
  cases hgoes : (σ.control.linkWakelockCallback cb name env.linked).1 with
  | true => exact Or.inl ⟨rfl, rfl⟩
  | false => exact Or.inr ⟨rfl, rfl⟩

end blocks

/-! ### Runs -/

/-- A name has an empty list only while a registration for it is about to insert its callback. -/
def EmptyWhileEntering (s : ServiceState) : Prop :=
  ∀ name, s.shared.control.mWakelockCallbacks.lookup name = some [] →
    ∃ t cb c, s.code t = .run (.pushWakelockCallback cb name) :: c

/-- The callbacks that are registered for a new name can be linked to death. -/
def LinksNewNames (s : ServiceState) (a : ServiceAction) : Prop :=
  ∀ t env pick cb name c, a = .step t env pick → s.code t = .run (.registerWakelockCallback cb name) :: c →
    ¬ FailsNewName cb name env.linked s.shared.control

section run

variable {cfg : Config} {s s' : ServiceState} {a : ServiceAction}

theorem lookup_registerWakelockCallback {env : Env} {σ : Shared} {cb : Callback} {name name' : StdString}
    (hlinks : ¬ FailsNewName cb name env.linked σ.control)
    (hempty : (registerWakelockCallback env σ cb name).state.control.mWakelockCallbacks.lookup name' = some []) :
    σ.control.mWakelockCallbacks.lookup name' = some [] ∨
      name' = name ∧ (registerWakelockCallback env σ cb name).code = [.run (.pushWakelockCallback cb name)] := by
  rw [registerWakelockCallback_control] at hempty
  cases hgoes : (σ.control.linkWakelockCallback cb name env.linked).1 with
  | true =>
    by_cases hsame : name' = name
    · refine Or.inr ⟨hsame, ?_⟩
      unfold registerWakelockCallback
      dsimp only
      rw [if_pos hgoes]
    · left
      have hmap : (σ.control.linkWakelockCallback cb name env.linked).2.mWakelockCallbacks =
          (σ.control.wakelockSlot name).2.mWakelockCallbacks := by
        rcases linkWakelockCallback_cases σ.control cb name env.linked with h | ⟨-, -, h⟩ | ⟨-, -, -, h⟩ <;> rw [h]
      rwa [hmap, lookup_wakelockSlot, if_neg hsame] at hempty
  | false =>
    left
    rwa [(linkWakelockCallback_failed hgoes).mpr hlinks] at hempty

theorem EmptyWhileEntering.ran {t : Tid} {b : Block} {env : Env} {c : ThreadCode} {o : Out}
    (h : EmptyWhileEntering s) (hlinks : LinksNewNames s a)
    (hr : (program cfg).Ran s a s' t b env c o) : EmptyWhileEntering s' := by
  -- a thread that is about to insert goes on to be, unless it is its turn
  have hstays : ∀ {name}, s.shared.control.mWakelockCallbacks.lookup name = some [] →
      (∀ cb, b ≠ .pushWakelockCallback cb name) → ∃ u cb c', s'.code u = .run (.pushWakelockCallback cb name) :: c' := by
    intro name hempty hb
    obtain ⟨u, cb, c', hcode⟩ := h name hempty
    have hu : u ≠ t := by
      rintro rfl
      rw [hr.code] at hcode
      exact hb cb (Instr.run.inj (List.cons.inj hcode).1)
    exact ⟨u, cb, c', by rw [hr.code_busy hu (by rw [hcode]; simp), hcode]⟩
  have hexec := exec_of_ran hr
  intro name hempty
  rw [hr.shared] at hempty
  cases b with
  | registerWakelockCallback cb name' =>
    obtain ⟨pick, ha, -⟩ := hr.action
    obtain rfl := Option.some.inj hexec
    rcases lookup_registerWakelockCallback (hlinks t env pick cb name' c ha hr.code) hempty with hold | ⟨rfl, hcode⟩
    · exact hstays hold (by simp)
    · exact ⟨t, cb, c, by rw [hr.code_self, hcode]; rfl⟩
  | pushWakelockCallback cb name' =>
    obtain rfl := Option.some.inj hexec
    rw [show (_ : Out).state.control = s.shared.control.pushWakelockCallback cb name' from rfl, lookup_push] at hempty
    split at hempty
    · simp at hempty
    · rename_i hne
      exact hstays hempty fun cb' hb => hne (Block.pushWakelockCallback.inj hb).2.symm
  | eraseWakelockCallbacks who =>
    obtain rfl := Option.some.inj hexec
    exact absurd rfl (ne_nil_of_erase hempty)
  | registerCallback cb =>
    obtain rfl := Option.some.inj hexec
    have hmap : (registerCallback env s.shared cb).state.control.mWakelockCallbacks =
        s.shared.control.mWakelockCallbacks := by
      unfold registerCallback
      split
      · rename_i r' hlink
        rcases linkCallback_eq hlink with ⟨rfl, -⟩ | ⟨-, -, rfl⟩ <;> rfl
      · rfl
    rw [hmap] at hempty
    exact hstays hempty (by simp)
  | pushCallback cb =>
    obtain rfl := Option.some.inj hexec
    exact hstays hempty (by simp)
  | eraseCallbacks who =>
    obtain rfl := Option.some.inj hexec
    exact hstays hempty (by simp)
  | _ =>
    rw [(exec_frame hexec).control rfl] at hempty
    exact hstays hempty (by simp)

theorem EmptyWhileEntering.quiet (h : EmptyWhileEntering s) (hq : (program cfg).Quiet s a s') :
    EmptyWhileEntering s' := by
  intro name hempty
  rw [hq.shared] at hempty
  obtain ⟨t, cb, c, hcode⟩ := h name hempty
  refine ⟨t, cb, c, ?_⟩
  rcases hq.code t with hsame | ⟨i, c', hi, -, hnot⟩ | ⟨b, -, -, hnil, -⟩
  · rw [hsame, hcode]
  · rw [hcode] at hi
    exact absurd (List.cons.inj hi).1.symm (hnot _)
  · rw [hcode] at hnil
    cases hnil

theorem reach_emptyWhileEntering (h : (program cfg).Reach LinksNewNames s) : EmptyWhileEntering s := by
  refine h.invariant (fun name hempty => ?_) fun s a s' hreach hok hs hstep => ?_
  · cases hempty
  · rcases hstep.quiet_or_ran with hq | ⟨t, b, env, c, o, hr⟩
    · exact hs.quiet hq
    · exact hs.ran hok hr

theorem no_empty_list (h : (program cfg).Reach LinksNewNames s) (hfree : s.owner mWakelockCallbackLock = none)
    (name : StdString) : s.shared.control.mWakelockCallbacks.lookup name ≠ some [] := by
  intro hempty
  obtain ⟨t, cb, c, hcode⟩ := reach_emptyWhileEntering h name hempty
  have howner : s.owner mWakelockCallbackLock = some t :=
    ((h.disciplined (typing_sound cfg)).owns_iff hcode).mpr List.mem_cons_self
  rw [hfree] at howner
  cases howner

end run

/-- Registrations are all or nothing, exactly if no callback fails to be linked for a new name; and as long as none does,
no name is left with an empty list. -/
theorem registrations_atomic (cfg : Config) :
    (∀ (r : Registry) (callback : Option Callback) (linked : Bool),
      AddsOrFails callback r (r.registerCallback callback linked)) ∧
    (∀ (r : Registry) (callback : Option Callback) (name : StdString) (linked : Bool),
      ListsOrFails callback name r (r.registerWakelockCallback callback name linked) ↔
        ¬ (name ≠ [] ∧ ∃ cb, callback = some cb ∧ FailsNewName cb name linked r)) ∧
    (∀ s, (program cfg).Reach LinksNewNames s → s.owner mWakelockCallbackLock = none →
      ∀ name, s.shared.control.mWakelockCallbacks.lookup name ≠ some []) :=
  ⟨fun r callback linked => registerCallback_atomic callback linked r,
    fun r callback name linked => registerWakelockCallback_atomic_iff callback name linked r,
    fun _ hreach hfree name => no_empty_list hreach hfree name⟩

def linksAll : ServiceAction → Bool
  | .step _ env _ => env.linked
  | _ => true

theorem linksAll_spec (s : ServiceState) (a : ServiceAction) (h : linksAll a = true) : LinksNewNames s a := by
  rintro t env pick cb name c rfl - hfails
  have hlinked : env.linked = true := h
  rw [hlinked] at hfails
  cases hfails.2.1

/-- Two clients register for a wakelock, and the first one dies. -/
theorem registrations_atomic_listed : ∃ s, (program smallConfig).Reach LinksNewNames s ∧
    s.shared.control.mWakelockCallbacks.lookup (str "wl") = some [⟨2, true⟩] ∧
    ∀ name, s.shared.control.mWakelockCallbacks.lookup name ≠ some [] := by
  obtain ⟨s, hreach, hs⟩ := Program.Reach.of_run (program smallConfig) (fun _ a => linksAll a)
    (goCall (.client 0) (.registerWakelockCallback (some ⟨1, true⟩) (str "wl")) 5 ++
      goCall (.client 1) (.registerWakelockCallback (some ⟨2, true⟩) (str "wl")) 5 ++
      goCall (.client 0) (.binderDied 1) 7)
    (fun s => s.owner mWakelockCallbackLock = none &&
      s.shared.control.mWakelockCallbacks.lookup (str "wl") = some [⟨2, true⟩]) linksAll_spec (by decide +kernel)
  simp only [Bool.and_eq_true, decide_eq_true_eq] at hs
  exact ⟨s, hreach, hs.2, (registrations_atomic smallConfig).2.2 s hreach hs.1⟩

/-- A client that is dead already registers for a wakelock: the call fails, and the name stays in the map. -/
theorem failed_registration_keeps_name :
    (Registry.registerWakelockCallback (some ⟨1, true⟩) (str "wl") false {}).1 = false ∧
    ¬ ListsOrFails (some ⟨1, true⟩) (str "wl") {}
      (Registry.registerWakelockCallback (some ⟨1, true⟩) (str "wl") false {}) ∧
    ∃ s, (program smallConfig).Reach Served s ∧ s.owner mWakelockCallbackLock = none ∧
      s.shared.control.mWakelockCallbacks.lookup (str "wl") = some [] := by
  obtain ⟨s, hreach, hs⟩ := Program.Reach.of_run (program smallConfig) (fun _ a => servedAction a)
    (goCall (.client 0) (.registerWakelockCallback (some ⟨1, true⟩) (str "wl")) 2 ++
      .step (.client 0) { linked := false } none :: go (.client 0) 1)
    (fun s => s.owner mWakelockCallbackLock = none &&
      s.shared.control.mWakelockCallbacks.lookup (str "wl") = some []) (fun _ _ h => h) (by decide +kernel)
  simp only [Bool.and_eq_true, decide_eq_true_eq] at hs
  refine ⟨rfl, fun h => ?_, s, hreach, hs⟩
  have hsame := congrArg (fun r => r.mWakelockCallbacks.lookup (str "wl")) (h.1 rfl)
  exact absurd hsame (by decide)

end Service

end HardwareInterfaces.Suspend
