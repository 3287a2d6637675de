import HardwareInterfaces.Suspend.LockDiscipline
import HardwareInterfaces.Suspend.Registrations

/-!
# The callback lists in a run

What a step of the service does to the registered callbacks (`RegistryChange`), and what holds of a callback that is about
to be inserted: its binder is linked to death, or not to be linked, and the list it goes to does not have it yet
(`insertable`). Nothing comes between this check and the insertion, since both are made under the lock of the list.
-/

namespace HardwareInterfaces.Suspend.Service

open CppStd Monitor Mutex Registry

def updatesLists : Block → Bool
  | .pushCallback _ => true
  | .pushWakelockCallback .. => true
  | .eraseCallbacks _ => true
  | .eraseWakelockCallbacks _ => true
  | _ => false

inductive RegistryChange (env : Env) (r r' : Registry) : Block → Prop
  | same {b : Block} (callbacks : r'.mCallbacks = r.mCallbacks)
      (lists : ∀ name, r'.wakelockCallbacks name = r.wakelockCallbacks name) (links : r'.deathLinks = r.deathLinks)
      (block : updatesLists b = false) : RegistryChange env r r' b
  | linked {b : Block} (cb : Callback) (callbacks : r'.mCallbacks = r.mCallbacks)
      (lists : ∀ name, r'.wakelockCallbacks name = r.wakelockCallbacks name)
      (links : r'.deathLinks = cb.binder :: r.deathLinks) (remote : cb.remote = true) (answer : env.linked = true)
      (block : b.links = true ∧ b.entering? = some cb) : RegistryChange env r r' b
  | pushed (cb : Callback) (callbacks : r'.mCallbacks = r.mCallbacks ++ [cb])
      (lists : ∀ name, r'.wakelockCallbacks name = r.wakelockCallbacks name) (links : r'.deathLinks = r.deathLinks) :
      RegistryChange env r r' (.pushCallback cb)
  | listed (cb : Callback) (name : StdString) (callbacks : r'.mCallbacks = r.mCallbacks)
      (lists : ∀ name', r'.wakelockCallbacks name' =
        if name' = name then r.wakelockCallbacks name ++ [cb] else r.wakelockCallbacks name')
      (links : r'.deathLinks = r.deathLinks) : RegistryChange env r r' (.pushWakelockCallback cb name)
  | erased (who : Binder) (callbacks : r'.mCallbacks = others who r.mCallbacks)
      (lists : ∀ name, r'.wakelockCallbacks name = r.wakelockCallbacks name) (links : r'.deathLinks = r.deathLinks) :
      RegistryChange env r r' (.eraseCallbacks who)
  | unlisted (who : Binder) (callbacks : r'.mCallbacks = r.mCallbacks)
      (lists : ∀ name, r'.wakelockCallbacks name = others who (r.wakelockCallbacks name))
      (links : r'.deathLinks = r.deathLinks) : RegistryChange env r r' (.eraseWakelockCallbacks who)

section blocks

variable {cfg : Config} {t : Tid} {env : Env} {σ : Shared} {b : Block} {o : Out}

theorem registerWakelockCallback_control (cb : Callback) (name : StdString) :
    (registerWakelockCallback env σ cb name).state.control =
      (σ.control.linkWakelockCallback cb name env.linked).2 := by
  unfold registerWakelockCallback
  dsimp only
  split <;> rfl

theorem exec_registry (h : exec cfg t env σ b = some o) : RegistryChange env σ.control o.state.control b := by
  have hframe := exec_frame h
  have hsame : b.changesControl = false → updatesLists b = false →
      RegistryChange env σ.control o.state.control b := fun hb hupdates => by
    rw [hframe.control hb]
    exact .same rfl (fun _ => rfl) rfl hupdates
  cases b with
  | registerCallback cb =>
    obtain rfl := Option.some.inj h
    unfold registerCallback
    split
    · rename_i r' hlink
      rcases linkCallback_eq hlink with ⟨rfl, -⟩ | ⟨hremote, hlinked, rfl⟩
      · exact .same rfl (fun _ => rfl) rfl rfl
      · exact .linked cb rfl (fun _ => rfl) rfl hremote hlinked ⟨rfl, rfl⟩
    · exact .same rfl (fun _ => rfl) rfl rfl
  | pushCallback cb =>
    obtain rfl := Option.some.inj h
    exact .pushed cb rfl (fun _ => rfl) rfl
  | registerWakelockCallback cb name =>
    obtain rfl := Option.some.inj h
    rw [registerWakelockCallback_control]
    have hlinks : ((σ.control.linkWakelockCallback cb name env.linked).2.deathLinks = σ.control.deathLinks) ∨
        (cb.remote = true ∧ env.linked = true ∧
          (σ.control.linkWakelockCallback cb name env.linked).2.deathLinks = cb.binder :: σ.control.deathLinks) := by
      rcases linkWakelockCallback_cases σ.control cb name env.linked with
        hlink | ⟨-, -, hlink⟩ | ⟨-, hremote, hlinked, hlink⟩
      · rw [hlink]
        exact Or.inl (wakelockSlot_deathLinks σ.control name)
      · rw [hlink]
        exact Or.inl (wakelockSlot_deathLinks σ.control name)
      · rw [hlink]
        exact Or.inr ⟨hremote, hlinked, rfl⟩
    rcases hlinks with hlinks | ⟨hremote, hlinked, hlinks⟩
    · exact .same linkWakelockCallback_mCallbacks (fun _ => wakelockCallbacks_link) hlinks rfl
    · exact .linked cb linkWakelockCallback_mCallbacks (fun _ => wakelockCallbacks_link) hlinks hremote hlinked
        ⟨rfl, rfl⟩
  | pushWakelockCallback cb name =>
    obtain rfl := Option.some.inj h
    exact .listed cb name pushWakelockCallback_mCallbacks (fun _ => wakelockCallbacks_push)
      pushWakelockCallback_deathLinks
  | eraseCallbacks who =>
    obtain rfl := Option.some.inj h
    exact .erased who rfl (fun _ => rfl) rfl
  | eraseWakelockCallbacks who =>
    obtain rfl := Option.some.inj h
    exact .unlisted who rfl (fun _ => wakelockCallbacks_erase) rfl
  | _ => exact hsame rfl rfl

/-! ### Before an insertion -/

/-- What the registration of a callback has established when the callback is inserted. -/
def insertable : Block → Shared → Prop
  | .pushCallback cb, σ =>
    cb.remote = true → cb.binder ∈ σ.control.deathLinks ∨ ∃ i ∈ σ.control.mCallbacks, i.binder = cb.binder
  | .pushWakelockCallback cb name, σ =>
    (∀ i ∈ σ.control.wakelockCallbacks name, i.binder ≠ cb.binder) ∧
      (cb.remote = true → cb.binder ∈ σ.control.deathLinks)
  | _, _ => True

theorem insertable_of_none {b : Block} (h : b.push? = none) (σ : Shared) : insertable b σ := by
  cases b with
  | pushCallback cb => cases h
  | pushWakelockCallback cb name => cases h
  | _ => trivial

theorem insertable_of_duties {c : ThreadCode} (hc : c.duties Block.push? = []) {b : Block} (hb : .run b ∈ c)
    (σ : Shared) : insertable b σ :=
  insertable_of_none (Code.none_of_duties hc hb) σ

/-- A registration that goes on inserts its callback next; the binder of a remote one has just been linked, or its
suspend callback is registered already. -/
theorem code_of_links (h : exec cfg t env σ b = some o) (hb : b.links = true) :
    o.code = [] ∨ ∃ b' cb, o.code = [.run b'] ∧ b.entering? = some cb ∧ b'.entering? = some cb ∧ insertable b' o.state ∧
      (cb.remote = true →
        env.linked = true ∨ (b' = .pushCallback cb ∧ ∃ i ∈ σ.control.mCallbacks, i.binder = cb.binder)) := by
  cases b with
  | registerCallback cb =>
    obtain rfl := Option.some.inj h
    unfold registerCallback
    split
    · rename_i r' hlink
      rcases linkCallback_eq hlink with ⟨rfl, hregistered⟩ | ⟨-, hlinked, rfl⟩
      · exact Or.inr ⟨_, cb, rfl, rfl, rfl, fun hremote => Or.inr (hregistered hremote),
          fun hremote => Or.inr ⟨rfl, hregistered hremote⟩⟩
      · exact Or.inr ⟨_, cb, rfl, rfl, rfl, fun _ => Or.inl List.mem_cons_self, fun _ => Or.inl hlinked⟩
    · exact Or.inl rfl
  | registerWakelockCallback cb name =>
    obtain rfl := Option.some.inj h
    unfold registerWakelockCallback
    rcases linkWakelockCallback_cases σ.control cb name env.linked with
      hlink | ⟨hnew, hlocal, hlink⟩ | ⟨hnew, -, hlinked, hlink⟩
    · rw [hlink]
      exact Or.inl rfl
    · rw [hlink]
      have hremote : ¬ cb.remote = true := by simp [hlocal]
      refine Or.inr ⟨_, cb, rfl, rfl, rfl, ⟨fun i hi => hnew i ?_, fun h => absurd h hremote⟩, fun h => absurd h hremote⟩
      rwa [← wakelockCallbacks_wakelockSlot σ.control name name]
    · rw [hlink]
      refine Or.inr ⟨_, cb, rfl, rfl, rfl, ⟨fun i hi => hnew i ?_, fun _ => List.mem_cons_self⟩, fun _ => Or.inl hlinked⟩
      rwa [← wakelockCallbacks_wakelockSlot σ.control name name]
  | _ => cases hb

theorem insertable_stable {b' : Block} (h : exec cfg t env σ b = some o)
    (hdisjoint : ∀ m ∈ needs b', m ∉ needs b) (hb' : insertable b' σ) : insertable b' o.state := by
  have hchange := exec_registry h
  cases b' with
  | pushCallback cb =>
    have hlock : mCallbackLock ∉ needs b := hdisjoint mCallbackLock List.mem_cons_self
    intro hremote
    cases hchange with
    | same callbacks lists links => rw [callbacks, links]; exact hb' hremote
    | linked cb' callbacks lists links =>
      rw [callbacks, links]
      exact (hb' hremote).imp (List.mem_cons_of_mem _) id
    | listed cb' name callbacks lists links => rw [callbacks, links]; exact hb' hremote
    | pushed cb' => exact absurd List.mem_cons_self hlock
    | erased who => exact absurd List.mem_cons_self hlock
    | unlisted who => exact absurd (List.mem_cons_of_mem _ List.mem_cons_self) hlock
  | pushWakelockCallback cb name =>
    have hlock : mWakelockCallbackLock ∉ needs b := hdisjoint mWakelockCallbackLock List.mem_cons_self
    show (∀ i ∈ o.state.control.wakelockCallbacks name, i.binder ≠ cb.binder) ∧
      (cb.remote = true → cb.binder ∈ o.state.control.deathLinks)
    cases hchange with
    | same callbacks lists links => rw [lists, links]; exact hb'
    | linked cb' callbacks lists links =>
      rw [lists, links]
      exact ⟨hb'.1, fun hremote => List.mem_cons_of_mem _ (hb'.2 hremote)⟩
    | pushed cb' callbacks lists links => rw [lists, links]; exact hb'
    | erased who callbacks lists links => rw [lists, links]; exact hb'
    | listed cb' name' => exact absurd List.mem_cons_self hlock
    | unlisted who => exact absurd List.mem_cons_self hlock
  | _ => trivial

end blocks

theorem insertable_annotates (cfg : Config) : Program.Annotates (program cfg) typing insertable where
  entry := by
    intro t b x h
    obtain ⟨n, p, rfl, rfl⟩ := entry_op h
    trivial
  spawn h u cu hspawn b y hb := by
    rw [exec_spawn_code h hspawn] at hb
    exact insertable_of_duties rfl hb y
  next := by
    intro t b env σ o h _ b' c hcode
    cases hb : b.links with
    | false =>
      refine insertable_of_duties ((exec_frame h).pushes hb) ?_ _
      rw [hcode]
      exact List.mem_cons_self
    | true =>
      rcases code_of_links h hb with hnil | ⟨b'', cb, hone, -, -, hinsert, -⟩
      · rw [hnil] at hcode
        cases hcode
      · rw [hone] at hcode
        obtain ⟨hsame, -⟩ := List.cons.inj hcode
        rwa [← Instr.run.inj hsame]
  later := by
    intro t b env σ o h b' y hb'
    cases hb : b.links with
    | false => exact insertable_of_duties ((exec_frame h).pushes hb) (List.mem_of_mem_tail hb') y
    | true =>
      rcases code_of_links h hb with hnil | ⟨b'', cb, hone, -⟩
      · rw [hnil] at hb'
        cases hb'
      · rw [hone] at hb'
        cases hb'
  stable h b' hdisjoint hb' := insertable_stable h hdisjoint hb'

section run

variable {cfg : Config} {ok : ServiceState → ServiceAction → Prop} {s : ServiceState} {t : Tid} {c : ThreadCode}

theorem reach_insertable (h : (program cfg).Reach ok s) : Program.Annotated insertable s :=
  h.annotated (typing_sound cfg) (insertable_annotates cfg)

/-- No callback is inserted twice under a name. -/
theorem reach_nodup (h : (program cfg).Reach ok s) (name : StdString) :
    ((s.shared.control.wakelockCallbacks name).map Callback.binder).Nodup := by
  refine h.on_blocks (I := fun σ _ => ∀ name, ((σ.control.wakelockCallbacks name).map Callback.binder).Nodup)
    (fun _ => List.nodup_nil) ?_ name
  intro s a s' t b env c o hreach _ hr hs name
  have hchange := exec_registry (exec_of_ran hr)
  have hinsert := (reach_insertable hreach t).1 b c hr.code
  cases hchange with
  | same callbacks lists => rw [lists]; exact hs name
  | linked cb callbacks lists => rw [lists]; exact hs name
  | pushed cb callbacks lists => rw [lists]; exact hs name
  | erased who callbacks lists => rw [lists]; exact hs name
  | listed cb name' callbacks lists =>
    rw [lists]
    split
    · rw [List.map_append, List.nodup_append]
      refine ⟨hs name', List.nodup_singleton _, ?_⟩
      intro x hx y hy
      obtain ⟨i, hi, rfl⟩ := List.mem_map.mp hx
      obtain rfl : y = cb.binder := by simpa using hy
      exact hinsert.1 i hi
    · exact hs name
  | unlisted who callbacks lists =>
    rw [lists]
    exact (hs name).sublist (List.filter_sublist.map _)

end run

end HardwareInterfaces.Suspend.Service
