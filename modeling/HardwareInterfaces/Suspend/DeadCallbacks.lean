import HardwareInterfaces.Suspend.CallbackLists

/-!
# No dead callback stays registered

A remote callback is linked to death before it is inserted, and binder tells the service about the death of a linked binder
once for each link. `binderDied` takes the callbacks of the binder out of both registries, the second time under both
locks. A binder can die between its link and its insertion: the delivery of its death then waits for the lock of the list,
or finds the callback inserted. After a delivery nothing of the binder can come in again, since a dead binder cannot be
linked (`Deaths`).
-/

namespace HardwareInterfaces.Suspend.Service

open CppStd Monitor Mutex Registry

/-! ### What binder promises -/

def Dead (s : ServiceState) (who : Binder) : Prop := .env (.binderDeath who) ∈ s.history

instance (s : ServiceState) (who : Binder) : Decidable (Dead s who) := inferInstanceAs (Decidable (_ ∈ s.history))

/-- How often `binderDied(who)` has been delivered. A delivery counts from the moment it takes effect. -/
def delivered (s : ServiceState) (who : Binder) : Nat := s.log.countP fun e => e.2 = .binderDied who

/-- How often `linkToDeath` has succeeded for `who`. -/
def deathLinks (s : ServiceState) (who : Binder) : Nat := s.shared.control.deathLinks.count who

/-- A dead binder cannot be linked, and its death is delivered once for each link. -/
def answers (s : ServiceState) (env : Env) : Block → Bool
  | .registerCallback cb => !(cb.remote && env.linked && decide (Dead s cb.binder))
  | .registerWakelockCallback cb _ => !(cb.remote && env.linked && decide (Dead s cb.binder))
  | .eraseCallbacks who => decide (Dead s who) && decide (delivered s who < deathLinks s who)
  | _ => true

def truthful (isRemote : Binder → Bool) (cb : Callback) : Bool := cb.remote = isRemote cb.binder

def binderAction (isRemote : Binder → Bool) (s : ServiceState) : ServiceAction → Bool
  | .step t env _ =>
    (env.call.bind fun p => (Block.op p).entering?).all (truthful isRemote) &&
      match s.code t with
      | .run b :: _ => answers s env b
      | _ => true
  | .call _ b => b.entering?.all (truthful isRemote)
  | _ => true

/-- Runs in which binder keeps its promises; `isRemote` says which binders live in another process. -/
def BinderContract (isRemote : Binder → Bool) (s : ServiceState) (a : ServiceAction) : Prop :=
  binderAction isRemote s a = true

def Truthful (isRemote : Binder → Bool) (s : ServiceState) : Prop :=
  ∀ t, ∀ cb ∈ (s.code t).duties Block.entering?, cb.remote = isRemote cb.binder

section contract

variable {cfg : Config} {isRemote : Binder → Bool} {s s' : ServiceState} {a : ServiceAction} {t : Tid} {b : Block}
  {env : Env} {c : ThreadCode} {o : Out}

theorem entering_of_exec {σ : Shared} (h : exec cfg t env σ b = some o) {cb : Callback}
    (hcb : cb ∈ o.code.duties Block.entering?) :
    b.entering? = some cb ∨ ∃ p, env.call = some p ∧ (Block.op p).entering? = some cb := by
  have hframe := exec_frame h
  cases hb : b.entering? with
  | none =>
    cases hcallback : b.callback? with
    | none =>
      rw [hframe.entries hcallback hb] at hcb
      cases hcb
    | some p =>
      cases b with
      | callback cb' n =>
        obtain rfl := Option.some.inj h
        right
        cases hcall : env.call with
        | none =>
          rw [callback, hcall] at hcb
          cases hcb
        | some p =>
          rw [callback, hcall] at hcb
          exact ⟨p, rfl, by simpa using hcb⟩
      | _ => cases hcallback
  | some cb' =>
    left
    have hgoesOn : b.links = true → some cb' = some cb := by
      intro hlinks
      rcases code_of_links h hlinks with hnil | ⟨b', cb'', hcode, hsame, hentering, -⟩
      · rw [hnil] at hcb
        cases hcb
      · rw [hcode, Code.duties_run, hentering] at hcb
        rw [List.mem_singleton.mp hcb, ← hb, hsame]
    cases b with
    | op p =>
      cases p with
      | registerCallback x =>
        obtain rfl : x = some cb' := hb
        obtain rfl := Option.some.inj h
        simpa [lockGuard, Block.entering?, eq_comm] using hcb
      | registerWakelockCallback x name =>
        obtain rfl : x = some cb' := hb
        simp only [exec, execOp] at h
        obtain rfl := Option.some.inj h
        split at hcb
        · cases hcb
        · simpa [lockGuard, Block.entering?, eq_comm] using hcb
      | _ => cases hb
    | registerCallback x => exact hgoesOn rfl
    | registerWakelockCallback x name => exact hgoesOn rfl
    | pushCallback x =>
      obtain rfl := Option.some.inj h
      cases hcb
    | pushWakelockCallback x name =>
      obtain rfl := Option.some.inj h
      cases hcb
    | _ => cases hb

theorem reach_truthful (h : (program cfg).Reach (BinderContract isRemote) s) : Truthful isRemote s := by
  refine h.invariant (fun t cb hcb => absurd hcb List.not_mem_nil) fun s a s' _ hok hs hstep => ?_
  rcases hstep.quiet_or_ran with hq | ⟨t, b, env, c, o, hr⟩
  · intro u
    refine hq.keeps (K := fun c => ∀ cb ∈ c.duties Block.entering?, cb.remote = isRemote cb.binder)
      (fun i c hi htrue cb hcb => ?_) (fun b ha _ cb hcb => ?_) (hs u)
    · rw [← Code.duties_drop hi] at hcb
      exact htrue cb hcb
    · rw [ha] at hok
      have hall : b.entering?.all (truthful isRemote) = true := hok
      rw [Code.duties_run, Code.duties_nil, List.append_nil, Option.mem_toList] at hcb
      rw [hcb] at hall
      exact of_decide_eq_true hall
  · intro u cb hcb
    by_cases hu : u = t
    · subst hu
      rw [hr.duties_self, List.mem_append] at hcb
      have hself : ∀ cb ∈ b.entering?.toList ++ c.duties Block.entering?, cb.remote = isRemote cb.binder := by
        rw [← hr.duties_before]
        exact hs u
      rcases hcb with hcb | hcb
      · rcases entering_of_exec (exec_of_ran hr) hcb with hb | ⟨p, hcall, hp⟩
        · exact hself cb (List.mem_append_left _ (by rw [hb]; exact List.mem_singleton_self cb))
        · obtain ⟨pick, rfl, -⟩ := hr.action
          have hall := (Bool.and_eq_true_iff.mp hok).1
          rw [hcall, Option.bind_some, hp] at hall
          exact of_decide_eq_true hall
      · exact hself cb (List.mem_append_right _ hcb)
    · rw [hr.duties_other hu (duties_of_spawn hr rfl)] at hcb
      exact hs u cb hcb

theorem answers_of_ran (hok : BinderContract isRemote s a) (hr : (program cfg).Ran s a s' t b env c o) :
    answers s env b = true := by
  obtain ⟨pick, rfl, -⟩ := hr.action
  have hanswers := (Bool.and_eq_true_iff.mp hok).2
  rw [hr.code] at hanswers
  exact hanswers

end contract

/-! ### Deliveries -/

/-- The code of a thread that delivers the death of `who`: before the first loop of `binderDied`, and after it. -/
inductive Reaping (who : Binder) : ThreadCode → Prop
  | start (c : ThreadCode) (rest : c.duties Block.erasure? = []) :
      Reaping who (.lock mCallbackLock :: .run (.eraseCallbacks who) :: .lock mWakelockCallbackLock ::
        .run (.eraseWakelockCallbacks who) :: c)
  | erase (c : ThreadCode) (rest : c.duties Block.erasure? = []) :
      Reaping who (.run (.eraseCallbacks who) :: .lock mWakelockCallbackLock ::
        .run (.eraseWakelockCallbacks who) :: c)
  | relock (c : ThreadCode) (rest : c.duties Block.erasure? = []) :
      Reaping who (.lock mWakelockCallbackLock :: .run (.eraseWakelockCallbacks who) :: c)
  | unlist (c : ThreadCode) (rest : c.duties Block.erasure? = []) : Reaping who (.run (.eraseWakelockCallbacks who) :: c)

/-- The thread is between the two loops of `binderDied`. -/
def Halfway (who : Binder) (code : ThreadCode) : Prop :=
  ∃ c, code = .lock mWakelockCallbackLock :: .run (.eraseWakelockCallbacks who) :: c ∨
    code = .run (.eraseWakelockCallbacks who) :: c

def Reaps (s : ServiceState) : Prop :=
  ∀ u, (s.code u).duties Block.erasure? = [] ∨ ∃ who, Reaping who (s.code u)

theorem Reaping.drop {who : Binder} {i : Instr Mutex Block} {c : ThreadCode} (h : Reaping who (i :: c))
    (hi : ∀ b, i ≠ .run b) : Reaping who c := by
  cases h with
  | start c rest => exact .erase c rest
  | erase c rest => exact absurd rfl (hi _)
  | relock c rest => exact .unlist c rest
  | unlist c rest => exact absurd rfl (hi _)

theorem Halfway.owner {s : ServiceState} {u : Tid} {who : Binder} (h : Halfway who (s.code u))
    (hdisc : Program.Disciplined typing s) : s.owner mCallbackLock = some u := by
  obtain ⟨held, hheld, hbal⟩ := hdisc u
  obtain ⟨c, hcode | hcode⟩ := h
  · rw [hcode, Typing.balanced_lock, Typing.balanced_run] at hbal
    obtain ⟨-, hneeds⟩ := List.cons.inj hbal.2.1
    exact (hheld.mem _).mp (by rw [hneeds]; exact List.mem_cons_self)
  · exact (hdisc.owns_iff hcode).mpr (List.mem_cons_of_mem _ List.mem_cons_self)

section reaps

variable {cfg : Config} {ok : ServiceState → ServiceAction → Prop} {s s' : ServiceState} {a : ServiceAction}
  {t u : Tid} {b : Block} {env : Env} {c : ThreadCode} {o : Out} {who : Binder}

theorem guards_callbacks {σ : Shared} (h : exec cfg t env σ b = some o) (hb : mCallbackLock ∉ needs b) :
    o.state.control.mCallbacks = σ.control.mCallbacks := by
  cases exec_registry h with
  | same callbacks => exact callbacks
  | linked cb callbacks => exact callbacks
  | listed cb name callbacks => exact callbacks
  | pushed cb => exact absurd List.mem_cons_self hb
  | erased who => exact absurd List.mem_cons_self hb
  | unlisted who => exact absurd (List.mem_cons_of_mem _ List.mem_cons_self) hb

theorem reaping_exec {σ : Shared} (hexec : exec cfg t env σ b = some o)
    (h : Code.duties Block.erasure? (.run b :: c) = [] ∨ ∃ who, Reaping who (.run b :: c)) :
    (o.code ++ c).duties Block.erasure? = [] ∨ ∃ who, Reaping who (o.code ++ c) := by
  rw [Code.duties_append]
  rcases h with hnone | ⟨who, hreaping⟩
  · rw [Code.duties_run, List.append_eq_nil_iff] at hnone
    cases hreaps : b.reaps with
    | false => exact Or.inl (by rw [(exec_frame hexec).erasures hreaps, hnone.2]; rfl)
    | true =>
      unfold Block.reaps at hreaps
      split at hreaps
      · rename_i who
        obtain rfl := Option.some.inj hexec
        exact Or.inr ⟨who, .start _ hnone.2⟩
      · cases hreaps
  · cases hreaping with
    | erase c rest =>
      obtain rfl := Option.some.inj hexec
      exact Or.inr ⟨who, .relock c rest⟩
    | unlist c rest =>
      obtain rfl := Option.some.inj hexec
      exact Or.inl rest

theorem reach_reaps (h : (program cfg).Reach ok s) : Reaps s := by
  intro u
  refine reach_code (K := fun c => c.duties Block.erasure? = [] ∨ ∃ who, Reaping who c) (Or.inl rfl)
    (fun _ => Or.inl rfl) (Or.inl rfl) (fun i c hi hcase => ?_)
    (fun t b env σ c o hexec hcase => reaping_exec hexec hcase) h u
  exact hcase.imp Code.duties_of_cons fun ⟨who, hreaping⟩ => ⟨who, hreaping.drop hi⟩

theorem Reaps.halfway (h : Reaps s) (hcode : s.code t = .run (.eraseCallbacks who) :: c) :
    ∃ c', c = .lock mWakelockCallbackLock :: .run (.eraseWakelockCallbacks who) :: c' := by
  have hcase := h t
  rw [hcode] at hcase
  rcases hcase with hnone | ⟨who', hreaping⟩
  · cases hnone
  · cases hreaping with
    | erase c rest => exact ⟨c, rfl⟩

end reaps

/-! ### Insertions that are still to come -/

def Inserts (s : ServiceState) (t : Tid) (b : Block) (cb : Callback) : Prop :=
  (∃ c, s.code t = .run b :: c) ∧ b.push? = some cb

section inserts

variable {cfg : Config} {isRemote : Binder → Bool} {s s' : ServiceState} {a : ServiceAction} {t u : Tid} {b b' : Block}
  {env : Env} {c : ThreadCode} {o : Out} {cb : Callback}

theorem entering_of_push (h : b.push? = some cb) : b.entering? = some cb := by
  cases b with
  | pushCallback x => exact h
  | pushWakelockCallback x name => exact h
  | _ => cases h

theorem Truthful.inserts (h : Truthful isRemote s) (hins : Inserts s t b cb) : cb.remote = isRemote cb.binder := by
  obtain ⟨⟨c, hcode⟩, hpush⟩ := hins
  refine h t cb ?_
  rw [hcode, Code.duties_run, entering_of_push hpush]
  exact List.mem_cons_self

/-- Remote callbacks are inserted right after they were linked. -/
theorem no_later_insert (h : (program cfg).Reach (BinderContract isRemote) s) (hb : .run b ∈ (s.code t).tail)
    (hpush : b.push? = some cb) : isRemote cb.binder = false := by
  have htruthful : cb.remote = isRemote cb.binder := by
    refine reach_truthful h t cb (Code.mem_duties.mpr ⟨b, List.mem_of_mem_tail hb, entering_of_push hpush⟩)
  have hinsert := (reach_insertable h t).2 b (.start cfg) hb
  rw [← htruthful, ← Bool.not_eq_true]
  intro hremote
  cases b with
  | pushCallback x =>
    obtain rfl := Option.some.inj hpush
    rcases hinsert hremote with hlink | ⟨i, hi, -⟩
    · cases hlink
    · cases hi
  | pushWakelockCallback x name =>
    obtain rfl := Option.some.inj hpush
    cases hinsert.2 hremote
  | _ => cases hpush

theorem inserts_of_quiet (h : (program cfg).Reach (BinderContract isRemote) s) (hq : (program cfg).Quiet s a s')
    (hins : Inserts s' u b' cb) (hremote : isRemote cb.binder = true) : Inserts s u b' cb := by
  obtain ⟨⟨c', hcode'⟩, hpush⟩ := hins
  rcases hq.code u with hsame | ⟨i, c, hcode, htail, -⟩ | ⟨b, -, hentry, -, hone⟩
  · exact ⟨⟨c', by rw [← hsame, hcode']⟩, hpush⟩
  · have hmem : .run b' ∈ (s.code u).tail := by
      rw [hcode, List.tail_cons, ← htail, hcode']
      exact List.mem_cons_self
    have hlater := no_later_insert h hmem hpush
    rw [hlater] at hremote
    cases hremote
  · rw [hone] at hcode'
    obtain ⟨hb, -⟩ := List.cons.inj hcode'
    obtain ⟨n, p, rfl, rfl⟩ := entry_op hentry
    rw [← Instr.run.inj hb] at hpush
    cases hpush

/-- An insertion that comes next after a block came next before, or the block has registered the callback: then its binder
has just been linked, or it is a suspend callback of a binder that has one already. -/
theorem inserts_of_ran (h : (program cfg).Reach (BinderContract isRemote) s) (hok : BinderContract isRemote s a)
    (hr : (program cfg).Ran s a s' t b env c o) (hins : Inserts s' u b' cb) (hremote : isRemote cb.binder = true) :
    Inserts s u b' cb ∨ b.entering? = some cb ∧
      (¬ Dead s cb.binder ∨ b' = .pushCallback cb ∧ ∃ i ∈ s.shared.control.mCallbacks, i.binder = cb.binder) := by
  obtain ⟨⟨c', hcode'⟩, hpush⟩ := hins
  by_cases hu : u = t
  · subst hu
    right
    rw [hr.code_self] at hcode'
    have hfirst : o.code ≠ [] := by
      intro hempty
      rw [hempty, List.nil_append] at hcode'
      have hmem : .run b' ∈ (s.code u).tail := by
        rw [hr.code, List.tail_cons, hcode']
        exact List.mem_cons_self
      have hlater := no_later_insert h hmem hpush
      rw [hlater] at hremote
      cases hremote
    obtain ⟨i, rest, hcode⟩ := List.exists_cons_of_ne_nil hfirst
    rw [hcode, List.cons_append] at hcode'
    obtain ⟨rfl, -⟩ := List.cons.inj hcode'
    cases hb : b.links with
    | false =>
      have hnone := (exec_frame (exec_of_ran hr)).pushes hb
      rw [hcode, Code.duties_run, hpush] at hnone
      cases hnone
    | true =>
      obtain ⟨b'', cb', hone, hcb', hcb'', -, hlink⟩ := (code_of_links (exec_of_ran hr) hb).resolve_left hfirst
      rw [hone] at hcode
      obtain ⟨hsame, -⟩ := List.cons.inj hcode
      obtain rfl := Instr.run.inj hsame
      rw [entering_of_push hpush] at hcb''
      obtain rfl := Option.some.inj hcb''
      have htruthful : cb.remote = isRemote cb.binder := by
        refine reach_truthful h u cb ?_
        rw [hr.duties_before, hcb']
        exact List.mem_cons_self
      have hcbremote : cb.remote = true := htruthful.trans hremote
      refine ⟨hcb', (hlink hcbremote).imp (fun hlinked => ?_) id⟩
      have hanswers := answers_of_ran hok hr
      cases b with
      | registerCallback x =>
        obtain rfl := Option.some.inj hcb'
        simpa [answers, hcbremote, hlinked] using hanswers
      | registerWakelockCallback x name =>
        obtain rfl := Option.some.inj hcb'
        simpa [answers, hcbremote, hlinked] using hanswers
      | _ => cases hb
  · left
    rcases code_other_of_ran hr hu with hsame | ⟨-, hnew⟩
    · exact ⟨⟨c', by rw [← hsame, hcode']⟩, hpush⟩
    · rw [hnew] at hcode'
      cases hcode'

theorem exclusive_blocks (hdisc : Program.Disciplined typing s) {c' : ThreadCode} (hcode : s.code t = .run b :: c)
    (hcode' : s.code u = .run b' :: c') {m : Mutex} (hb : m ∈ needs b) (hb' : m ∈ needs b') : u = t :=
  Option.some.inj (((hdisc.owns_iff hcode').mpr hb').symm.trans ((hdisc.owns_iff hcode).mpr hb))

end inserts

/-! ### After a delivery -/

/-- A callback of `who` is registered. -/
def Occurs (who : Binder) (r : Registry) : Prop :=
  (∃ i ∈ r.mCallbacks, i.binder = who) ∨ ∃ name, ∃ i ∈ r.wakelockCallbacks name, i.binder = who

/-- No wakelock callback of `who` is registered, or about to be. -/
structure Unlisted (s : ServiceState) (who : Binder) : Prop where
  lists : ∀ name, ∀ i ∈ s.shared.control.wakelockCallbacks name, i.binder ≠ who
  inserts : ∀ t cb name, Inserts s t (.pushWakelockCallback cb name) cb → cb.binder ≠ who

/-- The service has begun to process the death of `who`. -/
structure Removed (isRemote : Binder → Bool) (s : ServiceState) (who : Binder) : Prop where
  remote : isRemote who = true
  dead : Dead s who
  callbacks : ∀ i ∈ s.shared.control.mCallbacks, i.binder ≠ who
  inserts : ∀ t cb, Inserts s t (.pushCallback cb) cb → cb.binder ≠ who
  lists : (∃ t, Halfway who (s.code t)) ∨ Unlisted s who

structure Deaths (isRemote : Binder → Bool) (s : ServiceState) : Prop where
  remote : ∀ who ∈ s.shared.control.deathLinks, isRemote who = true
  linked : ∀ who, isRemote who = true → Occurs who s.shared.control → who ∈ s.shared.control.deathLinks
  removed : ∀ who, 0 < delivered s who → Removed isRemote s who

section deaths

variable {cfg : Config} {isRemote : Binder → Bool} {s s' : ServiceState} {a : ServiceAction} {t : Tid} {b : Block}
  {env : Env} {c : ThreadCode} {o : Out} {who : Binder}

theorem Dead.step (h : Dead s who) (hstep : (program cfg).Step s a s') : Dead s' who := by
  obtain ⟨new, hnew⟩ := hstep.history
  rw [Dead, hnew]
  exact List.mem_append_right new h

theorem delivered_pos : 0 < delivered s who ↔ ∃ t, (t, .binderDied who) ∈ s.log := by
  rw [delivered, List.countP_pos_iff]
  simp

theorem delivered_of_ran (hr : (program cfg).Ran s a s' t b env c o) (h : 0 < delivered s' who) :
    b = .eraseCallbacks who ∨ 0 < delivered s who := by
  rw [delivered_pos] at h ⊢
  obtain ⟨u, hu⟩ := h
  rw [hr.log, List.mem_append] at hu
  refine hu.symm.elim (fun hold => Or.inr ⟨u, hold⟩) fun hnew => Or.inl ?_
  have hexec := exec_of_ran hr
  cases hb : b.registers with
  | false => cases not_of_filter ((exec_frame hexec).registry hb) t _ hnew
  | true =>
    cases b with
    | eraseCallbacks who' =>
      obtain rfl := Option.some.inj hexec
      obtain ⟨-, hsame⟩ := Prod.mk.inj (List.mem_singleton.mp hnew)
      rw [Ev.binderDied.inj hsame]
    | pushCallback cb =>
      obtain rfl := Option.some.inj hexec
      cases (Prod.mk.inj (List.mem_singleton.mp hnew)).2
    | pushWakelockCallback cb name =>
      obtain rfl := Option.some.inj hexec
      cases (Prod.mk.inj (List.mem_singleton.mp hnew)).2
    | _ => cases hb

/-! What was taken out stays out. -/

theorem Unlisted.quiet (hu : Unlisted s who) (h : (program cfg).Reach (BinderContract isRemote) s)
    (hremote : isRemote who = true) (hq : (program cfg).Quiet s a s') : Unlisted s' who where
  lists := by
    rw [hq.shared]
    exact hu.lists
  inserts u cb name hins := by
    rintro rfl
    exact hu.inserts u cb name (inserts_of_quiet h hq hins hremote) rfl

theorem Unlisted.ran (hu : Unlisted s who) (h : (program cfg).Reach (BinderContract isRemote) s)
    (hremote : isRemote who = true) (hdead : Dead s who) (hok : BinderContract isRemote s a)
    (hr : (program cfg).Ran s a s' t b env c o) : Unlisted s' who where
  lists name i hi := by
    rw [hr.shared] at hi
    cases exec_registry (exec_of_ran hr) with
    | same callbacks lists => exact hu.lists name i (by rwa [lists] at hi)
    | linked cb callbacks lists => exact hu.lists name i (by rwa [lists] at hi)
    | pushed cb callbacks lists => exact hu.lists name i (by rwa [lists] at hi)
    | erased who' callbacks lists => exact hu.lists name i (by rwa [lists] at hi)
    | unlisted who' callbacks lists =>
      rw [lists] at hi
      exact hu.lists name i (mem_others.mp hi).1
    | listed cb name' callbacks lists =>
      rw [lists] at hi
      split at hi
      · rcases List.mem_append.mp hi with hi | hi
        · exact hu.lists name' i hi
        · rw [List.mem_singleton.mp hi]
          exact hu.inserts t cb name' ⟨⟨c, hr.code⟩, rfl⟩
      · exact hu.lists name i hi
  inserts u cb name hins := by
    rintro rfl
    rcases inserts_of_ran h hok hr hins hremote with hbefore | ⟨-, halive | ⟨hb', -⟩⟩
    · exact hu.inserts u cb name hbefore rfl
    · exact halive hdead
    · cases hb'

theorem Unlisted.of_second (h : (program cfg).Reach (BinderContract isRemote) s) (hremote : isRemote who = true)
    (hok : BinderContract isRemote s a) (hr : (program cfg).Ran s a s' t (.eraseWakelockCallbacks who) env c o) :
    Unlisted s' who where
  lists name i hi := by
    rw [hr.shared] at hi
    cases exec_registry (exec_of_ran hr) with
    | same callbacks lists links block => cases block
    | linked cb callbacks lists links remote answer block => cases block.1
    | unlisted who callbacks lists =>
      rw [lists] at hi
      exact (mem_others.mp hi).2
  inserts u cb name hins := by
    rintro rfl
    rcases inserts_of_ran h hok hr hins hremote with ⟨⟨c', hcode'⟩, -⟩ | ⟨hentering, -⟩
    · have hsame := exclusive_blocks (h.disciplined (typing_sound cfg)) hr.code hcode' List.mem_cons_self
        List.mem_cons_self
      rw [hsame, hr.code] at hcode'
      cases hcode'
    · cases hentering

theorem Removed.quiet (hm : Removed isRemote s who) (h : (program cfg).Reach (BinderContract isRemote) s)
    (hstep : (program cfg).Step s a s') (hq : (program cfg).Quiet s a s') : Removed isRemote s' who where
  remote := hm.remote
  dead := hm.dead.step hstep
  callbacks := by
    rw [hq.shared]
    exact hm.callbacks
  inserts u cb hins := by
    rintro rfl
    exact hm.inserts u cb (inserts_of_quiet h hq hins hm.remote) rfl
  lists := by
    refine hm.lists.imp ?_ fun hu => hu.quiet h hm.remote hq
    rintro ⟨u, c, hhalf⟩
    refine ⟨u, c, ?_⟩
    rcases hq.code u with hsame | ⟨i, c', hcode, htail, hi⟩ | ⟨b, -, -, hidle, -⟩
    · rwa [hsame]
    · rw [hcode] at hhalf
      rcases hhalf with hhalf | hhalf
      · exact Or.inr (by rw [htail, (List.cons.inj hhalf).2])
      · exact absurd (List.cons.inj hhalf).1 (hi _)
    · rw [hidle] at hhalf
      rcases hhalf with hhalf | hhalf <;> cases hhalf

theorem Removed.ran (hm : Removed isRemote s who) (h : (program cfg).Reach (BinderContract isRemote) s)
    (hok : BinderContract isRemote s a) (hstep : (program cfg).Step s a s')
    (hr : (program cfg).Ran s a s' t b env c o) : Removed isRemote s' who where
  remote := hm.remote
  dead := hm.dead.step hstep
  callbacks i hi := by
    rw [hr.shared] at hi
    cases exec_registry (exec_of_ran hr) with
    | same callbacks => exact hm.callbacks i (by rwa [callbacks] at hi)
    | linked cb callbacks => exact hm.callbacks i (by rwa [callbacks] at hi)
    | listed cb name callbacks => exact hm.callbacks i (by rwa [callbacks] at hi)
    | unlisted who' callbacks => exact hm.callbacks i (by rwa [callbacks] at hi)
    | erased who' callbacks =>
      rw [callbacks] at hi
      exact hm.callbacks i (mem_others.mp hi).1
    | pushed cb callbacks =>
      rw [callbacks, List.mem_append] at hi
      rcases hi with hi | hi
      · exact hm.callbacks i hi
      · rw [List.mem_singleton.mp hi]
        exact hm.inserts t cb ⟨⟨c, hr.code⟩, rfl⟩
  inserts u cb hins := by
    rintro rfl
    rcases inserts_of_ran h hok hr hins hm.remote with hbefore | ⟨-, halive | ⟨-, i, hi, hsame⟩⟩
    · exact hm.inserts u cb hbefore rfl
    · exact halive hm.dead
    · exact hm.callbacks i hi hsame
  lists := by
    rcases hm.lists with ⟨u, hhalf⟩ | hunlisted
    · by_cases hu : u = t
      · subst hu
        obtain ⟨c', hcode | hcode⟩ := hhalf
        · rw [hr.code] at hcode
          cases hcode
        · rw [hr.code] at hcode
          obtain ⟨hb, -⟩ := List.cons.inj hcode
          obtain rfl := Instr.run.inj hb
          exact Or.inr (.of_second h hm.remote hok hr)
      · have hbusy : s.code u ≠ [] := by
          obtain ⟨c', hcode | hcode⟩ := hhalf <;> rw [hcode] <;> exact List.cons_ne_nil _ _
        exact Or.inl ⟨u, by rwa [hr.code_busy hu hbusy]⟩
    · exact Or.inr (hunlisted.ran h hm.remote hm.dead hok hr)

theorem Removed.of_first (h : (program cfg).Reach (BinderContract isRemote) s)
    (hremote : ∀ who ∈ s.shared.control.deathLinks, isRemote who = true) (hok : BinderContract isRemote s a)
    (hstep : (program cfg).Step s a s') (hr : (program cfg).Ran s a s' t (.eraseCallbacks who) env c o) :
    Removed isRemote s' who := by
  have hanswers := answers_of_ran hok hr
  simp only [answers, Bool.and_eq_true, decide_eq_true_eq] at hanswers
  have hlinked : isRemote who = true := hremote who (List.count_pos_iff.mp (Nat.zero_lt_of_lt hanswers.2))
  have hcode' : s'.code t = c := by
    rw [hr.code_self]
    obtain rfl := Option.some.inj (exec_of_ran hr)
    rfl
  refine ⟨hlinked, hanswers.1.step hstep, fun i hi => ?_, fun u cb hins => ?_,
    Or.inl ⟨t, ?_⟩⟩
  · rw [hr.shared] at hi
    cases exec_registry (exec_of_ran hr) with
    | same callbacks lists links block => cases block
    | linked cb callbacks lists links remote answer block => cases block.1
    | erased who callbacks =>
      rw [callbacks] at hi
      exact (mem_others.mp hi).2
  · rintro rfl
    rcases inserts_of_ran h hok hr hins hlinked with ⟨⟨c', hins⟩, -⟩ | ⟨hentering, -⟩
    · have hsame := exclusive_blocks (h.disciplined (typing_sound cfg)) hr.code hins List.mem_cons_self
        List.mem_cons_self
      rw [hsame, hr.code] at hins
      cases hins
    · cases hentering
  · obtain ⟨c', hrest⟩ := (reach_reaps h).halfway hr.code
    exact ⟨c', Or.inl (hcode'.trans hrest)⟩

theorem linked_of_ran (hs : Deaths isRemote s) (h : (program cfg).Reach (BinderContract isRemote) s)
    (hr : (program cfg).Ran s a s' t b env c o) (hremote : isRemote who = true)
    (hoccurs : Occurs who s'.shared.control) : who ∈ s'.shared.control.deathLinks := by
  have hold := hs.linked who hremote
  have hinsert := (reach_insertable h t).1 b c hr.code
  have htruthful : ∀ cb, b.push? = some cb → cb.remote = isRemote cb.binder := fun cb hcb =>
    (reach_truthful h).inserts ⟨⟨c, hr.code⟩, hcb⟩
  rw [hr.shared] at hoccurs ⊢
  cases exec_registry (exec_of_ran hr) with
  | same callbacks lists links =>
    rw [links]
    exact hold (by simpa only [Occurs, callbacks, lists] using hoccurs)
  | linked cb callbacks lists links =>
    rw [links]
    exact List.mem_cons_of_mem _ (hold (by simpa only [Occurs, callbacks, lists] using hoccurs))
  | erased who' callbacks lists links =>
    rw [links]
    refine hold (hoccurs.imp ?_ ?_)
    · rintro ⟨i, hi, hwho⟩
      rw [callbacks] at hi
      exact ⟨i, (mem_others.mp hi).1, hwho⟩
    · rintro ⟨name, i, hi, hwho⟩
      rw [lists] at hi
      exact ⟨name, i, hi, hwho⟩
  | unlisted who' callbacks lists links =>
    rw [links]
    refine hold (hoccurs.imp ?_ ?_)
    · rintro ⟨i, hi, hwho⟩
      rw [callbacks] at hi
      exact ⟨i, hi, hwho⟩
    · rintro ⟨name, i, hi, hwho⟩
      rw [lists] at hi
      exact ⟨name, i, (mem_others.mp hi).1, hwho⟩
  | pushed cb callbacks lists links =>
    rw [links]
    rcases hoccurs with ⟨i, hi, rfl⟩ | ⟨name, i, hi, hwho⟩
    · rw [callbacks, List.mem_append] at hi
      rcases hi with hi | hi
      · exact hold (Or.inl ⟨i, hi, rfl⟩)
      · obtain rfl := List.mem_singleton.mp hi
        exact (hinsert ((htruthful i rfl).trans hremote)).elim id fun hregistered => hold (Or.inl hregistered)
    · rw [lists] at hi
      exact hold (Or.inr ⟨name, i, hi, hwho⟩)
  | listed cb name' callbacks lists links =>
    rw [links]
    rcases hoccurs with ⟨i, hi, hwho⟩ | ⟨name, i, hi, rfl⟩
    · rw [callbacks] at hi
      exact hold (Or.inl ⟨i, hi, hwho⟩)
    · rw [lists] at hi
      split at hi
      · rcases List.mem_append.mp hi with hi | hi
        · exact hold (Or.inr ⟨name', i, hi, rfl⟩)
        · obtain rfl := List.mem_singleton.mp hi
          exact hinsert.2 ((htruthful i rfl).trans hremote)
      · exact hold (Or.inr ⟨name, i, hi, rfl⟩)

theorem reach_deaths (h : (program cfg).Reach (BinderContract isRemote) s) : Deaths isRemote s := by
  refine h.invariant ⟨fun who hwho => ?_, fun who _ hoccurs => ?_, fun who hpos => ?_⟩ fun s a s' hreach hok hs hstep => ?_
  · cases hwho
  · rcases hoccurs with ⟨i, hi, -⟩ | ⟨name, i, hi, -⟩ <;> cases hi
  · cases hpos
  · rcases hstep.quiet_or_ran with hq | ⟨t, b, env, c, o, hr⟩
    · have hsame : ∀ who, delivered s' who = delivered s who := fun who => by rw [delivered, hq.log]; rfl
      refine ⟨?_, ?_, fun who hpos => (hs.removed who (by rwa [← hsame])).quiet hreach hstep hq⟩
      · rw [hq.shared]
        exact hs.remote
      · rw [hq.shared]
        exact hs.linked
    · refine ⟨fun who hwho => ?_, fun who => linked_of_ran hs hreach hr, fun who hpos => ?_⟩
      · rw [hr.shared] at hwho
        cases exec_registry (exec_of_ran hr) with
        | same callbacks lists links => exact hs.remote who (by rwa [links] at hwho)
        | pushed cb callbacks lists links => exact hs.remote who (by rwa [links] at hwho)
        | listed cb name callbacks lists links => exact hs.remote who (by rwa [links] at hwho)
        | erased who' callbacks lists links => exact hs.remote who (by rwa [links] at hwho)
        | unlisted who' callbacks lists links => exact hs.remote who (by rwa [links] at hwho)
        | linked cb callbacks lists links remote answer block =>
          rw [links, List.mem_cons] at hwho
          rcases hwho with rfl | hwho
          · have htruthful : cb.remote = isRemote cb.binder := by
              refine reach_truthful hreach t cb ?_
              rw [hr.duties_before, block.2]
              exact List.mem_cons_self
            rw [← htruthful, remote]
          · exact hs.remote who hwho
      · rcases delivered_of_ran hr hpos with rfl | hold
        · exact .of_first hreach hs.remote hok hstep hr
        · exact (hs.removed who hold).ran hreach hok hstep hr

end deaths

/-! ### Whole deliveries -/

def Takes (cfg : Config) (ok : ServiceState → ServiceAction → Prop) (t : Tid) (s s' : ServiceState) : Prop :=
  ∃ env pick, ok s (.step t env pick) ∧ (program cfg).step s (.step t env pick) = some s'

/-- A whole `binderDied(who)` by thread `t`, from its first loop in state `s` to the end of its second loop in `s'`; in
`s₂` it takes the lock of the wakelock callbacks. Other threads may do anything in between. -/
inductive Delivery (cfg : Config) (ok : ServiceState → ServiceAction → Prop) (t : Tid) (who : Binder) :
    ServiceState → ServiceState → ServiceState → Prop
  | mk {s s₁ s₂ s₃ s₄ s' : ServiceState} {c : ThreadCode} (code : s.code t = .run (.eraseCallbacks who) :: c)
      (first : Takes cfg ok t s s₁) (before : (program cfg).Others ok t s₁ s₂) (lock : Takes cfg ok t s₂ s₃)
      (meanwhile : (program cfg).Others ok t s₃ s₄) (second : Takes cfg ok t s₄ s') : Delivery cfg ok t who s s₂ s'

/-- What `binderDied(who)` makes of the suspend callbacks of `r` and the wakelock callbacks of `r₂`. -/
structure Reaped (who : Binder) (r r₂ r' : Registry) : Prop where
  absent : ¬ Occurs who r'
  nonempty : ∀ name cbs, r'.mWakelockCallbacks.lookup name = some cbs → cbs ≠ []
  callbacks : r'.mCallbacks = others who r.mCallbacks
  lists : ∀ name, r'.wakelockCallbacks name = others who (r₂.wakelockCallbacks name)
  again : (r'.eraseCallbacks who).eraseWakelockCallbacks who = r'

theorem Reaped.of_second {who : Binder} {r r₂ r₄ r' : Registry} (hcallbacks : r₄.mCallbacks = others who r.mCallbacks)
    (hlists : ∀ name, r₄.wakelockCallbacks name = r₂.wakelockCallbacks name)
    (hr' : r' = r₄.eraseWakelockCallbacks who) : Reaped who r r₂ r' := by
  subst hr'
  have herased : ∀ name, (r₄.eraseWakelockCallbacks who).wakelockCallbacks name =
      others who (r₂.wakelockCallbacks name) := fun name => by rw [wakelockCallbacks_erase, hlists]
  refine ⟨?_, fun name cbs hlookup => ne_nil_of_erase hlookup, hcallbacks, herased, ?_⟩
  · rintro (⟨i, hi, hwho⟩ | ⟨name, i, hi, hwho⟩)
    · have hmem : i ∈ others who r.mCallbacks := by rwa [← hcallbacks]
      exact (mem_others.mp hmem).2 hwho
    · rw [herased] at hi
      exact (mem_others.mp hi).2 hwho
  · have hothers : others who r₄.mCallbacks = r₄.mCallbacks := by rw [hcallbacks, others_others]
    have hsame : (r₄.eraseWakelockCallbacks who).eraseCallbacks who = r₄.eraseWakelockCallbacks who :=
      congrArg (fun cbs => { r₄.eraseWakelockCallbacks who with mCallbacks := cbs }) hothers
    rw [hsame, eraseWakelockCallbacks_erase]

section whole

variable {cfg : Config} {ok : ServiceState → ServiceAction → Prop} {isRemote : Binder → Bool} {s s' s₂ : ServiceState}
  {t : Tid} {who : Binder} {env : Env} {pick : Option Tid} {b : Block} {c : ThreadCode}

theorem guards_lists {σ : Shared} {o : Out} (h : exec cfg t env σ b = some o) (hb : mWakelockCallbackLock ∉ needs b) :
    (fun name => o.state.control.wakelockCallbacks name) = fun name => σ.control.wakelockCallbacks name := by
  funext name
  cases exec_registry h with
  | same callbacks lists => exact lists name
  | linked cb callbacks lists => exact lists name
  | pushed cb callbacks lists => exact lists name
  | erased who callbacks lists => exact lists name
  | listed cb name' => exact absurd List.mem_cons_self hb
  | unlisted who => exact absurd List.mem_cons_self hb

theorem Takes.reach (h : (program cfg).Reach ok s) (htakes : Takes cfg ok t s s') : (program cfg).Reach ok s' := by
  obtain ⟨env, pick, hok, hstep⟩ := htakes
  exact .step h hok hstep

/-- `binderDied(who)` takes out every callback of `who`, and every name that is left without one, and nothing else. -/
theorem reaped_of_delivery (h : (program cfg).Reach ok s) (hdel : Delivery cfg ok t who s s₂ s') :
    Reaped who s.shared.control s₂.shared.control s'.shared.control := by
  cases hdel with
  | mk code first before lock meanwhile second =>
    rename_i s₁ s₃ s₄ c
    have hcallbacks : ∀ u b i x o, (program cfg).exec u b i x = some o → mCallbackLock ∉ needs b →
        o.state.control.mCallbacks = x.control.mCallbacks := fun _ _ _ _ _ hexec hb => guards_callbacks hexec hb
    have hlists : ∀ u b i x o, (program cfg).exec u b i x = some o → mWakelockCallbackLock ∉ needs b →
        (fun name => o.state.control.wakelockCallbacks name) = fun name => x.control.wakelockCallbacks name :=
      fun _ _ _ _ _ hexec hb => guards_lists hexec hb
    have hsound := typing_sound cfg
    have h₁ := first.reach h
    have h₂ := Program.Others.reach h₁ before
    have h₃ := lock.reach h₂
    -- the first loop
    obtain ⟨c', rfl⟩ := (reach_reaps h).halfway code
    obtain ⟨env, pick, -, hstep⟩ := first
    obtain ⟨o, hr⟩ := (Program.step_cases hstep).ran_of_code code
    obtain rfl := Option.some.inj (exec_of_ran hr)
    have hcode := hr.code_self
    have howner₁ : s₁.owner mCallbackLock = some t := Halfway.owner ⟨c', Or.inl hcode⟩ (h₁.disciplined hsound)
    obtain ⟨-, hcode₂, hkept₂⟩ := Program.Others.guarded (f := fun σ => σ.control.mCallbacks) hsound h₁
      hcallbacks howner₁ before
    -- the lock of the wakelock callbacks
    obtain ⟨env', pick', -, hstep'⟩ := lock
    obtain ⟨hshared₃, hcode₃, howner₃⟩ := (Program.step_cases hstep').locked_of_code (hcode₂.trans hcode)
    have hhalf₃ : s₃.owner mCallbackLock = some t := Halfway.owner ⟨c', Or.inr hcode₃⟩ (h₃.disciplined hsound)
    obtain ⟨-, hcode₄, hkept₄⟩ := Program.Others.guarded (f := fun σ => σ.control.mCallbacks) hsound h₃
      hcallbacks hhalf₃ meanwhile
    obtain ⟨-, -, hlists₄⟩ := Program.Others.guarded (f := fun σ name => σ.control.wakelockCallbacks name) hsound h₃
      hlists howner₃ meanwhile
    -- the second loop
    obtain ⟨env'', pick'', -, hstep''⟩ := second
    obtain ⟨o, hr'⟩ := (Program.step_cases hstep'').ran_of_code (hcode₄.trans hcode₃)
    obtain rfl := Option.some.inj (exec_of_ran hr')
    refine .of_second ?_ (fun name => ?_) (by rw [hr'.shared])
    · refine hkept₄.trans ?_
      rw [hshared₃]
      refine hkept₂.trans ?_
      rw [hr.shared]
      rfl
    · refine (congrFun hlists₄ name).trans ?_
      rw [hshared₃]

end whole

/-! ### The registry in runs -/

/-- When both locks are free, a remote binder that occurs in the registry is alive, or the delivery of its death is still
to come; a delivery takes out all its callbacks and nothing else, and none of them ever comes back. -/
theorem no_dead_callback (cfg : Config) (isRemote : Binder → Bool) {s : ServiceState}
    (h : (program cfg).Reach (BinderContract isRemote) s) :
    (s.owner mCallbackLock = none → s.owner mWakelockCallbackLock = none → ∀ who, isRemote who = true →
      Occurs who s.shared.control → ¬ Dead s who ∨ delivered s who < deathLinks s who) ∧
    (∀ t who s₂ s', Delivery cfg (BinderContract isRemote) t who s s₂ s' →
      Reaped who s.shared.control s₂.shared.control s'.shared.control) ∧
    (s.owner mCallbackLock = none → s.owner mWakelockCallbackLock = none → ∀ who, 0 < delivered s who →
      ¬ Occurs who s.shared.control) := by
  have hdeaths := reach_deaths h
  have hgone : s.owner mCallbackLock = none → ∀ who, 0 < delivered s who → ¬ Occurs who s.shared.control := by
    intro hfree who hpos
    have hremoved := hdeaths.removed who hpos
    have hunlisted := hremoved.lists.resolve_left fun ⟨t, hhalf⟩ => by
      have howner := hhalf.owner (h.disciplined (typing_sound cfg))
      rw [hfree] at howner
      cases howner
    rintro (⟨i, hi, hwho⟩ | ⟨name, i, hi, hwho⟩)
    · exact hremoved.callbacks i hi hwho
    · exact hunlisted.lists name i hi hwho
  refine ⟨fun hfree _ who hremote hoccurs => Or.inr ?_, fun t who s₂ s' hdel => reaped_of_delivery h hdel,
    fun hfree _ => hgone hfree⟩
  have hlinked := List.count_pos_iff.mpr (hdeaths.linked who hremote hoccurs)
  have hnone : delivered s who = 0 := Nat.eq_zero_of_not_pos fun hpos => hgone hfree who hpos hoccurs
  rw [hnone]
  exact hlinked

/-- A client registers a suspend callback and a wakelock callback, and its death falls between the link of the second and
its insertion. -/
def diesAfterLink : List ServiceAction :=
  goCall (.client 0) (.registerCallback (some ⟨7, true⟩)) 5 ++
    goCall (.client 0) (.registerWakelockCallback (some ⟨7, true⟩) (str "a")) 3 ++
    .env (.binderDeath 7) :: go (.client 0) 2

def nextStep (s : ServiceState) : Option ServiceState :=
  (program smallConfig).steps (binderAction fun _ => true) s (go (.client 1) 1)

theorem takes_of_nextStep {s s' : ServiceState} (h : nextStep s = some s') :
    Takes smallConfig (BinderContract fun _ => true) (.client 1) s s' := by
  simp only [nextStep, go, List.replicate, Program.steps, List.foldlM_cons, List.foldlM_nil, Option.bind_eq_bind,
    Option.bind_eq_some_iff, Option.ite_none_right_eq_some] at h
  obtain ⟨s₁, ⟨hok, hstep⟩, hsame⟩ := h
  obtain rfl := Option.some.inj hsame
  exact ⟨{}, none, hok, hstep⟩

theorem no_dead_callback_afterLink :
    (∃ s : ServiceState, (program smallConfig).Reach (BinderContract fun _ => true) s ∧ Dead s 7 ∧
      Occurs 7 s.shared.control ∧ (¬ Dead s 7 ∨ delivered s 7 < deathLinks s 7)) ∧
    ∃ s s₂ s' : ServiceState, (program smallConfig).Reach (BinderContract fun _ => true) s ∧
      Delivery smallConfig (BinderContract fun _ => true) (.client 1) 7 s s₂ s' ∧
      Reaped 7 s.shared.control s₂.shared.control s'.shared.control := by
  constructor
  · obtain ⟨s, hreach, hs⟩ := Program.Reach.of_run (program smallConfig) (binderAction fun _ => true) diesAfterLink
      (fun s => decide (s.owner mCallbackLock = none) && decide (s.owner mWakelockCallbackLock = none) &&
        decide (Dead s 7) && decide (s.shared.control.mCallbacks = [⟨7, true⟩]))
      (fun _ _ h => h) (by decide +kernel)
    simp only [Bool.and_eq_true, decide_eq_true_eq] at hs
    obtain ⟨⟨⟨hfree, hfree'⟩, hdead⟩, hcallbacks⟩ := hs
    have hoccurs : Occurs 7 s.shared.control := Or.inl ⟨⟨7, true⟩, by rw [hcallbacks]; exact List.mem_cons_self, rfl⟩
    exact ⟨s, hreach, hdead, hoccurs, (no_dead_callback smallConfig _ hreach).1 hfree hfree' 7 rfl hoccurs⟩
  · obtain ⟨s, hreach, hs⟩ := Program.Reach.of_run (program smallConfig) (binderAction fun _ => true)
      (diesAfterLink ++ goCall (.client 1) (.binderDied 7) 2)
      (fun s => decide ((s.code (.client 1)).head? = some (.run (.eraseCallbacks 7))) &&
        ((nextStep s).any fun s₁ => (nextStep s₁).any fun s₃ => (nextStep s₃).isSome))
      (fun _ _ h => h) (by decide +kernel)
    simp only [Bool.and_eq_true, decide_eq_true_eq, Option.any_eq_true_iff_get] at hs
    obtain ⟨hhead, hfirst, hlock, hsecond⟩ := hs
    obtain ⟨c, hcode⟩ := List.head?_eq_some_iff.mp hhead
    obtain ⟨s', hs'⟩ := Option.isSome_iff_exists.mp hsecond
    have hdel : Delivery smallConfig (BinderContract fun _ => true) (.client 1) 7 s ((nextStep s).get hfirst) s' :=
      .mk hcode (takes_of_nextStep (Option.some_get hfirst).symm) .refl
        (takes_of_nextStep (Option.some_get hlock).symm) .refl (takes_of_nextStep hs')
    exact ⟨s, _, s', hreach, hdel, (no_dead_callback smallConfig _ hreach).2.1 _ _ _ _ hdel⟩

end HardwareInterfaces.Suspend.Service
