import HardwareInterfaces.Suspend.Accounting

/-!
# No lost notification

The autosuspend thread waits on one condition variable for two reasons, the end of its sleep and the release of the
last wake lock, and the destructor of the service waits on it too. A thread that is parked still has a reason to wait
(`Parking`): whoever takes the reason away notifies it. `notify_one` cannot go to the destructor instead, because the
destructor disables autosuspend before it waits and keeps the lock of the tokens meanwhile (`Exits`).
-/

namespace HardwareInterfaces.Suspend.Service

open CppStd Monitor Mutex

/-! ### The destructor -/

/-- The code of a thread in the destructor of the service: before it has disabled autosuspend, and after. -/
inductive Exiting (σ : Shared) : ThreadCode → Prop
  | tokens (c : ThreadCode) (rest : c.duties Block.awaitThreadExit? = []) :
      Exiting σ (.lock mAutosuspendClientTokensLock :: .lock mAutosuspendLock :: .run .disableAutosuspendLocked ::
        .run (.awaitThreadExit false) :: c)
  | lock (c : ThreadCode) (rest : c.duties Block.awaitThreadExit? = []) :
      Exiting σ (.lock mAutosuspendLock :: .run .disableAutosuspendLocked :: .run (.awaitThreadExit false) :: c)
  | disable (c : ThreadCode) (rest : c.duties Block.awaitThreadExit? = []) :
      Exiting σ (.run .disableAutosuspendLocked :: .run (.awaitThreadExit false) :: c)
  | await (woken : Bool) (c : ThreadCode) (rest : c.duties Block.awaitThreadExit? = [])
      (disabled : σ.mAutosuspendEnabled = false) : Exiting σ (.run (.awaitThreadExit woken) :: c)
  | relock (woken : Bool) (c : ThreadCode) (rest : c.duties Block.awaitThreadExit? = [])
      (disabled : σ.mAutosuspendEnabled = false) :
      Exiting σ (.lock mAutosuspendLock :: .run (.awaitThreadExit woken) :: c)
  | wait (woken : Bool) (c : ThreadCode) (rest : c.duties Block.awaitThreadExit? = [])
      (disabled : σ.mAutosuspendEnabled = false) :
      Exiting σ (.wait mAutosuspendLock :: .lock mAutosuspendLock :: .run (.awaitThreadExit woken) :: c)

def Exits (s : ServiceState) : Prop :=
  ∀ u, (s.code u).duties Block.awaitThreadExit? = [] ∨ Exiting s.shared (s.code u)

theorem Exiting.drop {σ : Shared} {i : Instr Mutex Block} {c : ThreadCode} (h : Exiting σ (i :: c))
    (hi : ∀ b, i ≠ .run b) : Exiting σ c := by
  cases h with
  | tokens c rest => exact .lock c rest
  | lock c rest => exact .disable c rest
  | disable c rest => exact absurd rfl (hi _)
  | await woken c rest disabled => exact absurd rfl (hi _)
  | relock woken c rest disabled => exact .await woken c rest disabled
  | wait woken c rest disabled => exact .relock woken c rest disabled

theorem Exiting.others {s : ServiceState} {u : Tid} {σ' : Shared} (hdisc : Program.Disciplined typing s)
    (h : Exiting s.shared (s.code u))
    (hstays : s.owner mAutosuspendClientTokensLock = some u → s.shared.mAutosuspendEnabled = false →
      σ'.mAutosuspendEnabled = false) : Exiting σ' (s.code u) := by
  obtain ⟨held, hheld, hbal⟩ := hdisc u
  have howns : mAutosuspendClientTokensLock ∈ held → s.owner mAutosuspendClientTokensLock = some u :=
    (hheld.mem _).mp
  generalize s.code u = code at h hbal
  cases h with
  | tokens c rest => exact .tokens c rest
  | lock c rest => exact .lock c rest
  | disable c rest => exact .disable c rest
  | await woken c rest disabled =>
    rw [Typing.balanced_run] at hbal
    have howner := howns (by rw [hbal.1]; exact List.mem_cons_of_mem _ List.mem_cons_self)
    exact .await woken c rest (hstays howner disabled)
  | relock woken c rest disabled =>
    rw [Typing.balanced_lock, Typing.balanced_run] at hbal
    obtain ⟨-, hneeds⟩ := List.cons.inj hbal.2.1
    exact .relock woken c rest (hstays (howns (by rw [hneeds]; decide)) disabled)
  | wait woken c rest disabled =>
    rw [Typing.balanced_wait, Typing.balanced_lock, Typing.balanced_run] at hbal
    obtain ⟨-, hneeds⟩ := List.cons.inj hbal.2.2.1
    refine .wait woken c rest (hstays (howns (List.mem_of_mem_erase (b := mAutosuspendLock) ?_)) disabled)
    rw [hneeds]
    decide

theorem exec_enabled {cfg : Config} {t : Tid} {env : Env} {σ : Shared} {b : Block} {o : Out}
    (h : exec cfg t env σ b = some o) (hb : ∀ token, b ≠ .enableAutosuspend token)
    (hdisabled : σ.mAutosuspendEnabled = false) : o.state.mAutosuspendEnabled = false := by
  cases exec_autosuspend h with
  | same state => exact (congrArg Shared.Autosuspend.mAutosuspendEnabled state).trans hdisabled
  | enable token => exact absurd rfl (hb token)
  | disable state => rw [state]; rfl
  | inc holder =>
    simp only [incSuspendCounter]
    split <;> cases holder <;> exact hdisabled
  | dec holder =>
    simp only [decSuspendCounter]
    split <;> cases holder <;> exact hdisabled
  | exit shouldSleep disabled => exact disabled

section exits

variable {cfg : Config} {s s' : ServiceState} {a : ServiceAction} {t : Tid} {b : Block} {env : Env}
  {c : ThreadCode} {o : Out}

theorem Exits.ran_self (h : Exits s) (hr : (program cfg).Ran s a s' t b env c o) :
    (s'.code t).duties Block.awaitThreadExit? = [] ∨ Exiting s'.shared (s'.code t) := by
  have hexec := exec_of_ran hr
  rw [hr.duties_self, hr.code_self, hr.shared]
  have hcase := h t
  rw [hr.code] at hcase
  rcases hcase with hnone | hexiting
  · rw [Code.duties_run, List.append_eq_nil_iff] at hnone
    cases hleads : b.leadsToExit with
    | false => exact Or.inl (by rw [(exec_frame hexec).exits hleads, hnone.2]; rfl)
    | true =>
      unfold Block.leadsToExit at hleads
      split at hleads
      · obtain rfl := Option.some.inj hexec
        exact Or.inr (.tokens _ (by simpa [Block.awaitThreadExit?] using hnone.2))
      · cases hnone.1
      · cases hleads
  · cases hexiting with
    | disable c rest =>
      obtain rfl := Option.some.inj hexec
      exact Or.inr (.await false c rest rfl)
    | await woken c rest disabled =>
      obtain rfl := Option.some.inj hexec
      simp only [awaitThreadExit]
      split
      · exact Or.inl rest
      · exact Or.inr (.wait true c rest disabled)

theorem Exits.ran (h : Exits s) (hdisc : Program.Disciplined typing s) (hr : (program cfg).Ran s a s' t b env c o) :
    Exits s' := by
  intro u
  have hexec := exec_of_ran hr
  by_cases hu : u = t
  · subst hu
    exact h.ran_self hr
  · rcases code_other_of_ran hr hu with hcode | ⟨-, hcode⟩
    · rw [hcode]
      refine (h u).imp id fun hexiting => hexiting.others hdisc fun howner hdisabled => ?_
      rw [hr.shared]
      refine exec_enabled hexec (fun token he => ?_) hdisabled
      subst he
      have howner' : s.owner mAutosuspendClientTokensLock = some t :=
        (hdisc.owns_iff hr.code).mpr (List.mem_cons_of_mem _ List.mem_cons_self)
      exact hu (Option.some.inj (howner.symm.trans howner'))
    · rw [hcode]
      exact Or.inl rfl

theorem Exits.quiet (h : Exits s) (hq : (program cfg).Quiet s a s') : Exits s' := by
  intro u
  rw [hq.shared]
  refine hq.keeps (K := fun c => c.duties Block.awaitThreadExit? = [] ∨ Exiting s.shared c)
    (fun i c hi hcase => ?_) (fun b _ hentry => ?_) (h u)
  · exact hcase.imp Code.duties_of_cons fun hexiting => hexiting.drop hi
  · obtain ⟨n, p, rfl, rfl⟩ := entry_op hentry
    exact Or.inl rfl

theorem reach_exits {ok : ServiceState → ServiceAction → Prop} (h : (program cfg).Reach ok s) : Exits s := by
  refine h.invariant (fun u => Or.inl rfl) fun s a s' hreach _ hs hstep => ?_
  rcases hstep.quiet_or_ran with hq | ⟨t, b, env, c, o, hr⟩
  · exact hs.quiet hq
  · exact hs.ran (hreach.disciplined (typing_sound cfg)) hr

theorem Exits.disabled (h : Exits s) {woken : Bool}
    (hcode : s.code t = .lock mAutosuspendLock :: .run (.awaitThreadExit woken) :: c) :
    s.shared.mAutosuspendEnabled = false := by
  have hcase := h t
  rw [hcode] at hcase
  rcases hcase with hnone | hexiting
  · cases hnone
  · cases hexiting with
    | relock woken c rest disabled => exact disabled

end exits

/-! ### Parked threads -/

/-- The reason for which a thread waits before the block it goes on with. -/
def Waits (cfg : Config) (σ : Shared) : Block → Prop
  | .loop (.sleep true) => σ.mAutosuspendEnabled = true
  | .loop (.awaitCounter _) => σ.mAutosuspendEnabled = true ∧ cfg.useSuspendCounter = true ∧ unreleased σ ≠ 0
  | .awaitThreadExit true => True
  | _ => False

/-- Every thread that is parked, or about to be, has a reason to wait; and threads only wait right away. -/
structure Parking (cfg : Config) (s : ServiceState) : Prop where
  nodup : s.waiters.Nodup
  parked : ∀ u ∈ s.waiters, ∃ b c, s.code u = .lock mAutosuspendLock :: .run b :: c ∧ Waits cfg s.shared b
  waits : ∀ u m c, s.code u = .wait m :: c →
    m = mAutosuspendLock ∧ ∃ b c', c = .lock mAutosuspendLock :: .run b :: c' ∧ Waits cfg s.shared b
  later : ∀ u, Code.waits (s.code u).tail = []

theorem waits_congr {cfg : Config} {σ σ' : Shared} (hauto : σ'.autosuspend = σ.autosuspend)
    (hcount : unreleased σ' = unreleased σ) {b : Block} (h : Waits cfg σ b) : Waits cfg σ' b := by
  have henabled : σ'.mAutosuspendEnabled = σ.mAutosuspendEnabled :=
    congrArg Shared.Autosuspend.mAutosuspendEnabled hauto
  unfold Waits at h ⊢
  split
  · rw [henabled]
    exact h
  · rw [henabled, hcount]
    exact h
  · trivial
  · simp_all

theorem exec_waits {cfg : Config} {t : Tid} {env : Env} {σ : Shared} {b : Block} {o : Out}
    (h : exec cfg t env σ b = some o)
    (hcounted : σ.mSuspendCounter ≠ 0 → cfg.useSuspendCounter = true ∧ unreleased σ ≠ 0) :
    o.code.waits = [] ∨ ∃ b', o.code = waitThen b' ∧ o.state = σ ∧ Waits cfg σ b' := by
  cases hb : b.mayWait with
  | false => exact Or.inl ((exec_frame h).waits hb)
  | true =>
    unfold Block.mayWait at hb
    split at hb
    · obtain rfl := Option.some.inj h
      simp only [awaitThreadExit]
      split
      · exact Or.inl rfl
      · exact Or.inr ⟨_, rfl, rfl, trivial⟩
    · obtain rfl := Option.some.inj h
      simp only [execLoop]
      split
      · exact Or.inl rfl
      · rename_i hwait
        exact Or.inr ⟨_, rfl, rfl, by simp_all [Waits]⟩
    · obtain rfl := Option.some.inj h
      simp only [execLoop]
      split
      · exact Or.inl rfl
      · rename_i hwait
        simp only [Bool.or_eq_true, decide_eq_true_eq, Bool.not_eq_true', not_or, Bool.not_eq_false] at hwait
        exact Or.inr ⟨_, rfl, rfl, hwait.2, hcounted hwait.1⟩
    · cases hb

/-- Whoever disables autosuspend notifies all waiters. -/
theorem exec_disables {cfg : Config} {t : Tid} {env : Env} {σ : Shared} {b : Block} {o : Out}
    (h : exec cfg t env σ b = some o) (henabled : σ.mAutosuspendEnabled = true) :
    o.state.mAutosuspendEnabled = true ∨ o.notify = .all := by
  cases exec_autosuspend h with
  | same state => exact Or.inl ((congrArg Shared.Autosuspend.mAutosuspendEnabled state).trans henabled)
  | enable token =>
    left
    rcases enableAutosuspend_cases env σ token with ⟨-, ho⟩ | ⟨-, -, ho⟩ | ⟨-, -, ho⟩
    · rw [ho]
      exact henabled
    · rw [ho]
    · rw [ho]
  | disable state spawn notify => exact Or.inr (by rw [notify, disableAutosuspendLocked, henabled]; rfl)
  | inc holder =>
    left
    simp only [incSuspendCounter]
    split <;> cases holder <;> exact henabled
  | dec holder =>
    left
    simp only [decSuspendCounter]
    split <;> cases holder <;> exact henabled
  | exit shouldSleep disabled =>
    rw [henabled] at disabled
    cases disabled

section parking

variable {cfg : Config} {s s' : ServiceState} {a : ServiceAction} {t : Tid}

theorem Parking.update (h : Parking cfg s) (ht : t ∉ s.waiters) {c : ThreadCode} (hc : c.waits = [])
    (hshared : s'.shared = s.shared) (hcode : s'.code = Function.update s.code t c)
    (hwaiters : s'.waiters = s.waiters) :
    Parking cfg s' := by
  refine ⟨by rw [hwaiters]; exact h.nodup, fun u hu => ?_, fun u m c' hu => ?_, fun u => ?_⟩
  · rw [hwaiters] at hu
    have hne : u ≠ t := fun he => ht (he ▸ hu)
    rw [hcode, hshared, Function.update_of_ne hne]
    exact h.parked u hu
  · by_cases hne : u = t
    · subst hne
      rw [hcode, Function.update_self] at hu
      rw [hu] at hc
      cases hc
    · rw [hcode, Function.update_of_ne hne] at hu
      rw [hshared]
      exact h.waits u m c' hu
  · by_cases hne : u = t
    · subst hne
      rw [hcode, Function.update_self]
      exact Code.waits_tail hc
    · rw [hcode, Function.update_of_ne hne]
      exact h.later u

theorem Parking.wait (h : Parking cfg s) (ht : t ∉ s.waiters) {m : Mutex} {c : ThreadCode}
    (hbefore : s.code t = .wait m :: c) (hshared : s'.shared = s.shared)
    (hcode : s'.code = Function.update s.code t c) (hwaiters : s'.waiters = t :: s.waiters) : Parking cfg s' := by
  obtain ⟨-, b, c', rfl, hwaits⟩ := h.waits t m c hbefore
  have hlater := h.later t
  rw [hbefore] at hlater
  refine ⟨by rw [hwaiters]; exact List.nodup_cons.mpr ⟨ht, h.nodup⟩, fun u hu => ?_, fun u m' c'' hu => ?_, fun u => ?_⟩
  · rw [hcode, hshared]
    by_cases hne : u = t
    · subst hne
      rw [Function.update_self]
      exact ⟨b, c', rfl, hwaits⟩
    · rw [Function.update_of_ne hne]
      rw [hwaiters] at hu
      exact h.parked u ((List.mem_cons.mp hu).resolve_left hne)
  · rw [hcode] at hu
    by_cases hne : u = t
    · subst hne
      rw [Function.update_self] at hu
      cases hu
    · rw [Function.update_of_ne hne] at hu
      rw [hshared]
      exact h.waits u m' c'' hu
  · rw [hcode]
    by_cases hne : u = t
    · subst hne
      rw [Function.update_self]
      exact hlater
    · rw [Function.update_of_ne hne]
      exact h.later u

variable {b : Block} {env : Env} {c : ThreadCode} {o : Out}

/-- When the last wake lock is released, the notification goes to the autosuspend thread if it waits for that: no other
thread is parked then. -/
theorem Parking.counted (h : Parking cfg s) (hloops : Loops s) (hexits : Exits s) (hlocks : Locks s)
    (hcounted : Counted cfg s') (hr : (program cfg).Ran s a s' t b env c o) {u : Tid} (hu : u ∈ s'.waiters)
    {wakeupCount : StdString} {c' : ThreadCode}
    (hcode : s.code u = .lock mAutosuspendLock :: .run (.loop (.awaitCounter wakeupCount)) :: c')
    (henabled : s.shared.mAutosuspendEnabled = true) (hmode : cfg.useSuspendCounter = true)
    (hcount : unreleased s.shared ≠ 0) : unreleased s'.shared ≠ 0 := by
  intro hzero
  rcases (hlocks.ran hr).2.unreleased with ⟨-, hinc⟩ | ⟨⟨wl, rfl⟩, -⟩ | ⟨-, hsame⟩
  · omega
  · have hexec := Option.some.inj (exec_of_ran hr)
    have hcounter : s'.shared.mSuspendCounter = 0 := by
      rw [hcounted, if_pos hmode, hzero]
      rfl
    have hnotify : o.notify = .one := by
      rw [hr.shared, ← hexec, decSuspendCounter_counter, if_pos hmode] at hcounter
      simp only [← hexec, decSuspendCounter, hmode, hcounter, if_true]
    obtain ⟨pick, -, hleft⟩ := hr.action
    rw [hnotify] at hleft
    rcases Notify.left_one hleft with hnone | ⟨v, hv, herase⟩
    · rw [hnone] at hu
      cases hu
    · have hloop : ∀ w, ¬ OutOfLoop (s.code w) → w = u := fun w hw =>
        Option.some.inj ((hloops.thread_eq hw).symm.trans
          (hloops.thread_eq (by simp [hcode, OutOfLoop, Block.loop?])))
      have hnotv : v ≠ u := by
        rintro rfl
        rw [herase] at hu
        exact h.nodup.not_mem_erase hu
      obtain ⟨bv, cv, hcodev, hwaits⟩ := h.parked v hv
      unfold Waits at hwaits
      split at hwaits
      · exact hnotv (hloop v (by simp [hcodev, OutOfLoop, Block.loop?]))
      · exact hnotv (hloop v (by simp [hcodev, OutOfLoop, Block.loop?]))
      · rw [hexits.disabled hcodev] at henabled
        cases henabled
      · exact hwaits
  · omega

theorem Parking.keeps (h : Parking cfg s) (hloops : Loops s) (hexits : Exits s) (hlocks : Locks s)
    (hcounted : Counted cfg s') (hr : (program cfg).Ran s a s' t b env c o) {u : Tid} (hu : u ∈ s'.waiters)
    {b' : Block} {c' : ThreadCode} (hcode : s.code u = .lock mAutosuspendLock :: .run b' :: c')
    (hwaits : Waits cfg s.shared b') : Waits cfg s'.shared b' := by
  have henabled : s.shared.mAutosuspendEnabled = true → s'.shared.mAutosuspendEnabled = true := by
    intro hbefore
    rw [hr.shared]
    refine (exec_disables (exec_of_ran hr) hbefore).resolve_right fun hall => ?_
    obtain ⟨pick, -, hleft⟩ := hr.action
    rw [hall] at hleft
    rw [← Option.some.inj hleft] at hu
    cases hu
  unfold Waits at hwaits ⊢
  split
  · exact henabled hwaits
  · exact ⟨henabled hwaits.1, hwaits.2.1,
      h.counted hloops hexits hlocks hcounted hr hu hcode hwaits.1 hwaits.2.1 hwaits.2.2⟩
  · trivial
  · simp_all

/-- The other threads that are about to wait hold the lock that guards their reason. -/
theorem Parking.others_wait (h : Parking cfg s) (hdisc : Program.Disciplined typing s) (hlocks : Locks s)
    (hr : (program cfg).Ran s a s' t b env c o) {u : Tid} (hu : u ≠ t) {m : Mutex} {c' : ThreadCode}
    (hcode : s.code u = .wait m :: c') :
    m = mAutosuspendLock ∧
      ∃ b' c'', c' = .lock mAutosuspendLock :: .run b' :: c'' ∧ Waits cfg s'.shared b' := by
  obtain ⟨rfl, b', c'', rfl, hwaits⟩ := h.waits u m c' hcode
  have howner := hdisc.owns_of_wait hcode
  have hneeds : mAutosuspendLock ∉ needs b := by
    intro hb
    have howner' := (hdisc.owns_iff hr.code).mpr hb
    exact hu (Option.some.inj (howner.symm.trans howner'))
  refine ⟨rfl, b', c'', rfl, waits_congr ?_ ?_ hwaits⟩
  · rw [hr.shared]
    exact guards_autosuspend t b env s.shared o (exec_of_ran hr) hneeds
  · rcases (hlocks.ran hr).2.unreleased with ⟨⟨wl, rfl⟩, -⟩ | ⟨⟨wl, rfl⟩, -⟩ | ⟨-, hsame⟩
    · exact absurd List.mem_cons_self hneeds
    · exact absurd List.mem_cons_self hneeds
    · exact hsame

theorem Parking.ran (h : Parking cfg s) (hloops : Loops s) (hexits : Exits s) (hlocks : Locks s)
    (hdisc : Program.Disciplined typing s) (hbefore : Counted cfg s) (hcounted : Counted cfg s')
    (hr : (program cfg).Ran s a s' t b env c o) : Parking cfg s' := by
  have hlater := h.later t
  rw [hr.code, List.tail_cons] at hlater
  have hwait := exec_waits (exec_of_ran hr) fun hne => by
    rw [hbefore] at hne
    cases hmode : cfg.useSuspendCounter with
    | true => exact ⟨rfl, fun hzero => hne (by rw [hzero, ite_self]; rfl)⟩
    | false => exact absurd (by rw [hmode]; rfl) hne
  obtain ⟨pick, -, hleft⟩ := hr.action
  have hsub := Notify.left_sublist hleft
  refine ⟨h.nodup.sublist hsub, fun u hu => ?_, fun u m c' hu => ?_, fun u => ?_⟩
  · have hold := hsub.subset hu
    have hne : u ≠ t := fun he => hr.awake (he ▸ hold)
    rcases code_other_of_ran hr hne with hsame | ⟨hnot, -⟩
    · obtain ⟨b', c', hcodeu, hwaits⟩ := h.parked u hold
      rw [hsame]
      exact ⟨b', c', hcodeu, h.keeps hloops hexits hlocks hcounted hr hu hcodeu hwaits⟩
    · exact absurd hold hnot
  · by_cases hne : u = t
    · subst hne
      rw [hr.code_self] at hu
      rcases hwait with hnone | ⟨b', hthen, hstate, hwaits⟩
      · have hall : Code.waits (o.code ++ c) = [] := by rw [Code.waits_append, hnone, hlater]; rfl
        rw [hu] at hall
        cases hall
      · rw [hthen] at hu
        obtain ⟨hm, rfl⟩ := List.cons.inj hu
        rw [hr.shared, hstate]
        exact ⟨(Instr.wait.inj hm).symm, b', c, rfl, hwaits⟩
    · rcases code_other_of_ran hr hne with hsame | ⟨-, hnew⟩
      · rw [hsame] at hu
        exact h.others_wait hdisc hlocks hr hne hu
      · rw [hnew] at hu
        cases hu
  · by_cases hne : u = t
    · subst hne
      rw [hr.code_self]
      rcases hwait with hnone | ⟨b', hthen, -, -⟩
      · exact Code.waits_tail (by rw [Code.waits_append, hnone, hlater]; rfl)
      · rw [hthen]
        exact hlater
    · rcases code_other_of_ran hr hne with hsame | ⟨-, hnew⟩
      · rw [hsame]
        exact h.later u
      · rw [hnew]
        rfl

theorem Parking.step (h : Parking cfg s) (hreach : (program cfg).Reach Served s)
    (hstep : (program cfg).Step s a s') : Parking cfg s' := by
  have hrest : ∀ {t : Tid} {i : Instr Mutex Block} {c : ThreadCode}, s.code t = i :: c → c.waits = [] := by
    intro t i c hcode
    have hlater := h.later t
    rwa [hcode] at hlater
  cases hstep with
  | lock awake code free => exact h.update awake (hrest code) rfl rfl rfl
  | unlock awake code => exact h.update awake (hrest code) rfl rfl rfl
  | wait awake code => exact h.wait awake code rfl rfl rfl
  | @run t env _ b c o left awake code exec spawn notified =>
    have hr : (program cfg).Ran s _ (s.ran t c o left) t b env c o :=
      ⟨⟨_, rfl, notified⟩, awake, code, exec, spawn, rfl⟩
    have hlocks := reach_locks hreach
    have hcounted := reach_counted hreach
    exact h.ran (reach_loops hreach) (reach_exits hreach) hlocks (hreach.disciplined (typing_sound cfg)) hcounted
      (hcounted.ran (reach_served hreach) hlocks hr) hr
  | wake parked => exact ⟨h.nodup.erase _, fun u hu => h.parked u (List.mem_of_mem_erase hu), h.waits, h.later⟩
  | call idle awake entry => exact h.update awake rfl rfl rfl rfl
  | env => exact ⟨h.nodup, h.parked, h.waits, h.later⟩

theorem reach_parking (h : (program cfg).Reach Served s) : Parking cfg s := by
  have hinit : Parking cfg (program cfg).init :=
    ⟨List.nodup_nil, by simp [Program.init], by simp [Program.init], fun _ => rfl⟩
  exact h.invariant hinit fun _ _ _ hreach _ hs hstep => hs.step hreach hstep

end parking

/-- A thread that is parked with no notification pending waits in the loop for the counter, in the sleep of the loop, or
in the destructor. In the first case a wake lock is unreleased and autosuspend is enabled, in the second autosuspend is
enabled. -/
theorem no_lost_notification (cfg : Config) {s : ServiceState} (h : (program cfg).Reach Served s)
    (hfew : unreleasedLocks s < 2 ^ 32) {t : Tid} (hparked : t ∈ s.waiters) :
    (∀ wakeupCount c, s.code t = .lock mAutosuspendLock :: .run (.loop (.awaitCounter wakeupCount)) :: c →
      0 < s.shared.mSuspendCounter ∧ s.shared.mAutosuspendEnabled = true) ∧
    (∀ woken c, s.code t = .lock mAutosuspendLock :: .run (.loop (.sleep woken)) :: c →
      s.shared.mAutosuspendEnabled = true) ∧
    (∃ b c, s.code t = .lock mAutosuspendLock :: .run b :: c ∧
      ((∃ wakeupCount, b = .loop (.awaitCounter wakeupCount)) ∨ b = .loop (.sleep true) ∨
        b = .awaitThreadExit true)) := by
  obtain ⟨b, c, hcode, hwaits⟩ := (reach_parking h).parked t hparked
  have hblock : ∀ b' c', s.code t = .lock mAutosuspendLock :: .run b' :: c' → Waits cfg s.shared b' := by
    intro b' c' hcode'
    rw [hcode] at hcode'
    obtain ⟨hb, -⟩ := List.cons.inj (List.cons.inj hcode').2
    rwa [← Instr.run.inj hb]
  refine ⟨fun wakeupCount c' hcode' => ?_, fun woken c' hcode' => ?_, b, c, hcode, ?_⟩
  · obtain ⟨henabled, hmode, hcount⟩ := hblock _ _ hcode'
    refine ⟨?_, henabled⟩
    have hcounted := reach_counted h
    rw [Counted, if_pos hmode] at hcounted
    rw [(reach_logInv h).unreleasedLocks_eq] at hfew
    rw [hcounted, counterModulus, Nat.mod_eq_of_lt hfew]
    exact Nat.pos_of_ne_zero hcount
  · have hreason := hblock _ _ hcode'
    cases woken with
    | true => exact hreason
    | false => exact hreason.elim
  · unfold Waits at hwaits
    split at hwaits
    · exact Or.inr (Or.inl rfl)
    · exact Or.inl ⟨_, rfl⟩
    · exact Or.inr (Or.inr rfl)
    · exact hwaits.elim

theorem no_lost_notification_counter :
    ∃ s : ServiceState, (program smallConfig).Reach Served s ∧ .autosuspend 0 ∈ s.waiters ∧
      0 < s.shared.mSuspendCounter ∧ s.shared.mAutosuspendEnabled = true := by
  obtain ⟨s, hreach, hs⟩ := Program.Reach.of_run (program smallConfig) (fun _ a => servedAction a)
    (goCall (.client 1) (.acquireWakeLock .aidl (str "wl")) 12 ++ toRead ++ go (.autosuspend 0) 4)
    (fun s => unreleasedLocks s = 1 && decide (.autosuspend 0 ∈ s.waiters) &&
      s.code (.autosuspend 0) = [.lock mAutosuspendLock, .run (.loop (.awaitCounter (str "1")))])
    (fun _ _ h => h) (by decide +kernel)
  simp only [Bool.and_eq_true, decide_eq_true_eq] at hs
  obtain ⟨⟨hcount, hparked⟩, hcode⟩ := hs
  exact ⟨s, hreach, hparked, (no_lost_notification smallConfig hreach (by omega) hparked).1 _ _ hcode⟩

end HardwareInterfaces.Suspend.Service
