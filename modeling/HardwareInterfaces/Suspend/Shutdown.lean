import HardwareInterfaces.Suspend.FurtherEffects
import HardwareInterfaces.Suspend.Notifications

/-!
# The destructor of the service

The destructor disables autosuspend and waits, for a limited time, until the autosuspend thread has left its loop. It
keeps the lock of the client tokens meanwhile, and a thread on its way to suspend has to take that lock before it can
leave. A thread that leaves does not notify the condition variable, so a destructor that is parked then goes on
waiting. And the wait may time out before the thread has left.

`exitsCleanly` rules these cases out, step by step. In a run of such steps the destructor does what it is for: the
thread is never blocked on the lock the destructor keeps, no destructor is parked when the thread leaves, and no
thread is left when the destructor is done.
-/

namespace HardwareInterfaces.Suspend.Service

open CppStd Monitor Mutex

def awaitsExit : ThreadCode → Bool
  | .run (.awaitThreadExit _) :: _ => true
  | .lock _ :: .run (.awaitThreadExit _) :: _ => true
  | .wait _ :: .lock _ :: .run (.awaitThreadExit _) :: _ => true
  | _ => false

def towardsTokens (s : ServiceState) : Bool :=
  (List.range s.shared.spawned).any fun n => tokenLocks (s.code (.autosuspend n)) ≠ []

def isAutosuspend : Tid → Bool
  | .autosuspend _ => true
  | .client _ => false

/-- The destructor does not begin to wait while an autosuspend thread is on its way to the lock of the client tokens,
nor does a callback send it there while the destructor waits; the thread does not leave the loop while a destructor is
parked; and the wait does not time out before it has left. -/
def exitsCleanly (s : ServiceState) : ServiceAction → Bool
  | .step t env _ =>
    match s.code t with
    | .run .disableAutosuspendLocked :: .run (.awaitThreadExit _) :: _ => !towardsTokens s
    | .run (.op p) :: _ =>
      !(isAutosuspend t && Block.asksTokens s.shared (.op p) &&
        (s.owner mAutosuspendClientTokensLock).any fun d => awaitsExit (s.code d))
    | .run (.loop (.head _)) :: _ => s.shared.mAutosuspendEnabled || s.waiters.all fun d => !awaitsExit (s.code d)
    | .run (.awaitThreadExit woken) :: _ => !(s.shared.mAutosuspendThreadCreated && woken && env.timedOut)
    | _ => true
  | _ => true

def ExitsCleanly (s : ServiceState) (a : ServiceAction) : Prop := exitsCleanly s a = true

/-! ### Threads that have left the loop -/

/-- An autosuspend thread that is not in the loop has at most a lock to release. -/
def Gone (s : ServiceState) : Prop :=
  ∀ n, loopThread s.shared ≠ some (.autosuspend n) →
    s.code (.autosuspend n) = [] ∨ s.code (.autosuspend n) = [.unlock mAutosuspendLock]

section gone

variable {cfg : Config} {s s' : ServiceState} {a : ServiceAction} {t : Tid} {b : Block} {env : Env}
  {c : ThreadCode} {o : Out}

theorem Gone.inside (h : Gone s) {n : Nat} (hr : (program cfg).Ran s a s' (.autosuspend n) b env c o) :
    loopThread s.shared = some (.autosuspend n) := by
  by_contra hout
  rcases h n hout with hcode | hcode
  · rw [hr.code] at hcode
    cases hcode
  · rw [hr.code] at hcode
    cases hcode

theorem Gone.ran_exit (h : Gone s) (hloops : Loops s) {shouldSleep : Bool}
    (hr : (program cfg).Ran s a s' t (.loop (.head shouldSleep)) env c o)
    (hdisabled : s.shared.mAutosuspendEnabled = false) : Gone s' := by
  obtain ⟨ht, rfl⟩ := hloops.at_point hr.code
  obtain ⟨-, hcode, hspawn⟩ := exec_exit (exec_of_ran hr) hdisabled
  intro n _
  by_cases hn : .autosuspend n = t
  · subst hn
    right
    rw [hr.code_self, hcode]
    rfl
  · rw [hr.code_other hn hspawn]
    exact h n fun hin => hn (Option.some.inj (hin.symm.trans ht))

theorem Gone.ran_stays (h : Gone s) (hr : (program cfg).Ran s a s' t b env c o)
    (hstays : ∀ shouldSleep, b = .loop (.head shouldSleep) → s.shared.mAutosuspendEnabled = true) : Gone s' := by
  intro n hn
  cases hspawn : o.spawn with
  | none =>
    have hthread := (loopThread_exec (exec_of_ran hr) hspawn hstays).1
    rw [hr.shared, hthread] at hn
    have hne : .autosuspend n ≠ t := by
      rintro rfl
      exact hn (h.inside hr)
    rw [hr.code_other hne hspawn]
    exact h n hn
  | some p =>
    obtain ⟨rfl, hcreated, hcreated', hspawned⟩ := exec_spawn (exec_of_ran hr) hspawn
    have hbefore : loopThread s.shared = none := by simp [loopThread, hcreated]
    have hne : .autosuspend n ≠ t := by
      rintro rfl
      rw [h.inside hr] at hbefore
      cases hbefore
    rcases State.ran_code_cases s c o s'.waiters hne with hsame | ⟨cu, hcu, -⟩
    · rw [hr.after, hsame]
      exact h n (by simp [hbefore])
    · -- the thread that starts is the one in the loop now
      rw [hspawn] at hcu
      obtain ⟨hn', -⟩ := Prod.mk.inj (Option.some.inj hcu)
      refine absurd ?_ hn
      simp [hr.shared, loopThread, hcreated', hspawned, ← hn']

theorem Gone.step (h : Gone s) (hloops : Loops s) (hstep : (program cfg).Step s a s') : Gone s' := by
  rcases hstep.quiet_or_ran with hq | ⟨t, b, env, c, o, hr⟩
  · intro n hn
    rw [hq.shared] at hn
    rcases hq.code (.autosuspend n) with hsame | ⟨i, c, hcode, hcode', hi⟩ | ⟨b, -, hentry, -⟩
    · rw [hsame]
      exact h n hn
    · rcases h n hn with hnil | hunlock
      · rw [hcode] at hnil
        cases hnil
      · rw [hcode] at hunlock
        exact Or.inl (hcode'.trans (List.cons.inj hunlock).2)
    · cases hentry
  · by_cases hexit : ∃ shouldSleep, b = .loop (.head shouldSleep) ∧ s.shared.mAutosuspendEnabled = false
    · obtain ⟨shouldSleep, rfl, hdisabled⟩ := hexit
      exact h.ran_exit hloops hr hdisabled
    · refine h.ran_stays hr fun shouldSleep he => ?_
      cases henabled : s.shared.mAutosuspendEnabled with
      | true => rfl
      | false => exact absurd ⟨shouldSleep, he, henabled⟩ hexit

theorem reach_gone {ok : ServiceState → ServiceAction → Prop} (h : (program cfg).Reach ok s) : Gone s :=
  h.invariant (fun _ _ => Or.inl rfl) fun _ _ _ hreach _ hs hstep => hs.step (reach_loops hreach) hstep

end gone

/-! ### The code of the destructor -/

def closesExit : ThreadCode → Bool
  | [] => true
  | .run (.awaitThreadExit _) :: c =>
    [Instr.unlock mAutosuspendLock, Instr.unlock mAutosuspendClientTokensLock].isPrefixOf c && closesExit c
  | _ :: c => closesExit c

theorem closesExit_cons {i : Instr Mutex Block} {c : ThreadCode} :
    closesExit (i :: c) = true ↔ closesExit c = true ∧ ∀ woken, i = .run (.awaitThreadExit woken) →
      [Instr.unlock mAutosuspendLock, Instr.unlock mAutosuspendClientTokensLock] <+: c := by
  cases i with
  | run b =>
    cases b with
    | awaitThreadExit woken =>
      rw [closesExit, Bool.and_eq_true, List.isPrefixOf_iff_prefix, and_comm]
      exact and_congr Iff.rfl ⟨fun h _ _ => h, fun h => h woken rfl⟩
    | _ => simp [closesExit]
  | _ => simp [closesExit]

theorem closesExit_append {p c : ThreadCode} (hp : closesExit p = true) (hc : closesExit c = true) :
    closesExit (p ++ c) = true := by
  induction p with
  | nil => exact hc
  | cons i p ih =>
    obtain ⟨hrest, hnow⟩ := closesExit_cons.mp hp
    refine closesExit_cons.mpr ⟨ih hrest, fun woken hi => ?_⟩
    exact (hnow woken hi).trans (List.prefix_append _ _)

theorem closesExit_of_duties {c : ThreadCode} (h : c.duties Block.awaitThreadExit? = []) : closesExit c = true := by
  induction c with
  | nil => rfl
  | cons i c ih =>
    refine closesExit_cons.mpr ⟨ih (Code.duties_of_cons h), fun woken hi => ?_⟩
    subst hi
    cases h

section destructor

variable {cfg : Config} {s s' : ServiceState} {a : ServiceAction} {t d : Tid} {b : Block} {env : Env}
  {c : ThreadCode} {o : Out}

theorem closesExit_exec {σ : Shared} (hexec : exec cfg t env σ b = some o) (h : closesExit (.run b :: c) = true) :
    closesExit (o.code ++ c) = true := by
  rw [closesExit_cons] at h
  cases hleads : b.leadsToExit with
  | false => exact closesExit_append (closesExit_of_duties ((exec_frame hexec).exits hleads)) h.1
  | true =>
    unfold Block.leadsToExit at hleads
    split at hleads
    · obtain rfl := Option.some.inj hexec
      exact closesExit_append rfl h.1
    · rename_i woken
      obtain rfl := Option.some.inj hexec
      simp only [awaitThreadExit]
      split
      · exact h.1
      · have hwait : closesExit (.run (.awaitThreadExit true) :: c) = true :=
          closesExit_cons.mpr ⟨h.1, fun _ _ => h.2 woken rfl⟩
        exact hwait
    · cases hleads

theorem reach_closesExit {ok : ServiceState → ServiceAction → Prop} (h : (program cfg).Reach ok s) (u : Tid) :
    closesExit (s.code u) = true := by
  refine reach_code (K := fun c => closesExit c = true) rfl (fun _ => rfl) rfl (fun i c _ hcloses => ?_)
    (fun t b env σ c o hexec hcloses => closesExit_exec hexec hcloses) h u
  exact (closesExit_cons.mp hcloses).1

theorem Exits.awaiting (h : Exits s) (hd : awaitsExit (s.code d) = true) :
    s.shared.mAutosuspendEnabled = false ∧ ∃ woken c,
      s.code d = .run (.awaitThreadExit woken) :: c ∨
      s.code d = .lock mAutosuspendLock :: .run (.awaitThreadExit woken) :: c ∨
      s.code d = .wait mAutosuspendLock :: .lock mAutosuspendLock :: .run (.awaitThreadExit woken) :: c := by
  have hcase := h d
  generalize s.code d = code at hd hcase
  rcases hcase with hnone | hexiting
  · unfold awaitsExit at hd
    split at hd <;> first | cases hnone | cases hd
  · cases hexiting with
    | tokens c rest => cases hd
    | lock c rest => cases hd
    | disable c rest => cases hd
    | await woken c rest disabled => exact ⟨disabled, woken, c, Or.inl rfl⟩
    | relock woken c rest disabled => exact ⟨disabled, woken, c, Or.inr (Or.inl rfl)⟩
    | wait woken c rest disabled => exact ⟨disabled, woken, c, Or.inr (Or.inr rfl)⟩

/-- The destructor keeps the lock of the client tokens while it waits. It has no other lock when it is parked. -/
theorem owns_of_awaiting (hdisc : Program.Disciplined typing s) (hexits : Exits s)
    (hd : awaitsExit (s.code d) = true) :
    s.owner mAutosuspendClientTokensLock = some d ∧
      ∀ m c, s.code d = .lock m :: c → ∀ m', s.owner m' = some d → m' = mAutosuspendClientTokensLock := by
  obtain ⟨held, hheld, hbal⟩ := hdisc d
  obtain ⟨-, woken, c, hcode | hcode | hcode⟩ := hexits.awaiting hd
  · rw [hcode, Typing.balanced_run] at hbal
    refine ⟨(hheld.mem _).mp ?_, fun m c' hlock => ?_⟩
    · rw [hbal.1]
      exact List.mem_cons_of_mem _ List.mem_cons_self
    · rw [hcode] at hlock
      cases hlock
  · rw [hcode, Typing.balanced_lock, Typing.balanced_run] at hbal
    obtain ⟨-, hneeds⟩ := List.cons.inj hbal.2.1
    rw [hneeds] at hheld
    refine ⟨(hheld.mem _).mp List.mem_cons_self, fun m c' _ m' howner => ?_⟩
    exact List.mem_singleton.mp ((hheld.mem m').mpr howner)
  · rw [hcode, Typing.balanced_wait, Typing.balanced_lock, Typing.balanced_run] at hbal
    obtain ⟨-, hneeds⟩ := List.cons.inj hbal.2.2.1
    refine ⟨(hheld.mem _).mp (List.mem_of_mem_erase (b := mAutosuspendLock) ?_), fun m c' hlock => ?_⟩
    · rw [hneeds]
      exact List.mem_cons_self
    · rw [hcode] at hlock
      cases hlock

theorem duties_of_awaitsExit {c : ThreadCode} (h : awaitsExit c = true) : c.duties Block.awaitThreadExit? ≠ [] := by
  unfold awaitsExit at h
  split at h <;> simp_all [Block.awaitThreadExit?]

theorem Exits.begins (h : Exits s) (hstep : (program cfg).Step s a s') (hd : awaitsExit (s'.code d) = true) :
    awaitsExit (s.code d) = true ∨
      ∃ woken env c o, (program cfg).Ran s a s' d .disableAutosuspendLocked env (.run (.awaitThreadExit woken) :: c) o := by
  have hcase := h d
  rcases hstep.quiet_or_ran with hq | ⟨t, b, env, c, o, hr⟩
  · left
    rcases hq.code d with hsame | ⟨i, c, hcode, hcode', hi⟩ | ⟨b, -, hentry, -, hcode'⟩
    · rwa [hsame] at hd
    · rw [hcode'] at hd
      rw [hcode] at hcase ⊢
      rcases hcase with hnone | hexiting
      · cases i with
        | run b => exact absurd rfl (hi b)
        | _ => exact (duties_of_awaitsExit hd hnone).elim
      · cases hexiting with
        | tokens c rest => cases hd
        | lock c rest => cases hd
        | disable c rest => exact absurd rfl (hi _)
        | await woken c rest disabled => rfl
        | relock woken c rest disabled => rfl
        | wait woken c rest disabled => rfl
    · rw [hcode'] at hd
      obtain ⟨n, p, rfl, rfl⟩ := entry_op hentry
      cases hd
  · by_cases hne : d = t
    · subst hne
      rw [hr.code] at hcase
      rcases hcase with hnone | hexiting
      · rw [Code.duties_run, List.append_eq_nil_iff] at hnone
        rw [hr.code_self] at hd
        have hexec := exec_of_ran hr
        cases hleads : b.leadsToExit with
        | false =>
          refine absurd ?_ (duties_of_awaitsExit hd)
          rw [Code.duties_append, (exec_frame hexec).exits hleads, hnone.2]
          rfl
        | true =>
          unfold Block.leadsToExit at hleads
          split at hleads
          · obtain rfl := Option.some.inj hexec
            cases hd
          · cases hnone.1
          · cases hleads
      · cases hexiting with
        | disable c rest => exact Or.inr ⟨false, env, c, o, hr⟩
        | await woken c rest disabled => exact Or.inl (by rw [hr.code]; rfl)
    · rcases code_other_of_ran hr hne with hsame | ⟨-, hnew⟩
      · rw [hsame] at hd
        exact Or.inl hd
      · rw [hnew] at hd
        cases hd

end destructor

/-! ### The lock of the client tokens -/

/-- No autosuspend thread is on its way to the lock of the client tokens. -/
def Clear (s : ServiceState) : Prop := ∀ n, tokenLocks (s.code (.autosuspend n)) = []

section clear

variable {cfg : Config} {s s' : ServiceState} {a : ServiceAction} {t d : Tid} {b : Block} {env : Env}
  {c : ThreadCode} {o : Out}

theorem clear_of_not_towards (hloops : Loops s) (h : towardsTokens s = false) : Clear s := by
  intro n
  by_cases hn : n < s.shared.spawned
  · simp only [towardsTokens, List.any_eq_false, List.mem_range] at h
    simpa using h n hn
  · rw [hloops.unborn n (by omega)]
    rfl

theorem Clear.quiet (h : Clear s) (hq : (program cfg).Quiet s a s') : Clear s' := by
  intro n
  refine hq.keeps (K := fun c => tokenLocks c = []) (fun i c _ hnone => ?_) (fun b _ hentry => ?_) (h n)
  · exact tokenLocks_of_cons hnone
  · cases hentry

theorem Clear.ran (h : Clear s) (hr : (program cfg).Ran s a s' t b env c o)
    (hb : isAutosuspend t = true → b.asksTokens s.shared = false) : Clear s' := by
  intro n
  by_cases hn : .autosuspend n = t
  · subst hn
    have hbefore := h n
    rw [hr.code] at hbefore
    rw [hr.code_self, tokenLocks_append, (exec_aside (exec_of_ran hr)).tokens (hb rfl), tokenLocks_of_cons hbefore]
    rfl
  · rcases code_other_of_ran hr hn with hsame | ⟨-, hnew⟩
    · rw [hsame]
      exact h n
    · rw [hnew]
      rfl

theorem asksTokens_of_awaiting (hdisc : Program.Disciplined typing s) (hexits : Exits s)
    (hd : awaitsExit (s.code d) = true) (hr : (program cfg).Ran s a s' t b env c o) (hclean : ExitsCleanly s a)
    (ht : isAutosuspend t = true) : b.asksTokens s.shared = false := by
  have howner := (owns_of_awaiting hdisc hexits hd).1
  obtain ⟨hdisabled, -⟩ := hexits.awaiting hd
  obtain ⟨pick, rfl, -⟩ := hr.action
  cases b with
  | op p =>
    simp only [ExitsCleanly, exitsCleanly, hr.code, ht, howner, Option.any_some, hd, Bool.true_and, Bool.and_true,
      Bool.not_eq_true'] at hclean
    exact hclean
  | loop l =>
    cases l with
    | counterIdle wakeupCount => exact hdisabled
    | _ => rfl
  | _ => rfl

/-- While a destructor waits, no autosuspend thread is on its way to the lock it keeps. -/
def Unblocked (s : ServiceState) : Prop := ∀ d, awaitsExit (s.code d) = true → Clear s

theorem reach_unblocked (h : (program cfg).Reach ExitsCleanly s) : Unblocked s := by
  refine h.invariant (I := Unblocked) (fun d hd => by cases hd) ?_
  intro s a s' hreach hclean hs hstep d hd
  have hexits := reach_exits hreach
  have hdisc := hreach.disciplined (typing_sound cfg)
  rcases hexits.begins hstep hd with hbefore | ⟨woken, env, c, o, hr⟩
  · rcases hstep.quiet_or_ran with hq | ⟨t, b, env, c, o, hr⟩
    · exact (hs d hbefore).quiet hq
    · exact (hs d hbefore).ran hr (asksTokens_of_awaiting hdisc hexits hbefore hr hclean)
  · obtain ⟨pick, rfl, -⟩ := hr.action
    simp only [ExitsCleanly, exitsCleanly, hr.code, Bool.not_eq_true'] at hclean
    exact (clear_of_not_towards (reach_loops hreach) hclean).ran hr fun _ => rfl

end clear

/-! ### The end of the wait -/

section ends

variable {cfg : Config} {s s' : ServiceState} {a : ServiceAction} {t d : Tid} {b : Block} {env : Env}
  {c : ThreadCode} {o : Out}

theorem exec_leaves {σ : Shared} (h : exec cfg t env σ b = some o) (hcreated : σ.mAutosuspendThreadCreated = true)
    (hgone : o.state.mAutosuspendThreadCreated = false) :
    ∃ shouldSleep, b = .loop (.head shouldSleep) ∧ σ.mAutosuspendEnabled = false := by
  have hkept : o.state.mAutosuspendThreadCreated ≠ σ.mAutosuspendThreadCreated := by rw [hcreated, hgone]; decide
  cases exec_autosuspend h with
  | same state => exact absurd (congrArg Shared.Autosuspend.mAutosuspendThreadCreated state) hkept
  | enable token =>
    rcases enableAutosuspend_cases env σ token with ⟨-, ho⟩ | ⟨-, -, ho⟩ | ⟨-, -, ho⟩
    · exact absurd (by rw [ho]; rfl) hkept
    · exact absurd (by rw [ho]; rfl) hkept
    · rw [ho] at hgone
      cases hgone
  | disable state => exact absurd (by rw [state]; rfl) hkept
  | inc holder =>
    refine absurd ?_ hkept
    simp only [incSuspendCounter]
    split <;> cases holder <;> rfl
  | dec holder =>
    refine absurd ?_ hkept
    simp only [decSuspendCounter]
    split <;> cases holder <;> rfl
  | exit shouldSleep disabled => exact ⟨shouldSleep, rfl, disabled⟩

theorem parked_of_leaves (hstep : (program cfg).Step s a s') (hcreated : s.shared.mAutosuspendThreadCreated = true)
    (hgone : s'.shared.mAutosuspendThreadCreated = false) :
    (∀ d, awaitsExit (s'.code d) = true → d ∉ s'.waiters) ↔ ExitsCleanly s a := by
  rcases hstep.quiet_or_ran with hq | ⟨t, b, env, c, o, hr⟩
  · rw [hq.shared, hcreated] at hgone
    cases hgone
  · rw [hr.shared] at hgone
    obtain ⟨shouldSleep, rfl, hdisabled⟩ := exec_leaves (exec_of_ran hr) hcreated hgone
    obtain ⟨-, hcode, hspawn⟩ := exec_exit (exec_of_ran hr) hdisabled
    obtain ⟨pick, rfl, hleft⟩ := hr.action
    have hnotify : o.notify = .nobody := by
      obtain rfl := Option.some.inj (exec_of_ran hr)
      simp [execLoop, hdisabled]
    rw [hnotify] at hleft
    obtain hwaiters : s.waiters = s'.waiters := Option.some.inj hleft
    simp only [ExitsCleanly, exitsCleanly, hr.code, hdisabled, Bool.false_or, List.all_eq_true, Bool.not_eq_true']
    constructor
    · intro h d hd
      have hne : d ≠ t := fun he => hr.awake (he ▸ hd)
      rw [← hr.code_other hne hspawn, ← Bool.not_eq_true]
      exact fun hawaits => h d hawaits (hwaiters ▸ hd)
    · intro h d hawaits hd
      rw [← hwaiters] at hd
      have hne : d ≠ t := fun he => hr.awake (he ▸ hd)
      rw [hr.code_other hne hspawn, h d hd] at hawaits
      cases hawaits

theorem Exits.ends (h : Exits s) (hstep : (program cfg).Step s a s') (hclean : ExitsCleanly s a)
    (hd : awaitsExit (s.code d) = true) (hd' : awaitsExit (s'.code d) = false) :
    s.shared.mAutosuspendThreadCreated = false ∧ s'.owner = s.owner ∧ (∀ u, u ≠ d → s'.code u = s.code u) ∧
      ∃ woken c, s.code d = .run (.awaitThreadExit woken) :: c ∧ s'.code d = c := by
  have hshapes := (h.awaiting hd).2
  have hstays : s'.code d ≠ s.code d := fun he => by rw [he, hd] at hd'; cases hd'
  rcases hstep.quiet_or_ran with hq | ⟨t, b, env, c, o, hr⟩
  · rcases hq.code d with hsame | ⟨i, c, hcode, hcode', hi⟩ | ⟨b, -, -, hcode, -⟩
    · exact absurd hsame hstays
    · rw [hcode'] at hd'
      rw [hcode] at hshapes
      obtain ⟨woken, c', hshape | hshape | hshape⟩ := hshapes
      · exact absurd (List.cons.inj hshape).1 (hi _)
      · rw [(List.cons.inj hshape).2] at hd'
        cases hd'
      · rw [(List.cons.inj hshape).2] at hd'
        cases hd'
    · rw [hcode] at hd
      cases hd
  · have hne : s.code d ≠ [] := fun he => by rw [he] at hd; cases hd
    by_cases ht : d = t
    · subst ht
      rw [hr.code] at hshapes
      obtain ⟨woken, c', hshape | hshape | hshape⟩ := hshapes
      · obtain ⟨hb, rfl⟩ := List.cons.inj hshape
        obtain rfl := Instr.run.inj hb
        obtain ⟨pick, rfl, -⟩ := hr.action
        have hexec := Option.some.inj (exec_of_ran hr)
        simp only [ExitsCleanly, exitsCleanly, hr.code] at hclean
        rw [hr.code_self] at hd'
        unfold awaitThreadExit at hexec
        split at hexec
        · rename_i hend
          subst hexec
          have hleft : s.shared.mAutosuspendThreadCreated = false := by
            cases hcreated : s.shared.mAutosuspendThreadCreated with
            | false => rfl
            | true => simp [hcreated] at hend hclean; simp [hend] at hclean
          refine ⟨hleft, by rw [hr.after]; rfl, fun u hu => hr.code_other hu rfl, woken, c, hr.code, ?_⟩
          rw [hr.code_self]
          rfl
        · subst hexec
          cases hd'
      · cases hshape
      · cases hshape
    · exact absurd (hr.code_busy ht hne) hstays

/-- The destructor `d` is past its wait, or has released the lock of the client tokens: no thread is left. -/
structure Done (d : Tid) (s : ServiceState) : Prop where
  disciplined : Program.Disciplined typing s
  gone : ∀ n, s.code (.autosuspend n) = []
  code : s.owner mAutosuspendClientTokensLock = some d → ∃ c,
    s.code d = .unlock mAutosuspendLock :: .unlock mAutosuspendClientTokensLock :: c ∨
    s.code d = .unlock mAutosuspendClientTokensLock :: c

theorem Done.code_ne (h : Done d s) (howner : s.owner mAutosuspendClientTokensLock = some d)
    {i : Instr Mutex Block} (hcode : s.code t = i :: c) (hi : ∀ m, i ≠ .unlock m) : d ≠ t := by
  rintro rfl
  obtain ⟨c', hunlock | hunlock⟩ := h.code howner
  · rw [hcode] at hunlock
    exact hi _ (List.cons.inj hunlock).1
  · rw [hcode] at hunlock
    exact hi _ (List.cons.inj hunlock).1

theorem Done.other (h : Done d s) (hdisc : Program.Disciplined typing s') (hne : d ≠ t)
    (hcode : s.code t = [] → ∃ n, t = .client n) (hothers : ∀ u, u ≠ t → s'.code u = s.code u)
    (howner : s.owner mAutosuspendClientTokensLock = some d) : Done d s' := by
  refine ⟨hdisc, fun n => ?_, fun _ => ?_⟩
  · rw [hothers]
    · exact h.gone n
    · rintro rfl
      obtain ⟨m, hm⟩ := hcode (h.gone n)
      cases hm
  · rw [hothers d hne]
    exact h.code howner

theorem Done.step (h : Done d s) (howner : s.owner mAutosuspendClientTokensLock = some d)
    (hstep : (program cfg).Step s a s') : Done d s' := by
  have hdisc := hstep.disciplined (typing_sound cfg) h.disciplined
  cases hstep with
  | @lock t input pick m c awake code free =>
    refine h.other hdisc (h.code_ne howner code (by simp)) (by simp [code]) (fun u hu => ?_) howner
    exact Function.update_of_ne hu ..
  | @wait t input pick m c awake code =>
    refine h.other hdisc (h.code_ne howner code (by simp)) (by simp [code]) (fun u hu => ?_) howner
    exact Function.update_of_ne hu ..
  | @unlock t input pick m c awake code =>
    by_cases hne : d = t
    · subst hne
      refine ⟨hdisc, fun n => ?_, fun howner' => ?_⟩
      · have hn : .autosuspend n ≠ d := by
          rintro rfl
          rw [h.gone n] at code
          cases code
        exact (Function.update_of_ne hn ..).trans (h.gone n)
      · obtain ⟨c', hunlock | hunlock⟩ := h.code howner
        · rw [code] at hunlock
          refine ⟨c', Or.inr ?_⟩
          exact (Function.update_self ..).trans (List.cons.inj hunlock).2
        · rw [code] at hunlock
          obtain rfl := Instr.unlock.inj (List.cons.inj hunlock).1
          have hfree : Function.update s.owner mAutosuspendClientTokensLock none mAutosuspendClientTokensLock = some d :=
            howner'
          rw [Function.update_self] at hfree
          cases hfree
    · refine h.other hdisc hne (by simp [code]) (fun u hu => ?_) howner
      exact Function.update_of_ne hu ..
  | @run t env pick b c o left awake code exec spawn notified =>
    have hr : (program cfg).Ran s _ (s.ran t c o left) t b env c o :=
      ⟨⟨_, rfl, notified⟩, awake, code, exec, spawn, rfl⟩
    have hne := h.code_ne howner code (by simp)
    have hspawn : o.spawn = none := by
      cases hp : o.spawn with
      | none => rfl
      | some p =>
        -- whoever starts a thread holds the lock of the client tokens
        obtain ⟨token, rfl⟩ := block_of_spawn (exec_of_ran hr) hp
        have howner' : s.owner mAutosuspendClientTokensLock = some t :=
          (h.disciplined.owns_iff code).mpr (List.mem_cons_of_mem _ List.mem_cons_self)
        exact absurd (Option.some.inj (howner.symm.trans howner')) hne
    exact h.other hdisc hne (by simp [code]) (fun u hu => hr.code_other hu hspawn) howner
  | wake parked => exact ⟨hdisc, h.gone, h.code⟩
  | @call t b idle awake entry =>
    obtain ⟨n, p, rfl, rfl⟩ := entry_op entry
    have hne : d ≠ .client n := by
      rintro rfl
      obtain ⟨c, hunlock | hunlock⟩ := h.code howner
      · rw [idle] at hunlock
        cases hunlock
      · rw [idle] at hunlock
        cases hunlock
    refine h.other hdisc hne (fun _ => ⟨n, rfl⟩) (fun u hu => ?_) howner
    exact Function.update_of_ne hu ..
  | env external => exact ⟨hdisc, h.gone, h.code⟩

theorem done_of_ends {ok : ServiceState → ServiceAction → Prop} (hreach : (program cfg).Reach ok s)
    (hstep : (program cfg).Step s a s') (hclean : ExitsCleanly s a) (hd : awaitsExit (s.code d) = true)
    (hd' : awaitsExit (s'.code d) = false) : Done d s' := by
  have hdisc := hreach.disciplined (typing_sound cfg)
  obtain ⟨hcreated, howner, hothers, woken, c, hcode, hcode'⟩ := (reach_exits hreach).ends hstep hclean hd hd'
  have hnone : loopThread s.shared = none := by simp [loopThread, hcreated]
  refine ⟨hstep.disciplined (typing_sound cfg) hdisc, fun n => ?_, fun _ => ?_⟩
  · have hgone := reach_gone hreach n (by simp [hnone])
    have hn : .autosuspend n ≠ d := by
      rintro rfl
      rw [hcode] at hgone
      simp at hgone
    rw [hothers _ hn]
    refine hgone.resolve_right fun hunlock => hn ?_
    -- the destructor has the lock that the thread would still have to release
    have hmine : s.owner mAutosuspendLock = some d := (hdisc.owns_iff hcode).mpr List.mem_cons_self
    exact Option.some.inj ((hdisc.owns_of_unlock hunlock).symm.trans hmine)
  · have hcloses := reach_closesExit hreach d
    rw [hcode, closesExit_cons] at hcloses
    obtain ⟨rest, hrest⟩ := hcloses.2 woken rfl
    exact ⟨rest, Or.inl (hcode'.trans hrest.symm)⟩

/-- Runs of steps that `exitsCleanly` allows. While a destructor waits it has the lock of the client tokens all the
time, and the autosuspend thread is not blocked on that lock. When the thread leaves, no destructor stays parked, and
that is so for no other exit. When the wait of a destructor ends, and until it has released its locks, no autosuspend
thread has anything left to run. -/
theorem destructor_waits (h : (program cfg).Reach ExitsCleanly s) :
    (∀ d, awaitsExit (s.code d) = true →
      s.owner mAutosuspendClientTokensLock = some d ∧
      (∀ m c, s.code d = .lock m :: c → ∀ m', s.owner m' = some d → m' = mAutosuspendClientTokensLock) ∧
      ∀ n c, s.code (.autosuspend n) ≠ .lock mAutosuspendClientTokensLock :: c) ∧
    (∀ a s', (program cfg).step s a = some s' → s.shared.mAutosuspendThreadCreated = true →
      s'.shared.mAutosuspendThreadCreated = false →
      ((∀ d, awaitsExit (s'.code d) = true → d ∉ s'.waiters) ↔ ExitsCleanly s a)) ∧
    ∀ a s' d, ExitsCleanly s a → (program cfg).step s a = some s' → awaitsExit (s.code d) = true →
      awaitsExit (s'.code d) = false →
      ∀ s'', (program cfg).Runs (fun s _ => s.owner mAutosuspendClientTokensLock = some d) s' s'' →
        ∀ n, s''.code (.autosuspend n) = [] := by
  refine ⟨fun d hd => ?_, fun a s' hstep hcreated hgone => ?_, fun a s' d hclean hstep hd hd' s'' hrun => ?_⟩
  · obtain ⟨howner, honly⟩ := owns_of_awaiting (h.disciplined (typing_sound cfg)) (reach_exits h) hd
    refine ⟨howner, honly, fun n c hcode => ?_⟩
    have hclear := reach_unblocked h d hd n
    rw [hcode] at hclear
    cases hclear
  · exact parked_of_leaves (Program.step_cases hstep) hcreated hgone
  · have hdone : Done d s'' := by
      induction hrun with
      | refl => exact done_of_ends h (Program.step_cases hstep) hclean hd hd'
      | tail _ hnext ih =>
        obtain ⟨a, howner, hnext⟩ := hnext
        exact ih.step howner (Program.step_cases hnext)
    exact hdone.gone

/-- The destructor finds the thread asleep and wakes it up. It is woken up itself before the thread leaves the loop, and
then finds that it has left. -/
theorem destructor_waits_asleep : ∃ s s', (program smallConfig).Reach ExitsCleanly s ∧
    (program smallConfig).step s (.step (.client 1) {} none) = some s' ∧
    s'.log.head? = some (.client 1, .shutDown true) ∧
    s.owner mAutosuspendClientTokensLock = some (.client 1) ∧ ∀ n, s'.code (.autosuspend n) = [] := by
  obtain ⟨s, hreach, hs⟩ := Program.Reach.of_run (program smallConfig) exitsCleanly
    (toSleep ++ goCall (.client 1) .destroySystemSuspend 6 ++ .wake (.client 1) :: go (.autosuspend 0) 5 ++
      go (.client 1) 1)
    (fun s => awaitsExit (s.code (.client 1)) && exitsCleanly s (.step (.client 1) {} none) &&
      ((program smallConfig).step s (.step (.client 1) {} none)).any fun s' =>
        !awaitsExit (s'.code (.client 1)) && s'.log.head? = some (.client 1, .shutDown true))
    (fun _ _ h => h) (by decide +kernel)
  simp only [Bool.and_eq_true, Bool.not_eq_true', decide_eq_true_eq, Option.any_eq_true] at hs
  obtain ⟨⟨hawaits, hclean⟩, s', hstep, hawaits', hlog⟩ := hs
  obtain ⟨hlocked, -, hends⟩ := destructor_waits hreach
  exact ⟨s, s', hreach, hstep, hlog, (hlocked _ hawaits).1, hends _ _ _ hclean hstep hawaits hawaits' s' .refl⟩

/-- The destructor may come when the thread has released `mAutosuspendLock` and is about to take the lock of the client
tokens: the thread is blocked until the wait times out, and lives on. And it may be parked when the thread leaves the
loop: it stays so. -/
theorem destructor_does_not_wait :
    (∃ s s', (program smallConfig).Reach Served s ∧ .client 1 ∈ s.waiters ∧ awaitsExit (s.code (.client 1)) = true ∧
      s.owner mAutosuspendClientTokensLock = some (.client 1) ∧
      (s.code (.autosuspend 0)).head? = some (.lock mAutosuspendClientTokensLock) ∧
      (program smallConfig).Runs Served s s' ∧ s'.log.head? = some (.client 1, .shutDown false) ∧
      s'.code (.client 1) = [] ∧ s'.code (.autosuspend 0) ≠ []) ∧
    ∃ s s', (program smallConfig).Reach Served s ∧ s.shared.mAutosuspendThreadCreated = true ∧
      (program smallConfig).step s (.step (.autosuspend 0) {} none) = some s' ∧
      s'.shared.mAutosuspendThreadCreated = false ∧ awaitsExit (s'.code (.client 1)) = true ∧
      .client 1 ∈ s'.waiters := by
  constructor
  · obtain ⟨s, hreach, hs⟩ := Program.Reach.of_run (program smallConfig) (fun _ a => servedAction a)
      (toRead ++ go (.autosuspend 0) 5 ++ goCall (.client 1) .destroySystemSuspend 6)
      (fun (s : ServiceState) => decide (.client 1 ∈ s.waiters) && awaitsExit (s.code (.client 1)) &&
        s.owner mAutosuspendClientTokensLock = some (.client 1) &&
        (s.code (.autosuspend 0)).head? = some (.lock mAutosuspendClientTokensLock) &&
        ((program smallConfig).steps (fun _ a => servedAction a) s
          (.wake (.client 1) :: go (.client 1) 1 ++ .step (.client 1) { timedOut := true } none ::
            go (.client 1) 2)).any fun (s' : ServiceState) =>
          s'.log.head? = some (.client 1, .shutDown false) && s'.code (.client 1) = [] &&
            decide (s'.code (.autosuspend 0) ≠ []))
      (fun _ _ h => h) (by decide +kernel)
    simp only [Bool.and_eq_true, decide_eq_true_eq, Option.any_eq_true] at hs
    obtain ⟨⟨⟨⟨hparked, hawaits⟩, howner⟩, hblocked⟩, s', hrun, ⟨hlog, hidle⟩, hlive⟩ := hs
    exact ⟨s, s', hreach, hparked, hawaits, howner, hblocked, Program.Runs.steps (fun _ _ h => h) hrun, hlog, hidle,
      hlive⟩
  · obtain ⟨s, hreach, hs⟩ := Program.Reach.of_run (program smallConfig) (fun _ a => servedAction a)
      (toSleep ++ goCall (.client 1) .destroySystemSuspend 6 ++ go (.autosuspend 0) 3)
      (fun (s : ServiceState) => s.shared.mAutosuspendThreadCreated &&
        ((program smallConfig).step s (.step (.autosuspend 0) {} none)).any fun (s' : ServiceState) =>
          !s'.shared.mAutosuspendThreadCreated && awaitsExit (s'.code (.client 1)) &&
            decide (.client 1 ∈ s'.waiters))
      (fun _ _ h => h) (by decide +kernel)
    simp only [Bool.and_eq_true, Bool.not_eq_true', decide_eq_true_eq, Option.any_eq_true] at hs
    obtain ⟨hcreated, s', hstep, ⟨hgone, hawaits⟩, hparked⟩ := hs
    exact ⟨s, s', hreach, hcreated, hstep, hgone, hawaits, hparked⟩

end ends

end HardwareInterfaces.Suspend.Service
