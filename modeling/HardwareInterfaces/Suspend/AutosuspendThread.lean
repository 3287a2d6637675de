import HardwareInterfaces.Suspend.LockDiscipline

/-!
# One autosuspend thread

`mAutosuspendThreadCreated` says whether an autosuspend thread is in its loop: there is exactly one then, the one
created last, and none otherwise (`Loops`). A disable followed by an enable finds the old thread still in its
loop and reuses it, or finds that it has left the loop and starts a new one.
-/

namespace HardwareInterfaces.Suspend.Service

open CppStd Monitor Mutex

/-- The thread has a point of the loop still to come, after code that is not part of the loop. -/
def InLoop (c : ThreadCode) : Prop :=
  ∃ (p : ThreadCode) (b : LoopBlock), c = p ++ [.run (.loop b)] ∧ p.duties Block.loop? = []

def OutOfLoop (c : ThreadCode) : Prop := c.duties Block.loop? = []

theorem InLoop.not_out {c : ThreadCode} (h : InLoop c) : ¬ OutOfLoop c := by
  obtain ⟨p, b, rfl, -⟩ := h
  simp [OutOfLoop, Block.loop?]

theorem InLoop.at_point {b : LoopBlock} {c : ThreadCode} (h : InLoop (.run (.loop b) :: c)) : c = [] := by
  obtain ⟨p, b', hc, hp⟩ := h
  cases p with
  | nil => exact (List.cons.inj hc).2
  | cons i p =>
    obtain ⟨rfl, -⟩ := List.cons.inj hc
    simp [Block.loop?] at hp

theorem InLoop.tail {i : Instr Mutex Block} {c : ThreadCode} (hi : ∀ b, i ≠ .run (.loop b)) (h : InLoop (i :: c)) :
    InLoop c := by
  obtain ⟨p, b, hc, hp⟩ := h
  cases p with
  | nil =>
    obtain ⟨rfl, -⟩ := List.cons.inj hc
    exact absurd rfl (hi b)
  | cons j p =>
    obtain ⟨rfl, rfl⟩ := List.cons.inj hc
    exact ⟨p, b, rfl, Code.duties_of_cons hp⟩

theorem InLoop.append {p c : ThreadCode} (hp : OutOfLoop p) (h : InLoop c) : InLoop (p ++ c) := by
  obtain ⟨q, b, rfl, hq⟩ := h
  refine ⟨p ++ q, b, (List.append_assoc ..).symm, ?_⟩
  rw [Code.duties_append, hp, hq]
  rfl

theorem OutOfLoop.of_cons {i : Instr Mutex Block} {c : ThreadCode} (h : OutOfLoop (i :: c)) : OutOfLoop c :=
  Code.duties_of_cons h

theorem OutOfLoop.append {p c : ThreadCode} (hp : OutOfLoop p) (hc : OutOfLoop c) : OutOfLoop (p ++ c) := by
  rw [OutOfLoop, Code.duties_append, hp, hc]
  rfl

theorem OutOfLoop.point_behind {q c p : ThreadCode} {b : LoopBlock} (hq : OutOfLoop q)
    (hcode : q ++ c = p ++ [.run (.loop b)]) : ∃ c', c = c' ++ [.run (.loop b)] ∧ p = q ++ c' := by
  rcases List.eq_nil_or_concat c with rfl | ⟨c', j, rfl⟩
  · rw [List.append_nil] at hcode
    rw [hcode] at hq
    simp [OutOfLoop, Block.loop?] at hq
  · rw [List.concat_eq_append, ← List.append_assoc] at hcode
    obtain ⟨rfl, hlast⟩ := List.append_inj' hcode rfl
    cases hlast
    exact ⟨c', List.concat_eq_append, rfl⟩

/-- Every point of the loop leads to another one, except for the exit at its head. -/
theorem execLoop_inLoop (env : Env) (σ : Shared) (b : LoopBlock)
    (hb : σ.mAutosuspendEnabled = true ∨ ∀ shouldSleep, b ≠ .head shouldSleep) : InLoop (execLoop env σ b).code := by
  cases b with
  | head shouldSleep =>
    have henabled : σ.mAutosuspendEnabled = true := hb.resolve_right fun h => h shouldSleep rfl
    simp only [execLoop, henabled]
    exact ⟨[], _, rfl, rfl⟩
  | sleep woken =>
    simp only [execLoop]
    split
    · exact ⟨[], _, rfl, rfl⟩
    · exact ⟨[.wait mAutosuspendLock, .lock mAutosuspendLock], _, rfl, rfl⟩
  | slept shouldSleep =>
    simp only [execLoop]
    split
    · exact ⟨[], _, rfl, rfl⟩
    · exact ⟨[.unlock mAutosuspendLock], _, rfl, rfl⟩
  | readWakeupCount shouldSleep => exact ⟨[.lock mAutosuspendLock], _, rfl, rfl⟩
  | gotWakeupCount wakeupCount shouldSleep =>
    simp only [execLoop]
    split <;> exact ⟨[], _, rfl, rfl⟩
  | awaitCounter wakeupCount =>
    simp only [execLoop]
    split
    · exact ⟨[], _, rfl, rfl⟩
    · exact ⟨[.wait mAutosuspendLock, .lock mAutosuspendLock], _, rfl, rfl⟩
  | counterIdle wakeupCount =>
    simp only [execLoop]
    split
    · exact ⟨[], _, rfl, rfl⟩
    · exact ⟨_, _, rfl, rfl⟩
  | checkTokens wakeupCount =>
    simp only [execLoop]
    split
    · exact ⟨[.unlock mAutosuspendClientTokensLock], _, rfl, rfl⟩
    · exact ⟨[], _, rfl, rfl⟩
  | checkCounter wakeupCount =>
    simp only [execLoop]
    split
    · exact ⟨[.unlock mAutosuspendClientTokensLock], _, rfl, rfl⟩
    · exact ⟨[], _, rfl, rfl⟩
  | writeWakeupCount wakeupCount =>
    simp only [execLoop]
    split
    · exact ⟨[], _, rfl, rfl⟩
    · exact ⟨[.unlock mAutosuspendClientTokensLock], _, rfl, rfl⟩
  | writeState => exact ⟨_, _, rfl, rfl⟩
  | readSuspendTime success => exact ⟨_, _, rfl, rfl⟩
  | readWakeupReasons success =>
    exact ⟨lockGuard wakeupListLock [.run (.updateWakeupList (wakeupReasons env σ).1)] ++
      callNotifyWakeup success (wakeupReasons env σ).1 ++ [.lock mAutosuspendLock], .head true, rfl, rfl⟩

/-- The thread in the loop: the one created last, if there is one. -/
def loopThread (σ : Shared) : Option Tid :=
  if σ.mAutosuspendThreadCreated then some (.autosuspend (σ.spawned - 1)) else none

/-- The autosuspend members agree with each other. -/
structure Consistent (σ : Shared) : Prop where
  created : σ.mAutosuspendEnabled = true → σ.mAutosuspendThreadCreated = true
  tokens : σ.mAutosuspendEnabled = true ↔ σ.mAutosuspendClientTokens ≠ []
  nodup : σ.mAutosuspendClientTokens.Nodup
  spawned : σ.mAutosuspendThreadCreated = true → 0 < σ.spawned

/-- The threads are where the autosuspend members say. -/
structure Loops (s : ServiceState) : Prop where
  consistent : Consistent s.shared
  unborn : ∀ n, s.shared.spawned ≤ n → s.code (.autosuspend n) = []
  inside : ∀ t, loopThread s.shared = some t → InLoop (s.code t)
  outside : ∀ t, loopThread s.shared ≠ some t → OutOfLoop (s.code t)

theorem loopThread_congr {σ σ' : Shared} (h : σ'.autosuspend = σ.autosuspend) : loopThread σ' = loopThread σ := by
  simp only [Shared.autosuspend, Shared.Autosuspend.mk.injEq] at h
  rw [loopThread, loopThread, h.2.2.2.1, h.2.2.2.2]

theorem Loops.thread_eq {s : ServiceState} (h : Loops s) {t : Tid} (ht : ¬ OutOfLoop (s.code t)) :
    loopThread s.shared = some t := by
  by_contra hne
  exact ht (h.outside t hne)

theorem mem_addToken (σ : Shared) (token : Binder) : token ∈ (addToken σ token).mAutosuspendClientTokens := by
  simp only [addToken, hasToken, decide_eq_true_eq]
  split
  · assumption
  · simp

theorem nodup_addToken {σ : Shared} (h : σ.mAutosuspendClientTokens.Nodup) (token : Binder) :
    (addToken σ token).mAutosuspendClientTokens.Nodup := by
  simp only [addToken, hasToken, decide_eq_true_eq]
  split
  · exact h
  · rename_i hnew
    exact List.nodup_append.mpr ⟨h, List.nodup_singleton _, fun x hx y hy hxy => by
      rw [List.mem_singleton.mp hy] at hxy
      exact hnew (hxy ▸ hx)⟩

theorem Consistent.congr {σ σ' : Shared} (h : Consistent σ) (hsame : σ'.autosuspend = σ.autosuspend) :
    Consistent σ' := by
  obtain ⟨created, tokens, nodup, spawned⟩ := h
  simp only [Shared.autosuspend, Shared.Autosuspend.mk.injEq] at hsame
  obtain ⟨-, htokens, henabled, hcreated, hspawned⟩ := hsame
  rw [← henabled, ← hcreated] at created
  rw [← henabled, ← htokens] at tokens
  rw [← htokens] at nodup
  rw [← hcreated, ← hspawned] at spawned
  exact ⟨created, tokens, nodup, spawned⟩

theorem Consistent.exec {cfg : Config} {t : Tid} {env : Env} {σ : Shared} {b : Block} {o : Out} (h : Consistent σ)
    (hexec : exec cfg t env σ b = some o) : Consistent o.state := by
  cases exec_autosuspend hexec with
  | same state => exact h.congr state
  | enable token =>
    have hne : (addToken σ token).mAutosuspendClientTokens ≠ [] := List.ne_nil_of_mem (mem_addToken σ token)
    rcases enableAutosuspend_cases env σ token with ⟨henabled, ho⟩ | ⟨-, hcreated, ho⟩ | ⟨-, -, ho⟩
    · rw [ho]
      exact ⟨h.created, ⟨fun _ => hne, fun _ => henabled⟩, nodup_addToken h.nodup token, h.spawned⟩
    · rw [ho]
      exact ⟨fun _ => hcreated, ⟨fun _ => hne, fun _ => rfl⟩, nodup_addToken h.nodup token, h.spawned⟩
    · rw [ho]
      exact ⟨fun _ => rfl, ⟨fun _ => hne, fun _ => rfl⟩, nodup_addToken h.nodup token, fun _ => Nat.succ_pos _⟩
  | disable state =>
    rw [state]
    exact ⟨fun he => absurd he Bool.false_ne_true,
      ⟨fun he => absurd he Bool.false_ne_true, fun hne => absurd rfl hne⟩, List.nodup_nil, h.spawned⟩
  | inc holder =>
    simp only [incSuspendCounter]
    split <;> cases holder <;> exact ⟨h.created, h.tokens, h.nodup, h.spawned⟩
  | dec holder =>
    simp only [decSuspendCounter]
    split <;> cases holder <;> exact ⟨h.created, h.tokens, h.nodup, h.spawned⟩
  | exit shouldSleep disabled => exact ⟨fun he => by simp [disabled] at he, h.tokens, h.nodup, by simp⟩

theorem loopThread_exec {cfg : Config} {t : Tid} {env : Env} {σ : Shared} {b : Block} {o : Out}
    (hexec : exec cfg t env σ b = some o) (hspawn : o.spawn = none)
    (hstays : ∀ shouldSleep, b = .loop (.head shouldSleep) → σ.mAutosuspendEnabled = true) :
    loopThread o.state = loopThread σ ∧ o.state.spawned = σ.spawned := by
  cases exec_autosuspend hexec with
  | same state =>
    refine ⟨loopThread_congr state, ?_⟩
    simp only [Shared.autosuspend, Shared.Autosuspend.mk.injEq] at state
    exact state.2.2.2.2
  | enable token =>
    rcases enableAutosuspend_cases env σ token with ⟨-, ho⟩ | ⟨-, -, ho⟩ | ⟨-, -, ho⟩
    · rw [ho]
      exact ⟨rfl, rfl⟩
    · rw [ho]
      exact ⟨rfl, rfl⟩
    · rw [ho] at hspawn
      cases hspawn
  | disable state =>
    rw [state]
    exact ⟨rfl, rfl⟩
  | inc holder =>
    simp only [incSuspendCounter]
    split <;> cases holder <;> exact ⟨rfl, rfl⟩
  | dec holder =>
    simp only [decSuspendCounter]
    split <;> cases holder <;> exact ⟨rfl, rfl⟩
  | exit shouldSleep disabled =>
    rw [hstays shouldSleep rfl] at disabled
    cases disabled

section invariant

variable {cfg : Config} {s s' : ServiceState} {a : ServiceAction}

theorem loops_init (cfg : Config) : Loops (program cfg).init where
  consistent := ⟨fun he => absurd he Bool.false_ne_true, by simp [Program.init, program, Shared.start],
    List.nodup_nil, fun he => absurd he Bool.false_ne_true⟩
  unborn _ _ := rfl
  inside := by simp [loopThread, Program.init, program, Shared.start]
  outside _ _ := rfl

theorem Loops.quiet (h : Loops s) (hq : (program cfg).Quiet s a s') : Loops s' := by
  obtain ⟨hconsistent, hunborn, hinside, houtside⟩ := h
  rw [← hq.shared] at hconsistent hunborn hinside houtside
  refine ⟨hconsistent, fun n hn => ?_, fun t ht => ?_, fun t ht => ?_⟩
  · rcases hq.code (.autosuspend n) with hsame | ⟨i, c, hcode, -⟩ | ⟨b, -, hentry, -⟩
    · rw [hsame, hunborn n hn]
    · rw [hunborn n hn] at hcode
      cases hcode
    · cases hentry
  · have hin := hinside t ht
    rcases hq.code t with hsame | ⟨i, c, hcode, hcode', hi⟩ | ⟨b, -, -, hcode, -⟩
    · rw [hsame]
      exact hin
    · rw [hcode']
      rw [hcode] at hin
      exact hin.tail fun b => hi _
    · rw [hcode] at hin
      exact absurd rfl hin.not_out
  · refine hq.keeps (K := OutOfLoop) (fun i c _ hout => hout.of_cons) (fun b _ hentry => ?_) (houtside t ht)
    obtain ⟨n, p, rfl, rfl⟩ := entry_op hentry
    rfl

variable {t : Tid} {b : Block} {env : Env} {c : ThreadCode} {o : Out}

/-- A thread at a point of the loop is the thread in the loop, and has nothing else to do. -/
theorem Loops.at_point (h : Loops s) {l : LoopBlock} (hcode : s.code t = .run (.loop l) :: c) :
    loopThread s.shared = some t ∧ c = [] := by
  have ht : loopThread s.shared = some t := h.thread_eq (by simp [hcode, OutOfLoop, Block.loop?])
  have hin := h.inside t ht
  rw [hcode] at hin
  exact ⟨ht, hin.at_point⟩

/-- A thread that runs a point of the loop does what the loop does there, and nothing else. -/
theorem Loops.ran_point (h : Loops s) (hr : (program cfg).Ran s a s' t b env c o) {l : LoopBlock}
    (hb : b.loop? = some l) :
    s.code t = [.run (.loop l)] ∧ loopThread s.shared = some t ∧ b = .loop l ∧ c = [] ∧
      o = execLoop env s.shared l := by
  obtain rfl := Block.eq_loop hb
  obtain ⟨ht, rfl⟩ := h.at_point hr.code
  exact ⟨hr.code, ht, rfl, rfl, (Option.some.inj (exec_of_ran hr)).symm⟩

theorem Loops.ran_self (h : Loops s) (hr : (program cfg).Ran s a s' t b env c o)
    (hstays : ∀ shouldSleep, b = .loop (.head shouldSleep) → s.shared.mAutosuspendEnabled = true) :
    (loopThread s.shared = some t → InLoop (s'.code t)) ∧
      (loopThread s.shared ≠ some t → OutOfLoop (s'.code t)) := by
  rw [hr.code_self]
  cases hb : b.loop? with
  | some l =>
    obtain ⟨-, ht, rfl, rfl, rfl⟩ := h.ran_point hr hb
    refine ⟨fun _ => ?_, fun hne => absurd ht hne⟩
    rw [List.append_nil]
    refine execLoop_inLoop env s.shared l ?_
    by_cases hhead : ∃ shouldSleep, l = .head shouldSleep
    · obtain ⟨shouldSleep, rfl⟩ := hhead
      exact Or.inl (hstays shouldSleep rfl)
    · exact Or.inr fun shouldSleep he => hhead ⟨shouldSleep, he⟩
  | none =>
    have hcode : OutOfLoop o.code := (exec_frame (exec_of_ran hr)).loops hb
    refine ⟨fun ht => ?_, fun hne => ?_⟩
    · have hin := h.inside t ht
      rw [hr.code] at hin
      refine (hin.tail fun l he => ?_).append hcode
      obtain rfl := Instr.run.inj he
      cases hb
    · have hout := h.outside t hne
      rw [hr.code] at hout
      exact hcode.append hout.of_cons

theorem Loops.unborn_ne (h : Loops s) (hr : (program cfg).Ran s a s' t b env c o) {n : Nat}
    (hn : s.shared.spawned ≤ n) : Tid.autosuspend n ≠ t := by
  intro he
  have hcode := h.unborn n hn
  rw [he, hr.code] at hcode
  cases hcode

theorem Loops.consistent_ran (h : Loops s) (hr : (program cfg).Ran s a s' t b env c o) : Consistent s'.shared := by
  rw [hr.shared]
  exact h.consistent.exec (exec_of_ran hr)

theorem Loops.ran_exit (h : Loops s) {shouldSleep : Bool}
    (hr : (program cfg).Ran s a s' t (.loop (.head shouldSleep)) env c o)
    (hdisabled : s.shared.mAutosuspendEnabled = false) : Loops s' := by
  obtain ⟨ht, rfl⟩ := h.at_point hr.code
  obtain ⟨hstate, hcode, hspawn⟩ := exec_exit (exec_of_ran hr) hdisabled
  rw [← hr.shared] at hstate
  have hnone : loopThread s'.shared = none := by rw [hstate]; rfl
  refine ⟨h.consistent_ran hr, fun n hn => ?_, fun u hu => ?_, fun u _ => ?_⟩
  · rw [hstate] at hn
    rw [hr.code_other (h.unborn_ne hr hn) hspawn]
    exact h.unborn n hn
  · rw [hnone] at hu
    cases hu
  · by_cases hu : u = t
    · subst hu
      rw [hr.code_self, hcode]
      rfl
    · rw [hr.code_other hu hspawn]
      exact h.outside u fun he => hu (Option.some.inj (he.symm.trans ht))

theorem Loops.ran_stays (h : Loops s) (hr : (program cfg).Ran s a s' t b env c o)
    (hstays : ∀ shouldSleep, b = .loop (.head shouldSleep) → s.shared.mAutosuspendEnabled = true)
    (hspawn : o.spawn = none) : Loops s' := by
  obtain ⟨hin, hout⟩ := h.ran_self hr hstays
  obtain ⟨hthread, hspawned⟩ := loopThread_exec (exec_of_ran hr) hspawn hstays
  rw [← hr.shared] at hthread hspawned
  refine ⟨h.consistent_ran hr, fun n hn => ?_, fun u hu => ?_, fun u hu => ?_⟩
  · rw [hspawned] at hn
    rw [hr.code_other (h.unborn_ne hr hn) hspawn]
    exact h.unborn n hn
  · rw [hthread] at hu
    by_cases hut : u = t
    · subst hut
      exact hin hu
    · rw [hr.code_other hut hspawn]
      exact h.inside u hu
  · rw [hthread] at hu
    by_cases hut : u = t
    · subst hut
      exact hout hu
    · rw [hr.code_other hut hspawn]
      exact h.outside u hu

theorem Loops.ran_spawn (h : Loops s) (hr : (program cfg).Ran s a s' t b env c o)
    (hstays : ∀ shouldSleep, b = .loop (.head shouldSleep) → s.shared.mAutosuspendEnabled = true)
    {p : Tid × ThreadCode} (hspawn : o.spawn = some p) : Loops s' := by
  obtain ⟨-, hout⟩ := h.ran_self hr hstays
  obtain ⟨rfl, hcreated, hcreated', hspawned⟩ := exec_spawn (exec_of_ran hr) hspawn
  rw [← hr.shared] at hcreated' hspawned
  have hbefore : loopThread s.shared = none := by simp [loopThread, hcreated]
  have hthread : loopThread s'.shared = some (.autosuspend s.shared.spawned) := by
    simp [loopThread, hcreated', hspawned]
  have hnewborn : s'.code (.autosuspend s.shared.spawned) = autosuspendThread := by
    rw [hr.after]
    exact State.ran_code_spawned (h.unborn_ne hr (Nat.le_refl _)) hspawn
  have hother : ∀ u, u ≠ t → u ≠ .autosuspend s.shared.spawned → s'.code u = s.code u := by
    intro u hut hu
    rw [hr.after]
    rcases State.ran_code_cases s c o s'.waiters hut with hsame | ⟨cu, hcu, -⟩
    · exact hsame
    · rw [hspawn] at hcu
      exact absurd (Prod.mk.inj (Option.some.inj hcu)).1.symm hu
  refine ⟨h.consistent_ran hr, fun n hn => ?_, fun u hu => ?_, fun u hu => ?_⟩
  · rw [hspawned] at hn
    rw [hother _ (h.unborn_ne hr (by omega)) (by simp; omega)]
    exact h.unborn n (by omega)
  · obtain rfl := Option.some.inj (hthread.symm.trans hu)
    rw [hnewborn]
    exact ⟨[.lock mAutosuspendLock], _, rfl, rfl⟩
  · rw [hthread] at hu
    by_cases hut : u = t
    · subst hut
      exact hout (by simp [hbefore])
    · rw [hother u hut fun he => hu (by rw [he])]
      exact h.outside u (by simp [hbefore])

theorem Loops.ran (h : Loops s) (hr : (program cfg).Ran s a s' t b env c o) : Loops s' := by
  by_cases hexit : ∃ shouldSleep, b = .loop (.head shouldSleep) ∧ s.shared.mAutosuspendEnabled = false
  · obtain ⟨shouldSleep, rfl, hdisabled⟩ := hexit
    exact h.ran_exit hr hdisabled
  · have hstays : ∀ shouldSleep, b = .loop (.head shouldSleep) → s.shared.mAutosuspendEnabled = true := by
      intro shouldSleep he
      cases henabled : s.shared.mAutosuspendEnabled with
      | true => rfl
      | false => exact absurd ⟨shouldSleep, he, henabled⟩ hexit
    cases hspawn : o.spawn with
    | none => exact h.ran_stays hr hstays hspawn
    | some p => exact h.ran_spawn hr hstays hspawn

theorem Loops.step (h : Loops s) (hstep : (program cfg).Step s a s') : Loops s' := by
  rcases hstep.quiet_or_ran with hq | ⟨t, b, env, c, o, hr⟩
  · exact h.quiet hq
  · exact h.ran hr

theorem reach_loops {ok : ServiceState → ServiceAction → Prop} (h : (program cfg).Reach ok s) : Loops s :=
  h.invariant (loops_init cfg) fun _ _ _ _ _ hs hstep => hs.step hstep

end invariant

/-- The autosuspend threads ever started that have not yet left the loop. -/
def liveThreads (s : ServiceState) : Nat :=
  (List.range s.shared.spawned).countP fun n => (s.code (.autosuspend n)).duties Block.loop? ≠ []

theorem Loops.liveThreads_eq {s : ServiceState} (h : Loops s) :
    liveThreads s = if s.shared.mAutosuspendThreadCreated then 1 else 0 := by
  have hlive : ∀ n, (s.code (.autosuspend n)).duties Block.loop? ≠ [] ↔
      loopThread s.shared = some (.autosuspend n) := by
    intro n
    constructor
    · intro hne
      by_contra hout
      exact hne (h.outside _ hout)
    · exact fun hin => (h.inside _ hin).not_out
  cases hcreated : s.shared.mAutosuspendThreadCreated with
  | true =>
    have hpos := h.consistent.spawned hcreated
    have hlast : ∀ n, loopThread s.shared = some (.autosuspend n) ↔ n = s.shared.spawned - 1 := by
      intro n
      simp only [loopThread, hcreated, if_pos, Option.some.injEq, Tid.autosuspend.injEq]
      exact eq_comm
    have hcount : liveThreads s = (List.range s.shared.spawned).count (s.shared.spawned - 1) := by
      refine List.countP_congr fun n _ => ?_
      simp [hlive, hlast]
    rw [hcount]
    exact List.count_eq_one_of_mem List.nodup_range (List.mem_range.mpr (by omega))
  | false =>
    refine List.countP_eq_zero.mpr fun n _ => ?_
    simp [hlive, loopThread, hcreated]

/-- What `enableAutosuspend` does in the end, given what it found. -/
theorem enableAutosuspend_spec (env : Env) (σ : Shared) (token : Binder) :
    (enableAutosuspend env σ token).events.head? = some (.enableAutosuspend token !σ.mAutosuspendEnabled) ∧
      token ∈ (enableAutosuspend env σ token).state.mAutosuspendClientTokens := by
  rcases enableAutosuspend_cases env σ token with ⟨henabled, ho⟩ | ⟨henabled, -, ho⟩ | ⟨henabled, -, ho⟩
  · rw [ho, henabled]
    exact ⟨rfl, mem_addToken σ token⟩
  · rw [ho, henabled]
    exact ⟨rfl, mem_addToken σ token⟩
  · rw [ho, henabled]
    exact ⟨rfl, mem_addToken σ token⟩

/-- There is one autosuspend thread in its loop if `mAutosuspendThreadCreated`, else none; autosuspend is enabled only
with a thread, and exactly while there is a token; and `enableAutosuspend`, from the moment `s` at which it has
taken its locks, through whatever other threads do until it runs, returns whether autosuspend was disabled at that
moment, with its token in the list. -/
theorem one_autosuspend_thread (cfg : Config) {ok : ServiceState → ServiceAction → Prop} {s : ServiceState}
    (h : (program cfg).Reach ok s) :
    liveThreads s = (if s.shared.mAutosuspendThreadCreated then 1 else 0) ∧
    (s.shared.mAutosuspendEnabled = true → s.shared.mAutosuspendThreadCreated = true) ∧
    (s.shared.mAutosuspendEnabled = true ↔ s.shared.mAutosuspendClientTokens ≠ []) ∧
    s.shared.mAutosuspendClientTokens.Nodup ∧
    (∀ t token c, s.code t = .run (.enableAutosuspend token) :: c →
      ∀ s₁ env pick s₂, (program cfg).Others ok t s s₁ → (program cfg).step s₁ (.step t env pick) = some s₂ →
        s₂.log.head? = some (t, .enableAutosuspend token !s.shared.mAutosuspendEnabled) ∧
          token ∈ s₂.shared.mAutosuspendClientTokens) := by
  have hloops := reach_loops h
  refine ⟨hloops.liveThreads_eq, hloops.consistent.created, hloops.consistent.tokens, hloops.consistent.nodup, ?_⟩
  intro t token c hcode s₁ env pick s₂ hothers hstep
  have hdisc := h.disciplined (typing_sound cfg)
  have howner : s.owner mAutosuspendLock = some t := (hdisc.owns_iff hcode).mpr List.mem_cons_self
  obtain ⟨-, hcode₁, hsame⟩ := hothers.guarded (typing_sound cfg) h
    (fun u b i x o => guards_autosuspend u b i x o) howner
  have henabled : s₁.shared.mAutosuspendEnabled = s.shared.mAutosuspendEnabled :=
    congrArg Shared.Autosuspend.mAutosuspendEnabled hsame
  rw [hcode] at hcode₁
  cases Program.step_cases hstep with
  | lock _ code => rw [hcode₁] at code; cases code
  | unlock _ code => rw [hcode₁] at code; cases code
  | wait _ code => rw [hcode₁] at code; cases code
  | run _ code exec =>
    rw [hcode₁] at code
    obtain ⟨hb, -⟩ := List.cons.inj code
    obtain rfl := Instr.run.inj hb
    obtain rfl := Option.some.inj exec
    obtain ⟨hevent, htoken⟩ := enableAutosuspend_spec env s₁.shared token
    refine ⟨?_, htoken⟩
    rw [State.ran_log, List.head?_append, List.head?_map, hevent, henabled]
    rfl

/-- The first client to enable autosuspend gets `true`, and a thread. -/
theorem one_autosuspend_thread_enabled :
    ∃ s : ServiceState, (program smallConfig).Reach Served s ∧ liveThreads s = 1 ∧
      s.shared.mAutosuspendClientTokens = [5] := by
  obtain ⟨s, hreach, hs⟩ := Program.Reach.of_run (program smallConfig) (fun _ a => servedAction a)
    (goCall (.client 0) (.enableAutosuspend 5) 6)
    (fun s => s.shared.mAutosuspendThreadCreated && s.shared.mAutosuspendClientTokens = [5])
    (fun _ _ h => h) (by decide +kernel)
  simp only [Bool.and_eq_true, decide_eq_true_eq] at hs
  obtain ⟨hlive, -⟩ := one_autosuspend_thread smallConfig hreach
  rw [hs.1] at hlive
  exact ⟨s, hreach, hlive, hs.2⟩

end HardwareInterfaces.Suspend.Service
