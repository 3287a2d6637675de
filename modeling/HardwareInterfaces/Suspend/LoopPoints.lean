import HardwareInterfaces.Suspend.AutosuspendThread

/-!
# Assertions at the points of the loop

A rule for properties of the form "whenever an autosuspend thread comes to this point of its loop, this holds of the
shared state and of what was recorded". An assertion may look at the code the thread has to run before it comes to the
point. It has to be stable under the steps of the other threads, which record none of the loop's events and, while the
thread holds `mAutosuspendLock`, do not change what that lock guards; under the thread's own instructions in between; and
each point has to establish it for the next.
-/

namespace HardwareInterfaces.Suspend.Service

open CppStd Monitor Mutex History

abbrev Log := List (Tid × Ev)

abbrev Assertion := Tid → LoopBlock → ThreadCode → Shared → Log → Prop

/-- The assertion holds for the point of the loop at the end of a piece of code, if there is one. -/
def Asserts (Q : Assertion) (t : Tid) (c : ThreadCode) (σ : Shared) (log : Log) : Prop :=
  ∀ p b, c = p ++ [.run (.loop b)] → Q t b p σ log

def Held (p : ThreadCode) (b : LoopBlock) : Prop :=
  mAutosuspendLock ∈ loopNeeds b ∧ (p = [] ∨ p = [.unlock mAutosuspendClientTokensLock])

/-- What an assertion has to satisfy along the runs allowed by `ok`. -/
structure Inductive (cfg : Config) (ok : ServiceState → ServiceAction → Prop) (Q : Assertion) : Prop where
  spawn : ∀ {t σ log}, (∀ x, (t, x) ∉ log) → Q t (.head true) [.lock mAutosuspendLock] σ log
  others : ∀ {t b p σ log} σ' new, Q t b p σ log → (∀ e ∈ new, loopEvent e.2 = false ∧ e.1 ≠ t) →
    (Held p b → σ'.autosuspend = σ.autosuspend) → Q t b p σ' (new ++ log)
  advance : ∀ {t b i p σ log} q σ' new, Q t b (i :: p) σ log → (∀ e ∈ new, loopEvent e.2 = false) →
    (Held (i :: p) b → q = [] ∧ σ' = σ) → Q t b (q ++ p) σ' (new ++ log)
  exec : ∀ {s t b env pick}, (program cfg).Reach ok s → ok s (.step t env pick) → s.code t = [.run (.loop b)] →
    Q t b [] s.shared s.log →
    Asserts Q t (execLoop env s.shared b).code (execLoop env s.shared b).state
      ((execLoop env s.shared b).events.map (t, ·) ++ s.log)

section

variable {Q : Assertion} {t : Tid} {b : LoopBlock} {p c : ThreadCode} {σ : Shared} {log : Log}

theorem asserts_goto (hb : Q t b p σ log) : Asserts Q t (p ++ goto b) σ log := by
  intro p' b' hcode
  obtain ⟨rfl, hlast⟩ := List.append_inj' hcode rfl
  cases hlast
  exact hb

theorem asserts_of_out (hc : OutOfLoop c) : Asserts Q t c σ log := by
  rintro p b rfl
  simp [OutOfLoop, Block.loop?] at hc

end

/-! ### Threads that have not started -/

theorem exec_spawned_le {cfg : Config} {t : Tid} {env : Env} {σ : Shared} {b : Block} {o : Out}
    (h : exec cfg t env σ b = some o) : σ.spawned ≤ o.state.spawned := by
  cases hspawn : o.spawn with
  | some p =>
    obtain ⟨-, -, -, hspawned⟩ := exec_spawn h hspawn
    omega
  | none =>
    by_cases hexit : ∃ shouldSleep, b = .loop (.head shouldSleep) ∧ σ.mAutosuspendEnabled = false
    · obtain ⟨shouldSleep, rfl, hdisabled⟩ := hexit
      rw [(exec_exit h hdisabled).1]
    · have hstays : ∀ shouldSleep, b = .loop (.head shouldSleep) → σ.mAutosuspendEnabled = true := by
        intro shouldSleep hb
        by_contra hdisabled
        exact hexit ⟨shouldSleep, hb, by simpa using hdisabled⟩
      exact (loopThread_exec h hspawn hstays).2.ge

section run

variable {cfg : Config} {ok : ServiceState → ServiceAction → Prop} {s s' : ServiceState} {a : ServiceAction}

theorem reach_unborn (h : (program cfg).Reach ok s) :
    ∀ n, s.shared.spawned ≤ n → ∀ x, (Tid.autosuspend n, x) ∉ s.log := by
  refine h.on_blocks (I := fun σ log => ∀ n, σ.spawned ≤ n → ∀ x, (Tid.autosuspend n, x) ∉ log)
    (fun _ _ _ => List.not_mem_nil) ?_
  intro s a s' t b env c o hreach _ hr hs n hn x hx
  have hbefore : s.shared.spawned ≤ n := Nat.le_trans (exec_spawned_le (exec_of_ran hr)) hn
  rw [← hr.log] at hx
  rcases hr.mem_log.mp hx with ⟨ht, -⟩ | hx
  · exact (reach_loops hreach).unborn_ne hr hbefore ht
  · exact hs n hbefore x hx

/-! ### The rule -/

theorem loopEvent_of_block {t u : Tid} {env : Env} {σ : Shared} {b : Block} {o : Out}
    (h : exec cfg t env σ b = some o) (hb : b.loop? = none) : ∀ e ∈ o.events.map (u, ·), loopEvent e.2 = false :=
  not_of_filter ((exec_frame h).silent hb) u

theorem Held.owner {t : Tid} {p : ThreadCode} {b : LoopBlock} (hdisc : Program.Disciplined typing s)
    (hcode : s.code t = p ++ [.run (.loop b)]) (hheld : Held p b) : s.owner mAutosuspendLock = some t := by
  obtain ⟨hneeds, rfl | rfl⟩ := hheld
  · exact (hdisc.owns_iff hcode).mpr hneeds
  · obtain ⟨held, hholds, hbalanced⟩ := hdisc t
    rw [hcode, List.singleton_append, Typing.balanced_unlock, Typing.balanced_run] at hbalanced
    refine (hholds.mem _).mp (List.mem_of_mem_erase (b := mAutosuspendClientTokensLock) ?_)
    rw [hbalanced.2.1]
    exact hneeds

theorem others_log (hloops : Loops s) {t : Tid} (ht : loopThread s.shared = some t) (ha : ¬ a.By t)
    (hstep : (program cfg).Step s a s') :
    ∃ new, s'.log = new ++ s.log ∧ ∀ e ∈ new, loopEvent e.2 = false ∧ e.1 ≠ t := by
  rcases hstep.quiet_or_ran with hq | ⟨u, b, env, c, o, hr⟩
  · exact ⟨[], hq.log, by simp⟩
  · obtain ⟨pick, rfl, -⟩ := hr.action
    refine ⟨_, hr.log, fun e he => ⟨?_, ?_⟩⟩
    · cases hloop : b.loop? with
      | none => exact loopEvent_of_block (exec_of_ran hr) hloop e he
      | some l =>
        have hcode := hr.code
        rw [Block.eq_loop hloop] at hcode
        exact absurd (Option.some.inj ((hloops.at_point hcode).1.symm.trans ht)) ha
    · obtain ⟨x, -, rfl⟩ := List.mem_map.mp he
      exact ha

theorem Asserts.advance {Q : Assertion} (hQ : Inductive cfg ok Q) {t : Tid} {i : Instr Mutex Block} {c q : ThreadCode}
    {σ σ' : Shared} {log : Log} (hc : Asserts Q t (i :: c) σ log) (hq : OutOfLoop q) (new : Log)
    (hnew : ∀ e ∈ new, loopEvent e.2 = false) (hsame : i = .unlock mAutosuspendClientTokensLock → q = [] ∧ σ' = σ) :
    Asserts Q t (q ++ c) σ' (new ++ log) := by
  intro p b hcode
  obtain ⟨c', rfl, rfl⟩ := hq.point_behind hcode
  refine hQ.advance q σ' new (hc (i :: c') b (by simp)) hnew ?_
  rintro ⟨-, hnil | hunlock⟩
  · cases hnil
  · exact hsame (List.cons.inj hunlock).1

theorem Inductive.quiet {Q : Assertion} (hQ : Inductive cfg ok Q) {t : Tid}
    (hs : Asserts Q t (s.code t) s.shared s.log) (hq : (program cfg).Quiet s a s') :
    Asserts Q t (s'.code t) s'.shared s'.log := by
  rw [hq.shared, hq.log]
  refine hq.keeps (K := fun c => Asserts Q t c s.shared s.log) (fun i c _ hs => ?_) (fun b _ hentry => ?_) hs
  · exact hs.advance hQ (q := []) rfl [] (by simp) fun _ => ⟨rfl, rfl⟩
  · obtain ⟨n, p, rfl, rfl⟩ := entry_op hentry
    exact asserts_of_out rfl

theorem Inductive.self {Q : Assertion} (hQ : Inductive cfg ok Q) (hreach : (program cfg).Reach ok s) (hok : ok s a)
    {t : Tid} {b : Block} {env : Env} {c : ThreadCode} {o : Out} (hs : Asserts Q t (s.code t) s.shared s.log)
    (hr : (program cfg).Ran s a s' t b env c o) : Asserts Q t (s'.code t) s'.shared s'.log := by
  rw [hr.code] at hs
  rw [hr.code_self, hr.shared, hr.log]
  cases hb : b.loop? with
  | none =>
    exact hs.advance hQ ((exec_frame (exec_of_ran hr)).loops hb) _ (loopEvent_of_block (exec_of_ran hr) hb) (by simp)
  | some l =>
    obtain ⟨hcode, -, rfl, rfl, rfl⟩ := (reach_loops hreach).ran_point hr hb
    obtain ⟨pick, rfl, -⟩ := hr.action
    rw [List.append_nil]
    exact hQ.exec hreach hok hcode (hs [] l rfl)

theorem Inductive.others_step {Q : Assertion} (hQ : Inductive cfg ok Q) (hreach : (program cfg).Reach ok s) {t : Tid}
    (hs : Asserts Q t (s.code t) s.shared s.log) (ha : ¬ a.By t) (hstep : (program cfg).Step s a s') :
    Asserts Q t (s'.code t) s'.shared s'.log := by
  have hdisc := hreach.disciplined (typing_sound cfg)
  have hloops := reach_loops hreach
  rcases hstep.others_code ha with hsame | ⟨u, b, env, o, hexec, hspawn⟩
  · rw [hsame]
    intro p b hcode
    have ht : loopThread s.shared = some t := hloops.thread_eq (by simp [hcode, OutOfLoop, Block.loop?])
    obtain ⟨new, hlog, hnew⟩ := others_log hloops ht ha hstep
    rw [hlog]
    refine hQ.others _ new (hs p b hcode) hnew fun hheld => ?_
    exact (hstep.guarded hdisc guards_autosuspend (hheld.owner hdisc hcode) ha).2.2
  · obtain ⟨hp, -⟩ := exec_spawn hexec hspawn
    obtain ⟨rfl, hcode⟩ := Prod.mk.inj hp
    rw [hcode]
    refine asserts_goto (p := [.lock mAutosuspendLock]) (hQ.spawn fun x hx => ?_)
    have hunborn := reach_unborn hreach s.shared.spawned (Nat.le_refl _) x
    rcases hstep.quiet_or_ran with hq | ⟨v, b', env', c, o', hr⟩
    · rw [hq.log] at hx
      exact hunborn hx
    · obtain ⟨pick, rfl, -⟩ := hr.action
      exact (hr.mem_log.mp hx).elim (fun hx => ha hx.1.symm) hunborn

/-- The assertion holds wherever a thread is in the loop. -/
theorem Inductive.reach {Q : Assertion} (hQ : Inductive cfg ok Q) (h : (program cfg).Reach ok s) (t : Tid) :
    Asserts Q t (s.code t) s.shared s.log := by
  refine h.invariant (I := fun s => ∀ t, Asserts Q t (s.code t) s.shared s.log)
    (fun t => asserts_of_out rfl) (fun s a s' hreach hok hs hstep t => ?_) t
  rcases hstep.quiet_or_ran with hq | ⟨u, b, env, c, o, hr⟩
  · exact hQ.quiet (hs t) hq
  · by_cases hu : u = t
    · subst hu
      exact hQ.self hreach hok (hs u) hr
    · refine hQ.others_step hreach (hs t) ?_ hstep
      obtain ⟨pick, rfl, -⟩ := hr.action
      exact hu

/-- What the points of the loop record, from what is asserted there. -/
theorem Inductive.historically {Q : Assertion} (hQ : Inductive cfg ok Q) {P : Tid × Ev → Log → Prop}
    (hother : ∀ e log, loopEvent e.2 = false → P e log)
    (hpoint : ∀ {s t b env pick}, (program cfg).Reach ok s → ok s (.step t env pick) → s.code t = [.run (.loop b)] →
      Q t b [] s.shared s.log → Historically P s.log →
      Historically P ((execLoop env s.shared b).events.map (t, ·) ++ s.log))
    (h : (program cfg).Reach ok s) : Historically P s.log := by
  refine h.on_blocks (I := fun _ log => Historically P log) trivial ?_
  intro s a s' t b env c o hreach hok hr hs
  cases hb : b.loop? with
  | none => exact hs.append fun e he log => hother e log (loopEvent_of_block (exec_of_ran hr) hb e he)
  | some l =>
    obtain ⟨hcode, -, rfl, rfl, rfl⟩ := (reach_loops hreach).ran_point hr hb
    obtain ⟨pick, rfl, -⟩ := hr.action
    exact hpoint hreach hok hcode (hQ.reach hreach t [] l hcode) hs

end run

end HardwareInterfaces.Suspend.Service
