import HardwareInterfaces.Lib.Monitor

/-!
# What threads still have to do

A step of a monitor program either runs one block or is `Quiet`: it takes or releases a mutex, wakes or starts a
thread, or lets the environment act, and changes neither the shared state nor what the blocks have recorded. Invariants
that tie the shared state and the record to the blocks a thread still has to run (`Code.duties`) are kept by
quiet steps, so that only the blocks have to be looked at.
-/

set_option linter.unusedSectionVars false

namespace Monitor

variable {μ τ β ι σ ε δ : Type} [DecidableEq τ]

/-- The blocks of a piece of code that count as a duty, in the order in which they run. -/
def Code.duties (d : β → Option δ) (c : Code μ β) : List δ :=
  c.filterMap fun
    | .run b => d b
    | _ => none

section duties

variable {d : β → Option δ} {c : Code μ β} {b : β}

@[simp] theorem Code.duties_nil : Code.duties d ([] : Code μ β) = [] := rfl

@[simp] theorem Code.duties_append (c' : Code μ β) : Code.duties d (c ++ c') = Code.duties d c ++ Code.duties d c' :=
  List.filterMap_append

@[simp] theorem Code.duties_run : Code.duties d (.run b :: c) = (d b).toList ++ Code.duties d c := by
  unfold Code.duties
  cases h : d b <;> simp [h]

@[simp] theorem Code.duties_lock {m : μ} : Code.duties d (.lock m :: c) = Code.duties d c := rfl

@[simp] theorem Code.duties_unlock {m : μ} : Code.duties d (.unlock m :: c) = Code.duties d c := rfl

@[simp] theorem Code.duties_wait {m : μ} : Code.duties d (.wait m :: c) = Code.duties d c := rfl

theorem Code.duties_drop {i : Instr μ β} (hi : ∀ b, i ≠ .run b) : Code.duties d (i :: c) = Code.duties d c := by
  cases i with
  | run b => exact absurd rfl (hi b)
  | lock m => rfl
  | unlock m => rfl
  | wait m => rfl

theorem Code.duties_of_cons {i : Instr μ β} (h : Code.duties d (i :: c) = []) : Code.duties d c = [] := by
  rw [show i :: c = [i] ++ c from rfl, Code.duties_append, List.append_eq_nil_iff] at h
  exact h.2

theorem Code.mem_duties {x : δ} : x ∈ Code.duties d c ↔ ∃ b, .run b ∈ c ∧ d b = some x := by
  constructor
  · intro h
    obtain ⟨i, hi, hx⟩ := List.mem_filterMap.mp h
    cases i with
    | run b => exact ⟨b, hi, hx⟩
    | lock m => cases hx
    | unlock m => cases hx
    | wait m => cases hx
  · rintro ⟨b, hb, hx⟩
    exact List.mem_filterMap.mpr ⟨_, hb, hx⟩

theorem Code.none_of_duties (h : Code.duties d c = []) (hb : .run b ∈ c) : d b = none := by
  cases hx : d b with
  | none => rfl
  | some x =>
    have hmem := Code.mem_duties.mpr ⟨b, hb, hx⟩
    rw [h] at hmem
    cases hmem

theorem Code.duties_eq_nil (h : ∀ b, .run b ∈ c → d b = none) : Code.duties d c = [] := by
  rw [List.eq_nil_iff_forall_not_mem]
  intro x hx
  obtain ⟨b, hb, hbx⟩ := Code.mem_duties.mp hx
  rw [h b hb] at hbx
  cases hbx

end duties

/-- The mutexes that a piece of code gives up to wait on the condition variable. -/
def Code.waits (c : Code μ β) : List μ :=
  c.filterMap fun
    | .wait m => some m
    | _ => none

@[simp] theorem Code.waits_append (c c' : Code μ β) : (c ++ c').waits = c.waits ++ c'.waits := List.filterMap_append

theorem Code.mem_waits {c : Code μ β} {m : μ} : m ∈ c.waits ↔ .wait m ∈ c := by
  constructor
  · intro h
    obtain ⟨i, hi, hm⟩ := List.mem_filterMap.mp h
    cases i with
    | wait m' => exact Option.some.inj hm ▸ hi
    | lock m' => cases hm
    | unlock m' => cases hm
    | run b => cases hm
  · exact fun h => List.mem_filterMap.mpr ⟨_, h, rfl⟩

theorem Code.waits_tail {c : Code μ β} (h : c.waits = []) : Code.waits c.tail = [] := by
  rw [List.eq_nil_iff_forall_not_mem] at h ⊢
  intro m hm
  rw [Code.mem_waits] at hm
  exact h m (Code.mem_waits.mpr (List.mem_of_mem_tail hm))

def Event.did? : Event μ τ ε → Option (τ × ε)
  | .did t e => some (t, e)
  | _ => none

/-- What the blocks have recorded, newest first. -/
def State.log (s : State μ τ β σ ε) : List (τ × ε) := s.history.filterMap Event.did?

@[simp] theorem State.ran_log {s : State μ τ β σ ε} {t : τ} {c : Code μ β} {o : Outcome μ τ β σ ε} {left : List τ} :
    (s.ran t c o left).log = o.events.map (t, ·) ++ s.log := by
  rw [State.log, State.ran_history, List.filterMap_append, List.filterMap_map]
  congr 1
  induction o.events with
  | nil => rfl
  | cons e events ih => simpa [Event.did?] using ih

namespace Program

variable [DecidableEq μ] {P : Program μ τ β ι σ ε} {s s' : State μ τ β σ ε} {a : Action τ β ι ε}

/-- A step that runs no block. -/
structure Quiet (P : Program μ τ β ι σ ε) (s : State μ τ β σ ε) (a : Action τ β ι ε) (s' : State μ τ β σ ε) :
    Prop where
  shared : s'.shared = s.shared
  log : s'.log = s.log
  code : ∀ u, s'.code u = s.code u ∨ (∃ i c, s.code u = i :: c ∧ s'.code u = c ∧ ∀ b, i ≠ .run b) ∨
    ∃ b, a = .call u b ∧ P.entry u b = true ∧ s.code u = [] ∧ s'.code u = [.run b]

/-- A step that runs a block of thread `t`. -/
structure Ran (P : Program μ τ β ι σ ε) (s : State μ τ β σ ε) (a : Action τ β ι ε) (s' : State μ τ β σ ε)
    (t : τ) (b : β) (input : ι) (c : Code μ β) (o : Outcome μ τ β σ ε) : Prop where
  action : ∃ pick, a = .step t input pick ∧ o.notify.left pick s.waiters = some s'.waiters
  awake : t ∉ s.waiters
  code : s.code t = .run b :: c
  exec : P.exec t b input s.shared = some o
  spawn : ∀ u cu, o.spawn = some (u, cu) → s.code u = [] ∧ u ∉ s.waiters
  after : s' = s.ran t c o s'.waiters

theorem Quiet.of_drop {t : τ} {i : Instr μ β} {c : Code μ β} (hcode : s.code t = i :: c) (hi : ∀ b, i ≠ .run b)
    (hshared : s'.shared = s.shared) (hlog : s'.log = s.log) (hcode' : s'.code = Function.update s.code t c) :
    P.Quiet s a s' := by
  refine ⟨hshared, hlog, fun u => ?_⟩
  by_cases hu : u = t
  · subst hu
    exact Or.inr (Or.inl ⟨i, c, hcode, by rw [hcode', Function.update_self], hi⟩)
  · exact Or.inl (by rw [hcode', Function.update_of_ne hu])

theorem Step.quiet_or_ran (h : P.Step s a s') : P.Quiet s a s' ∨ ∃ t b input c o, P.Ran s a s' t b input c o := by
  cases h with
  | lock awake code free => exact Or.inl (.of_drop code (by simp) rfl rfl rfl)
  | unlock awake code => exact Or.inl (.of_drop code (by simp) rfl rfl rfl)
  | wait awake code => exact Or.inl (.of_drop code (by simp) rfl rfl rfl)
  | run awake code exec spawn notified =>
    exact Or.inr ⟨_, _, _, _, _, ⟨_, rfl, notified⟩, awake, code, exec, spawn, rfl⟩
  | wake parked => exact Or.inl ⟨rfl, rfl, fun u => Or.inl rfl⟩
  | @call t b idle awake entry =>
    refine Or.inl ⟨rfl, rfl, fun u => ?_⟩
    by_cases hu : u = t
    · subst hu
      exact Or.inr (Or.inr ⟨b, rfl, entry, idle, Function.update_self ..⟩)
    · exact Or.inl (Function.update_of_ne hu ..)
  | env external => exact Or.inl ⟨rfl, rfl, fun u => Or.inl rfl⟩

theorem Step.ran_of_code {t : τ} {b : β} {input : ι} {pick : Option τ} {c : Code μ β}
    (h : P.Step s (.step t input pick) s') (hcode : s.code t = .run b :: c) :
    ∃ o, P.Ran s (.step t input pick) s' t b input c o := by
  cases h with
  | lock _ code => rw [hcode] at code; cases code
  | unlock _ code => rw [hcode] at code; cases code
  | wait _ code => rw [hcode] at code; cases code
  | run awake code exec spawn notified =>
    rw [hcode] at code
    obtain ⟨hb, rfl⟩ := List.cons.inj code
    obtain rfl := Instr.run.inj hb
    exact ⟨_, ⟨_, rfl, notified⟩, awake, hcode, exec, spawn, rfl⟩

theorem Step.locked_of_code {t : τ} {m : μ} {input : ι} {pick : Option τ} {c : Code μ β}
    (h : P.Step s (.step t input pick) s') (hcode : s.code t = .lock m :: c) :
    s'.shared = s.shared ∧ s'.code t = c ∧ s'.owner m = some t := by
  cases h with
  | unlock _ code => rw [hcode] at code; cases code
  | wait _ code => rw [hcode] at code; cases code
  | run _ code => rw [hcode] at code; cases code
  | lock _ code =>
    rw [hcode] at code
    obtain ⟨hm, rfl⟩ := List.cons.inj code
    obtain rfl := Instr.lock.inj hm
    exact ⟨rfl, Function.update_self .., Function.update_self ..⟩

/-- A property of the code of a thread that quiet steps keep. -/
theorem Quiet.keeps {u : τ} {K : Code μ β → Prop} (h : P.Quiet s a s')
    (hdrop : ∀ i c, (∀ b, i ≠ .run b) → K (i :: c) → K c)
    (hentry : ∀ b, a = .call u b → P.entry u b = true → K [.run b]) (hu : K (s.code u)) : K (s'.code u) := by
  rcases h.code u with hsame | ⟨i, c, hcode, hcode', hi⟩ | ⟨b, ha, hb, -, hcode'⟩
  · rw [hsame]
    exact hu
  · rw [hcode] at hu
    rw [hcode']
    exact hdrop i c hi hu
  · rw [hcode']
    exact hentry b ha hb

variable {d : β → Option δ}

theorem Quiet.duties (h : P.Quiet s a s') (hentry : ∀ t b, a = .call t b → P.entry t b = true → d b = none)
    (u : τ) :
    Code.duties d (s'.code u) = Code.duties d (s.code u) := by
  rcases h.code u with hsame | ⟨i, c, hcode, hcode', hi⟩ | ⟨b, ha, hb, hcode, hcode'⟩
  · rw [hsame]
  · rw [hcode, hcode', Code.duties_drop hi]
  · rw [hcode, hcode', Code.duties_run, hentry u b ha hb]
    rfl

section ran

variable {t u : τ} {b : β} {input : ι} {c : Code μ β} {o : Outcome μ τ β σ ε} (h : P.Ran s a s' t b input c o)

include h

theorem Ran.shared : s'.shared = o.state := by
  rw [h.after]
  rfl

theorem Ran.log : s'.log = o.events.map (t, ·) ++ s.log := by
  rw [h.after, State.ran_log]

theorem Ran.mem_log {e : ε} : (u, e) ∈ s'.log ↔ u = t ∧ e ∈ o.events ∨ (u, e) ∈ s.log := by
  rw [h.log, List.mem_append, List.mem_map]
  refine or_congr ⟨?_, ?_⟩ Iff.rfl
  · rintro ⟨x, hx, hsame⟩
    obtain ⟨rfl, rfl⟩ := Prod.mk.inj hsame
    exact ⟨rfl, hx⟩
  · rintro ⟨rfl, he⟩
    exact ⟨e, he, rfl⟩

theorem Ran.code_self : s'.code t = o.code ++ c := by
  rw [h.after, State.ran_code_self]

theorem Ran.code_other (hu : u ≠ t) (hspawn : o.spawn = none) : s'.code u = s.code u := by
  rw [h.after, State.ran_code_other hu hspawn]

theorem Ran.code_busy (hu : u ≠ t) (hbusy : s.code u ≠ []) : s'.code u = s.code u := by
  rw [h.after]
  rcases State.ran_code_cases s c o s'.waiters hu with hsame | ⟨cu, hcu, -⟩
  · exact hsame
  · exact absurd (h.spawn u cu hcu).1 hbusy

theorem Ran.duties_before : Code.duties d (s.code t) = (d b).toList ++ Code.duties d c := by
  rw [h.code, Code.duties_run]

theorem Ran.duties_self : Code.duties d (s'.code t) = Code.duties d o.code ++ Code.duties d c := by
  rw [h.code_self, Code.duties_append]

theorem Ran.duties_other (hu : u ≠ t) (hspawn : ∀ v cv, o.spawn = some (v, cv) → Code.duties d cv = []) :
    Code.duties d (s'.code u) = Code.duties d (s.code u) := by
  rw [h.after]
  rcases State.ran_code_cases s c o s'.waiters hu with hsame | ⟨cu, hcu, hnew⟩
  · rw [hsame]
  · rw [hnew, (h.spawn u cu hcu).1, hspawn u cu hcu]
    rfl

/-- The duties of all threads after a block, from those of the thread that ran it. -/
theorem Ran.duties_update {f g : τ → List δ} (hspawn : ∀ v cv, o.spawn = some (v, cv) → Code.duties d cv = [])
    (hbefore : ∀ u, Code.duties d (s.code u) = f u) (hself : Code.duties d o.code ++ Code.duties d c = g t)
    (hother : ∀ u, u ≠ t → f u = g u) (u : τ) : Code.duties d (s'.code u) = g u := by
  by_cases hu : u = t
  · subst hu
    rw [h.duties_self, hself]
  · rw [h.duties_other hu hspawn, hbefore, hother u hu]

/-- A block that leaves to the code after it the duty it was. -/
theorem Ran.duties_same (hspawn : ∀ v cv, o.spawn = some (v, cv) → Code.duties d cv = [])
    (hcode : Code.duties d o.code = (d b).toList) (u : τ) : Code.duties d (s'.code u) = Code.duties d (s.code u) :=
  h.duties_update hspawn (fun _ => rfl) (by rw [hcode, ← h.duties_before]) (fun _ _ => rfl) u

end ran

/-- A property of the shared state and the record that every block keeps. -/
theorem Reach.on_blocks {ok : State μ τ β σ ε → Action τ β ι ε → Prop} {I : σ → List (τ × ε) → Prop}
    (hinit : I P.start []) (hran : ∀ s a s' t b input c o, P.Reach ok s → ok s a → P.Ran s a s' t b input c o →
      I s.shared s.log → I o.state (o.events.map (t, ·) ++ s.log))
    (h : P.Reach ok s) : I s.shared s.log := by
  refine h.invariant (I := fun s => I s.shared s.log) hinit fun s a s' hreach hok hs hstep => ?_
  rcases hstep.quiet_or_ran with hq | ⟨t, b, input, c, o, hr⟩
  · rw [hq.shared, hq.log]
    exact hs
  · rw [hr.shared, hr.log]
    exact hran s a s' t b input c o hreach hok hr hs

/-- What is recorded in a reachable state was recorded by a block that ran on the way to it. -/
theorem Reach.recorded {ok : State μ τ β σ ε → Action τ β ι ε → Prop} {t : τ} {e : ε} (h : P.Reach ok s)
    (he : (t, e) ∈ s.log) : ∃ s₀ a s₁ b input c o, P.Reach ok s₀ ∧ ok s₀ a ∧ P.Ran s₀ a s₁ t b input c o ∧
      e ∈ o.events ∧ P.Reach ok s₁ ∧ P.Runs ok s₁ s := by
  induction h with
  | init => cases he
  | @step s s' a hreach hok hstep ih =>
    have hlater : (t, e) ∈ s.log → ∃ s₀ a s₁ b input c o, P.Reach ok s₀ ∧ ok s₀ a ∧ P.Ran s₀ a s₁ t b input c o ∧
        e ∈ o.events ∧ P.Reach ok s₁ ∧ P.Runs ok s₁ s' := fun he => by
      obtain ⟨s₀, a₀, s₁, b, input, c, o, hreach₀, hok₀, hr, hmem, hreach₁, hrun⟩ := ih he
      exact ⟨s₀, a₀, s₁, b, input, c, o, hreach₀, hok₀, hr, hmem, hreach₁, hrun.tail ⟨a, hok, hstep⟩⟩
    rcases (step_cases hstep).quiet_or_ran with hq | ⟨u, b, input, c, o, hr⟩
    · exact hlater (by rwa [hq.log] at he)
    · rcases hr.mem_log.mp he with ⟨rfl, hmem⟩ | he
      · exact ⟨s, a, s', b, input, c, o, hreach, hok, hr, hmem, .step hreach hok hstep, .refl⟩
      · exact hlater he

end Program

end Monitor
