import HardwareInterfaces.Lib.History
import Mathlib.Data.List.Nodup
import Mathlib.Logic.Function.Basic
import Mathlib.Logic.Relation

/-!
# Threads, mutexes and a condition variable

A concurrent program over one shared state. Each thread has the list of instructions it still has to
run: `lock`, `unlock`, `wait` (unlock a mutex and park on the condition variable in one step) and `run`,
which executes one block of code. A block reads and changes the shared state, answers of the environment
come in as an input, and it decides what its thread runs next. `lock` blocks while the mutex is taken,
by any thread: mutexes are not recursive. A parked thread does nothing until a notification, a timeout
or a spurious wakeup takes it off the list of waiters; it then goes on with the code after its `wait`, which
starts by locking the mutex again.

`Program.step` is the executable semantics; `Step` says once, constructor by constructor, what a step can
do, and `Reach.invariant` is the induction over runs that every invariant goes through.
-/

namespace Monitor

inductive Instr (μ β : Type)
  | lock (m : μ)
  | unlock (m : μ)
  | wait (m : μ)
  | run (b : β)
  deriving DecidableEq

abbrev Code (μ β : Type) := List (Instr μ β)

inductive Notify
  | nobody
  | one
  | all
  deriving DecidableEq

/-- What one block did: the new shared state, the code its thread runs before the rest, a thread it
started, whom it notified, and the events to record, newest first. -/
structure Outcome (μ τ β σ ε : Type) where
  state : σ
  code : Code μ β := []
  spawn : Option (τ × Code μ β) := none
  notify : Notify := .nobody
  events : List ε := []

/-- A program: its blocks (`none`: the block cannot go on now), the blocks with which an idle thread may
start, the events the environment produces on its own, and the initial shared state. -/
structure Program (μ τ β ι σ ε : Type) where
  exec : τ → β → ι → σ → Option (Outcome μ τ β σ ε)
  entry : τ → β → Bool
  external : ε → Bool
  start : σ

inductive Event (μ τ ε : Type)
  | locked (t : τ) (m : μ)
  | unlocked (t : τ) (m : μ)
  | did (t : τ) (e : ε)
  | env (e : ε)
  deriving DecidableEq

structure State (μ τ β σ ε : Type) where
  shared : σ
  owner : μ → Option τ
  code : τ → Code μ β
  waiters : List τ
  history : List (Event μ τ ε)

/-- What the scheduler may choose: the next thread with the environment's answer and the thread a
`notify_one` picks, a waiter that wakes up, an idle thread that starts, an event of the environment. -/
inductive Action (τ β ι ε : Type)
  | step (t : τ) (input : ι) (pick : Option τ)
  | wake (t : τ)
  | call (t : τ) (b : β)
  | env (e : ε)

variable {μ τ β ι σ ε : Type} [DecidableEq τ]

def Notify.left (n : Notify) (pick : Option τ) (waiters : List τ) : Option (List τ) :=
  match n, pick with
  | .nobody, _ => some waiters
  | .all, _ => some []
  | .one, none => if waiters = [] then some [] else none
  | .one, some u => if u ∈ waiters then some (waiters.erase u) else none

theorem Notify.left_sublist {n : Notify} {pick : Option τ} {waiters left : List τ}
    (h : n.left pick waiters = some left) : left.Sublist waiters := by
  unfold Notify.left at h
  split at h
  · obtain rfl := Option.some.inj h
    exact List.Sublist.refl _
  · obtain rfl := Option.some.inj h
    exact List.nil_sublist _
  · split at h
    · obtain rfl := Option.some.inj h
      exact List.nil_sublist _
    · cases h
  · split at h
    · obtain rfl := Option.some.inj h
      exact List.erase_sublist
    · cases h

theorem Notify.left_one {pick : Option τ} {waiters left : List τ} (h : Notify.one.left pick waiters = some left) :
    left = [] ∨ ∃ u ∈ waiters, left = waiters.erase u := by
  cases pick with
  | none =>
    simp only [Notify.left, Option.ite_none_right_eq_some] at h
    exact Or.inl (Option.some.inj h.2).symm
  | some u =>
    simp only [Notify.left, Option.ite_none_right_eq_some] at h
    exact Or.inr ⟨u, h.1, (Option.some.inj h.2).symm⟩

namespace State

variable (s : State μ τ β σ ε)

/-- The state after thread `t` ran a block with outcome `o`, the code `c` still to come after it. -/
def ran (t : τ) (c : Code μ β) (o : Outcome μ τ β σ ε) (left : List τ) : State μ τ β σ ε where
  shared := o.state
  owner := s.owner
  code :=
    let code := match o.spawn with
      | none => s.code
      | some (u, cu) => Function.update s.code u cu
    Function.update code t (o.code ++ c)
  waiters := left
  history := o.events.map (Event.did t) ++ s.history

def canSpawn (o : Outcome μ τ β σ ε) : Bool :=
  match o.spawn with
  | none => true
  | some (u, _) => (s.code u).isEmpty && !decide (u ∈ s.waiters)

end State

namespace Program

variable [DecidableEq μ] (P : Program μ τ β ι σ ε)

def init : State μ τ β σ ε := ⟨P.start, fun _ => none, fun _ => [], [], []⟩

def step (s : State μ τ β σ ε) : Action τ β ι ε → Option (State μ τ β σ ε)
  | .step t input pick =>
    if t ∈ s.waiters then none
    else match s.code t with
      | [] => none
      | .lock m :: c =>
        if (s.owner m).isNone then some { s with
          owner := Function.update s.owner m (some t)
          code := Function.update s.code t c
          history := .locked t m :: s.history }
        else none
      | .unlock m :: c => some { s with
          owner := Function.update s.owner m none
          code := Function.update s.code t c
          history := .unlocked t m :: s.history }
      | .wait m :: c => some { s with
          owner := Function.update s.owner m none
          code := Function.update s.code t c
          waiters := t :: s.waiters
          history := .unlocked t m :: s.history }
      | .run b :: c =>
        match P.exec t b input s.shared with
        | none => none
        | some o => if s.canSpawn o then (o.notify.left pick s.waiters).map (s.ran t c o) else none
  | .wake t => if t ∈ s.waiters then some { s with waiters := s.waiters.erase t } else none
  | .call t b =>
    if (s.code t).isEmpty && P.entry t b && !decide (t ∈ s.waiters) then
      some { s with code := Function.update s.code t [.run b] }
    else none
  | .env e => if P.external e then some { s with history := .env e :: s.history } else none

/-- Run a sequence of scheduler choices, as long as they pass a check. -/
def steps (check : State μ τ β σ ε → Action τ β ι ε → Bool) (s : State μ τ β σ ε) (actions : List (Action τ β ι ε)) :
    Option (State μ τ β σ ε) :=
  actions.foldlM (fun s a => if check s a then P.step s a else none) s

inductive Step (s : State μ τ β σ ε) : Action τ β ι ε → State μ τ β σ ε → Prop
  | lock {t : τ} {input : ι} {pick : Option τ} {m : μ} {c : Code μ β} (awake : t ∉ s.waiters)
      (code : s.code t = .lock m :: c) (free : s.owner m = none) :
      Step s (.step t input pick) { s with
        owner := Function.update s.owner m (some t)
        code := Function.update s.code t c
        history := .locked t m :: s.history }
  | unlock {t : τ} {input : ι} {pick : Option τ} {m : μ} {c : Code μ β} (awake : t ∉ s.waiters)
      (code : s.code t = .unlock m :: c) :
      Step s (.step t input pick) { s with
        owner := Function.update s.owner m none
        code := Function.update s.code t c
        history := .unlocked t m :: s.history }
  | wait {t : τ} {input : ι} {pick : Option τ} {m : μ} {c : Code μ β} (awake : t ∉ s.waiters)
      (code : s.code t = .wait m :: c) :
      Step s (.step t input pick) { s with
        owner := Function.update s.owner m none
        code := Function.update s.code t c
        waiters := t :: s.waiters
        history := .unlocked t m :: s.history }
  | run {t : τ} {input : ι} {pick : Option τ} {b : β} {c : Code μ β} {o : Outcome μ τ β σ ε} {left : List τ}
      (awake : t ∉ s.waiters) (code : s.code t = .run b :: c) (exec : P.exec t b input s.shared = some o)
      (spawn : ∀ u cu, o.spawn = some (u, cu) → s.code u = [] ∧ u ∉ s.waiters)
      (notified : o.notify.left pick s.waiters = some left) :
      Step s (.step t input pick) (s.ran t c o left)
  | wake {t : τ} (parked : t ∈ s.waiters) : Step s (.wake t) { s with waiters := s.waiters.erase t }
  | call {t : τ} {b : β} (idle : s.code t = []) (awake : t ∉ s.waiters) (entry : P.entry t b = true) :
      Step s (.call t b) { s with code := Function.update s.code t [.run b] }
  | env {e : ε} (external : P.external e = true) : Step s (.env e) { s with history := .env e :: s.history }

variable {P} {s s' : State μ τ β σ ε} {a : Action τ β ι ε}

theorem step_cases (h : P.step s a = some s') : P.Step s a s' := by
  cases a with
  | step t input pick =>
    simp only [step] at h
    split at h
    · cases h
    · rename_i hawake
      split at h
      · cases h
      · rename_i m c hcode
        split at h
        · rename_i hfree
          obtain rfl := Option.some.inj h
          exact .lock hawake hcode (Option.isNone_iff_eq_none.mp hfree)
        · cases h
      · rename_i m c hcode
        obtain rfl := Option.some.inj h
        exact .unlock hawake hcode
      · rename_i m c hcode
        obtain rfl := Option.some.inj h
        exact .wait hawake hcode
      · rename_i b c hcode
        split at h
        · cases h
        · rename_i o hexec
          split at h
          · rename_i hspawn
            obtain ⟨left, hleft, rfl⟩ := Option.map_eq_some_iff.mp h
            refine .run hawake hcode hexec (fun u cu hu => ?_) hleft
            rw [State.canSpawn, hu] at hspawn
            simpa using hspawn
          · cases h
  | wake t =>
    simp only [step] at h
    split at h
    · rename_i hparked
      obtain rfl := Option.some.inj h
      exact .wake hparked
    · cases h
  | call t b =>
    simp only [step] at h
    split at h
    · rename_i hcall
      obtain rfl := Option.some.inj h
      simp only [Bool.and_eq_true, List.isEmpty_iff, Bool.not_eq_true', decide_eq_false_iff_not] at hcall
      exact .call hcall.1.1 hcall.2 hcall.1.2
    · cases h
  | env e =>
    simp only [step] at h
    split at h
    · rename_i hext
      obtain rfl := Option.some.inj h
      exact .env hext
    · cases h

theorem Step.history (h : P.Step s a s') : ∃ new, s'.history = new ++ s.history := by
  cases h with
  | lock => exact ⟨[_], rfl⟩
  | unlock => exact ⟨[_], rfl⟩
  | wait => exact ⟨[_], rfl⟩
  | @run t _ _ b c o => exact ⟨o.events.map (.did t), rfl⟩
  | wake => exact ⟨[], rfl⟩
  | call => exact ⟨[], rfl⟩
  | env => exact ⟨[_], rfl⟩

variable (P)

/-- The states reached by the runs whose every step is allowed by `ok`. -/
inductive Reach (ok : State μ τ β σ ε → Action τ β ι ε → Prop) : State μ τ β σ ε → Prop
  | init : Reach ok P.init
  | step {s s' : State μ τ β σ ε} {a : Action τ β ι ε} (reach : Reach ok s) (allowed : ok s a)
      (step : P.step s a = some s') : Reach ok s'

variable {P} {ok ok' : State μ τ β σ ε → Action τ β ι ε → Prop}

/-- A property of the initial state that every allowed step from a reachable state keeps. -/
theorem Reach.invariant {I : State μ τ β σ ε → Prop} (hinit : I P.init)
    (hstep : ∀ s a s', P.Reach ok s → ok s a → I s → P.Step s a s' → I s') (h : P.Reach ok s) : I s := by
  induction h with
  | init => exact hinit
  | step hreach hok hstep' ih => exact hstep _ _ _ hreach hok ih (step_cases hstep')

theorem Reach.mono (hok : ∀ s a, ok s a → ok' s a) (h : P.Reach ok s) : P.Reach ok' s := by
  induction h with
  | init => exact .init
  | step _ hallowed hstep ih => exact .step ih (hok _ _ hallowed) hstep

theorem Reach.steps {check : State μ τ β σ ε → Action τ β ι ε → Bool} (hok : ∀ s a, check s a = true → ok s a)
    (h : P.Reach ok s) {actions : List (Action τ β ι ε)} (hrun : P.steps check s actions = some s') :
    P.Reach ok s' := by
  induction actions generalizing s with
  | nil =>
    obtain rfl := Option.some.inj hrun
    exact h
  | cons a actions ih =>
    rw [Program.steps, List.foldlM_cons, Option.bind_eq_bind, Option.bind_eq_some_iff] at hrun
    obtain ⟨s₁, hstep, hrest⟩ := hrun
    rw [Option.ite_none_right_eq_some] at hstep
    exact ih (.step h (hok s a hstep.1) hstep.2) hrest

variable (P) in
/-- The states to which runs of allowed steps lead from a state. -/
def Runs (ok : State μ τ β σ ε → Action τ β ι ε → Prop) : State μ τ β σ ε → State μ τ β σ ε → Prop :=
  Relation.ReflTransGen fun s s' => ∃ a, ok s a ∧ P.step s a = some s'

theorem Runs.reach (hrun : P.Runs ok s s') (h : P.Reach ok s) : P.Reach ok s' := by
  induction hrun with
  | refl => exact h
  | tail _ hstep ih =>
    obtain ⟨a, hok, hstep⟩ := hstep
    exact .step ih hok hstep

theorem Runs.mono (hok : ∀ s a, ok s a → ok' s a) (hrun : P.Runs ok s s') : P.Runs ok' s s' := by
  induction hrun with
  | refl => exact .refl
  | tail _ hstep ih =>
    obtain ⟨a, hallowed, hstep⟩ := hstep
    exact .tail ih ⟨a, hok _ a hallowed, hstep⟩

theorem Runs.steps {check : State μ τ β σ ε → Action τ β ι ε → Bool} (hok : ∀ s a, check s a = true → ok s a)
    {actions : List (Action τ β ι ε)} (hrun : P.steps check s actions = some s') : P.Runs ok s s' := by
  induction actions generalizing s with
  | nil =>
    obtain rfl := Option.some.inj hrun
    exact .refl
  | cons a actions ih =>
    rw [Program.steps, List.foldlM_cons, Option.bind_eq_bind, Option.bind_eq_some_iff] at hrun
    obtain ⟨s₁, hstep, hrest⟩ := hrun
    rw [Option.ite_none_right_eq_some] at hstep
    exact .head ⟨a, hok s a hstep.1, hstep.2⟩ (ih hrest)

theorem Reach.of_run (P : Program μ τ β ι σ ε) (check : State μ τ β σ ε → Action τ β ι ε → Bool)
    (actions : List (Action τ β ι ε)) (p : State μ τ β σ ε → Bool) (hok : ∀ s a, check s a = true → ok s a)
    (hrun : (P.steps check P.init actions).any p = true) : ∃ s, P.Reach ok s ∧ p s = true := by
  cases hs : P.steps check P.init actions with
  | none =>
    rw [hs] at hrun
    cases hrun
  | some s =>
    rw [hs] at hrun
    exact ⟨s, Reach.init.steps hok hs, hrun⟩

end Program

namespace State

variable {s : State μ τ β σ ε} {t u : τ} {c : Code μ β} {o : Outcome μ τ β σ ε} {left : List τ}

@[simp] theorem ran_history : (s.ran t c o left).history = o.events.map (Event.did t) ++ s.history := rfl

@[simp] theorem ran_code_self : (s.ran t c o left).code t = o.code ++ c := Function.update_self ..

theorem ran_code_other (hu : u ≠ t) (hspawn : o.spawn = none) : (s.ran t c o left).code u = s.code u := by
  simp [ran, hspawn, Function.update_of_ne hu]

theorem ran_code_spawned {cu : Code μ β} (hu : u ≠ t) (hspawn : o.spawn = some (u, cu)) :
    (s.ran t c o left).code u = cu := by
  simp [ran, hspawn, Function.update_of_ne hu]

theorem ran_code_cases (s : State μ τ β σ ε) (c : Code μ β) (o : Outcome μ τ β σ ε) (left : List τ) (hu : u ≠ t) :
    (s.ran t c o left).code u = s.code u ∨ ∃ cu, o.spawn = some (u, cu) ∧ (s.ran t c o left).code u = cu := by
  cases hspawn : o.spawn with
  | none => exact Or.inl (ran_code_other hu hspawn)
  | some p =>
    obtain ⟨v, cv⟩ := p
    by_cases hv : u = v
    · subst hv
      exact Or.inr ⟨cv, rfl, ran_code_spawned hu hspawn⟩
    · left
      simp [ran, hspawn, Function.update_of_ne hu, Function.update_of_ne hv]

end State

end Monitor
