import HardwareInterfaces.Lib.Monitor

/-!
# Runs in real time

Runs of a monitor program under a clock that does not go back. Each step happens at some time, not before the one
before it, and a step that reads the clock gets that time. Which steps read the clock, and where the value comes in, is
a parameter.
-/

namespace Monitor

variable {μ τ β ι σ ε : Type} [DecidableEq τ] [DecidableEq μ]

namespace Program

variable (P : Program μ τ β ι σ ε) (reading : State μ τ β σ ε → Action τ β ι ε → Option Int)

/-- A step at time `q.1`, allowed by `ok`. -/
def TimedStep (ok : State μ τ β σ ε → Action τ β ι ε → Prop) (p q : Int × State μ τ β σ ε) : Prop :=
  ∃ a, p.1 ≤ q.1 ∧ ok p.2 a ∧ (∀ now ∈ reading p.2 a, now = q.1) ∧ P.step p.2 a = some q.2

def TimedRuns (ok : State μ τ β σ ε → Action τ β ι ε → Prop) : Int × State μ τ β σ ε → Int × State μ τ β σ ε → Prop :=
  Relation.ReflTransGen (P.TimedStep reading ok)

def TimedReach (ok : State μ τ β σ ε → Action τ β ι ε → Prop) (q : Int × State μ τ β σ ε) : Prop :=
  ∃ now, P.TimedRuns reading ok (now, P.init) q

def timedSteps (check : State μ τ β σ ε → Action τ β ι ε → Bool) (p : Int × State μ τ β σ ε)
    (actions : List (Int × Action τ β ι ε)) : Option (Int × State μ τ β σ ε) :=
  actions.foldlM (fun p x =>
    if p.1 ≤ x.1 && check p.2 x.2 && (reading p.2 x.2).all (· = x.1) then (P.step p.2 x.2).map (x.1, ·) else none) p

variable {P reading} {ok : State μ τ β σ ε → Action τ β ι ε → Prop} {p q : Int × State μ τ β σ ε}

/-- What every step at its time keeps holds at the end of a run. -/
theorem TimedRuns.invariant {I : Int × State μ τ β σ ε → Prop} (h : P.TimedRuns reading ok p q) (hp : I p)
    (hstep : ∀ p q a, p.1 ≤ q.1 → ok p.2 a → (∀ now ∈ reading p.2 a, now = q.1) → P.Step p.2 a q.2 → I p → I q) :
    I q := by
  induction h with
  | refl => exact hp
  | tail _ h ih =>
    obtain ⟨a, hle, hallowed, hreading, hs⟩ := h
    exact hstep _ _ a hle hallowed hreading (step_cases hs) ih

theorem TimedReach.invariant {I : Int × State μ τ β σ ε → Prop} (h : P.TimedReach reading ok q)
    (hinit : ∀ now, I (now, P.init))
    (hstep : ∀ p q a, p.1 ≤ q.1 → ok p.2 a → (∀ now ∈ reading p.2 a, now = q.1) → P.Step p.2 a q.2 → I p → I q) :
    I q := by
  obtain ⟨now, h⟩ := h
  exact h.invariant (hinit now) hstep

theorem TimedRuns.steps {check : State μ τ β σ ε → Action τ β ι ε → Bool} (hok : ∀ s a, check s a = true → ok s a)
    {actions : List (Int × Action τ β ι ε)} (hrun : P.timedSteps reading check p actions = some q) :
    P.TimedRuns reading ok p q := by
  induction actions generalizing p with
  | nil =>
    obtain rfl := Option.some.inj hrun
    exact .refl
  | cons x actions ih =>
    rw [timedSteps, List.foldlM_cons, Option.bind_eq_bind, Option.bind_eq_some_iff] at hrun
    obtain ⟨p', hstep, hrest⟩ := hrun
    rw [Option.ite_none_right_eq_some] at hstep
    obtain ⟨hcheck, hstep⟩ := hstep
    obtain ⟨s', hs', rfl⟩ := Option.map_eq_some_iff.mp hstep
    simp only [Bool.and_eq_true, decide_eq_true_eq] at hcheck
    obtain ⟨⟨hle, hcheck⟩, hreading⟩ := hcheck
    refine .head ⟨x.2, hle, hok _ _ hcheck, fun now hnow => ?_, hs'⟩ (ih hrest)
    rw [Option.mem_def.mp hnow] at hreading
    simpa using hreading

theorem TimedRuns.of_run (P : Program μ τ β ι σ ε) (reading : State μ τ β σ ε → Action τ β ι ε → Option Int)
    (check : State μ τ β σ ε → Action τ β ι ε → Bool) (p : Int × State μ τ β σ ε)
    (actions : List (Int × Action τ β ι ε)) (test : Int × State μ τ β σ ε → Bool)
    (hok : ∀ s a, check s a = true → ok s a) (hrun : (P.timedSteps reading check p actions).any test = true) :
    ∃ q, P.TimedRuns reading ok p q ∧ test q = true := by
  cases hq : P.timedSteps reading check p actions with
  | none =>
    rw [hq] at hrun
    cases hrun
  | some q =>
    rw [hq] at hrun
    exact ⟨q, TimedRuns.steps hok hq, hrun⟩

end Program

end Monitor
