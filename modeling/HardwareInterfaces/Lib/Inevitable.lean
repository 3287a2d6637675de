import HardwareInterfaces.Lib.Duty
import HardwareInterfaces.Lib.LockOrder

/-!
# What is bound to happen

A goal is inevitable under a restriction of the scheduler and the environment if every run of allowed steps comes to it:
there is an allowed step until it is reached, and no allowed steps can go on forever without it. The rule is a rank that
each allowed step lowers. For the steps of one thread the rank is what its code costs, a price for each block: locking,
unlocking and waking up pay for themselves, so that only the blocks have to be looked at, each against the code it adds.
-/

namespace Monitor

variable {μ τ β ι σ ε : Type} [DecidableEq τ]

namespace Program

variable [DecidableEq μ]

/-- Whatever allowed steps are taken, the goal is reached. -/
inductive Inevitable (P : Program μ τ β ι σ ε) (ok : State μ τ β σ ε → Action τ β ι ε → Prop)
    (goal : State μ τ β σ ε → Prop) : State μ τ β σ ε → Prop
  | now {s : State μ τ β σ ε} (reached : goal s) : Inevitable P ok goal s
  | later {s : State μ τ β σ ε} (next : ∃ a s', ok s a ∧ P.step s a = some s')
      (all : ∀ a s', ok s a → P.step s a = some s' → Inevitable P ok goal s') : Inevitable P ok goal s

theorem Inevitable.of_rank {P : Program μ τ β ι σ ε} {ok : State μ τ β σ ε → Action τ β ι ε → Prop}
    {goal I : State μ τ β σ ε → Prop} (rank : State μ τ β σ ε → Nat)
    (hnext : ∀ s, I s → ∃ a s', ok s a ∧ P.step s a = some s')
    (hstep : ∀ s a s', I s → ok s a → P.step s a = some s' → goal s' ∨ I s' ∧ rank s' < rank s)
    {s : State μ τ β σ ε} (h : I s) : P.Inevitable ok goal s := by
  induction hn : rank s using Nat.strongRecOn generalizing s with
  | ind n ih =>
    subst hn
    refine .later (hnext s h) fun a s' hok hs' => ?_
    rcases hstep s a s' h hok hs' with hgoal | ⟨hI, hlt⟩
    · exact .now hgoal
    · exact ih (rank s') hlt hI rfl

end Program

/-! ### What code costs -/

/-- A thread pays for a `wait` twice: when it parks and when it wakes up. -/
def Instr.cost (price : β → Nat) : Instr μ β → Nat
  | .lock _ => 1
  | .unlock _ => 1
  | .wait _ => 2
  | .run b => price b

def Code.cost (price : β → Nat) : Code μ β → Nat
  | [] => 0
  | i :: c => i.cost price + Code.cost price c

def State.cost (price : β → Nat) (s : State μ τ β σ ε) (t : τ) : Nat :=
  Code.cost price (s.code t) + if t ∈ s.waiters then 1 else 0

section cost

variable {price : β → Nat} {c c' : Code μ β} {b : β} {m : μ}

@[simp] theorem Code.cost_nil : Code.cost price ([] : Code μ β) = 0 := rfl

@[simp] theorem Code.cost_lock : Code.cost price (.lock m :: c) = 1 + Code.cost price c := rfl

@[simp] theorem Code.cost_unlock : Code.cost price (.unlock m :: c) = 1 + Code.cost price c := rfl

@[simp] theorem Code.cost_wait : Code.cost price (.wait m :: c) = 2 + Code.cost price c := rfl

@[simp] theorem Code.cost_run : Code.cost price (.run b :: c) = price b + Code.cost price c := rfl

@[simp] theorem Code.cost_append : Code.cost price (c ++ c') = Code.cost price c + Code.cost price c' := by
  induction c with
  | nil => rw [List.nil_append, Code.cost_nil, Nat.zero_add]
  | cons i c ih =>
    show i.cost price + Code.cost price (c ++ c') = i.cost price + Code.cost price c + Code.cost price c'
    rw [ih, Nat.add_assoc]

theorem Code.cost_map {α : Type} {f : α → β} {xs : List α} (h : ∀ x ∈ xs, price (f x) = 1) :
    Code.cost price (xs.map fun x => (.run (f x) : Instr μ β)) = xs.length := by
  induction xs with
  | nil => rfl
  | cons x xs ih =>
    rw [List.map_cons, Code.cost_run, h x List.mem_cons_self, ih fun y hy => h y (List.mem_cons_of_mem x hy),
      List.length_cons, Nat.add_comm]

variable [DecidableEq μ] {P : Program μ τ β ι σ ε} {s s' : State μ τ β σ ε} {a : Action τ β ι ε} {t : τ}

/-- A thread that goes on has less to pay, if the block it runs does not add code for more than its price. -/
theorem Program.Step.cost_lt (h : P.Step s a s') (ha : a.By t) (hgoes : ∀ b, a ≠ .call t b) (hnodup : s.waiters.Nodup)
    (hrun : ∀ b input c o, P.Ran s a s' t b input c o → Code.cost price o.code < price b) :
    s'.cost price t < s.cost price t := by
  cases h with
  | @lock u _ _ m c awake code free =>
    obtain rfl : u = t := ha
    simp [State.cost, code, awake]
  | @unlock u _ _ m c awake code =>
    obtain rfl : u = t := ha
    simp [State.cost, code, awake]
  | @wait u _ _ m c awake code =>
    obtain rfl : u = t := ha
    simp [State.cost, code, awake]
    omega
  | @run u input pick b c o left awake code exec spawn notified =>
    obtain rfl : u = t := ha
    have hleft : u ∉ left := fun hmem => awake ((Notify.left_sublist notified).subset hmem)
    have hless := hrun b input c o ⟨⟨pick, rfl, notified⟩, awake, code, exec, spawn, rfl⟩
    have hafter : (s.ran u c o left).waiters = left := rfl
    simp only [State.cost, State.ran_code_self, code, Code.cost_append, Code.cost_run, hafter, if_neg hleft, if_neg awake]
    omega
  | @wake u parked =>
    obtain rfl : u = t := ha
    have hgone : u ∉ s.waiters.erase u := fun hmem => (hnodup.mem_erase_iff.mp hmem).1 rfl
    simp [State.cost, parked, hgone]
  | @call u b idle awake entry =>
    obtain rfl : u = t := ha
    exact absurd rfl (hgoes b)
  | env external => exact ha.elim

end cost

end Monitor
