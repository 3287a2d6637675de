import HardwareInterfaces.Lib.Duty

/-!
# Specifications that read the record

A specification of a monitor program as a machine that reads what the blocks record: an event moves the machine, or the
machine does not allow it. `Machine.run` reads a record from its oldest event, the last of the list, to its newest.

`Reach.refines` is the rule by which a program refines a machine: every block has to move the machine as it moves the
shared state. The machine may depend on something that is only settled later in the run, such as the names of objects
that are still to be made; it is then a family, and `F` says which members a state still allows.
-/

namespace Monitor

/-- Where a machine starts, and what each event needs and does. -/
structure Machine (ε α : Type) where
  start : α
  step : α → ε → Option α

namespace Machine

variable {ε α γ δ : Type} (M : Machine ε α)

/-- The state after a record, the newest event first. -/
def run (x : α) : List ε → Option α
  | [] => some x
  | e :: earlier => (run x earlier).bind fun y => M.step y e

def after (events : List ε) : Option α := M.run M.start events

variable {M} {x y z : α} {e : ε} {events later earlier : List ε}

theorem run_append : M.run x (later ++ earlier) = (M.run x earlier).bind fun y => M.run y later := by
  induction later with
  | nil => exact (Option.bind_fun_some _).symm
  | cons e later ih => rw [List.cons_append, run, ih, Option.bind_assoc]; rfl

theorem run_split (h : M.run x (later ++ e :: earlier) = some z) :
    ∃ y y', M.run x earlier = some y ∧ M.step y e = some y' ∧ M.run y' later = some z := by
  rw [run_append, Option.bind_eq_some_iff] at h
  obtain ⟨y', hy', hlater⟩ := h
  obtain ⟨y, hearlier, hstep⟩ := Option.bind_eq_some_iff.mp hy'
  exact ⟨y, y', hearlier, hstep, hlater⟩

theorem run_ignored (h : ∀ e ∈ events, M.step x e = some x) : M.run x events = some x := by
  induction events with
  | nil => rfl
  | cons e earlier ih =>
    rw [run, ih fun e' he' => h e' (List.mem_cons_of_mem e he'), Option.bind_some, h e List.mem_cons_self]

theorem run_fold {f : α → γ} {op? : ε → Option δ} {g : δ → γ → γ}
    (hstep : ∀ y e y', M.step y e = some y' → f y' = (op? e).elim (f y) fun op => g op (f y))
    (h : M.run x events = some z) : f z = (events.filterMap op?).foldr g (f x) := by
  induction events generalizing z with
  | nil => rw [← Option.some.inj h]; rfl
  | cons e earlier ih =>
    obtain ⟨y, hy, he⟩ := Option.bind_eq_some_iff.mp h
    rw [hstep y e z he, ih hy, List.filterMap_cons]
    cases op? e <;> rfl

end Machine

namespace Program

variable {μ τ β ι σ ε α ν : Type} [DecidableEq τ] [DecidableEq μ] {P : Program μ τ β ι σ ε} {s : State μ τ β σ ε}

/-- The record of a program in which every block moves the machine as it moves the shared state. -/
theorem Reach.refines {ok : State μ τ β σ ε → Action τ β ι ε → Prop} {M : ν → Machine (τ × ε) α} {F : ν → σ → Prop}
    {R : σ → α → Prop} (hinit : ∀ n, R P.start (M n).start)
    (hback : ∀ n s a s' t b input c o, P.Reach ok s → P.Ran s a s' t b input c o → F n o.state → F n s.shared)
    (hran : ∀ n x s a s' t b input c o, P.Reach ok s → ok s a → P.Ran s a s' t b input c o → F n o.state →
      R s.shared x → ∃ y, (M n).run x (o.events.map (t, ·)) = some y ∧ R o.state y)
    (h : P.Reach ok s) : ∀ n, F n s.shared → ∃ x, (M n).after s.log = some x ∧ R s.shared x := by
  refine h.on_blocks (I := fun x log => ∀ n, F n x → ∃ y, (M n).after log = some y ∧ R x y)
    (fun n _ => ⟨_, rfl, hinit n⟩) ?_
  intro s a s' t b input c o hreach hok hr hs n hn
  obtain ⟨x, hx, hrel⟩ := hs n (hback n s a s' t b input c o hreach hr hn)
  obtain ⟨y, hy, hrel'⟩ := hran n x s a s' t b input c o hreach hok hr hn hrel
  refine ⟨y, ?_, hrel'⟩
  rw [Machine.after, Machine.run_append, ← Machine.after, hx, Option.bind_some, hy]

end Program

end Monitor
