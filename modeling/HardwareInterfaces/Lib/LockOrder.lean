import HardwareInterfaces.Lib.Monitor
import Mathlib.Logic.Relation

/-!
# Lock discipline

A `Typing` gives every block the mutexes its thread holds when it runs, those it leaves held for the code after it,
and ranks the mutexes. `follow` walks along a piece of code and says which mutexes are held after it, if every
block on the way finds exactly the mutexes it needs, no mutex is taken while one of the same or a higher
rank is held, and nothing is unlocked that is not held; code that starts with `held` and ends with nothing held is
`Balanced`. If every block decides on code that ends with what the block promises (`Typing.Sound`), the code of every
thread stays balanced for the mutexes it really owns (`Reach.disciplined`). Mutual exclusion, the absence of
self-deadlocks and of cyclic waits, and the stability of guarded data all follow from that.
-/

set_option linter.unusedSectionVars false

namespace Monitor

variable {μ τ β ι σ ε : Type} [DecidableEq μ] [DecidableEq τ]

/-- Lock requirements of the blocks, most recently taken mutex first, and an order of the mutexes. -/
structure Typing (μ β : Type) where
  needs : β → List μ
  leaves : β → List μ
  rank : μ → Nat

namespace Typing

variable (Γ : Typing μ β)

def follow (held : List μ) : Code μ β → Option (List μ)
  | [] => some held
  | .lock m :: c => if ∀ m' ∈ held, Γ.rank m' < Γ.rank m then follow (m :: held) c else none
  | .unlock m :: c => if m ∈ held then follow (held.erase m) c else none
  | .wait m :: c => if m ∈ held then follow (held.erase m) c else none
  | .run b :: c => if held = Γ.needs b then follow (Γ.leaves b) c else none

def Balanced (held : List μ) (c : Code μ β) : Prop := Γ.follow held c = some []

variable {Γ} {held after : List μ} {m : μ} {b : β} {p c : Code μ β}

theorem balanced_nil : Γ.Balanced held [] ↔ held = [] := by
  simp [Balanced, follow]

theorem balanced_lock :
    Γ.Balanced held (.lock m :: c) ↔ (∀ m' ∈ held, Γ.rank m' < Γ.rank m) ∧ Γ.Balanced (m :: held) c := by
  rw [Balanced, follow, Option.ite_none_right_eq_some, Balanced]

theorem balanced_unlock : Γ.Balanced held (.unlock m :: c) ↔ m ∈ held ∧ Γ.Balanced (held.erase m) c := by
  rw [Balanced, follow, Option.ite_none_right_eq_some, Balanced]

theorem balanced_wait : Γ.Balanced held (.wait m :: c) ↔ m ∈ held ∧ Γ.Balanced (held.erase m) c := by
  rw [Balanced, follow, Option.ite_none_right_eq_some, Balanced]

theorem balanced_run : Γ.Balanced held (.run b :: c) ↔ held = Γ.needs b ∧ Γ.Balanced (Γ.leaves b) c := by
  rw [Balanced, follow, Option.ite_none_right_eq_some, Balanced]

theorem follow_append (hp : Γ.follow held p = some after) : Γ.follow held (p ++ c) = Γ.follow after c := by
  induction p generalizing held with
  | nil =>
    obtain rfl := Option.some.inj hp
    rfl
  | cons i p ih =>
    cases i with
    | _ =>
      rw [List.cons_append, follow]
      rw [follow] at hp
      split at hp
      · rw [if_pos ‹_›]
        exact ih hp
      · cases hp

variable (Γ)

/-- Every block keeps to the typing, and so do the threads it starts and those that start on their own. -/
structure Sound (P : Program μ τ β ι σ ε) : Prop where
  exec : ∀ {t b i s o}, P.exec t b i s = some o → Γ.follow (Γ.needs b) o.code = some (Γ.leaves b)
  spawn : ∀ {t b i s o}, P.exec t b i s = some o → ∀ u cu, o.spawn = some (u, cu) → Γ.Balanced [] cu
  entry : ∀ {t b}, P.entry t b = true → Γ.Balanced [] [.run b]

end Typing

structure State.Holds (s : State μ τ β σ ε) (t : τ) (held : List μ) : Prop where
  nodup : held.Nodup
  mem : ∀ m, m ∈ held ↔ s.owner m = some t

def Event.Touches (m : μ) : Event μ τ ε → Prop
  | .locked _ m' => m' = m
  | .unlocked _ m' => m' = m
  | _ => False

/-- `t` is blocked on a mutex that `u` owns. -/
def State.WaitsFor (s : State μ τ β σ ε) (t u : τ) : Prop :=
  ∃ m c, s.code t = .lock m :: c ∧ t ∉ s.waiters ∧ s.owner m = some u

def Action.By (t : τ) : Action τ β ι ε → Prop
  | .step u _ _ => u = t
  | .wake u => u = t
  | .call u _ => u = t
  | .env _ => False

namespace State.Holds

variable {s : State μ τ β σ ε} {t u : τ} {held : List μ} {m : μ}

theorem lock (h : s.Holds t held) (hfree : s.owner m = none) {s' : State μ τ β σ ε}
    (hs' : s'.owner = Function.update s.owner m (some t)) : s'.Holds t (m :: held) := by
  refine ⟨List.nodup_cons.mpr ⟨fun hm => ?_, h.nodup⟩, fun m' => ?_⟩
  · rw [h.mem, hfree] at hm
    cases hm
  · rw [hs', List.mem_cons, h.mem]
    by_cases hm : m' = m
    · simp [hm]
    · simp [hm]

theorem unlock (h : s.Holds t held) {s' : State μ τ β σ ε}
    (hs' : s'.owner = Function.update s.owner m none) : s'.Holds t (held.erase m) := by
  refine ⟨h.nodup.erase m, fun m' => ?_⟩
  rw [hs', h.nodup.mem_erase_iff, h.mem]
  by_cases hm : m' = m
  · simp [hm]
  · simp [hm]

theorem other (h : s.Holds t held) {s' : State μ τ β σ ε} {w : Option τ}
    (hs' : s'.owner = Function.update s.owner m w) (hm : s.owner m ≠ some t) (hw : w ≠ some t) :
    s'.Holds t held := by
  refine ⟨h.nodup, fun m' => ?_⟩
  rw [hs', h.mem]
  by_cases he : m' = m
  · subst he
    simp [hm, hw]
  · rw [Function.update_of_ne he]

theorem same (h : s.Holds t held) {s' : State μ τ β σ ε} (hs' : s'.owner = s.owner) : s'.Holds t held :=
  ⟨h.nodup, fun m => by rw [hs', h.mem]⟩

end State.Holds

namespace Program

variable {P : Program μ τ β ι σ ε} {Γ : Typing μ β} {ok : State μ τ β σ ε → Action τ β ι ε → Prop}
  {s s' : State μ τ β σ ε}

/-- The code of every thread is balanced for the mutexes it owns. -/
def Disciplined (Γ : Typing μ β) (s : State μ τ β σ ε) : Prop :=
  ∀ t, ∃ held, s.Holds t held ∧ Γ.Balanced held (s.code t)

theorem Disciplined.others (h : Disciplined Γ s) {t : τ} {c : Code μ β}
    (hcode : s'.code = Function.update s.code t c)
    (hholds : ∀ u held, u ≠ t → s.Holds u held → s'.Holds u held)
    (hself : ∃ held, s'.Holds t held ∧ Γ.Balanced held c) : Disciplined Γ s' := by
  intro u
  by_cases hu : u = t
  · subst hu
    rw [hcode, Function.update_self]
    exact hself
  · obtain ⟨held, hheld, hbal⟩ := h u
    rw [hcode, Function.update_of_ne hu]
    exact ⟨held, hholds u held hu hheld, hbal⟩

theorem Step.disciplined {a : Action τ β ι ε} (hΓ : Γ.Sound P) (h : Disciplined Γ s)
    (hstep : P.Step s a s') : Disciplined Γ s' := by
  cases hstep with
  | @lock t _ _ m c awake code free =>
    obtain ⟨held, hheld, hbal⟩ := h t
    rw [code, Typing.balanced_lock] at hbal
    refine h.others rfl (fun u held' hu hheld' => ?_) ⟨m :: held, hheld.lock free rfl, hbal.2⟩
    exact hheld'.other rfl (by simp [free]) (by simpa using Ne.symm hu)
  | @unlock t _ _ m c awake code =>
    obtain ⟨held, hheld, hbal⟩ := h t
    rw [code, Typing.balanced_unlock] at hbal
    refine h.others rfl (fun u held' hu hheld' => ?_) ⟨held.erase m, hheld.unlock rfl, hbal.2⟩
    have hm := (hheld.mem m).mp hbal.1
    exact hheld'.other rfl (by simpa [hm] using Ne.symm hu) (by simp)
  | @wait t _ _ m c awake code =>
    obtain ⟨held, hheld, hbal⟩ := h t
    rw [code, Typing.balanced_wait] at hbal
    refine h.others rfl (fun u held' hu hheld' => ?_) ⟨held.erase m, hheld.unlock rfl, hbal.2⟩
    have hm := (hheld.mem m).mp hbal.1
    exact hheld'.other rfl (by simpa [hm] using Ne.symm hu) (by simp)
  | @run t input _ b c o left awake code exec spawn notified =>
    intro u
    by_cases hu : u = t
    · subst hu
      obtain ⟨held, hheld, hbal⟩ := h u
      rw [code, Typing.balanced_run] at hbal
      obtain ⟨rfl, hbal⟩ := hbal
      refine ⟨Γ.needs b, hheld.same rfl, ?_⟩
      rw [State.ran_code_self, Typing.Balanced, Typing.follow_append (hΓ.exec exec)]
      exact hbal
    · obtain ⟨held, hheld, hbal⟩ := h u
      rcases State.ran_code_cases s c o left hu with hsame | ⟨cu, hcu, hnew⟩
      · rw [hsame]
        exact ⟨held, hheld.same rfl, hbal⟩
      · rw [(spawn u cu hcu).1, Typing.balanced_nil] at hbal
        subst hbal
        rw [hnew]
        exact ⟨[], hheld.same rfl, hΓ.spawn exec u cu hcu⟩
  | wake => exact fun u => (h u).imp fun held hheld => ⟨hheld.1.same rfl, hheld.2⟩
  | @call t b idle awake entry =>
    obtain ⟨held, hheld, hbal⟩ := h t
    rw [idle, Typing.balanced_nil] at hbal
    subst hbal
    exact h.others rfl (fun u held' _ hheld' => hheld'.same rfl) ⟨[], hheld.same rfl, hΓ.entry entry⟩
  | env => exact fun u => (h u).imp fun held hheld => ⟨hheld.1.same rfl, hheld.2⟩

theorem Reach.disciplined (hΓ : Γ.Sound P) (h : P.Reach ok s) : Disciplined Γ s := by
  refine h.invariant (fun t => ⟨[], ⟨List.nodup_nil, fun m => ?_⟩, rfl⟩)
    fun s a s' _ _ hs hstep => hstep.disciplined hΓ hs
  simp [Program.init]

section disciplined

variable (h : Disciplined Γ s) {t u : τ} {m m' : μ} {b : β} {c : Code μ β}

include h

theorem Disciplined.owns_iff (hcode : s.code t = .run b :: c) : s.owner m = some t ↔ m ∈ Γ.needs b := by
  obtain ⟨held, hheld, hbal⟩ := h t
  rw [hcode, Typing.balanced_run] at hbal
  rw [← hheld.mem, hbal.1]

theorem Disciplined.rank_lt (hcode : s.code t = .lock m :: c) (howner : s.owner m' = some t) :
    Γ.rank m' < Γ.rank m := by
  obtain ⟨held, hheld, hbal⟩ := h t
  rw [hcode, Typing.balanced_lock] at hbal
  exact hbal.1 m' ((hheld.mem m').mpr howner)

theorem Disciplined.owns_of_unlock (hcode : s.code t = .unlock m :: c) : s.owner m = some t := by
  obtain ⟨held, hheld, hbal⟩ := h t
  rw [hcode, Typing.balanced_unlock] at hbal
  exact (hheld.mem m).mp hbal.1

theorem Disciplined.owns_of_wait (hcode : s.code t = .wait m :: c) : s.owner m = some t := by
  obtain ⟨held, hheld, hbal⟩ := h t
  rw [hcode, Typing.balanced_wait] at hbal
  exact (hheld.mem m).mp hbal.1

theorem Disciplined.owns_nothing (hcode : s.code t = []) : s.owner m ≠ some t := by
  obtain ⟨held, hheld, hbal⟩ := h t
  rw [hcode, Typing.balanced_nil] at hbal
  subst hbal
  exact fun howner => by simpa using (hheld.mem m).mpr howner

/-- No thread waits for itself through a chain of mutexes. -/
theorem Disciplined.acyclic (t : τ) : ¬ Relation.TransGen s.WaitsFor t t := by
  have hrank : ∀ u, Relation.TransGen s.WaitsFor t u →
      ∃ m c m', s.code t = .lock m :: c ∧ s.owner m' = some u ∧ Γ.rank m ≤ Γ.rank m' := by
    intro u hchain
    induction hchain with
    | single hwait =>
      obtain ⟨m, c, hcode, -, howner⟩ := hwait
      exact ⟨m, c, m, hcode, howner, Nat.le_refl _⟩
    | tail _ hwait ih =>
      obtain ⟨m, c, m', hcode, howner, hle⟩ := ih
      obtain ⟨m₂, c₂, hcode₂, -, howner₂⟩ := hwait
      exact ⟨m, c, m₂, hcode, howner₂, Nat.le_trans hle (Nat.le_of_lt (h.rank_lt hcode₂ howner))⟩
  intro hcycle
  obtain ⟨m, c, m', hcode, howner, hle⟩ := hrank t hcycle
  exact absurd (h.rank_lt hcode howner) (Nat.not_lt.mpr hle)

end disciplined

/-- Steps of any threads but `t`. -/
def Others (P : Program μ τ β ι σ ε) (ok : State μ τ β σ ε → Action τ β ι ε → Prop) (t : τ) :
    State μ τ β σ ε → State μ τ β σ ε → Prop :=
  P.Runs fun s a => ok s a ∧ ¬ a.By t

section guarded

variable {γ : Type} {f : σ → γ} {t : τ} {m : μ}

/-- What other threads cannot do while `t` holds `m`: take `m`, run `t`, or change the data `m` guards. -/
theorem Step.guarded {a : Action τ β ι ε} (hdisc : Disciplined Γ s)
    (hguard : ∀ u b i x o, P.exec u b i x = some o → m ∉ Γ.needs b → f o.state = f x)
    (howner : s.owner m = some t) (ha : ¬ a.By t) (hstep : P.Step s a s') :
    s'.owner m = some t ∧ s'.code t = s.code t ∧ f s'.shared = f s.shared := by
  cases hstep with
  | @lock u _ _ m' c awake code free =>
    have hm : m ≠ m' := fun he => by rw [← he, howner] at free; cases free
    exact ⟨by simp only [Function.update_of_ne hm, howner], Function.update_of_ne (Ne.symm ha) .., rfl⟩
  | @unlock u _ _ m' c awake code =>
    have hm : m ≠ m' := fun he => by
      have := hdisc.owns_of_unlock code
      rw [← he, howner] at this
      exact ha (Option.some.inj this).symm
    exact ⟨by simp only [Function.update_of_ne hm, howner], Function.update_of_ne (Ne.symm ha) .., rfl⟩
  | @wait u _ _ m' c awake code =>
    have hm : m ≠ m' := fun he => by
      have := hdisc.owns_of_wait code
      rw [← he, howner] at this
      exact ha (Option.some.inj this).symm
    exact ⟨by simp only [Function.update_of_ne hm, howner], Function.update_of_ne (Ne.symm ha) .., rfl⟩
  | @run u input _ b c o left awake code exec spawn notified =>
    refine ⟨howner, ?_, hguard _ _ _ _ _ exec fun hb => ?_⟩
    · rcases State.ran_code_cases s c o left (Ne.symm ha) with hsame | ⟨cu, hcu, -⟩
      · exact hsame
      · exact absurd howner (hdisc.owns_nothing (spawn t cu hcu).1)
    · rw [← hdisc.owns_iff code, howner] at hb
      exact ha (Option.some.inj hb).symm
  | wake => exact ⟨howner, rfl, rfl⟩
  | @call u b idle awake entry => exact ⟨howner, Function.update_of_ne (Ne.symm ha) .., rfl⟩
  | env => exact ⟨howner, rfl, rfl⟩

end guarded

/-- What a step of other threads records: nothing about the mutexes that `t` holds, and what their blocks did. -/
theorem Step.others_history {a : Action τ β ι ε} (hdisc : Disciplined Γ s) {t : τ} (ha : ¬ a.By t)
    (hstep : P.Step s a s') :
    ∃ new, s'.history = new ++ s.history ∧ ∀ e ∈ new, (∀ m, s.owner m = some t → ¬ e.Touches m) ∧
      ∀ u x, e = .did u x → u ≠ t ∧
        ∃ b c i o, s.code u = .run b :: c ∧ P.exec u b i s.shared = some o ∧ x ∈ o.events := by
  have hone : ∀ {e : Event μ τ ε}, (∀ m, s.owner m = some t → ¬ e.Touches m) → (∀ u x, e ≠ .did u x) →
      ∀ e' ∈ [e], (∀ m, s.owner m = some t → ¬ e'.Touches m) ∧ ∀ u x, e' = .did u x → u ≠ t ∧
        ∃ b c i o, s.code u = .run b :: c ∧ P.exec u b i s.shared = some o ∧ x ∈ o.events := by
    intro e hm hdid e' he'
    obtain rfl := List.mem_singleton.mp he'
    exact ⟨hm, fun u x he => absurd he (hdid u x)⟩
  cases hstep with
  | @lock u _ _ m c awake code free =>
    refine ⟨[.locked u m], rfl, hone (fun m' howner he => ?_) (by simp)⟩
    obtain rfl : m = m' := he
    rw [howner] at free
    cases free
  | @unlock u _ _ m c awake code =>
    refine ⟨[.unlocked u m], rfl, hone (fun m' howner he => ?_) (by simp)⟩
    obtain rfl : m = m' := he
    rw [hdisc.owns_of_unlock code] at howner
    exact ha (Option.some.inj howner)
  | @wait u _ _ m c awake code =>
    refine ⟨[.unlocked u m], rfl, hone (fun m' howner he => ?_) (by simp)⟩
    obtain rfl : m = m' := he
    rw [hdisc.owns_of_wait code] at howner
    exact ha (Option.some.inj howner)
  | @run u input _ b c o left awake code exec spawn notified =>
    refine ⟨o.events.map (.did u), rfl, fun e he => ?_⟩
    obtain ⟨x, hx, rfl⟩ := List.mem_map.mp he
    refine ⟨fun m _ => id, fun v y hy => ?_⟩
    obtain ⟨rfl, rfl⟩ := Event.did.inj hy
    exact ⟨ha, b, c, input, o, code, exec, hx⟩
  | wake => exact ⟨[], rfl, by simp⟩
  | call => exact ⟨[], rfl, by simp⟩
  | @env e => exact ⟨[.env e], rfl, hone (fun _ _ => id) (by simp)⟩

theorem Step.others_code {a : Action τ β ι ε} {t : τ} (ha : ¬ a.By t) (hstep : P.Step s a s') :
    s'.code t = s.code t ∨ ∃ u b i o, P.exec u b i s.shared = some o ∧ o.spawn = some (t, s'.code t) := by
  cases hstep with
  | lock => exact Or.inl (Function.update_of_ne (Ne.symm ha) ..)
  | unlock => exact Or.inl (Function.update_of_ne (Ne.symm ha) ..)
  | wait => exact Or.inl (Function.update_of_ne (Ne.symm ha) ..)
  | @run u input _ b c o left awake code exec spawn notified =>
    rcases State.ran_code_cases s c o left (Ne.symm ha) with hsame | ⟨cu, hcu, hnew⟩
    · exact Or.inl hsame
    · exact Or.inr ⟨u, b, input, o, exec, by rw [hnew, hcu]⟩
  | wake => exact Or.inl rfl
  | call => exact Or.inl (Function.update_of_ne (Ne.symm ha) ..)
  | env => exact Or.inl rfl

theorem Step.others_busy {a : Action τ β ι ε} {t : τ} (ha : ¬ a.By t) (hbusy : s.code t ≠ []) (hstep : P.Step s a s') :
    s'.code t = s.code t := by
  cases hstep with
  | @run u input _ b c o left awake code exec spawn notified =>
    rcases State.ran_code_cases s c o left (Ne.symm ha) with hsame | ⟨cu, hcu, -⟩
    · exact hsame
    · exact absurd (spawn t cu hcu).1 hbusy
  | wake => rfl
  | env => rfl
  | _ => exact Function.update_of_ne (Ne.symm ha) ..

theorem Others.reach {t : τ} (h : P.Reach ok s) (hothers : P.Others ok t s s') : P.Reach ok s' := by
  induction hothers with
  | refl => exact h
  | tail _ hstep ih =>
    obtain ⟨a, ⟨hok, -⟩, hstep⟩ := hstep
    exact .step ih hok hstep

theorem Others.guarded {γ : Type} {f : σ → γ} {t : τ} {m : μ} (hΓ : Γ.Sound P) (h : P.Reach ok s)
    (hguard : ∀ u b i x o, P.exec u b i x = some o → m ∉ Γ.needs b → f o.state = f x)
    (howner : s.owner m = some t) (hothers : P.Others ok t s s') :
    s'.owner m = some t ∧ s'.code t = s.code t ∧ f s'.shared = f s.shared := by
  induction hothers with
  | refl => exact ⟨howner, rfl, rfl⟩
  | tail hprefix hstep ih =>
    obtain ⟨a, ⟨-, ha⟩, hstep⟩ := hstep
    obtain ⟨howner', hcode, hf⟩ := ih
    have hdisc := (Others.reach h hprefix).disciplined hΓ
    obtain ⟨howner'', hcode', hf'⟩ := (step_cases hstep).guarded hdisc hguard howner' ha
    exact ⟨howner'', hcode'.trans hcode, hf'.trans hf⟩

/-! ### Annotations -/

/-- A precondition for every block that needs one: it holds when a thread is about to run the block. Only the block
that comes first in what another block decides to run can have one, and other threads cannot invalidate it
without a mutex the block holds. -/
structure Annotates (P : Program μ τ β ι σ ε) (Γ : Typing μ β) (pre : β → σ → Prop) : Prop where
  entry : ∀ {t b x}, P.entry t b = true → pre b x
  spawn : ∀ {t b i x o}, P.exec t b i x = some o → ∀ u cu, o.spawn = some (u, cu) → ∀ b' y, .run b' ∈ cu → pre b' y
  next : ∀ {t b i x o}, P.exec t b i x = some o → pre b x → ∀ b' c, o.code = .run b' :: c → pre b' o.state
  later : ∀ {t b i x o}, P.exec t b i x = some o → ∀ b' y, .run b' ∈ o.code.tail → pre b' y
  stable : ∀ {t b i x o}, P.exec t b i x = some o → ∀ b', (∀ m ∈ Γ.needs b', m ∉ Γ.needs b) → pre b' x → pre b' o.state

variable {pre : β → σ → Prop}

/-- Every thread satisfies the precondition of the block it is at, and the blocks after that need none. -/
def Annotated (pre : β → σ → Prop) (s : State μ τ β σ ε) : Prop :=
  ∀ t, (∀ b c, s.code t = .run b :: c → pre b s.shared) ∧ ∀ b y, .run b ∈ (s.code t).tail → pre b y

/-- A thread whose next block may as well be any of those after its current instruction. -/
theorem Annotated.advance (h : Annotated pre s) {t : τ} {i : Instr μ β} {c : Code μ β} (hcode : s.code t = i :: c)
    (x : σ) : (∀ b c', c = .run b :: c' → pre b x) ∧ ∀ b y, .run b ∈ c.tail → pre b y := by
  have hlater := (h t).2
  rw [hcode, List.tail_cons] at hlater
  refine ⟨fun b c' hc => hlater b x ?_, fun b y hb => hlater b y (List.mem_of_mem_tail hb)⟩
  rw [hc]
  exact List.mem_cons_self

theorem Annotated.update (h : Annotated pre s) {t : τ} {c : Code μ β} (hshared : s'.shared = s.shared)
    (hcode : s'.code = Function.update s.code t c)
    (hself : (∀ b c', c = .run b :: c' → pre b s.shared) ∧ ∀ b y, .run b ∈ c.tail → pre b y) : Annotated pre s' := by
  intro u
  rw [hcode, hshared]
  by_cases hu : u = t
  · subst hu
    rw [Function.update_self]
    exact hself
  · rw [Function.update_of_ne hu]
    exact h u

theorem Step.annotated {a : Action τ β ι ε} (hpre : Annotates P Γ pre) (hdisc : Disciplined Γ s)
    (h : Annotated pre s) (hstep : P.Step s a s') : Annotated pre s' := by
  cases hstep with
  | lock awake code free => exact h.update rfl rfl (h.advance code _)
  | unlock awake code => exact h.update rfl rfl (h.advance code _)
  | wait awake code => exact h.update rfl rfl (h.advance code _)
  | @run t input _ b c o left awake code exec spawn notified =>
    have hb : pre b s.shared := (h t).1 b c code
    intro u
    by_cases hu : u = t
    · subst hu
      rw [State.ran_code_self]
      obtain ⟨hnext, hlater⟩ := h.advance code o.state
      cases hcode : o.code with
      | nil => exact ⟨hnext, hlater⟩
      | cons i c' =>
        have htail := hpre.later exec
        rw [hcode, List.tail_cons] at htail
        refine ⟨fun b' c'' hb' => ?_, fun b' y hb' => ?_⟩
        · obtain ⟨rfl, -⟩ := List.cons.inj hb'
          exact hpre.next exec hb b' c' hcode
        · rw [List.cons_append, List.tail_cons, List.mem_append] at hb'
          rcases hb' with hb' | hb'
          · exact htail b' y hb'
          · have hmem := (h u).2
            rw [code, List.tail_cons] at hmem
            exact hmem b' y hb'
    · rcases State.ran_code_cases s c o left hu with hsame | ⟨cu, hcu, hnew⟩
      · rw [hsame]
        refine ⟨fun b' c' hb' => hpre.stable exec b' (fun m hm hm' => ?_) ((h u).1 b' c' hb'), (h u).2⟩
        have howner := (hdisc.owns_iff hb').mpr hm
        rw [(hdisc.owns_iff code).mpr hm'] at howner
        exact hu (Option.some.inj howner).symm
      · rw [hnew]
        refine ⟨fun b' c' hb' => hpre.spawn exec u cu hcu b' _ (by rw [hb']; exact List.mem_cons_self),
          fun b' y hb' => hpre.spawn exec u cu hcu b' y (List.mem_of_mem_tail hb')⟩
  | wake => exact h
  | @call t b idle awake entry =>
    refine h.update rfl rfl ⟨fun b' c' hb' => ?_, fun b' y hb' => ?_⟩
    · obtain ⟨hb', -⟩ := List.cons.inj hb'
      rw [← Instr.run.inj hb']
      exact hpre.entry entry
    · cases hb'
  | env => exact h

theorem Reach.annotated (hΓ : Γ.Sound P) (hpre : Annotates P Γ pre) (h : P.Reach ok s) : Annotated pre s := by
  refine h.invariant (fun t => ⟨fun b c hb => ?_, fun b x hb => ?_⟩) fun s a s' hreach _ hs hstep => ?_
  · cases hb
  · cases hb
  · exact hstep.annotated hpre (hreach.disciplined hΓ) hs

end Program

end Monitor
