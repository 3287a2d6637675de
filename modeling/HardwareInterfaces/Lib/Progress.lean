import HardwareInterfaces.Lib.LockOrder

/-!
# Progress

Which threads can take a step, and what it means that the mutexes do not get in the way: whoever owns a mutex can go on,
or waits for a mutex of a higher rank, so that there is a thread at the end of each chain of waiting threads that does
not wait for a mutex. That it can go on then has to be shown of the blocks that run with a mutex, and of the waits on the
condition variable that a thread starts while it owns another mutex.
-/

namespace Monitor

variable {μ τ β ι σ ε : Type} [DecidableEq μ] [DecidableEq τ]

namespace Program

def CanStep (P : Program μ τ β ι σ ε) (s : State μ τ β σ ε) (t : τ) : Prop :=
  ∀ input, ∃ pick s', P.step s (.step t input pick) = some s'

section steps

variable {P : Program μ τ β ι σ ε} {s : State μ τ β σ ε} {t : τ} {m : μ} {b : β} {c : Code μ β}

theorem canStep_lock (awake : t ∉ s.waiters) (code : s.code t = .lock m :: c) (free : s.owner m = none) :
    P.CanStep s t :=
  fun _ => ⟨none, by simp [step, awake, code, free]⟩

theorem canStep_unlock (awake : t ∉ s.waiters) (code : s.code t = .unlock m :: c) : P.CanStep s t :=
  fun _ => ⟨none, by simp [step, awake, code]⟩

theorem canStep_wait (awake : t ∉ s.waiters) (code : s.code t = .wait m :: c) : P.CanStep s t :=
  fun _ => ⟨none, by simp [step, awake, code]⟩

/-- A block that has an outcome can run: there is always a thread for `notify_one` to pick, or nobody waits. -/
theorem canStep_run (awake : t ∉ s.waiters) (code : s.code t = .run b :: c)
    (exec : ∀ input, ∃ o, P.exec t b input s.shared = some o ∧
      ∀ u cu, o.spawn = some (u, cu) → s.code u = [] ∧ u ∉ s.waiters) : P.CanStep s t := by
  intro input
  obtain ⟨o, exec, spawn⟩ := exec input
  obtain ⟨pick, left, hleft⟩ : ∃ pick left, o.notify.left pick s.waiters = some left := by
    cases hnotify : o.notify with
    | nobody => exact ⟨none, s.waiters, rfl⟩
    | all => exact ⟨none, [], rfl⟩
    | one =>
      cases hwaiters : s.waiters with
      | nil => exact ⟨none, [], rfl⟩
      | cons u waiters => exact ⟨some u, _, if_pos List.mem_cons_self⟩
  have hspawn : s.canSpawn o = true := by
    unfold State.canSpawn
    split
    · rfl
    · rename_i u cu hu
      simpa using spawn u cu hu
  exact ⟨pick, s.ran t c o left, by simp [step, awake, code, exec, hspawn, hleft]⟩

end steps

variable {Γ : Typing μ β} {s : State μ τ β σ ε}

/-- Whoever owns a mutex waits, through a chain of mutexes, for an owner that does not wait for a mutex. -/
theorem Disciplined.chain_ends (h : Disciplined Γ s) {bound : Nat} (hbound : ∀ m, Γ.rank m < bound) {m : μ} {u : τ}
    (howner : s.owner m = some u) :
    ∃ v m', Relation.ReflTransGen s.WaitsFor u v ∧ s.owner m' = some v ∧ ∀ w, ¬ s.WaitsFor v w := by
  by_cases hwaits : ∃ v, s.WaitsFor u v
  · obtain ⟨v, m', c, hcode, hawake, howner'⟩ := hwaits
    have hrank : Γ.rank m < Γ.rank m' := h.rank_lt hcode howner
    obtain ⟨w, m'', hchain, hw, hends⟩ := h.chain_ends hbound howner'
    exact ⟨w, m'', .head ⟨m', c, hcode, hawake, howner'⟩ hchain, hw, hends⟩
  · exact ⟨u, m, .refl, howner, fun v hv => hwaits ⟨v, hv⟩⟩
termination_by bound - Γ.rank m
decreasing_by
  have := hbound m'
  omega

end Program

end Monitor
