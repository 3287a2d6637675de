import Mathlib.Data.List.Basic

/-!
# Programs that leave a trace

A `Traced` program returns a value, or stops for good, and leaves the list of what it did on the way. `observed` is
what is visible of the trace through a partial map, and `Sends` a property of everything in it; both go over the binds of a
program one after the other.
-/

structure Traced (ε α : Type) where
  sent : List ε
  /-- `none` if the program stopped before its end. -/
  value : Option α

namespace Traced

variable {ε α β γ : Type}

instance : Monad (Traced ε) where
  pure a := { sent := [], value := some a }
  bind x f :=
    match x.value with
    | none => { sent := x.sent, value := none }
    | some a => { sent := x.sent ++ (f a).sent, value := (f a).value }

def send (e : ε) : Traced ε Unit := { sent := [e], value := some () }

def abort : Traced ε α := { sent := [], value := none }

/-- What `f` sees of the trace. -/
def observed (f : ε → Option γ) (x : Traced ε α) : List γ := x.sent.filterMap f

/-- Everything in the trace satisfies `P`. -/
def Sends (P : ε → Prop) (x : Traced ε α) : Prop := ∀ e ∈ x.sent, P e

variable {P : ε → Prop} {f : ε → Option γ} {x : Traced ε α} {g : α → Traced ε β}

@[simp] theorem value_pure (a : α) : (pure a : Traced ε α).value = some a := rfl

@[simp] theorem value_send (e : ε) : (send e).value = some () := rfl

@[simp] theorem value_abort : (abort : Traced ε α).value = none := rfl

@[simp] theorem value_bind (x : Traced ε α) (g : α → Traced ε β) :
    (x >>= g).value = x.value.bind fun a => (g a).value := by
  cases h : x.value <;> simp [bind, h]

theorem sent_bind (x : Traced ε α) (g : α → Traced ε β) :
    (x >>= g).sent = x.sent ++ x.value.elim [] fun a => (g a).sent := by
  cases h : x.value <;> simp [bind, h]

theorem mem_sent_bind {e : ε} (h : e ∈ x.sent) (g : α → Traced ε β) : e ∈ (x >>= g).sent := by
  rw [sent_bind]
  exact List.mem_append_left _ h

theorem sends_pure (a : α) : Sends P (pure a : Traced ε α) := fun _ he => absurd he List.not_mem_nil

theorem sends_abort : Sends P (abort : Traced ε α) := fun _ he => absurd he List.not_mem_nil

theorem sends_send {e : ε} (h : P e) : Sends P (send e) := by
  intro e' he'
  rwa [List.mem_singleton.mp he']

theorem Sends.mono {Q : ε → Prop} (h : Sends P x) (hPQ : ∀ e, P e → Q e) : Sends Q x := fun e he => hPQ e (h e he)

theorem sends_bind (hx : Sends P x) (hg : ∀ a, x.value = some a → Sends P (g a)) : Sends P (x >>= g) := by
  intro e he
  rw [sent_bind] at he
  rcases List.mem_append.mp he with he | he
  · exact hx e he
  · cases h : x.value with
    | none =>
      rw [h] at he
      cases he
    | some a =>
      rw [h] at he
      exact hg a h e he

theorem observed_bind (f : ε → Option γ) (x : Traced ε α) (g : α → Traced ε β) :
    observed f (x >>= g) = observed f x ++ x.value.elim [] fun a => observed f (g a) := by
  cases h : x.value <;> simp [observed, sent_bind, h]

theorem observed_eq_nil (h : Sends (fun e => f e = none) x) : observed f x = [] := List.filterMap_eq_nil_iff.mpr h

theorem observed_of_mem {e : ε} (he : e ∈ x.sent) {c : γ} (hf : f e = some c) : c ∈ observed f x :=
  List.mem_filterMap.mpr ⟨e, he, hf⟩

end Traced
