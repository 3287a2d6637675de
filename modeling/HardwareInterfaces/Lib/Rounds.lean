import Mathlib.Data.List.Count

/-!
# Rounds of calls

Threads make calls in rounds. Whoever starts a round fixes its calls then; it makes them one after the other, before it goes
on with what it was doing, and a call may lead it to start another round, which comes first. So the calls a thread still has
to make are a stack, and a call belongs to the round on top of it. The history of starts and calls, newest first,
determines which calls each round has made and which are pending (`accounted`).
-/

set_option linter.unusedSectionVars false

namespace Rounds

variable {τ ρ κ : Type} [DecidableEq τ] [DecidableEq ρ]

/-- The start of a round, with its calls, or one call. -/
inductive Act (ρ κ : Type)
  | start (r : ρ) (calls : List κ)
  | call (c : κ)

/-- The calls that thread `t` still has to make, with their rounds. -/
def pending (t : τ) : List (τ × Act ρ κ) → List (ρ × κ)
  | [] => []
  | (u, .start r calls) :: log => if u = t then calls.map (r, ·) ++ pending t log else pending t log
  | (u, .call _) :: log => if u = t then (pending t log).tail else pending t log

/-- The calls that were made, newest first, with the rounds they belong to. -/
def made : List (τ × Act ρ κ) → List (ρ × κ)
  | [] => []
  | (_, .start ..) :: log => made log
  | (t, .call c) :: log => ((pending t log).head?.map fun p => (p.1, c)).toList ++ made log

/-- Every call is the one that its thread has to make next. -/
def Orderly : List (τ × Act ρ κ) → Prop
  | [] => True
  | (_, .start ..) :: log => Orderly log
  | (t, .call c) :: log => (∃ r, (pending t log).head? = some (r, c)) ∧ Orderly log

def called : List (τ × Act ρ κ) → List κ
  | [] => []
  | (_, .start ..) :: log => called log
  | (_, .call c) :: log => c :: called log

def starts (r : ρ) : List (τ × Act ρ κ) → List (τ × List κ)
  | [] => []
  | (t, .start r' calls) :: log => if r' = r then (t, calls) :: starts r log else starts r log
  | (_, .call _) :: log => starts r log

def under (r : ρ) (l : List (ρ × κ)) : List κ := l.filterMap fun p => if p.1 = r then some p.2 else none

section under

variable {r r' : ρ} {c : κ} {l : List (ρ × κ)}

@[simp] theorem under_append (l' : List (ρ × κ)) : under r (l ++ l') = under r l ++ under r l' := List.filterMap_append

theorem under_cons_self : under r ((r, c) :: l) = c :: under r l := by simp [under]

theorem under_cons_ne (h : r' ≠ r) : under r ((r', c) :: l) = under r l := by simp [under, h]

theorem under_map_self (calls : List κ) : under r (calls.map (r, ·)) = calls := by
  induction calls with
  | nil => rfl
  | cons c calls ih => rw [List.map_cons, under_cons_self, ih]

theorem under_map_ne (h : r' ≠ r) (calls : List κ) : under r (calls.map (r', ·)) = [] := by
  induction calls with
  | nil => rfl
  | cons c calls ih => rw [List.map_cons, under_cons_ne h, ih]

theorem mem_under : c ∈ under r l ↔ (r, c) ∈ l := by
  simp [under]

theorem under_tail (h : under r l = []) : under r l.tail = [] := by
  cases l with
  | nil => rfl
  | cons p l =>
    rw [List.eq_nil_iff_forall_not_mem] at h ⊢
    exact fun c hc => h c (mem_under.mpr (List.mem_cons_of_mem p (mem_under.mp hc)))

end under

section log

variable {t u : τ} {r r' : ρ} {c : κ} {calls : List κ} {log : List (τ × Act ρ κ)}

theorem pending_start_self : pending t ((t, .start r calls) :: log) = calls.map (r, ·) ++ pending t log := if_pos rfl

theorem pending_start_ne (h : u ≠ t) : pending t ((u, .start r calls) :: log) = pending t log := if_neg h

theorem pending_call_self : pending t ((t, .call c) :: log) = (pending t log).tail := if_pos rfl

theorem pending_call_ne (h : u ≠ t) : pending t ((u, .call c) :: log) = pending t log := if_neg h

theorem starts_cons_self : starts r ((t, .start r calls) :: log) = (t, calls) :: starts r log := if_pos rfl

theorem starts_cons_ne (h : r' ≠ r) : starts r ((t, .start r' calls) :: log) = starts r log := if_neg h

theorem pending_of_unstarted (h : starts r log = []) (t : τ) : under r (pending t log) = [] := by
  induction log with
  | nil => rfl
  | cons e log ih =>
    obtain ⟨u, a⟩ := e
    cases a with
    | start r' calls =>
      have hne : r' ≠ r := by
        rintro rfl
        rw [starts_cons_self] at h
        cases h
      rw [starts_cons_ne hne] at h
      by_cases hu : u = t
      · subst hu
        rw [pending_start_self, under_append, under_map_ne hne, ih h, List.append_nil]
      · rw [pending_start_ne hu, ih h]
    | call c =>
      by_cases hu : u = t
      · subst hu
        rw [pending_call_self, under_tail (ih h)]
      · rw [pending_call_ne hu, ih h]

theorem made_of_unstarted (h : starts r log = []) : under r (made log) = [] := by
  induction log with
  | nil => rfl
  | cons e log ih =>
    obtain ⟨u, a⟩ := e
    cases a with
    | start r' calls =>
      have hne : r' ≠ r := by
        rintro rfl
        rw [starts_cons_self] at h
        cases h
      exact ih (by rwa [starts_cons_ne hne] at h)
    | call c =>
      have hunstarted : starts r log = [] := h
      have hpending := pending_of_unstarted hunstarted u
      rw [made, under_append, ih hunstarted, List.append_nil]
      cases hhead : pending u log with
      | nil => rfl
      | cons p rest =>
        obtain ⟨r', c'⟩ := p
        have hne : r' ≠ r := by
          rintro rfl
          rw [hhead, under_cons_self] at hpending
          cases hpending
        exact under_cons_ne hne

/-- A round that was started once has made, in order, all its calls but those that its thread still has to make. -/
theorem accounted (ho : Orderly log) (h : starts r log = [(t, calls)]) :
    (under r (made log)).reverse ++ under r (pending t log) = calls ∧ ∀ u, u ≠ t → under r (pending u log) = [] := by
  induction log with
  | nil => cases h
  | cons e log ih =>
    obtain ⟨v, a⟩ := e
    cases a with
    | start r' calls' =>
      by_cases hr : r' = r
      · subst hr
        rw [starts_cons_self] at h
        obtain ⟨hfirst, hrest⟩ := List.cons.inj h
        obtain ⟨rfl, rfl⟩ := Prod.mk.inj hfirst
        refine ⟨?_, fun u hu => ?_⟩
        · rw [pending_start_self, under_append, under_map_self, pending_of_unstarted hrest, List.append_nil]
          show (under r' (made log)).reverse ++ calls' = calls'
          rw [made_of_unstarted hrest]
          rfl
        · rw [pending_start_ne (Ne.symm hu), pending_of_unstarted hrest]
      · rw [starts_cons_ne hr] at h
        have hsame : ∀ u, under r (pending u ((v, .start r' calls') :: log)) = under r (pending u log) := by
          intro u
          by_cases hv : v = u
          · subst hv
            rw [pending_start_self, under_append, under_map_ne hr]
            rfl
          · rw [pending_start_ne hv]
        obtain ⟨hself, hothers⟩ := ih ho h
        exact ⟨by rw [hsame]; exact hself, fun u hu => by rw [hsame, hothers u hu]⟩
    | call c =>
      obtain ⟨⟨r', hhead⟩, ho⟩ := ho
      obtain ⟨hself, hothers⟩ := ih ho h
      obtain ⟨rest, hpending⟩ := List.head?_eq_some_iff.mp hhead
      have hmade : made ((v, .call c) :: log) = (r', c) :: made log := by
        rw [made, hhead]
        rfl
      rw [hmade]
      by_cases hr : r' = r
      · subst hr
        -- a call of the round: its thread is the one that started it
        obtain rfl : v = t := by
          by_contra hne
          have hnone := hothers v hne
          rw [hpending, under_cons_self] at hnone
          cases hnone
        refine ⟨?_, fun u hu => by rw [pending_call_ne (Ne.symm hu), hothers u hu]⟩
        rw [hpending, under_cons_self] at hself
        rw [pending_call_self, hpending, List.tail_cons, under_cons_self, List.reverse_cons, List.append_assoc]
        exact hself
      · have hsame : ∀ u, under r (pending u ((v, .call c) :: log)) = under r (pending u log) := by
          intro u
          by_cases hv : v = u
          · subst hv
            rw [pending_call_self, hpending, List.tail_cons, under_cons_ne hr]
          · rw [pending_call_ne hv]
        rw [under_cons_ne hr]
        exact ⟨by rw [hsame]; exact hself, fun u hu => by rw [hsame, hothers u hu]⟩

theorem made_calls (ho : Orderly log) : (made log).map Prod.snd = called log := by
  induction log with
  | nil => rfl
  | cons e log ih =>
    obtain ⟨t, a⟩ := e
    cases a with
    | start r calls' => exact ih ho
    | call c =>
      obtain ⟨⟨r, hhead⟩, ho⟩ := ho
      rw [made, hhead]
      exact congrArg (c :: ·) (ih ho)

theorem mem_pending {p : ρ × κ} (h : p ∈ pending t log) :
    ∃ calls, (t, .start p.1 calls) ∈ log ∧ p.2 ∈ calls := by
  induction log with
  | nil => cases h
  | cons e log ih =>
    obtain ⟨u, a⟩ := e
    have holder : p ∈ pending t log → ∃ calls, (t, .start p.1 calls) ∈ (u, a) :: log ∧ p.2 ∈ calls := fun hp => by
      obtain ⟨calls, hstart, hcall⟩ := ih hp
      exact ⟨calls, List.mem_cons_of_mem _ hstart, hcall⟩
    by_cases hu : u = t
    · subst hu
      cases a with
      | start r calls =>
        rw [pending_start_self, List.mem_append] at h
        rcases h with h | h
        · obtain ⟨c, hc, rfl⟩ := List.mem_map.mp h
          exact ⟨calls, List.mem_cons_self, hc⟩
        · exact holder h
      | call c => exact holder (List.mem_of_mem_tail (by rwa [pending_call_self] at h))
    · cases a with
      | start r calls => exact holder (by rwa [pending_start_ne hu] at h)
      | call c => exact holder (by rwa [pending_call_ne hu] at h)

theorem mem_made (ho : Orderly log) {p : ρ × κ} (h : p ∈ made log) :
    ∃ t calls, (t, .start p.1 calls) ∈ log ∧ p.2 ∈ calls := by
  induction log with
  | nil => cases h
  | cons e log ih =>
    obtain ⟨u, a⟩ := e
    cases a with
    | start r calls =>
      obtain ⟨t, calls', hstart, hcall⟩ := ih ho h
      exact ⟨t, calls', List.mem_cons_of_mem _ hstart, hcall⟩
    | call c =>
      obtain ⟨⟨r, hhead⟩, ho⟩ := ho
      rw [made, hhead] at h
      rcases List.mem_cons.mp h with rfl | h
      · obtain ⟨calls, hstart, hcall⟩ := mem_pending (List.mem_of_mem_head? (Option.mem_def.mpr hhead))
        exact ⟨u, calls, List.mem_cons_of_mem _ hstart, hcall⟩
      · obtain ⟨t, calls', hstart, hcall⟩ := ih ho h
        exact ⟨t, calls', List.mem_cons_of_mem _ hstart, hcall⟩

theorem mem_starts : (t, calls) ∈ starts r log ↔ (t, .start r calls) ∈ log := by
  induction log with
  | nil => simp [starts]
  | cons e log ih =>
    obtain ⟨u, a⟩ := e
    cases a with
    | start r' calls' =>
      by_cases hr : r' = r
      · subst hr
        simp [starts_cons_self, ih]
      · have hne : r ≠ r' := Ne.symm hr
        simp [starts_cons_ne hr, ih, hne]
    | call c => simp [starts, ih]

theorem pending_cons {a : Act ρ κ} (h : under r (pending t log) = []) (ha : ∀ calls, a ≠ .start r calls) :
    under r (pending t ((u, a) :: log)) = [] := by
  by_cases hu : u = t
  · subst hu
    cases a with
    | start r' calls =>
      have hne : r' ≠ r := fun he => ha calls (by rw [he])
      rw [pending_start_self, under_append, under_map_ne hne, h, List.append_nil]
    | call c => rw [pending_call_self, under_tail h]
  · cases a with
    | start r' calls => rw [pending_start_ne hu, h]
    | call c => rw [pending_call_ne hu, h]

/-- The round `r` was started once, and has made all its calls, in their order. -/
def Finished (r : ρ) (log : List (τ × Act ρ κ)) : Prop :=
  ∃ t calls, starts r log = [(t, calls)] ∧ (under r (made log)).reverse = calls

theorem finished_of_pending (ho : Orderly log) (h : starts r log = [(t, calls)]) (hnone : under r (pending t log) = []) :
    Finished r log := by
  have hself := (accounted ho h).1
  rw [hnone, List.append_nil] at hself
  exact ⟨t, calls, h, hself⟩

end log

/-! ### Ends of rounds -/

/-- What a thread has left to do: calls, and ends of rounds. The calls of a round come before its end. -/
inductive Aligned : List (κ ⊕ ρ) → List (ρ × κ) → Prop
  | nil : Aligned [] []
  | call {items : List (κ ⊕ ρ)} {calls : List (ρ × κ)} (r : ρ) (c : κ) (rest : Aligned items calls) :
      Aligned (.inl c :: items) ((r, c) :: calls)
  | finish {items : List (κ ⊕ ρ)} {calls : List (ρ × κ)} (r : ρ) (rest : Aligned items calls)
      (ended : under r calls = []) : Aligned (.inr r :: items) calls

section aligned

variable {items : List (κ ⊕ ρ)} {todo : List (ρ × κ)} {r : ρ} {c : κ}

theorem Aligned.start (h : Aligned items todo) (r : ρ) (calls : List κ) :
    Aligned (calls.map Sum.inl ++ items) (calls.map (r, ·) ++ todo) := by
  induction calls with
  | nil => exact h
  | cons c calls ih => exact .call r c ih

theorem Aligned.ends {new : List (κ ⊕ ρ)} (h : Aligned items todo)
    (hnew : ∀ x ∈ new, ∃ r, x = .inr r ∧ under r todo = []) : Aligned (new ++ items) todo := by
  induction new with
  | nil => exact h
  | cons x new ih =>
    obtain ⟨r, rfl, hover⟩ := hnew x List.mem_cons_self
    exact .finish r (ih fun y hy => hnew y (List.mem_cons_of_mem _ hy)) hover

theorem Aligned.of_call (h : Aligned (.inl c :: items) todo) :
    ∃ r, todo.head? = some (r, c) ∧ Aligned items todo.tail := by
  cases h with
  | call r c rest => exact ⟨r, rfl, rest⟩

theorem Aligned.of_finish (h : Aligned (.inr r :: items) todo) : under r todo = [] ∧ Aligned items todo := by
  cases h with
  | finish r rest ended => exact ⟨ended, rest⟩

end aligned

end Rounds
