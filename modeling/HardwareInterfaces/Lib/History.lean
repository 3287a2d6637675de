import Mathlib.Data.List.Basic

/-!
# Past-time properties of histories

A history is the list of the events so far, newest first. `Since p q` says that some event, together with the
history before it, satisfied `q` and every event after it satisfied `p`; `Historically p` says that `p` held
of every event together with the history before it.
-/

namespace History

variable {ε : Type}

def Since (p : ε → Prop) (q : ε → List ε → Prop) : List ε → Prop
  | [] => False
  | e :: h => q e h ∨ (p e ∧ Since p q h)

def Historically (p : ε → List ε → Prop) : List ε → Prop
  | [] => True
  | e :: h => p e h ∧ Historically p h

variable {p p' : ε → Prop} {q q' : ε → List ε → Prop} {h : List ε}

theorem since_iff : Since p q h ↔ ∃ later e earlier, h = later ++ e :: earlier ∧ q e earlier ∧ ∀ x ∈ later, p x := by
  induction h with
  | nil => simp [Since]
  | cons x h ih =>
    rw [Since, ih]
    constructor
    · rintro (hx | ⟨hx, later, e, earlier, rfl, he, hlater⟩)
      · exact ⟨[], x, h, rfl, hx, by simp⟩
      · exact ⟨x :: later, e, earlier, rfl, he, by simpa using ⟨hx, hlater⟩⟩
    · rintro ⟨later, e, earlier, hsplit, he, hlater⟩
      cases later with
      | nil =>
        obtain ⟨rfl, rfl⟩ := List.cons.inj hsplit
        exact Or.inl he
      | cons y later =>
        obtain ⟨rfl, rfl⟩ := List.cons.inj hsplit
        exact Or.inr ⟨hlater _ (by simp), later, e, earlier, rfl, he, fun z hz => hlater z (by simp [hz])⟩

/-- What held since some event held since an event that is newer than one it cannot reach over. -/
theorem Since.newer {later earlier : List ε} {x : ε} (hs : Since p q (later ++ x :: earlier)) (hp : ¬ p x)
    (hq : ¬ q x earlier) :
    ∃ after e before, later = after ++ e :: before ∧ q e (before ++ x :: earlier) ∧ ∀ y ∈ after, p y := by
  induction later with
  | nil => exact (hs.elim hq fun h => hp h.1).elim
  | cons y later ih =>
    rcases hs with hy | ⟨hy, hs⟩
    · exact ⟨[], y, later, rfl, hy, by simp⟩
    · obtain ⟨after, e, before, rfl, he, hafter⟩ := ih hs
      exact ⟨y :: after, e, before, rfl, he, by simpa using ⟨hy, hafter⟩⟩

/-- What held since some event held since the newest one that may have started it, if that cannot be reached over. -/
theorem Since.reaches {later earlier : List ε} {x : ε} (hs : Since p q (later ++ x :: earlier)) (hp : ¬ p x)
    (hlater : ∀ y ∈ later, ∀ before, ¬ q y before) : q x earlier ∧ ∀ y ∈ later, p y := by
  induction later with
  | nil => exact ⟨hs.resolve_right fun h => hp h.1, by simp⟩
  | cons y later ih =>
    obtain ⟨hy, hs⟩ := hs.resolve_left (hlater y List.mem_cons_self _)
    obtain ⟨hx, hrest⟩ := ih hs fun z hz => hlater z (List.mem_cons_of_mem y hz)
    exact ⟨hx, by simpa using ⟨hy, hrest⟩⟩

theorem Since.append {new : List ε} (hs : Since p q h) (hnew : ∀ e ∈ new, p e) : Since p q (new ++ h) := by
  induction new with
  | nil => exact hs
  | cons e new ih => exact Or.inr ⟨hnew e (by simp), ih fun x hx => hnew x (by simp [hx])⟩

theorem Since.mono (hs : Since p q h) (hp : ∀ e, p e → p' e) (hq : ∀ e earlier, q e earlier → q' e earlier) :
    Since p' q' h := by
  induction h with
  | nil => exact hs
  | cons e h ih => exact hs.imp (hq e h) fun hrest => ⟨hp e hrest.1, ih hrest.2⟩

theorem Historically.earlier {p : ε → List ε → Prop} {new : List ε} (hh : Historically p (new ++ h)) :
    Historically p h := by
  induction new with
  | nil => exact hh
  | cons e new ih => exact ih hh.2

theorem Historically.append {p : ε → List ε → Prop} {new : List ε} (hh : Historically p h)
    (hnew : ∀ e ∈ new, ∀ earlier, p e earlier) : Historically p (new ++ h) := by
  induction new with
  | nil => exact hh
  | cons e new ih => exact ⟨hnew e (by simp) _, ih fun x hx => hnew x (by simp [hx])⟩

instance instDecidableHistorically {p : ε → List ε → Prop} [∀ e h, Decidable (p e h)] :
    (h : List ε) → Decidable (Historically p h)
  | [] => .isTrue trivial
  | e :: h => @instDecidableAnd (p e h) (Historically p h) _ (instDecidableHistorically h)

theorem historically_iff {p : ε → List ε → Prop} :
    Historically p h ↔ ∀ later e earlier, h = later ++ e :: earlier → p e earlier := by
  induction h with
  | nil => simp [Historically]
  | cons x h ih =>
    rw [Historically, ih]
    constructor
    · rintro ⟨hx, hh⟩ later e earlier hsplit
      cases later with
      | nil =>
        obtain ⟨rfl, rfl⟩ := List.cons.inj hsplit
        exact hx
      | cons y later => exact hh later e earlier (List.cons.inj hsplit).2
    · intro hall
      exact ⟨hall [] x h rfl, fun later e earlier hsplit => hall (x :: later) e earlier (by rw [hsplit]; rfl)⟩

theorem split_beyond {later earlier newer older : List ε} {x : ε} (hsplit : later ++ x :: earlier = newer ++ older)
    (hx : x ∉ newer) : ∃ between, later = newer ++ between ∧ older = between ++ x :: earlier := by
  rcases List.append_eq_append_iff.mp hsplit with ⟨rest, rfl, hrest⟩ | ⟨between, rfl, holder⟩
  · cases rest with
    | nil => exact ⟨[], by simp, by simpa using hrest.symm⟩
    | cons y rest =>
      obtain ⟨rfl, -⟩ := List.cons.inj hrest
      exact absurd (by simp) hx
  · exact ⟨between, rfl, holder⟩

/-! ### Segments -/

/-- A part of a history that begins with its only marked event, which is the last of the list. -/
def Segment (p : ε → Bool) (l : List ε) : Prop := ∃ later e, l = later ++ [e] ∧ p e = true ∧ ∀ x ∈ later, p x = false

section segments

variable {p : ε → Bool} {segments : List (List ε)} {later earlier : List ε} {e : ε}

theorem first_marked {l l' r r' : List ε} {x y : ε} (h : l ++ x :: r = l' ++ y :: r') (hx : p x = true) (hy : p y = true)
    (hl : ∀ z ∈ l, p z = false) (hl' : ∀ z ∈ l', p z = false) : l = l' ∧ x = y ∧ r = r' := by
  induction l generalizing l' with
  | nil =>
    cases l' with
    | nil => exact ⟨rfl, List.cons.inj h⟩
    | cons z l' =>
      obtain ⟨rfl, -⟩ := List.cons.inj h
      exact absurd hx (by simp [hl' x List.mem_cons_self])
  | cons z l ih =>
    cases l' with
    | nil =>
      obtain ⟨rfl, -⟩ := List.cons.inj h
      exact absurd hy (by simp [hl z List.mem_cons_self])
    | cons w l' =>
      obtain ⟨rfl, htail⟩ := List.cons.inj h
      obtain ⟨rfl, hrest⟩ := ih htail (fun v hv => hl v (List.mem_cons_of_mem z hv))
        fun v hv => hl' v (List.mem_cons_of_mem z hv)
      exact ⟨rfl, hrest⟩

theorem newest_segment (hsegments : ∀ l ∈ segments, Segment p l) (h : segments.flatten = later ++ e :: earlier)
    (he : p e = true) (hlater : ∀ x ∈ later, p x = false) :
    ∃ rest, segments = (later ++ [e]) :: rest ∧ earlier = rest.flatten := by
  cases segments with
  | nil => simp at h
  | cons l rest =>
    obtain ⟨newer, x, rfl, hx, hnewer⟩ := hsegments l List.mem_cons_self
    rw [List.flatten_cons, List.append_assoc, List.singleton_append] at h
    obtain ⟨rfl, rfl, rfl⟩ := first_marked h hx he hnewer hlater
    exact ⟨rest, rfl, rfl⟩

theorem older_segments (hsegments : ∀ l ∈ segments, Segment p l) (h : segments.flatten = later ++ e :: earlier)
    (he : p e = true) : ∃ rest, rest <:+ segments.tail ∧ earlier = rest.flatten := by
  induction segments generalizing later with
  | nil => simp at h
  | cons l rest ih =>
    by_cases hlater : ∀ x ∈ later, p x = false
    · obtain ⟨rest', hsame, hearlier⟩ := newest_segment hsegments h he hlater
      obtain ⟨-, rfl⟩ := List.cons.inj hsame
      exact ⟨rest, List.suffix_refl rest, hearlier⟩
    · -- the first segment ends with the newest marked event, before which `e` is to be found
      push Not at hlater
      obtain ⟨x, hx, hmarked⟩ := hlater
      have hmarked : p x = true := by simpa using hmarked
      obtain ⟨newer, y, older, rfl, hy, hnewer⟩ : ∃ newer y older, later = newer ++ y :: older ∧ p y = true ∧
          ∀ z ∈ newer, p z = false := by
        obtain ⟨y, newer, older, hnewer, hy, rfl, -⟩ := List.exists_of_eraseP hx hmarked
        exact ⟨newer, y, older, rfl, hy, fun z hz => by simpa using hnewer z hz⟩
      rw [List.append_assoc, List.cons_append] at h
      obtain ⟨rest', hsame, hearlier⟩ := newest_segment hsegments h hy hnewer
      obtain ⟨-, rfl⟩ := List.cons.inj hsame
      obtain ⟨rest', hsuffix, hfound⟩ := ih (fun l hl => hsegments l (List.mem_cons_of_mem _ hl)) hearlier.symm
      exact ⟨rest', hsuffix.trans (List.tail_suffix rest), hfound⟩

/-- Of two marked events with none in between, in a history made of segments, the older one begins a segment that ends
before the newer one. -/
theorem between_marked {between : List ε} {e' : ε} (hsegments : ∀ l ∈ segments, Segment p l)
    (h : segments.flatten = later ++ e' :: (between ++ e :: earlier)) (he' : p e' = true) (he : p e = true)
    (hbetween : ∀ x ∈ between, p x = false) : between ++ [e] ∈ segments.tail := by
  obtain ⟨rest, hsuffix, hrest⟩ := older_segments hsegments h he'
  have hrest' : ∀ l ∈ rest, Segment p l := fun l hl => hsegments l (List.mem_of_mem_tail (hsuffix.mem hl))
  obtain ⟨older, rfl, -⟩ := newest_segment hrest' hrest.symm he hbetween
  exact hsuffix.mem List.mem_cons_self

end segments

end History
