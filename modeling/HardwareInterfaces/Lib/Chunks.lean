import Mathlib.Data.List.Basic

/-!
# Reading chunk after chunk

A `ChunkParser` reads one value from the front of its input and says how many symbols it took, at least one. `Reads`
is what a loop of such reads does to an input. Every input can be read as far as it goes (`exists_reads`); and if one
encoded value is read whatever follows it, so is a sequence of them (`reads_flatMap`).
-/

structure ChunkParser (α β : Type) where
  /-- The value at the front of the input and the number of symbols it takes up. -/
  parse : List α → Option (β × Nat)
  consumes : ∀ {s x n}, parse s = some (x, n) → 0 < n ∧ n ≤ s.length

namespace ChunkParser

variable {α β : Type} {p : ChunkParser α β} {s : List α} {xs : List β}

/-- Reading `s` gives the values `xs`, and leaves `rest` for further reads. -/
inductive Reads (p : ChunkParser α β) : List α → List β → List α → Prop
  | done (s : List α) : Reads p s [] s
  | chunk {s rest : List α} {x : β} {n : Nat} {xs : List β} :
      p.parse s = some (x, n) → Reads p (s.drop n) xs rest → Reads p s (x :: xs) rest

theorem length_drop_lt {x : β} {n : Nat} (h : p.parse s = some (x, n)) : (s.drop n).length < s.length := by
  obtain ⟨hpos, hle⟩ := p.consumes h
  rw [List.length_drop]
  omega

theorem parse_nil : p.parse [] = none := by
  cases h : p.parse [] with
  | none => rfl
  | some r =>
    obtain ⟨hpos, hle⟩ := p.consumes h
    rw [List.length_nil] at hle
    omega

/-- Reading comes to an end, at the end of the input or where there is nothing to parse. -/
theorem exists_reads (p : ChunkParser α β) (s : List α) : ∃ xs rest, p.Reads s xs rest ∧ p.parse rest = none := by
  induction hlen : s.length using Nat.strongRecOn generalizing s with
  | ind len ih =>
    cases h : p.parse s with
    | none => exact ⟨[], s, .done s, h⟩
    | some r =>
      obtain ⟨x, n⟩ := r
      obtain ⟨xs, rest, hreads, hrest⟩ := ih _ (hlen ▸ length_drop_lt h) (s.drop n) rfl
      exact ⟨x :: xs, rest, .chunk h hreads, hrest⟩

theorem reads_flatMap {encode : β → List α}
    (h : ∀ x ∈ xs, ∀ rest, p.parse (encode x ++ rest) = some (x, (encode x).length)) (tail : List α) :
    p.Reads (xs.flatMap encode ++ tail) xs tail := by
  induction xs with
  | nil => exact .done tail
  | cons x xs ih =>
    obtain ⟨hx, hxs⟩ := List.forall_mem_cons.mp h
    rw [List.flatMap_cons, List.append_assoc]
    refine .chunk (hx _) ?_
    rw [List.drop_left]
    exact ih hxs

end ChunkParser
