import HardwareInterfaces.Lib.StdString
import Mathlib.Data.List.DropRight
import Mathlib.Data.List.TakeWhile

/-!
# Lines of a text

What the stream loop over `std::getline` and `isspace` trimming do to a text, said without reference to a stream:
the lines are the pieces between newlines, less an empty last one (`splitOn_getlines`), and trimming takes
away exactly the surrounding white space (`trim_append`, `trim_trim`). `nonBlankLines` is what a reader that
trims every line and skips the blank ones gets; it does not see any padding (`nonBlankLines_padded`).
-/

namespace CppStd

def Blank (s : StdString) : Prop := ∀ c ∈ s, isspace c

instance (s : StdString) : Decidable (Blank s) := List.decidableBAll (fun c => isspace c = true) s

structure Tidy (s : StdString) : Prop where
  ne_nil : s ≠ []
  line : newline ∉ s
  trimmed : trim s = s

/-! ### Trimming -/

theorem trim_eq (s : StdString) : trim s = (s.dropWhile isspace).rdropWhile isspace := rfl

theorem mem_of_mem_trim {c : UInt8} {s : StdString} (h : c ∈ trim s) : c ∈ s := by
  rw [trim_eq] at h
  exact List.dropWhile_subset _ ((List.rdropWhile_prefix isspace _).subset h)

theorem trim_eq_nil {s : StdString} : trim s = [] ↔ Blank s := by
  constructor
  · intro h
    rw [trim_eq, List.rdropWhile_eq_nil_iff] at h
    have hnil : s.dropWhile isspace = [] := by
      rw [← List.dropWhile_idempotent, List.dropWhile_eq_nil_iff]
      exact h
    exact List.dropWhile_eq_nil_iff.mp hnil
  · intro h
    rw [trim_eq, List.dropWhile_eq_nil_iff.mpr h, List.rdropWhile_nil]

theorem trim_append {before after : StdString} (hbefore : Blank before) (hafter : Blank after) (s : StdString) :
    trim (before ++ s ++ after) = trim s := by
  have hfront : (before ++ s ++ after).dropWhile isspace = (s ++ after).dropWhile isspace := by
    rw [List.append_assoc, List.dropWhile_append_of_pos hbefore]
  have hback : ∀ c ∈ after.reverse, isspace c := fun c hc => hafter c (List.mem_reverse.mp hc)
  rw [trim, trim, hfront, List.dropWhile_append]
  split
  · rename_i hblank
    rw [List.isEmpty_iff.mp hblank, List.dropWhile_eq_nil_iff.mpr hafter]
  · rw [List.reverse_append, List.dropWhile_append_of_pos hback]

theorem trim_trim (s : StdString) : trim (trim s) = trim s := by
  have hfront : (trim s).dropWhile isspace = trim s := by
    rw [List.dropWhile_eq_self_iff]
    intro hpos
    have hpre : trim s <+: s.dropWhile isspace := List.rdropWhile_prefix isspace _
    have hself : (s.dropWhile isspace).dropWhile isspace = s.dropWhile isspace :=
      List.dropWhile_idempotent _ _
    rw [List.dropWhile_eq_self_iff] at hself
    rw [hpre.getElem hpos]
    exact hself (Nat.lt_of_lt_of_le hpos hpre.length_le)
  rw [trim_eq (trim s), hfront, trim_eq, List.rdropWhile_idempotent]

theorem Tidy.of_trim {s : StdString} (hline : newline ∉ s) (hne : trim s ≠ []) : Tidy (trim s) :=
  ⟨hne, fun h => hline (mem_of_mem_trim h), trim_trim s⟩

/-! ### Lines -/

theorem modifyHead_nil_append (lines : List StdString) : lines.modifyHead ([] ++ ·) = lines := by
  cases lines <;> rfl

theorem splitOn_getlinesFrom (cur s : StdString) :
    (s.splitOn newline).modifyHead (cur ++ ·) = getlinesFrom cur s ∨
      (s.splitOn newline).modifyHead (cur ++ ·) = getlinesFrom cur s ++ [[]] := by
  induction s generalizing cur with
  | nil =>
    by_cases hcur : cur = []
    · simp [getlinesFrom, hcur]
    · simp [getlinesFrom, hcur]
  | cons c s ih =>
    by_cases hc : c = newline
    · have hih := ih []
      rw [modifyHead_nil_append] at hih
      rw [List.splitOn_cons_eq_if_modifyHead, getlinesFrom, if_pos hc, if_pos (beq_iff_eq.mpr hc)]
      simpa using hih
    · rw [List.splitOn_cons_eq_if_modifyHead, getlinesFrom, if_neg hc, if_neg (by simpa using hc),
        List.modifyHead_modifyHead]
      have hcons : ((cur ++ ·) ∘ List.cons c) = ((cur ++ [c]) ++ ·) := by
        funext l
        simp
      rw [hcons]
      exact ih (cur ++ [c])

/-- The lines of a stream are the pieces between newlines, less an empty last one. -/
theorem splitOn_getlines (s : StdString) :
    s.splitOn newline = getlines s ∨ s.splitOn newline = getlines s ++ [[]] := by
  have h := splitOn_getlinesFrom [] s
  rwa [modifyHead_nil_append] at h

theorem newline_notMem_of_mem_splitOn {s line : StdString} (h : line ∈ s.splitOn newline) : newline ∉ line := by
  induction s generalizing line with
  | nil =>
    rw [List.splitOn_nil, List.mem_singleton] at h
    simp [h]
  | cons c s ih =>
    rw [List.splitOn_cons_eq_if_modifyHead] at h
    split at h
    · rcases List.mem_cons.mp h with rfl | h
      · exact List.not_mem_nil
      · exact ih h
    · rename_i hc
      obtain ⟨first, rest, hsplit⟩ := List.exists_cons_of_ne_nil (List.splitOn_ne_nil newline s)
      rw [hsplit, List.modifyHead_cons, List.mem_cons] at h
      rcases h with rfl | h
      · have hfirst := ih (hsplit ▸ List.mem_cons_self)
        simp only [beq_iff_eq] at hc
        rw [List.mem_cons, not_or]
        exact ⟨Ne.symm hc, hfirst⟩
      · exact ih (hsplit ▸ List.mem_cons_of_mem _ h)

def nonBlankLines (s : StdString) : List StdString :=
  ((s.splitOn newline).filter fun line => ¬ Blank line).map trim

/-- Skipping empty lines after trimming is skipping blank ones before it. -/
theorem filter_map_trim (lines : List StdString) :
    (lines.map trim).filter (· ≠ []) = (lines.filter fun line => ¬ Blank line).map trim := by
  rw [List.filter_map]
  congr 1
  refine List.filter_congr fun line _ => ?_
  simp [trim_eq_nil]

/-- The loop over the lines finds the non-blank ones: an empty last piece is blank. -/
theorem getlines_trim (s : StdString) : ((getlines s).map trim).filter (· ≠ []) = nonBlankLines s := by
  rw [filter_map_trim, nonBlankLines]
  rcases splitOn_getlines s with h | h
  · rw [h]
  · have hlast : ([([] : StdString)].filter fun line => ¬ Blank line) = [] := by decide
    rw [h, List.filter_append, hlast, List.append_nil]

theorem tidy_of_mem_nonBlankLines {s line : StdString} (h : line ∈ nonBlankLines s) : Tidy line := by
  obtain ⟨l, hl, rfl⟩ := List.mem_map.mp h
  obtain ⟨hmem, hblank⟩ := List.mem_filter.mp hl
  refine Tidy.of_trim (newline_notMem_of_mem_splitOn hmem) ?_
  rw [Ne, trim_eq_nil]
  exact of_decide_eq_true hblank

theorem nonBlankLines_eq_nil {s : StdString} :
    nonBlankLines s = [] ↔ ∀ line ∈ s.splitOn newline, Blank line := by
  simp [nonBlankLines, List.filter_eq_nil_iff]

/-! ### Padding -/

/-- `lines` are the texts of `items`, in order, with white space around them and blank lines between them. -/
inductive Padded : List StdString → List StdString → Prop
  | nil : Padded [] []
  | blank {items lines : List StdString} (pad : StdString) :
      Blank pad → newline ∉ pad → Padded items lines → Padded items (pad :: lines)
  | item {item : StdString} {items lines : List StdString} (before after : StdString) :
      Blank before → newline ∉ before → Blank after → newline ∉ after → Padded items lines →
      Padded (item :: items) ((before ++ item ++ after) :: lines)

namespace Padded

variable {items lines : List StdString}

theorem lines_ne_nil (h : Padded items lines) (hne : items ≠ []) : lines ≠ [] := by
  induction h with
  | nil => exact absurd rfl hne
  | blank pad hblank hline hrest ih => exact List.cons_ne_nil _ _
  | item before after hbefore hb hafter ha hrest ih => exact List.cons_ne_nil _ _

theorem newline_notMem (h : Padded items lines) (htidy : ∀ s ∈ items, Tidy s) :
    ∀ line ∈ lines, newline ∉ line := by
  induction h with
  | nil => simp
  | blank pad hblank hline hrest ih => exact List.forall_mem_cons.mpr ⟨hline, ih htidy⟩
  | item before after hbefore hb hafter ha hrest ih =>
    obtain ⟨hs, hitems⟩ := List.forall_mem_cons.mp htidy
    refine List.forall_mem_cons.mpr ⟨?_, ih hitems⟩
    simp [hb, ha, hs.line]

theorem filter_trim (h : Padded items lines) (htidy : ∀ s ∈ items, Tidy s) :
    (lines.map trim).filter (· ≠ []) = items := by
  induction h with
  | nil => rfl
  | blank pad hblank hline hrest ih =>
    rw [List.map_cons, trim_eq_nil.mpr hblank, List.filter_cons_of_neg (by simp)]
    exact ih htidy
  | item before after hbefore hb hafter ha hrest ih =>
    obtain ⟨hs, hitems⟩ := List.forall_mem_cons.mp htidy
    rw [List.map_cons, trim_append hbefore hafter, hs.trimmed,
      List.filter_cons_of_pos (by simpa using hs.ne_nil), ih hitems]

end Padded

/-- Writing items one a line, with any padding and with or without a newline at the end, and reading the non-blank
lines gives them back. -/
theorem nonBlankLines_padded {items lines : List StdString} (h : Padded items lines) (hne : items ≠ [])
    (htidy : ∀ s ∈ items, Tidy s) {s : StdString}
    (hs : s = join [newline] lines ∨ s = join [newline] lines ++ [newline]) : nonBlankLines s = items := by
  have hsplit : (join [newline] lines).splitOn newline = lines :=
    List.splitOn_intercalate newline (h.newline_notMem htidy) (h.lines_ne_nil hne)
  have hitems : (lines.filter fun line => ¬ Blank line).map trim = items := by
    rw [← filter_map_trim, h.filter_trim htidy]
  rcases hs with rfl | rfl
  · rw [nonBlankLines, hsplit, hitems]
  · have hlast : ([([] : StdString)].filter fun line => ¬ Blank line) = [] := by decide
    rw [nonBlankLines, List.splitOn_append_cons_self, hsplit, List.splitOn_nil, List.filter_append, hlast,
      List.append_nil, hitems]

end CppStd
