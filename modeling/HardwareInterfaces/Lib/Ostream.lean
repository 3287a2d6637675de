import HardwareInterfaces.Lib.StdString
import Mathlib.Data.List.Induction
import Mathlib.Data.Nat.Digits.Defs

/-!
# Text for people

Numbers and padded columns as an `std::ostream` writes them, and what such a text still tells. A number is read back by
`strtol` (`strtol_toDecimal`). Columns between separators can be told apart from the right, if the separator has a byte
that no column but the first one has (`columns_inj`), and lines if no line has a newline (`unlines_inj`).
-/

namespace CppStd

/-! ### Numbers -/

def digit (d : Nat) : UInt8 := UInt8.ofNat (48 + d)

def natDecimal (n : Nat) : StdString := if n = 0 then [digit 0] else (Nat.digits 10 n).reverse.map digit

/-- `std::to_string`, and `<<` on a number. -/
def toDecimal (v : Int) : StdString := if v < 0 then 45 :: natDecimal v.natAbs else natDecimal v.natAbs

theorem isdigit_digit {d : Nat} (h : d < 10) : isdigit (digit d) = true := by
  revert d
  decide

theorem digit_value {d : Nat} (h : d < 10) : (digit d).toNat - 48 = d := by
  revert d
  decide

theorem decimal_map_digit {ds : List Nat} (h : ∀ d ∈ ds, d < 10) :
    decimal (ds.reverse.map digit) = Nat.ofDigits 10 ds := by
  induction ds with
  | nil => rfl
  | cons d ds ih =>
    obtain ⟨hd, hds⟩ := List.forall_mem_cons.mp h
    rw [Nat.ofDigits_cons, ← ih hds]
    simp only [decimal, List.reverse_cons, List.map_append, List.map_singleton, List.foldl_append, List.foldl_cons,
      List.foldl_nil, digit_value hd]
    omega

theorem decimal_natDecimal (n : Nat) : decimal (natDecimal n) = n := by
  unfold natDecimal
  split
  · rename_i hzero
    rw [hzero]
    decide
  · rw [decimal_map_digit fun d hd => Nat.digits_lt_base (by omega) hd, Nat.ofDigits_digits]

theorem natDecimal_ne_nil (n : Nat) : natDecimal n ≠ [] := by
  unfold natDecimal
  split
  · exact List.cons_ne_nil _ _
  · rename_i hne
    simpa [Nat.digits_eq_nil_iff_eq_zero] using hne

theorem isdigit_of_mem_natDecimal {n : Nat} {c : UInt8} (h : c ∈ natDecimal n) : isdigit c = true := by
  unfold natDecimal at h
  split at h
  · rw [List.mem_singleton.mp h]
    decide
  · obtain ⟨d, hd, rfl⟩ := List.mem_map.mp h
    exact isdigit_digit (Nat.digits_lt_base (by omega) (List.mem_reverse.mp hd))

theorem mem_toDecimal {v : Int} {c : UInt8} (h : c ∈ toDecimal v) : c = 45 ∨ isdigit c = true := by
  unfold toDecimal at h
  split at h
  · rcases List.mem_cons.mp h with rfl | h
    · exact Or.inl rfl
    · exact Or.inr (isdigit_of_mem_natDecimal h)
  · exact Or.inr (isdigit_of_mem_natDecimal h)

theorem isspace_of_isdigit {c : UInt8} (h : isdigit c = true) : isspace c = false := by
  simp only [isdigit, Bool.and_eq_true, decide_eq_true_eq, UInt8.le_iff_toNat_le, UInt8.reduceToNat] at h
  simp only [isspace, Bool.or_eq_false_iff, Bool.and_eq_false_iff, decide_eq_false_iff_not, UInt8.le_iff_toNat_le,
    ← UInt8.toNat_inj, UInt8.reduceToNat]
  omega

theorem takeSign_natDecimal (n : Nat) : takeSign (natDecimal n) = (false, natDecimal n) := by
  obtain ⟨c, s, hs⟩ := List.exists_cons_of_ne_nil (natDecimal_ne_nil n)
  have hdigit : isdigit c = true := isdigit_of_mem_natDecimal (hs ▸ List.mem_cons_self)
  rw [hs, takeSign, if_neg, if_neg]
  · rintro rfl
    exact absurd hdigit (by decide)
  · rintro rfl
    exact absurd hdigit (by decide)

theorem strtol_toDecimal (v : Int) : strtol (toDecimal v) = some (v, []) := by
  have hall : ∀ c ∈ natDecimal v.natAbs, isdigit c = true := fun c => isdigit_of_mem_natDecimal
  have htake : (natDecimal v.natAbs).takeWhile isdigit = natDecimal v.natAbs := List.takeWhile_eq_self_iff.mpr hall
  have hdrop : (natDecimal v.natAbs).dropWhile isdigit = [] := List.dropWhile_eq_nil_iff.mpr hall
  unfold toDecimal
  split
  · rename_i hneg
    rw [strtol, List.dropWhile_cons_of_neg (by decide), takeSign, if_pos rfl]
    dsimp only
    rw [htake, hdrop, if_neg (natDecimal_ne_nil _), decimal_natDecimal, if_pos rfl]
    congr 2
    omega
  · rename_i hnonneg
    have hfront : (natDecimal v.natAbs).dropWhile isspace = natDecimal v.natAbs := by
      obtain ⟨c, s, hs⟩ := List.exists_cons_of_ne_nil (natDecimal_ne_nil v.natAbs)
      rw [hs, List.dropWhile_cons_of_neg]
      rw [isspace_of_isdigit (hall c (hs ▸ List.mem_cons_self))]
      exact Bool.false_ne_true
    rw [strtol, hfront, takeSign_natDecimal]
    dsimp only
    rw [htake, hdrop, if_neg (natDecimal_ne_nil _), decimal_natDecimal, if_neg Bool.false_ne_true]
    congr 2
    omega

theorem toDecimal_injective : Function.Injective toDecimal := by
  intro v v' h
  have hread := strtol_toDecimal v
  rw [h, strtol_toDecimal] at hread
  exact (congrArg Prod.fst (Option.some.inj hread)).symm

/-! ### Columns -/

/-- `std::left << std::setw(w)`. -/
def setwLeft (w : Nat) (s : StdString) : StdString := s.rightpad w 32

/-- `std::right << std::setw(w)`. -/
def setwRight (w : Nat) (s : StdString) : StdString := s.leftpad w 32

section lists

variable {α : Type}

theorem append_cons_inj_of_last {a a' b b' : List α} {mark : α} (hb : mark ∉ b) (hb' : mark ∉ b')
    (h : a ++ mark :: b = a' ++ mark :: b') : a = a' ∧ b = b' := by
  rcases List.append_eq_append_iff.mp h with ⟨c, rfl, hc⟩ | ⟨c, rfl, hc⟩
  · cases c with
    | nil => exact ⟨(List.append_nil a).symm, (List.cons.inj hc).2⟩
    | cons x c =>
      refine absurd ?_ hb
      rw [(List.cons.inj hc).2]
      exact List.mem_append_right c List.mem_cons_self
  · cases c with
    | nil => exact ⟨List.append_nil a', (List.cons.inj hc).2.symm⟩
    | cons x c =>
      refine absurd ?_ hb'
      rw [(List.cons.inj hc).2]
      exact List.mem_append_right c List.mem_cons_self

/-- Columns with a separator in front of each but the first one. -/
def columns (sep first : List α) (rest : List (List α)) : List α := first ++ rest.flatMap fun column => sep ++ column

@[simp] theorem columns_nil (sep first : List α) : columns sep first [] = first := List.append_nil first

theorem columns_cons (sep first column : List α) (rest : List (List α)) :
    columns sep first (column :: rest) = columns sep (first ++ sep ++ column) rest := by
  simp [columns]

theorem append_columns (front sep first : List α) (rest : List (List α)) :
    front ++ columns sep first rest = columns sep (front ++ first) rest := by
  simp [columns]

theorem columns_concat (before after first : List α) (mark : α) (rest : List (List α)) (last : List α) :
    columns (before ++ mark :: after) first (rest ++ [last]) =
      (columns (before ++ mark :: after) first rest ++ before) ++ mark :: (after ++ last) := by
  simp [columns]

/-- The columns of a text, if the separator ends in a mark, up to `after`, that is in no column but the first. -/
theorem columns_inj {before after first first' : List α} {mark : α} {rest rest' : List (List α)}
    (hafter : mark ∉ after) (hlength : rest.length = rest'.length) (hrest : ∀ column ∈ rest, mark ∉ column)
    (hrest' : ∀ column ∈ rest', mark ∉ column)
    (h : columns (before ++ mark :: after) first rest = columns (before ++ mark :: after) first' rest') :
    first = first' ∧ rest = rest' := by
  induction rest using List.reverseRecOn generalizing rest' with
  | nil =>
    obtain rfl := List.length_eq_zero_iff.mp hlength.symm
    simpa [columns] using h
  | append_singleton rest last ih =>
    rcases List.eq_nil_or_concat rest' with rfl | ⟨front, last', rfl⟩
    · simp at hlength
    · rw [List.concat_eq_append] at hlength hrest' h ⊢
      rw [columns_concat, columns_concat] at h
      have hmark : ∀ {column : List α}, mark ∉ column → mark ∉ after ++ column := by
        intro column hcolumn hmem
        exact (List.mem_append.mp hmem).elim hafter hcolumn
      obtain ⟨hfront, hlast⟩ := append_cons_inj_of_last
        (hmark (hrest last (by simp))) (hmark (hrest' last' (by simp))) h
      obtain ⟨hfirst, hcolumns⟩ := ih (by simpa using hlength) (fun c hc => hrest c (List.mem_append_left _ hc))
        (fun c hc => hrest' c (List.mem_append_left _ hc)) (List.append_cancel_right hfront)
      exact ⟨hfirst, by rw [hcolumns, List.append_cancel_left hlast]⟩

theorem append_cons_inj_of_first {a a' b b' : List α} {mark : α} (ha : mark ∉ a) (ha' : mark ∉ a')
    (h : a ++ mark :: b = a' ++ mark :: b') : a = a' ∧ b = b' := by
  rcases List.append_eq_append_iff.mp h with ⟨c, rfl, hc⟩ | ⟨c, rfl, hc⟩
  · cases c with
    | nil => exact ⟨(List.append_nil a).symm, (List.cons.inj hc).2⟩
    | cons x c =>
      refine absurd (List.mem_append_right a ?_) ha'
      rw [(List.cons.inj hc).1]
      exact List.mem_cons_self
  · cases c with
    | nil => exact ⟨List.append_nil a', (List.cons.inj hc).2.symm⟩
    | cons x c =>
      refine absurd (List.mem_append_right a' ?_) ha
      rw [(List.cons.inj hc).1]
      exact List.mem_cons_self

def unlines (newline : α) (lines : List (List α)) : List α := lines.flatMap fun line => line ++ [newline]

theorem unlines_inj {newline : α} {lines lines' : List (List α)} (h : ∀ line ∈ lines, newline ∉ line)
    (h' : ∀ line ∈ lines', newline ∉ line) (heq : unlines newline lines = unlines newline lines') : lines = lines' := by
  induction lines generalizing lines' with
  | nil =>
    cases lines' with
    | nil => rfl
    | cons line' lines' => simp [unlines] at heq
  | cons line lines ih =>
    obtain ⟨hline, hlines⟩ := List.forall_mem_cons.mp h
    cases lines' with
    | nil => simp [unlines] at heq
    | cons line' lines' =>
      obtain ⟨hline', hlines'⟩ := List.forall_mem_cons.mp h'
      simp only [unlines, List.flatMap_cons, List.append_assoc, List.singleton_append] at heq
      obtain ⟨hfirst, hrest⟩ := append_cons_inj_of_first hline hline' heq
      rw [hfirst, ih hlines hlines' hrest]

/-- Lines that each start with a fixed label: what comes behind the labels. -/
theorem unlines_labelled_inj {newline : α} {labels values values' : List (List α)} (hlength : values.length = labels.length)
    (hlength' : values'.length = labels.length) (h : ∀ value ∈ values, newline ∉ value)
    (h' : ∀ value ∈ values', newline ∉ value)
    (heq : unlines newline (List.zipWith (· ++ ·) labels values) = unlines newline (List.zipWith (· ++ ·) labels values')) :
    values = values' := by
  induction labels generalizing values values' with
  | nil => rw [List.length_eq_zero_iff.mp hlength, List.length_eq_zero_iff.mp hlength']
  | cons label labels ih =>
    obtain ⟨value, values, rfl⟩ := List.exists_cons_of_length_eq_add_one hlength
    obtain ⟨value', values', rfl⟩ := List.exists_cons_of_length_eq_add_one hlength'
    obtain ⟨hvalue, hvalues⟩ := List.forall_mem_cons.mp h
    obtain ⟨hvalue', hvalues'⟩ := List.forall_mem_cons.mp h'
    simp only [List.zipWith_cons_cons, unlines, List.flatMap_cons, List.append_assoc, List.singleton_append] at heq
    obtain ⟨hfirst, hrest⟩ := append_cons_inj_of_first hvalue hvalue' (List.append_cancel_left heq)
    rw [hfirst, ih (by simpa using hlength) (by simpa using hlength') hvalues hvalues' hrest]

theorem mem_unlines_labelled {newline c : α} {labels values : List (List α)}
    (h : c ∈ unlines newline (List.zipWith (· ++ ·) labels values)) :
    c = newline ∨ (∃ label ∈ labels, c ∈ label) ∨ ∃ value ∈ values, c ∈ value := by
  obtain ⟨line, hline, hc⟩ := List.mem_flatMap.mp h
  rcases List.mem_append.mp hc with hc | hc
  · rw [← List.map_uncurry_zip_eq_zipWith] at hline
    obtain ⟨⟨label, value⟩, hzip, rfl⟩ := List.mem_map.mp hline
    obtain ⟨hlabel, hvalue⟩ := List.of_mem_zip hzip
    rcases List.mem_append.mp hc with hc | hc
    · exact Or.inr (Or.inl ⟨label, hlabel, hc⟩)
    · exact Or.inr (Or.inr ⟨value, hvalue, hc⟩)
  · exact Or.inl (List.mem_singleton.mp hc)

end lists

/-- What is aligned to the right can be read back unless it starts with a blank itself. -/
theorem setwRight_inj {w : Nat} {s s' : StdString} (h : s.head? ≠ some 32) (h' : s'.head? ≠ some 32)
    (heq : setwRight w s = setwRight w s') : s = s' := by
  have hread : ∀ {s : StdString}, s.head? ≠ some 32 → (setwRight w s).dropWhile (· = 32) = s := by
    intro s hs
    rw [setwRight, List.leftpad, List.dropWhile_append_of_pos (by simp)]
    cases s with
    | nil => rfl
    | cons c s => exact List.dropWhile_cons_of_neg (by simpa using hs)
  rw [← hread h, heq, hread h']

theorem mem_setwRight {w : Nat} {s : StdString} {c : UInt8} (h : c ∈ setwRight w s) : c = 32 ∨ c ∈ s := by
  rcases List.mem_append.mp h with h | h
  · exact Or.inl (List.eq_of_mem_replicate h)
  · exact Or.inr h

theorem mem_setwLeft {w : Nat} {s : StdString} {c : UInt8} (h : c ∈ setwLeft w s) : c = 32 ∨ c ∈ s := by
  rcases List.mem_append.mp h with h | h
  · exact Or.inr h
  · exact Or.inl (List.eq_of_mem_replicate h)

end CppStd
