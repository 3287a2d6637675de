import HardwareInterfaces.Lib.Lines

/-!
# Wakeup reasons

The reasons the kernel gives for the last resume, one per line of a file. Reading them inverts writing them, however
the lines are padded; a text with nothing in it counts as one unknown reason.
-/

namespace HardwareInterfaces.Suspend

open CppStd

def kUnknownWakeup : StdString := str "unknown"

def kErrorWakeup : StdString := str "error"

/-- The trimmed non-blank lines of the file, `content` being `none` if reading it failed. -/
def readWakeupReasons (content : Option StdString) : List StdString :=
  match content with
  | none => [kErrorWakeup]
  | some reasonlines =>
    if reasonlines = [] then [kUnknownWakeup]
    else
      let wakeupReasons := ((getlines reasonlines).map trim).filter (· ≠ [])
      if wakeupReasons = [] then [kUnknownWakeup] else wakeupReasons

theorem readWakeupReasons_ne_nil (content : Option StdString) : readWakeupReasons content ≠ [] := by
  unfold readWakeupReasons
  cases content with
  | none => simp
  | some reasonlines =>
    dsimp only
    split
    · simp
    · split
      · simp
      · assumption

theorem tidy_kUnknownWakeup : Tidy kUnknownWakeup := ⟨by decide, by decide, by decide⟩

/-- A file that could be read: its non-blank lines, or the unknown reason. The test for an empty file changes nothing. -/
theorem readWakeupReasons_some (content : StdString) :
    readWakeupReasons (some content) =
      if nonBlankLines content = [] then [kUnknownWakeup] else nonBlankLines content := by
  rw [readWakeupReasons]
  dsimp only
  rw [getlines_trim]
  split
  · rename_i hempty
    subst hempty
    rw [if_pos (by decide)]
  · rfl

theorem tidy_of_mem_readWakeupReasons {content reason : StdString}
    (h : reason ∈ readWakeupReasons (some content)) : Tidy reason := by
  rw [readWakeupReasons_some] at h
  split at h
  · rw [List.mem_singleton.mp h]
    exact tidy_kUnknownWakeup
  · exact tidy_of_mem_nonBlankLines h

/-- Parsing the file: what comes out for every content, and that it inverts writing for every padding. -/
theorem readWakeupReasons_inverts :
    (∀ content : StdString,
      readWakeupReasons (some content) ≠ [] ∧
      (∀ reason ∈ readWakeupReasons (some content), reason ≠ [] ∧ newline ∉ reason ∧ trim reason = reason) ∧
      ((∃ line ∈ content.splitOn newline, ¬ Blank line) →
        readWakeupReasons (some content) =
          ((content.splitOn newline).filter fun line => ¬ Blank line).map trim) ∧
      ((∀ line ∈ content.splitOn newline, Blank line) → readWakeupReasons (some content) = [str "unknown"])) ∧
    (∀ reasons : List StdString, reasons ≠ [] →
      (∀ reason ∈ reasons, reason ≠ [] ∧ newline ∉ reason ∧ trim reason = reason) →
      ∀ lines : List StdString, Padded reasons lines →
        readWakeupReasons (some (join [newline] lines)) = reasons ∧
        readWakeupReasons (some (join [newline] lines ++ [newline])) = reasons) := by
  refine ⟨fun content => ⟨readWakeupReasons_ne_nil _, fun reason hreason => ?_, ?_, ?_⟩, ?_⟩
  · have htidy := tidy_of_mem_readWakeupReasons hreason
    exact ⟨htidy.ne_nil, htidy.line, htidy.trimmed⟩
  · rintro ⟨line, hline, hblank⟩
    have hne : nonBlankLines content ≠ [] := fun hnil => hblank (nonBlankLines_eq_nil.mp hnil line hline)
    rw [readWakeupReasons_some, if_neg hne, nonBlankLines]
  · intro hblank
    rw [readWakeupReasons_some, if_pos (nonBlankLines_eq_nil.mpr hblank), kUnknownWakeup]
  · intro reasons hne hreasons lines hpadded
    have htidy : ∀ reason ∈ reasons, Tidy reason := by
      intro reason hreason
      obtain ⟨hnil, hline, htrim⟩ := hreasons reason hreason
      exact ⟨hnil, hline, htrim⟩
    have hread : ∀ content, nonBlankLines content = reasons → readWakeupReasons (some content) = reasons := by
      intro content hcontent
      rw [readWakeupReasons_some, hcontent, if_neg hne]
    exact ⟨hread _ (nonBlankLines_padded hpadded hne htidy (Or.inl rfl)),
      hread _ (nonBlankLines_padded hpadded hne htidy (Or.inr rfl))⟩

end HardwareInterfaces.Suspend
