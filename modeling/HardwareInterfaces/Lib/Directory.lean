import HardwareInterfaces.Lib.StdString
import Mathlib.Data.List.AList

/-!
# Directories of small files

A directory as a program sees it that lists it and reads every file: the names in the order in which `readdir`
gives them, none of them twice, with what is found there. A loop that lets each file decide one part of its
result computes that part from its own file alone (`get_foldl`), so that no other file and no listing order can
matter. The same for loops that stop at the first failure (`foldlM_eq_ok`, `foldlM_error`).

A program does not read a directory at once: other programs run between the turns of its loop, and between the listing of
a file and its reading (`ReadsAlong`). If they leave the directory alone, that makes no difference (`ReadsAlong.at_once`).
-/

namespace CppStd

abbrev Directory (α : Type) := AList fun _ : StdString => α

inductive File
  | failsOpen
  | failsRead
  | content (text : StdString)
  deriving DecidableEq

def File.text : File → Option StdString
  | content text => some text
  | _ => none

theorem File.eq_content {file : File} {text : StdString} (h : file.text = some text) : file = content text := by
  cases file with
  | content t => rw [Option.some.inj h]
  | failsOpen => cases h
  | failsRead => cases h

def Directory.text (dir : Directory File) (name : StdString) : Option StdString := (dir.lookup name).bind File.text

/-- `erase(remove(begin(), end(), '\n'), end())`. -/
def withoutNewlines (s : StdString) : StdString := s.filter (· ≠ newline)

def Directory.SameFiles {α : Type} (dir dir' : Directory α) : Prop := dir.entries.Perm dir'.entries

variable {α σ φ ε : Type}

theorem Directory.SameFiles.lookup {dir dir' : Directory α} (h : dir.SameFiles dir') (name : StdString) :
    dir.lookup name = dir'.lookup name :=
  AList.perm_lookup h

theorem Directory.SameFiles.text {dir dir' : Directory File} (h : dir.SameFiles dir') (name : StdString) :
    dir.text name = dir'.text name := by
  rw [Directory.text, Directory.text, h.lookup]

theorem Directory.exists_first {dir : Directory α} {name : StdString} {a : α} (h : dir.lookup name = some a) :
    ∃ (dir' : Directory α) (rest : List (Sigma fun _ : StdString => α)),
      dir'.SameFiles dir ∧ dir'.entries = ⟨name, a⟩ :: rest := by
  have hmem : (⟨name, a⟩ : Sigma fun _ : StdString => α) ∈ dir.entries := AList.mem_lookup_iff.mp h
  obtain ⟨before, after, hsplit⟩ := List.append_of_mem hmem
  have hperm : dir.entries.Perm (⟨name, a⟩ :: (before ++ after)) := by
    rw [hsplit]
    exact List.perm_middle
  refine ⟨⟨⟨name, a⟩ :: (before ++ after), ?_⟩, before ++ after, hperm.symm, rfl⟩
  exact (List.perm_nodupKeys hperm).mp dir.nodupKeys

/-- A part of the result that only the file `name` may change, to a value `val` computes from that file. -/
theorem get_foldl (get : σ → φ) (name : StdString) (val : α → Option φ) {step : σ → (Sigma fun _ : StdString => α) → σ}
    (hstep : ∀ s e, get (step s e) = if e.1 = name then (val e.2).getD (get s) else get s)
    (dir : Directory α) (init : σ) :
    get (dir.entries.foldl step init) = ((dir.lookup name).bind val).getD (get init) := by
  obtain ⟨l, hl⟩ := dir
  show get (l.foldl step init) = ((l.dlookup name).bind val).getD (get init)
  have hkept : ∀ (l : List (Sigma fun _ : StdString => α)) (s : σ), name ∉ l.keys →
      get (l.foldl step s) = get s := by
    intro l
    induction l with
    | nil => exact fun s _ => rfl
    | cons e l ih =>
      intro s hname
      rw [List.keys_cons, List.mem_cons, not_or] at hname
      rw [List.foldl_cons, ih _ hname.2, hstep, if_neg (Ne.symm hname.1)]
  induction l generalizing init with
  | nil => rfl
  | cons e l ih =>
    obtain ⟨key, a⟩ := e
    obtain ⟨hkey, hnodup⟩ := List.nodupKeys_cons.mp hl
    rw [List.foldl_cons]
    by_cases hname : key = name
    · subst hname
      rw [hkept l _ hkey, hstep, if_pos rfl, List.dlookup_cons_eq, Option.bind_some]
    · rw [ih _ hnodup, hstep, if_neg hname, List.dlookup_cons_ne _ _ (Ne.symm hname)]

/-- An assignment to the field a file is named after, if there is one, changes no other field. -/
theorem get_assign {ι : Type} [DecidableEq ι] {file : ι → StdString} {get : ι → σ → φ} {set : ι → φ → σ → σ}
    {assign : StdString → φ → σ → σ} (hfile : Function.Injective file)
    (hset : ∀ i j v s, get j (set i v s) = if i = j then v else get j s)
    (hself : ∀ i v s, assign (file i) v s = set i v s)
    (hother : ∀ name v s, (∀ i, name ≠ file i) → assign name v s = s) (name : StdString) (v : φ) (s : σ) (j : ι) :
    get j (assign name v s) = if name = file j then v else get j s := by
  by_cases h : ∃ i, name = file i
  · obtain ⟨i, rfl⟩ := h
    rw [hself, hset]
    simp only [hfile.eq_iff]
  · have hnone : ∀ i, name ≠ file i := fun i hi => h ⟨i, hi⟩
    rw [hother name v s hnone, if_neg (hnone j)]

theorem get_foldl_const (get : σ → φ) {step : σ → (Sigma fun _ : StdString => α) → σ}
    (hstep : ∀ s e, get (step s e) = get s) (l : List (Sigma fun _ : StdString => α)) (init : σ) :
    get (l.foldl step init) = get init := by
  induction l generalizing init with
  | nil => rfl
  | cons e l ih => rw [List.foldl_cons, ih, hstep]

theorem foldlM_eq_ok {κ : Type} {stepM : σ → κ → Except ε σ} {step : σ → κ → σ} {l : List κ}
    (h : ∀ e ∈ l, ∀ s, stepM s e = .ok (step s e)) (init : σ) : l.foldlM stepM init = .ok (l.foldl step init) := by
  induction l generalizing init with
  | nil => rfl
  | cons e l ih =>
    rw [List.foldlM_cons, h e List.mem_cons_self init]
    exact ih (fun e' he' => h e' (List.mem_cons_of_mem _ he')) (step init e)

theorem foldlM_error {κ : Type} {stepM : σ → κ → Except ε σ} {l : List κ} {init : σ} {x : ε}
    (h : l.foldlM stepM init = .error x) : ∃ e ∈ l, ∃ s, stepM s e = .error x := by
  induction l generalizing init with
  | nil => cases h
  | cons e l ih =>
    rw [List.foldlM_cons] at h
    cases hstep : stepM init e with
    | error y =>
      rw [hstep] at h
      have hxy : Except.error (α := σ) y = .error x := h
      exact ⟨e, List.mem_cons_self, init, by rw [hstep, hxy]⟩
    | ok s =>
      rw [hstep] at h
      obtain ⟨e', he', hs⟩ := ih h
      exact ⟨e', List.mem_cons_of_mem _ he', hs⟩

/-! ### Reading while others run -/

section along

variable {ω : Type} {files : ω → Directory α} {missing : α} {after : ω → ω → Prop}
  {turn : σ → (Sigma fun _ : StdString => α) → Except ε σ}

variable (files missing after turn) in
/-- A loop over a directory from the position `i` of its listing on: `readdir` gives the file there and `turn` takes
what is found under its name, each some time later. A name that is gone by then counts as `missing`. -/
inductive ReadsAlong : ω → Nat → σ → Except ε σ → Prop
  | ended {w w' : ω} {i : Nat} {s : σ} (later : after w w') (none : (files w').entries[i]? = none) :
      ReadsAlong w i s (.ok s)
  | failed {w w' w'' : ω} {i : Nat} {s : σ} {e : Sigma fun _ : StdString => α} {x : ε} (listed : after w w')
      (entry : (files w').entries[i]? = some e) (opened : after w' w'')
      (turn : turn s ⟨e.1, ((files w'').lookup e.1).getD missing⟩ = .error x) : ReadsAlong w i s (.error x)
  | turned {w w' w'' : ω} {i : Nat} {s s' : σ} {e : Sigma fun _ : StdString => α} {r : Except ε σ} (listed : after w w')
      (entry : (files w').entries[i]? = some e) (opened : after w' w'')
      (turn : turn s ⟨e.1, ((files w'').lookup e.1).getD missing⟩ = .ok s') (rest : ReadsAlong w'' (i + 1) s' r) :
      ReadsAlong w i s r

theorem entries_drop {dir : Directory α} {i : Nat} {e : Sigma fun _ : StdString => α} (h : dir.entries[i]? = some e) :
    dir.entries.drop i = ⟨e.1, (dir.lookup e.1).getD missing⟩ :: dir.entries.drop (i + 1) := by
  obtain ⟨hlt, rfl⟩ := List.getElem?_eq_some_iff.mp h
  have hlookup : dir.lookup dir.entries[i].1 = some dir.entries[i].2 := AList.mem_lookup_iff.mpr (List.getElem_mem hlt)
  rw [List.drop_eq_getElem_cons hlt, hlookup]
  rfl

theorem ReadsAlong.from_position {w₀ w : ω} {i : Nat} {s : σ} {r : Except ε σ}
    (htrans : ∀ a b c, after a b → after b c → after a c) (hsame : ∀ w', after w₀ w' → files w' = files w₀)
    (hw : after w₀ w) (h : ReadsAlong files missing after turn w i s r) : r = ((files w₀).entries.drop i).foldlM turn s := by
  induction h with
  | @ended w w' i s later none =>
    rw [hsame w' (htrans _ _ _ hw later), List.getElem?_eq_none_iff] at none
    rw [List.drop_eq_nil_of_le none]
    rfl
  | @failed w w' w'' i s e x listed entry opened turn =>
    have hw' := htrans _ _ _ hw listed
    rw [hsame w' hw'] at entry
    rw [hsame w'' (htrans _ _ _ hw' opened)] at turn
    rw [entries_drop entry, List.foldlM_cons, turn]
    rfl
  | @turned w w' w'' i s s' e r listed entry opened turn rest ih =>
    have hw' := htrans _ _ _ hw listed
    have hw'' := htrans _ _ _ hw' opened
    rw [hsame w' hw'] at entry
    rw [hsame w'' hw''] at turn
    rw [entries_drop entry, List.foldlM_cons, turn]
    exact ih hw''

/-- A directory that nobody changes meanwhile is read as if at once. -/
theorem ReadsAlong.at_once {w : ω} {s : σ} {r : Except ε σ} (hrefl : after w w)
    (htrans : ∀ a b c, after a b → after b c → after a c) (hsame : ∀ w', after w w' → files w' = files w)
    (h : ReadsAlong files missing after turn w 0 s r) : r = (files w).entries.foldlM turn s := by
  have hread := h.from_position htrans hsame hrefl
  rwa [List.drop_zero] at hread

end along

end CppStd
