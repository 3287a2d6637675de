import Mathlib.Data.List.AList
import Mathlib.Data.List.Nodup

/-!
# Linked lists with iterators, and hash tables of iterators

A doubly linked list whose nodes keep their identity: an iterator is the identity of a node, it stays
valid until that node is erased, and using it afterwards is undefined (`none`). On top of it the usual
pair of a list and a table that maps the key of every element to the node holding it (`Store`), with the
invariant that makes such a pair one keyed list (`Store.Agrees`): the rules below let a client reason
about `Store.values` alone.
-/

namespace CppStd

/-- A position in a linked list: the identity of a node. -/
abbrev Iter := Nat

/-- A linked list: its nodes from front to back and the identity the next node will get. -/
structure StdList (α : Type) where
  nodes : List (Iter × α)
  fresh : Iter
  deriving DecidableEq

namespace StdList

variable {α : Type}

def empty : StdList α := ⟨[], 0⟩

def values (l : StdList α) : List α := l.nodes.map Prod.snd

def size (l : StdList α) : Nat := l.nodes.length

/-- `push_front`, with the value of `begin()` afterwards. -/
def pushFront (x : α) (l : StdList α) : StdList α × Iter :=
  (⟨(l.fresh, x) :: l.nodes, l.fresh + 1⟩, l.fresh)

def deref (l : StdList α) (it : Iter) : Option α :=
  (l.nodes.find? fun n => n.1 = it).map Prod.snd

/-- `erase(it)`. -/
def erase (l : StdList α) (it : Iter) : Option (StdList α) :=
  if it ∈ l.nodes.map Prod.fst then some { l with nodes := l.nodes.filter fun n => n.1 ≠ it }
  else none

/-- `std::prev(end())`. -/
def prevEnd (l : StdList α) : Option Iter := l.nodes.getLast?.map Prod.fst

def mapValues (f : α → α) (l : StdList α) : StdList α :=
  { l with nodes := l.nodes.map fun n => (n.1, f n.2) }

end StdList

structure Store (κ α : Type) [DecidableEq κ] where
  list : StdList α
  table : AList fun _ : κ => Iter

namespace Store

variable {κ α : Type} [DecidableEq κ]

def empty : Store κ α := ⟨.empty, ∅⟩

def values (s : Store κ α) : List α := s.list.values

def insert (key : α → κ) (x : α) (s : Store κ α) : Store κ α :=
  let (l, it) := s.list.pushFront x
  ⟨l, s.table.insert (key x) it⟩

def erase (key : α → κ) (it : Iter) (s : Store κ α) : Option (Store κ α) := do
  let x ← s.list.deref it
  let l ← s.list.erase it
  some ⟨l, s.table.erase (key x)⟩

def mapValues (f : α → α) (s : Store κ α) : Store κ α := { s with list := s.list.mapValues f }

/-- Every key occurs once, and the table maps exactly the keys of the list to their nodes. -/
structure Agrees (key : α → κ) (s : Store κ α) : Prop where
  ids : (s.list.nodes.map Prod.fst).Nodup
  fresh : ∀ n ∈ s.list.nodes, n.1 < s.list.fresh
  keys : (s.values.map key).Nodup
  table : ∀ k it, s.table.lookup k = some it ↔ ∃ x, (it, x) ∈ s.list.nodes ∧ key x = k

variable {key : α → κ} {s : Store κ α}

theorem agrees_empty : Agrees key (empty : Store κ α) := by
  refine ⟨List.nodup_nil, fun n hn => ?_, List.nodup_nil, fun k it => ?_⟩
  · simp [empty, StdList.empty] at hn
  · simp [empty, StdList.empty, AList.lookup_empty]

theorem mem_values {x : α} : x ∈ s.values ↔ ∃ it, (it, x) ∈ s.list.nodes := by
  simp only [values, StdList.values, List.mem_map]
  constructor
  · rintro ⟨⟨it, y⟩, hmem, rfl⟩
    exact ⟨it, hmem⟩
  · rintro ⟨it, hmem⟩
    exact ⟨(it, x), hmem, rfl⟩

namespace Agrees

theorem eq_of_key (h : Agrees key s) {x y : α} (hx : x ∈ s.values) (hy : y ∈ s.values)
    (he : key x = key y) : x = y :=
  List.inj_on_of_nodup_map h.keys hx hy he

theorem node_unique (h : Agrees key s) {it : Iter} {x y : α} (hx : (it, x) ∈ s.list.nodes)
    (hy : (it, y) ∈ s.list.nodes) : x = y :=
  congrArg Prod.snd (List.inj_on_of_nodup_map h.ids hx hy rfl)

theorem deref_eq (h : Agrees key s) {it : Iter} {x : α} (hx : (it, x) ∈ s.list.nodes) :
    s.list.deref it = some x := by
  unfold StdList.deref
  cases hfind : s.list.nodes.find? (fun n => n.1 = it) with
  | none =>
    have := List.find?_eq_none.mp hfind (it, x) hx
    simp at this
  | some n =>
    obtain ⟨it', y⟩ := n
    have hmem := List.mem_of_find?_eq_some hfind
    have hid : it' = it := by simpa using List.find?_some hfind
    subst hid
    rw [Option.map_some, h.node_unique hmem hx]

theorem lookup_none (h : Agrees key s) (k : κ) :
    s.table.lookup k = none ↔ k ∉ s.values.map key := by
  constructor
  · intro hnone hmem
    obtain ⟨x, hx, rfl⟩ := List.mem_map.mp hmem
    obtain ⟨it, hit⟩ := mem_values.mp hx
    rw [(h.table (key x) it).mpr ⟨x, hit, rfl⟩] at hnone
    cases hnone
  · intro hmem
    cases hl : s.table.lookup k with
    | none => rfl
    | some it =>
      obtain ⟨x, hx, hk⟩ := (h.table k it).mp hl
      exact absurd (List.mem_map.mpr ⟨x, mem_values.mpr ⟨it, hx⟩, hk⟩) hmem

theorem mem_table (h : Agrees key s) (k : κ) : k ∈ s.table ↔ k ∈ s.values.map key := by
  rw [← not_iff_not, ← AList.lookup_eq_none, h.lookup_none]

/-- What a successful lookup gives: a valid iterator to the element with that key. -/
theorem lookup_some (h : Agrees key s) {k : κ} {it : Iter} (hl : s.table.lookup k = some it) :
    ∃ x, (it, x) ∈ s.list.nodes ∧ key x = k ∧ s.list.deref it = some x := by
  obtain ⟨x, hx, hk⟩ := (h.table k it).mp hl
  exact ⟨x, hx, hk, h.deref_eq hx⟩

theorem insert (h : Agrees key s) {x : α} (hx : key x ∉ s.values.map key) :
    Agrees key (s.insert key x) := by
  have hnew : ∀ n ∈ s.list.nodes, n.1 ≠ s.list.fresh := fun n hn => Nat.ne_of_lt (h.fresh n hn)
  refine ⟨?_, ?_, ?_, ?_⟩
  · refine List.nodup_cons.mpr ⟨?_, h.ids⟩
    rintro hmem
    obtain ⟨n, hn, he⟩ := List.mem_map.mp hmem
    exact hnew n hn he
  · intro n hn
    rcases List.mem_cons.mp hn with rfl | hn
    · exact Nat.lt_succ_self _
    · exact Nat.lt_succ_of_lt (h.fresh n hn)
  · exact List.nodup_cons.mpr ⟨hx, h.keys⟩
  · intro k it
    by_cases hk : k = key x
    · subst hk
      simp only [Store.insert, StdList.pushFront, AList.lookup_insert, List.mem_cons, Option.some.injEq]
      constructor
      · rintro rfl
        exact ⟨x, Or.inl rfl, rfl⟩
      · rintro ⟨y, he | hy, hkey⟩
        · exact (Prod.mk.inj he).1.symm
        · exact absurd (List.mem_map.mpr ⟨y, mem_values.mpr ⟨it, hy⟩, hkey⟩) hx
    · simp only [Store.insert, StdList.pushFront, AList.lookup_insert_ne hk, List.mem_cons, h.table]
      constructor
      · rintro ⟨y, hy, hkey⟩
        exact ⟨y, Or.inr hy, hkey⟩
      · rintro ⟨y, he | hy, hkey⟩
        · obtain ⟨-, rfl⟩ := Prod.mk.inj he
          exact absurd hkey.symm hk
        · exact ⟨y, hy, hkey⟩

theorem erase (h : Agrees key s) {it : Iter} {x : α} (hx : (it, x) ∈ s.list.nodes) :
    ∃ s', s.erase key it = some s' ∧ Agrees key s' ∧
      s'.values = s.values.filter fun y => key y ≠ key x := by
  have hid : it ∈ s.list.nodes.map Prod.fst := List.mem_map.mpr ⟨(it, x), hx, rfl⟩
  have hnode : ∀ n ∈ s.list.nodes, n.1 ≠ it ↔ key n.2 ≠ key x := by
    rintro ⟨it', y⟩ hn
    rw [not_iff_not]
    constructor
    · rintro rfl
      rw [h.node_unique hn hx]
    · intro hk
      have hy := h.eq_of_key (mem_values.mpr ⟨it', hn⟩) (mem_values.mpr ⟨it, hx⟩) hk
      subst hy
      have h1 := (h.table (key y) it').mpr ⟨y, hn, rfl⟩
      have h2 := (h.table (key y) it).mpr ⟨y, hx, rfl⟩
      rw [h1] at h2
      exact Option.some.inj h2
  have hvalues : ((s.list.nodes.filter fun n => n.1 ≠ it).map Prod.snd) =
      s.values.filter fun y => key y ≠ key x := by
    rw [values, StdList.values, List.filter_map]
    congr 1
    refine List.filter_congr fun n hn => ?_
    simp only [Function.comp_apply, decide_eq_decide]
    exact hnode n hn
  refine ⟨⟨{ s.list with nodes := s.list.nodes.filter fun n => n.1 ≠ it }, s.table.erase (key x)⟩,
    ?_, ⟨?_, ?_, ?_, ?_⟩, hvalues⟩
  · simp only [Store.erase, h.deref_eq hx, StdList.erase, if_pos hid, Option.bind_eq_bind, Option.bind_some]
  · exact (List.Sublist.map _ List.filter_sublist).nodup h.ids
  · exact fun n hn => h.fresh n (List.mem_filter.mp hn).1
  · change (List.map key (List.map Prod.snd (s.list.nodes.filter fun n => n.1 ≠ it))).Nodup
    rw [hvalues]
    exact (List.Sublist.map _ List.filter_sublist).nodup h.keys
  · intro k it'
    by_cases hk : k = key x
    · subst hk
      simp only [AList.lookup_erase, List.mem_filter, decide_eq_true_eq, reduceCtorEq, false_iff]
      rintro ⟨y, ⟨hy, hne⟩, hkey⟩
      exact (hnode _ hy).mp hne hkey
    · simp only [AList.lookup_erase_ne hk, h.table, List.mem_filter, decide_eq_true_eq]
      constructor
      · rintro ⟨y, hy, hkey⟩
        refine ⟨y, ⟨hy, (hnode _ hy).mpr ?_⟩, hkey⟩
        rw [hkey]
        exact hk
      · rintro ⟨y, ⟨hy, _⟩, hkey⟩
        exact ⟨y, hy, hkey⟩

theorem mapValues (h : Agrees key s) {f : α → α} (hf : ∀ x, key (f x) = key x) :
    Agrees key (s.mapValues f) := by
  have hids : (s.mapValues f).list.nodes.map Prod.fst = s.list.nodes.map Prod.fst := by
    simp [Store.mapValues, StdList.mapValues, Function.comp_def]
  refine ⟨?_, ?_, ?_, ?_⟩
  · rw [hids]
    exact h.ids
  · intro n hn
    obtain ⟨n', hn', rfl⟩ := List.mem_map.mp hn
    exact h.fresh n' hn'
  · have hkeys : (s.mapValues f).values.map key = s.values.map key := by
      simp [Store.mapValues, StdList.mapValues, values, StdList.values, Function.comp_def, hf]
    rw [hkeys]
    exact h.keys
  · intro k it
    rw [show (s.mapValues f).table = s.table from rfl, h.table]
    constructor
    · rintro ⟨x, hx, hk⟩
      exact ⟨f x, List.mem_map.mpr ⟨(it, x), hx, rfl⟩, (hf x).trans hk⟩
    · rintro ⟨y, hy, hk⟩
      obtain ⟨⟨it', x⟩, hx, he⟩ := List.mem_map.mp hy
      obtain ⟨rfl, rfl⟩ := Prod.mk.inj he
      exact ⟨x, hx, (hf x).symm.trans hk⟩

theorem prevEnd (h : Agrees key s) (hne : s.values ≠ []) :
    ∃ it x, s.list.prevEnd = some it ∧ (it, x) ∈ s.list.nodes ∧
      (s.values.filter fun y => key y ≠ key x) = s.values.dropLast := by
  have hnodes : s.list.nodes ≠ [] := fun he => hne (by simp [values, StdList.values, he])
  obtain ⟨front, ⟨it, x⟩, hsplit⟩ := (List.eq_nil_or_concat' s.list.nodes).resolve_left hnodes
  have hvalues : s.values = front.map Prod.snd ++ [x] := by simp [values, StdList.values, hsplit]
  refine ⟨it, x, by simp [StdList.prevEnd, hsplit], by simp [hsplit], ?_⟩
  have hkeys := h.keys
  rw [hvalues, List.map_append, List.nodup_append] at hkeys
  rw [hvalues, List.filter_append, List.dropLast_concat]
  have hlast : ([x].filter fun y => key y ≠ key x) = [] := by simp
  rw [hlast, List.append_nil, List.filter_eq_self]
  intro y hy
  exact decide_eq_true (hkeys.2.2 (key y) (List.mem_map.mpr ⟨y, hy, rfl⟩) (key x) (by simp))

end Agrees

@[simp] theorem values_mapValues (f : α → α) : (s.mapValues f).values = s.values.map f := by
  simp [mapValues, StdList.mapValues, values, StdList.values, Function.comp_def]

theorem size_list (s : Store κ α) : s.list.size = s.values.length := by
  simp [StdList.size, values, StdList.values]

end Store

end CppStd
