import Mathlib.Data.Finset.Basic
import HardwareInterfaces.Suspend.Accounting

/-!
# The two ways of blocking suspend

With `mUseSuspendCounter` the service counts the wake locks that are held; without it, it writes their names to
`/sys/power/wake_lock` and `/sys/power/wake_unlock`, and the kernel keeps the set of names. The names of simultaneously
held locks may be equal, and then the first release takes the name out of the set although another lock still
needs it: the two ways agree as long as some lock that is held has not lost its name that way.
-/

namespace HardwareInterfaces.Suspend.BlockingModes

open CppStd

inductive Use
  | acquire (frontEnd : FrontEnd) (name : StdString)
  | release (wl : Nat)
  deriving DecidableEq

/-- What the kernel does with a successful write. -/
def kernel (e : Ev) (active : Finset StdString) : Finset StdString :=
  match e with
  | .wroteWakeLock name true => insert name active
  | .wroteWakeUnlock name true => active.erase name
  | _ => active

/-- The service, and the active names of the kernel. -/
structure System where
  shared : Shared
  active : Finset StdString

variable (cfg : Config)

namespace System

variable (s : System)

def ran (o : Out) : System where
  shared := o.state
  active := o.events.foldr kernel s.active

def acquire (frontEnd : FrontEnd) (name : StdString) : System :=
  s.ran (Service.incSuspendCounter cfg {} (Service.construct (.client 0) {} s.shared frontEnd name false)
    (.wakeLock s.shared.wakeLocks.length))

/-- The part of `releaseOnce` that unblocks suspend, if this is the first release. -/
def release (wl : Nat) : System :=
  if s.shared.wakeLocks[wl]?.any fun w => w.mReleased = .idle then
    let called := s.shared.onLock wl fun w => { w with mReleased := .running (.client 0) .counter }
    let s := s.ran (Service.decSuspendCounter cfg {} called (.wakeLock wl))
    { s with shared := s.shared.onLock wl (WakeLock.pastOnce (.client 0) false) }
  else s

def next : Use → System
  | .acquire frontEnd name => s.acquire cfg frontEnd name
  | .release wl => s.release cfg wl

end System

def run (uses : List Use) : System := uses.foldl (System.next cfg) ⟨.start cfg, ∅⟩

def blockedByNames (uses : List Use) : Prop := (run { cfg with useSuspendCounter := false } uses).active.Nonempty

def blockedByCounter (uses : List Use) : Prop :=
  0 < (run { cfg with useSuspendCounter := true } uses).shared.mSuspendCounter

/-! ### When they agree -/

/-- A wake lock of a sequence of uses: whether it is held, and whether no lock of its name has been released since it
was acquired. -/
structure Lock where
  name : StdString
  held : Bool := true
  undisturbed : Bool := true
  deriving DecidableEq

def Lock.dropped (l : Lock) : Lock := { l with held := false }

def Lock.afterRelease (name : StdString) (l : Lock) : Lock := if l.name = name then { l with undisturbed := false } else l

def nextLocks (locks : List Lock) : Use → List Lock
  | .acquire _ name => locks ++ [{ name }]
  | .release wl =>
    match locks[wl]? with
    | some l => if l.held then (locks.modify wl Lock.dropped).map (Lock.afterRelease l.name) else locks
    | none => locks

def locksAfter (uses : List Use) : List Lock := uses.foldl nextLocks []

/-- The counter does not overflow, and if a lock is held then so is one that no release of its name followed. -/
def Distinguishable (uses : List Use) : Prop :=
  (locksAfter uses).countP Lock.held < Service.counterModulus ∧
    ((∃ l ∈ locksAfter uses, l.held) → ∃ l ∈ locksAfter uses, l.held ∧ l.undisturbed)

/-! ### The objects of the service -/

/-- What the uses say of a wake lock object: its name, and whether it is held. -/
def seen (w : WakeLock) : StdString × Bool := (w.mName, w.mReleased = .idle)

def Sees (s : System) (locks : List Lock) : Prop :=
  s.shared.wakeLocks.map seen = locks.map fun l => (l.name, l.held)

section step

variable {cfg : Config} {s : System} {locks : List Lock}

theorem acquire_eq (frontEnd : FrontEnd) (name : StdString) :
    (s.acquire cfg frontEnd name).shared.wakeLocks = s.shared.wakeLocks ++
        [{ frontEnd, mName := name, mPid := 0, acquirer := .client 0, isLocal := false, acquisition := .counted }] ∧
      (cfg.useSuspendCounter = true →
        (s.acquire cfg frontEnd name).shared.mSuspendCounter = Service.incremented s.shared.mSuspendCounter) ∧
      (cfg.useSuspendCounter = false → (s.acquire cfg frontEnd name).active = insert name s.active) := by
  let new : WakeLock := { frontEnd, mName := name, mPid := 0, acquirer := .client 0, isLocal := false }
  have hnew : (s.shared.wakeLocks ++ [new])[s.shared.wakeLocks.length]? = some new := List.getElem?_concat_length
  have hmodify : (s.shared.wakeLocks ++ [new]).modify s.shared.wakeLocks.length WakeLock.counted =
      s.shared.wakeLocks ++ [new.counted] := by
    rw [Service.modify_eq_set hnew, List.set_append_right _ _ (Nat.le_refl _), Nat.sub_self, List.set_cons_zero]
  have hname : ((Service.construct (.client 0) {} s.shared frontEnd name false).keyOf
      (.wakeLock s.shared.wakeLocks.length)).1 = name := by
    simp only [Shared.keyOf, Service.construct]
    rw [hnew]
    rfl
  unfold System.acquire System.ran Service.incSuspendCounter
  split
  · rename_i hmode
    refine ⟨hmodify, fun _ => rfl, fun h => ?_⟩
    rw [hmode] at h
    cases h
  · rename_i hmode
    refine ⟨hmodify, fun h => absurd h hmode, fun _ => ?_⟩
    simp [kernel, hname]

theorem release_held {wl : Nat} {w : WakeLock} (hw : s.shared.wakeLocks[wl]? = some w) (hidle : w.mReleased = .idle) :
    (s.release cfg wl).shared.wakeLocks = s.shared.wakeLocks.set wl { w with mReleased := .done } ∧
      (cfg.useSuspendCounter = true →
        (s.release cfg wl).shared.mSuspendCounter = Service.decremented s.shared.mSuspendCounter) ∧
      (cfg.useSuspendCounter = false → (s.release cfg wl).active = s.active.erase w.mName) := by
  have hguard : (s.shared.wakeLocks[wl]?.any fun w => w.mReleased = .idle) = true := by simp [hw, hidle]
  have hlt : wl < s.shared.wakeLocks.length := (List.getElem?_eq_some_iff.mp hw).1
  let called := s.shared.onLock wl fun w => { w with mReleased := .running (.client 0) .counter }
  have hcalled : called.wakeLocks = s.shared.wakeLocks.set wl { w with mReleased := .running (.client 0) .counter } :=
    Service.modify_eq_set hw _
  have hname : (called.keyOf (.wakeLock wl)).1 = w.mName := by
    rw [Shared.keyOf, hcalled, List.getElem?_set_self hlt]
    rfl
  have hlocks : ((called.wakeLocks.modify wl WakeLock.uncounted).modify wl (WakeLock.pastOnce (.client 0) false)) =
      s.shared.wakeLocks.set wl { w with mReleased := .done } := by
    rw [hcalled, Service.modify_eq_set (List.getElem?_set_self hlt), List.set_set,
      Service.modify_eq_set (List.getElem?_set_self hlt), List.set_set]
    rfl
  unfold System.release
  rw [if_pos hguard]
  unfold System.ran Service.decSuspendCounter
  split
  · rename_i hmode
    refine ⟨hlocks, fun _ => rfl, fun h => ?_⟩
    rw [hmode] at h
    cases h
  · rename_i hmode
    refine ⟨hlocks, fun h => absurd h hmode, fun _ => ?_⟩
    simp [kernel, called, hname]

theorem release_other {wl : Nat} (h : ∀ w, s.shared.wakeLocks[wl]? = some w → w.mReleased ≠ .idle) :
    s.release cfg wl = s := by
  refine if_neg ?_
  cases hw : s.shared.wakeLocks[wl]? with
  | none => simp
  | some w => simpa using h w hw

end step

/-! ### One use -/

section uses

variable {cfg : Config} {s : System} {locks : List Lock}

theorem Sees.release (cfg : Config) (h : Sees s locks) (wl : Nat) :
    (∃ w l, s.shared.wakeLocks[wl]? = some w ∧ w.mReleased = .idle ∧ locks[wl]? = some l ∧ l.held = true ∧
        w.mName = l.name ∧
        nextLocks locks (.release wl) = (locks.set wl l.dropped).map (Lock.afterRelease l.name)) ∨
      (s.next cfg (.release wl) = s ∧ nextLocks locks (.release wl) = locks) := by
  have hview : s.shared.wakeLocks[wl]?.map seen = locks[wl]?.map fun l => (l.name, l.held) := by
    rw [← List.getElem?_map, h, List.getElem?_map]
  cases hl : locks[wl]? with
  | none =>
    have hw : s.shared.wakeLocks[wl]? = none := by simpa [hl] using hview
    refine Or.inr ⟨release_other fun w hw' => ?_, ?_⟩
    · rw [hw] at hw'
      cases hw'
    · simp only [nextLocks, hl]
  | some l =>
    rw [hl] at hview
    obtain ⟨w, hw, hseen⟩ := Option.map_eq_some_iff.mp hview
    have hname : w.mName = l.name := congrArg Prod.fst hseen
    have hheld : decide (w.mReleased = .idle) = l.held := congrArg Prod.snd hseen
    cases hh : l.held with
    | true =>
      refine Or.inl ⟨w, l, hw, by simpa [hh] using hheld, rfl, hh, hname, ?_⟩
      simp only [nextLocks, hl, hh, if_true]
      rw [Service.modify_eq_set hl]
    | false =>
      refine Or.inr ⟨release_other fun w' hw' => ?_, by simp [nextLocks, hl, hh]⟩
      obtain rfl := Option.some.inj (hw.symm.trans hw')
      simpa [hh] using hheld

theorem view_afterRelease (name : StdString) (l : Lock) :
    ((l.afterRelease name).name, (l.afterRelease name).held) = (l.name, l.held) := by
  unfold Lock.afterRelease
  split <;> rfl

theorem Sees.next (h : Sees s locks) (u : Use) : Sees (s.next cfg u) (nextLocks locks u) := by
  cases u with
  | acquire frontEnd name =>
    rw [Sees, System.next, (acquire_eq frontEnd name).1, List.map_append, h, nextLocks, List.map_append]
    rfl
  | release wl =>
    rcases h.release cfg wl with ⟨w, l, hw, hidle, hl, hheld, hname, hnext⟩ | ⟨hs, hnext⟩
    · rw [Sees, System.next, (release_held hw hidle).1, List.map_set, h, hnext, List.map_map]
      simp only [Function.comp_def, view_afterRelease]
      rw [List.map_set]
      congr 1
      exact Prod.ext hname rfl
    · rw [hs, hnext]
      exact h

theorem countP_nextLocks_release {wl : Nat} {l : Lock} (hl : locks[wl]? = some l) (hheld : l.held = true) :
    ((locks.set wl l.dropped).map (Lock.afterRelease l.name)).countP Lock.held + 1 = locks.countP Lock.held := by
  have hcount := Service.countP_set_add hl l.dropped Lock.held
  have hafter : Lock.held ∘ Lock.afterRelease l.name = Lock.held := by
    funext l'
    exact congrArg Prod.snd (view_afterRelease l.name l')
  rw [List.countP_map, hafter]
  simpa [hheld, Lock.dropped] using hcount

theorem decremented_mod (n : Nat) :
    Service.decremented ((n + 1) % Service.counterModulus) = n % Service.counterModulus := by
  have hmod : Service.counterModulus = 4294967296 := rfl
  rw [Service.decremented, hmod]
  split_ifs <;> omega

theorem counter_next (hmode : cfg.useSuspendCounter = true) (h : Sees s locks)
    (hcounter : s.shared.mSuspendCounter = locks.countP Lock.held % Service.counterModulus) (u : Use) :
    (s.next cfg u).shared.mSuspendCounter = (nextLocks locks u).countP Lock.held % Service.counterModulus := by
  cases u with
  | acquire frontEnd name =>
    rw [System.next, (acquire_eq frontEnd name).2.1 hmode, hcounter, Service.incremented, Nat.mod_add_mod, nextLocks,
      List.countP_append]
    rfl
  | release wl =>
    rcases h.release cfg wl with ⟨w, l, hw, hidle, hl, hheld, -, hnext⟩ | ⟨hs, hnext⟩
    · have hcount := countP_nextLocks_release hl hheld
      rw [System.next, (release_held hw hidle).2.1 hmode, hcounter, hnext, ← hcount, decremented_mod]
    · rw [hs, hnext, hcounter]

/-- The locks that keep their name active after a release are those of other names. -/
theorem mem_afterRelease {wl : Nat} {l : Lock} (hl : locks[wl]? = some l) {l' : Lock} :
    (l' ∈ (locks.set wl l.dropped).map (Lock.afterRelease l.name) ∧ l'.undisturbed = true) ↔
      l' ∈ locks ∧ l'.undisturbed = true ∧ l'.name ≠ l.name := by
  constructor
  · rintro ⟨hmem, hund⟩
    obtain ⟨x, hx, rfl⟩ := List.mem_map.mp hmem
    unfold Lock.afterRelease at hund ⊢
    split at hund
    · cases hund
    · rename_i hname
      rw [if_neg hname]
      refine ⟨?_, hund, hname⟩
      rcases List.mem_or_eq_of_mem_set hx with hx | rfl
      · exact hx
      · exact absurd rfl hname
  · rintro ⟨hmem, hund, hname⟩
    refine ⟨List.mem_map.mpr ⟨l', ?_, ?_⟩, hund⟩
    · obtain ⟨i, hi⟩ := List.mem_iff_getElem?.mp hmem
      refine List.mem_iff_getElem?.mpr ⟨i, ?_⟩
      rw [List.getElem?_set_ne, hi]
      rintro rfl
      rw [hl] at hi
      exact hname (congrArg Lock.name (Option.some.inj hi)).symm
    · rw [Lock.afterRelease, if_neg hname]

theorem active_next (hmode : cfg.useSuspendCounter = false) (h : Sees s locks)
    (hactive : ∀ name, name ∈ s.active ↔ ∃ l ∈ locks, l.undisturbed = true ∧ l.name = name) (u : Use) (name : StdString) :
    name ∈ (s.next cfg u).active ↔ ∃ l ∈ nextLocks locks u, l.undisturbed = true ∧ l.name = name := by
  cases u with
  | acquire frontEnd new =>
    rw [System.next, (acquire_eq frontEnd new).2.2 hmode, Finset.mem_insert, hactive, nextLocks]
    constructor
    · rintro (rfl | ⟨l, hl, hlock⟩)
      · exact ⟨{ name }, by simp, rfl, rfl⟩
      · exact ⟨l, List.mem_append_left _ hl, hlock⟩
    · rintro ⟨l, hl, hlock⟩
      rcases List.mem_append.mp hl with hl | hl
      · exact Or.inr ⟨l, hl, hlock⟩
      · rw [List.mem_singleton] at hl
        subst hl
        exact Or.inl hlock.2.symm
  | release wl =>
    rcases h.release cfg wl with ⟨w, l, hw, hidle, hl, -, hname, hnext⟩ | ⟨hs, hnext⟩
    · rw [System.next, (release_held hw hidle).2.2 hmode, Finset.mem_erase, hactive, hnext, hname]
      constructor
      · rintro ⟨hne, l', hl', hund, rfl⟩
        have hmem := (mem_afterRelease hl).mpr ⟨hl', hund, hne⟩
        exact ⟨l', hmem.1, hund, rfl⟩
      · rintro ⟨l', hl', hund, rfl⟩
        have hmem := (mem_afterRelease hl).mp ⟨hl', hund⟩
        exact ⟨hmem.2.2, l', hmem.1, hund, rfl⟩
    · rw [hs, hnext]
      exact hactive name

theorem undisturbed_next (h : ∀ l ∈ locks, l.undisturbed = true → l.held = true) (u : Use) :
    ∀ l ∈ nextLocks locks u, l.undisturbed = true → l.held = true := by
  cases u with
  | acquire frontEnd name =>
    intro l hl hund
    rcases List.mem_append.mp hl with hl | hl
    · exact h l hl hund
    · rw [List.mem_singleton] at hl
      rw [hl]
  | release wl =>
    simp only [nextLocks]
    split
    · rename_i l hl
      split
      · rw [Service.modify_eq_set hl]
        intro l' hl' hund
        exact h l' ((mem_afterRelease hl).mp ⟨hl', hund⟩).1 hund
      · exact h
    · exact h

end uses

/-! ### Sequences of uses -/

theorem run_append (uses : List Use) (u : Use) : run cfg (uses ++ [u]) = (run cfg uses).next cfg u := by
  rw [run, List.foldl_append]
  rfl

theorem locksAfter_append (uses : List Use) (u : Use) : locksAfter (uses ++ [u]) = nextLocks (locksAfter uses) u := by
  rw [locksAfter, List.foldl_append]
  rfl

theorem run_sees (uses : List Use) : Sees (run cfg uses) (locksAfter uses) := by
  induction uses using List.reverseRecOn with
  | nil => rfl
  | append_singleton uses u ih =>
    rw [run_append, locksAfter_append]
    exact ih.next u

theorem undisturbed_held (uses : List Use) : ∀ l ∈ locksAfter uses, l.undisturbed = true → l.held = true := by
  induction uses using List.reverseRecOn with
  | nil =>
    intro l hl
    cases hl
  | append_singleton uses u ih =>
    rw [locksAfter_append]
    exact undisturbed_next ih u

theorem blockedByCounter_iff (uses : List Use) :
    blockedByCounter cfg uses ↔ (locksAfter uses).countP Lock.held % Service.counterModulus ≠ 0 := by
  have hcounter : (run { cfg with useSuspendCounter := true } uses).shared.mSuspendCounter =
      (locksAfter uses).countP Lock.held % Service.counterModulus := by
    induction uses using List.reverseRecOn with
    | nil => rfl
    | append_singleton uses u ih =>
      rw [run_append, locksAfter_append]
      exact counter_next rfl (run_sees _ uses) ih u
  rw [blockedByCounter, hcounter]
  exact Nat.pos_iff_ne_zero

/-- A name is active while it belongs to a lock that no release of its name followed. -/
theorem blockedByNames_iff (uses : List Use) :
    blockedByNames cfg uses ↔ ∃ l ∈ locksAfter uses, l.held = true ∧ l.undisturbed = true := by
  have hactive : ∀ name, name ∈ (run { cfg with useSuspendCounter := false } uses).active ↔
      ∃ l ∈ locksAfter uses, l.undisturbed = true ∧ l.name = name := by
    induction uses using List.reverseRecOn with
    | nil =>
      intro name
      simp [run, locksAfter]
    | append_singleton uses u ih =>
      rw [run_append, locksAfter_append]
      exact active_next rfl (run_sees _ uses) ih u
  constructor
  · rintro ⟨name, hname⟩
    obtain ⟨l, hl, hund, -⟩ := (hactive name).mp hname
    exact ⟨l, hl, undisturbed_held uses l hl hund, hund⟩
  · rintro ⟨l, hl, -, hund⟩
    exact ⟨l.name, (hactive l.name).mpr ⟨l, hl, hund, rfl⟩⟩

theorem Distinguishable.agree {uses : List Use} (h : Distinguishable uses) :
    blockedByNames cfg uses ↔ blockedByCounter cfg uses := by
  rw [blockedByNames_iff, blockedByCounter_iff, Nat.mod_eq_of_lt h.1]
  constructor
  · rintro ⟨l, hl, hheld, -⟩
    exact (List.countP_pos_iff.mpr ⟨l, hl, hheld⟩).ne'
  · intro hne
    obtain ⟨l, hl, hheld⟩ := List.countP_pos_iff.mp (Nat.pos_of_ne_zero hne)
    exact h.2 ⟨l, hl, hheld⟩

theorem countP_nextLocks_le (locks : List Lock) (u : Use) :
    (nextLocks locks u).countP Lock.held ≤ locks.countP Lock.held ∨
      ((nextLocks locks u).countP Lock.held = locks.countP Lock.held + 1 ∧
        ∃ l ∈ nextLocks locks u, l.held = true ∧ l.undisturbed = true) := by
  cases u with
  | acquire frontEnd name =>
    right
    rw [nextLocks, List.countP_append]
    exact ⟨rfl, { name }, by simp, rfl, rfl⟩
  | release wl =>
    left
    simp only [nextLocks]
    split
    · rename_i l hl
      split
      · rename_i hheld
        rw [Service.modify_eq_set hl]
        have := countP_nextLocks_release hl hheld
        omega
      · exact Nat.le_refl _
    · exact Nat.le_refl _

/-- Where the ways agree so far, the counter has not overflowed. -/
theorem countP_lt_of_agree {uses : List Use}
    (h : ∀ earlier, earlier <+: uses → (blockedByNames cfg earlier ↔ blockedByCounter cfg earlier)) :
    (locksAfter uses).countP Lock.held < Service.counterModulus := by
  induction uses using List.reverseRecOn with
  | nil => exact Nat.two_pow_pos 32
  | append_singleton uses u ih =>
    have hbefore := ih fun earlier hearlier => h earlier (hearlier.trans (List.prefix_append _ _))
    have hagree := h (uses ++ [u]) (List.prefix_refl _)
    rw [blockedByNames_iff, blockedByCounter_iff, locksAfter_append] at hagree
    rw [locksAfter_append]
    rcases countP_nextLocks_le (locksAfter uses) u with hle | ⟨hcount, hlock⟩
    · exact Nat.lt_of_le_of_lt hle hbefore
    · by_contra hover
      have hsize : (nextLocks (locksAfter uses) u).countP Lock.held = Service.counterModulus := by omega
      rw [hsize, Nat.mod_self] at hagree
      exact hagree.mp hlock rfl

/-- The two ways of blocking suspend agree throughout a sequence of uses exactly when the counter never overflows and,
whenever a lock is held, one is held that no release of its name followed. -/
theorem modes_agree_iff (cfg : Config) (uses : List Use) :
    (∀ earlier, earlier <+: uses → (blockedByNames cfg earlier ↔ blockedByCounter cfg earlier)) ↔
      ∀ earlier, earlier <+: uses → Distinguishable earlier := by
  constructor
  · intro h earlier hearlier
    have hbelow := countP_lt_of_agree cfg fun first hfirst => h first (hfirst.trans hearlier)
    refine ⟨hbelow, ?_⟩
    rintro ⟨l, hl, hheld⟩
    rw [← blockedByNames_iff cfg, h earlier hearlier, blockedByCounter_iff, Nat.mod_eq_of_lt hbelow]
    exact (List.countP_pos_iff.mpr ⟨l, hl, hheld⟩).ne'
  · intro h earlier hearlier
    exact (h earlier hearlier).agree cfg

/-- Two locks of one name, the first of which is released: the second one does not block suspend any more. -/
theorem same_name_unblocked :
    let uses : List Use := [.acquire .aidl (str "wl"), .acquire .hidl (str "wl"), .release 0]
    ¬ blockedByNames Service.smallConfig uses ∧ blockedByCounter Service.smallConfig uses := by
  intro uses
  constructor
  · unfold blockedByNames
    decide +kernel
  · unfold blockedByCounter
    decide +kernel

end HardwareInterfaces.Suspend.BlockingModes
