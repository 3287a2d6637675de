import HardwareInterfaces.Suspend.WakeupCounts
import HardwareInterfaces.Suspend.WakeupReasons

/-!
# Which wakeups are counted together

`WakeupList` counts a wakeup under its reasons joined with semicolons, which is also the name it shows. Two wakeups
share an entry exactly if these names agree. The name does not tell a semicolon inside a reason from one between two
reasons: it determines the pieces between semicolons and no more (`counted_together_iff`).
-/

namespace HardwareInterfaces.Suspend.WakeupList

open CppStd

def semicolon : UInt8 := 59

def pieces (wakeupReasons : List StdString) : List StdString :=
  wakeupReasons.flatMap fun reason => reason.splitOn semicolon

def countOf (ws : List WakeupInfo) (name : StdString) : Int :=
  ((ws.find? fun w => w.name = name).map WakeupInfo.count).getD 0

/-- Between the lists `ws` and `ws'` the wakeup was counted in the entry `name`. -/
def CountedIn (ws ws' : List WakeupInfo) (name : StdString) : Prop :=
  ∃ w ∈ ws', w.name = name ∧ w.count = countOf ws name + 1

/-- After some updates, two wakeups in a row are counted in the same entry. -/
def CountedTogether (capacity : Nat) (updates : List (List StdString)) (xs ys : List StdString) : Prop :=
  ∃ l l₁ l₂ name, run capacity updates = some l ∧ l.update xs = some l₁ ∧ l₁.update ys = some l₂ ∧
    CountedIn l.getWakeupStats l₁.getWakeupStats name ∧ CountedIn l₁.getWakeupStats l₂.getWakeupStats name

theorem countOf_of_mem {ws : List WakeupInfo} (h : (names ws).Nodup) {w : WakeupInfo} (hw : w ∈ ws) :
    countOf ws w.name = w.count := by
  rw [countOf, find_name h hw]
  rfl

theorem counted_updated_iff {cap : Nat} {ws : List WakeupInfo} (h : (names ws).Nodup) (hsize : ws.length ≤ cap)
    (key name : StdString) : CountedIn ws (updated cap ws key) name ↔ 0 < cap ∧ name = key := by
  have hold : ∀ w ∈ ws, w.count ≠ countOf ws w.name + 1 := by
    intro w hw
    rw [countOf_of_mem h hw]
    omega
  cases hfind : ws.find? fun w => w.name = key with
  | none =>
    have hupdated : updated cap ws key = (⟨key, 1⟩ :: ws).take cap := by rw [updated, hfind]
    rw [hupdated]
    constructor
    · rintro ⟨w, hw, rfl, hcount⟩
      have hpos : 0 < cap := by
        rcases Nat.eq_zero_or_pos cap with rfl | hpos
        · cases hw
        · exact hpos
      rcases List.mem_cons.mp (List.mem_of_mem_take hw) with rfl | hw
      · exact ⟨hpos, rfl⟩
      · exact absurd hcount (hold w hw)
    · rintro ⟨hpos, rfl⟩
      obtain ⟨n, rfl⟩ := Nat.exists_eq_succ_of_ne_zero hpos.ne'
      refine ⟨⟨name, 1⟩, List.mem_cons_self, rfl, ?_⟩
      rw [countOf, hfind]
      rfl
  | some v =>
    have hv : v ∈ ws := List.mem_of_find?_eq_some hfind
    have hname : v.name = key := by simpa using List.find?_some hfind
    have hupdated : updated cap ws key =
        { v with count := v.count + 1 } :: ws.filter fun w => w.name ≠ key := by rw [updated, hfind]
    rw [hupdated]
    constructor
    · rintro ⟨w, hw, rfl, hcount⟩
      rcases List.mem_cons.mp hw with rfl | hw
      · exact ⟨(List.length_pos_of_mem hv).trans_le hsize, hname⟩
      · exact absurd hcount (hold w (List.mem_of_mem_filter hw))
    · rintro ⟨-, rfl⟩
      refine ⟨_, List.mem_cons_self, hname, ?_⟩
      rw [← hname, countOf_of_mem h hv]

theorem counted_update_iff {l l' : WakeupList} (h : l.Valid) {reasons : List StdString} (hne : reasons ≠ [])
    (hupdate : l.update reasons = some l') (name : StdString) :
    CountedIn l.getWakeupStats l'.getWakeupStats name ↔ 0 < l.mCapacity ∧ name = keyOf reasons := by
  obtain ⟨l₁, hupdate₁, -, -, hstats⟩ := update_spec h hne
  obtain rfl := Option.some.inj (hupdate₁.symm.trans hupdate)
  rw [hstats]
  exact counted_updated_iff h.agrees.keys h.size (keyOf reasons) name

theorem counted_together_iff_key (capacity : Nat) (updates : List (List StdString)) {xs ys : List StdString}
    (hxs : xs ≠ []) (hys : ys ≠ []) :
    CountedTogether capacity updates xs ys ↔ 0 < capacity ∧ keyOf xs = keyOf ys := by
  obtain ⟨l, hrun, hvalid, hcap, -⟩ := run_spec capacity updates
  obtain ⟨l₁, hupdate₁, hvalid₁, hcap₁, -⟩ := update_spec hvalid hxs
  obtain ⟨l₂, hupdate₂, -⟩ := update_spec hvalid₁ hys
  have hfirst := counted_update_iff hvalid hxs hupdate₁
  have hsecond := counted_update_iff hvalid₁ hys hupdate₂
  rw [hcap] at hfirst
  rw [hcap₁, hcap] at hsecond
  constructor
  · rintro ⟨k, k₁, k₂, name, hrun', hupdate₁', hupdate₂', hin, hin'⟩
    obtain rfl := Option.some.inj (hrun.symm.trans hrun')
    obtain rfl := Option.some.inj (hupdate₁.symm.trans hupdate₁')
    obtain rfl := Option.some.inj (hupdate₂.symm.trans hupdate₂')
    obtain ⟨hpos, hname⟩ := (hfirst name).mp hin
    exact ⟨hpos, hname.symm.trans ((hsecond name).mp hin').2⟩
  · rintro ⟨hpos, hkey⟩
    exact ⟨l, l₁, l₂, keyOf xs, hrun, hupdate₁, hupdate₂, (hfirst _).mpr ⟨hpos, rfl⟩,
      (hsecond _).mpr ⟨hpos, hkey⟩⟩

/-- Two wakeups in a row are counted together, if there is room for an entry, exactly if the pieces of their reasons
agree; without semicolons in the reasons, exactly if the reasons agree. -/
theorem counted_together_iff (capacity : Nat) (updates : List (List StdString)) {xs ys : List StdString}
    (hxs : xs ≠ []) (hys : ys ≠ []) :
    (CountedTogether capacity updates xs ys ↔ 0 < capacity ∧ pieces xs = pieces ys) ∧
      ((∀ reason ∈ xs ++ ys, semicolon ∉ reason) →
        (CountedTogether capacity updates xs ys ↔ 0 < capacity ∧ xs = ys)) := by
  have hpieces : CountedTogether capacity updates xs ys ↔ 0 < capacity ∧ pieces xs = pieces ys := by
    rw [counted_together_iff_key capacity updates hxs hys]
    exact and_congr Iff.rfl (join_eq_iff semicolon hxs hys)
  refine ⟨hpieces, fun hfree => ?_⟩
  have hsplit : ∀ zs, (∀ reason ∈ zs, reason ∈ xs ++ ys) → pieces zs = zs := by
    intro zs hzs
    exact flatMap_splitOn_of_notMem fun reason hreason => hfree reason (hzs reason hreason)
  rw [hpieces, hsplit xs fun reason h => List.mem_append_left _ h, hsplit ys fun reason h => List.mem_append_right _ h]

theorem counted_together_iff_alarm :
    ¬ CountedTogether 1000 [[str "unknown"]] [str "50 alarm"] [str "50 alarm", str "60 modem"] ∧
      CountedTogether 1000 [[str "unknown"]] [str "50 alarm"] [str "50 alarm"] := by
  have hboth : [str "50 alarm"] ≠ [] ∧ [str "50 alarm", str "60 modem"] ≠ [] := by decide
  constructor
  · rw [(counted_together_iff 1000 [[str "unknown"]] hboth.1 hboth.2).2 (by decide)]
    decide
  · rw [(counted_together_iff 1000 [[str "unknown"]] hboth.1 hboth.1).2 (by decide)]
    decide

/-- One reason with a semicolon in it and two reasons are counted in one entry. -/
theorem semicolon_merges :
    readWakeupReasons (some (str "a;b\n")) = [str "a;b"] ∧
    readWakeupReasons (some (str "a\nb\n")) = [str "a", str "b"] ∧
    [str "a;b"] ≠ [str "a", str "b"] ∧
    CountedTogether 1000 [] [str "a;b"] [str "a", str "b"] := by
  refine ⟨by decide, by decide, by decide, ?_⟩
  rw [counted_together_iff_key 1000 [] (by decide) (by decide)]
  decide

end HardwareInterfaces.Suspend.WakeupList
