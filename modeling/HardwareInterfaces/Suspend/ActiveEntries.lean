import HardwareInterfaces.Suspend.Accounting
import HardwareInterfaces.Suspend.WakeLockLru

/-!
# Active entries of the statistics

An entry of the wake lock statistics is shared by all wake locks of one name and pid, and has a flag that says whether
it is active, not a count. The first release of such a lock clears the flag, whatever the other locks do. The flag is
right as long as no release is recorded for an entry while another lock of that entry is held (`NoOverlap`).
-/

namespace HardwareInterfaces.Suspend

open CppStd Monitor Mutex

/-- The statistics have recorded the acquisition of the lock and not yet its release. -/
def WakeLock.statsHeld (w : WakeLock) : Bool :=
  (w.acquisition = .recorded || w.acquisition = .returned) &&
    match w.mReleased with
    | .idle => true
    | .running _ stage => stage ≠ .finish
    | .done => false

namespace Service

def StatsHeld (σ : Shared) (key : StatsKey) : Prop :=
  ∃ (wl : Nat) (w : WakeLock), σ.wakeLocks[wl]? = some w ∧ w.statsHeld = true ∧ w.key = key

/-- Another lock with the name and the pid of `wl` is recorded as held. -/
def overlaps (σ : Shared) (wl : Nat) : Bool :=
  (List.range σ.wakeLocks.length).any fun wl' =>
    wl' ≠ wl && σ.wakeLocks[wl']?.any fun w => w.statsHeld && w.key = σ.keyOf (.wakeLock wl)

/-- The step records a release in an entry that another lock still holds. -/
def releasesShared (s : ServiceState) : ServiceAction → Bool
  | .step t _ _ =>
    match s.code t with
    | .run (.updateStats .release (.wakeLock wl) _) :: _ =>
      (WakeLockEntryList.keys s.shared.mStatsList.entries).contains (s.shared.keyOf (.wakeLock wl)) &&
        overlaps s.shared wl
    | _ => false
  | _ => false

/-- Served runs in which no release is recorded in an entry that another lock still holds. -/
def NoOverlap (s : ServiceState) (a : ServiceAction) : Prop := Served s a ∧ releasesShared s a = false

/-- No thread is in the middle of the acquisition, the release or the destruction of a wake lock. -/
def Idle (s : ServiceState) : Prop := ∀ t, (s.code t).duties Block.wakeLock? = []

/-- The entries of the statistics are active exactly while a wake lock with their name and pid is unreleased. -/
def TellsTruth (s : ServiceState) : Prop :=
  ∀ e ∈ s.shared.mStatsList.entries, e.isActive = true ↔
    ∃ (wl : Nat) (w : WakeLock), s.shared.wakeLocks[wl]? = some w ∧ w.unreleased = true ∧ w.key = e.key

/-! ### The locks recorded as held -/

section held

variable {σ σ' : Shared} {wl : Nat} {w w' : WakeLock} {key : StatsKey}

theorem statsHeld_set (hw : σ.wakeLocks[wl]? = some w) (hlocks : σ'.wakeLocks = σ.wakeLocks.set wl w') :
    StatsHeld σ' key ↔ (w'.statsHeld = true ∧ w'.key = key) ∨
      ∃ wl' v, wl' ≠ wl ∧ σ.wakeLocks[wl']? = some v ∧ v.statsHeld = true ∧ v.key = key := by
  have hlt := (List.getElem?_eq_some_iff.mp hw).1
  constructor
  · rintro ⟨wl', v, hv, hheld, hkey⟩
    rw [hlocks] at hv
    by_cases hne : wl' = wl
    · subst hne
      rw [List.getElem?_set_self hlt] at hv
      obtain rfl := Option.some.inj hv
      exact Or.inl ⟨hheld, hkey⟩
    · rw [List.getElem?_set_ne (Ne.symm hne)] at hv
      exact Or.inr ⟨wl', v, hne, hv, hheld, hkey⟩
  · rintro (⟨hheld, hkey⟩ | ⟨wl', v, hne, hv, hheld, hkey⟩)
    · exact ⟨wl, w', by rw [hlocks, List.getElem?_set_self hlt], hheld, hkey⟩
    · exact ⟨wl', v, by rw [hlocks, List.getElem?_set_ne (Ne.symm hne)]; exact hv, hheld, hkey⟩

theorem statsHeld_iff (hw : σ.wakeLocks[wl]? = some w) :
    StatsHeld σ key ↔ (w.statsHeld = true ∧ w.key = key) ∨
      ∃ wl' v, wl' ≠ wl ∧ σ.wakeLocks[wl']? = some v ∧ v.statsHeld = true ∧ v.key = key :=
  statsHeld_set hw (set_getElem?_self hw).symm

theorem statsHeld_other (hw : σ.wakeLocks[wl]? = some w) (hlocks : σ'.wakeLocks = σ.wakeLocks.set wl w')
    (hkey : w'.key = w.key) (hne : w.key ≠ key) : StatsHeld σ' key ↔ StatsHeld σ key := by
  rw [statsHeld_set hw hlocks, statsHeld_iff hw, hkey]
  simp [hne]

theorem LockChange.statsHeld {t : Tid} {b : Block} (h : LockChange t b σ σ')
    (hb : ∀ change holder timeNow, b ≠ .updateStats change holder timeNow) : StatsHeld σ' key ↔ StatsHeld σ key := by
  have hkeep : ∀ {wl : Nat} {w w' : WakeLock}, σ.wakeLocks[wl]? = some w → σ'.wakeLocks = σ.wakeLocks.set wl w' →
      w'.statsHeld = w.statsHeld → w'.key = w.key → (StatsHeld σ' key ↔ StatsHeld σ key) := by
    intro wl w w' hw hlocks hheld hkey
    rw [statsHeld_set hw hlocks, statsHeld_iff hw, hheld, hkey]
  cases h with
  | same locks => simp only [StatsHeld, locks]
  | new w locks fresh =>
    have hnew : w.statsHeld = false := by simp [WakeLock.statsHeld, fresh.acquisition]
    simp only [StatsHeld, locks]
    constructor
    · rintro ⟨wl, v, hv, hheld, hkey⟩
      rw [List.getElem?_append] at hv
      split at hv
      · exact ⟨wl, v, hv, hheld, hkey⟩
      · obtain rfl := List.mem_singleton.mp (List.mem_of_getElem? hv)
        rw [hnew] at hheld
        cases hheld
    · rintro ⟨wl, v, hv, hheld, hkey⟩
      exact ⟨wl, v, by rw [List.getElem?_append_left (List.getElem?_eq_some_iff.mp hv).1]; exact hv, hheld, hkey⟩
  | change wl w w' before locks transition =>
    cases transition with
    | acquired timeNow => exact absurd rfl (hb _ _ _)
    | released timeNow => exact absurd rfl (hb _ _ _)
    | inc phase once => exact hkeep before locks (by simp [WakeLock.statsHeld, WakeLock.counted, phase]) rfl
    | returned phase once => exact hkeep before locks (by simp [WakeLock.statsHeld, phase]) rfl
    | start destructor phase once => exact hkeep before locks (by simp [WakeLock.statsHeld, once]) rfl
    | dec phase once =>
      exact hkeep before locks (by simp [WakeLock.statsHeld, WakeLock.uncounted, OnceFlag.advance, once]) rfl
    | finish destructor phase once =>
      exact hkeep before locks (by simp [WakeLock.statsHeld, WakeLock.pastOnce, once]) rfl
    | past destructor phase once =>
      exact hkeep before locks (by simp [WakeLock.statsHeld, WakeLock.pastOnce, once]) rfl
    | destroy phase alive block => exact hkeep before locks rfl rfl
    | ended phase once destruction => exact hkeep before locks rfl rfl

end held

/-! ### Runs without overlap -/

/-- The entries are active exactly while a lock with their key is recorded as held. -/
structure Active (s : ServiceState) : Prop where
  valid : s.shared.mStatsList.Valid
  active : ∀ e ∈ s.shared.mStatsList.entries, e.isActive = true ↔ StatsHeld s.shared e.key

section active

variable {cfg : Config} {s s' : ServiceState} {a : ServiceAction} {t : Tid} {b : Block} {env : Env}
  {c : ThreadCode} {o : Out}

theorem keyOf_wakeLock {σ : Shared} {wl : Nat} {w : WakeLock} (hw : σ.wakeLocks[wl]? = some w) :
    σ.keyOf (.wakeLock wl) = w.key := by
  simp [Shared.keyOf, hw]

theorem overlaps_of_held {σ : Shared} {wl wl' : Nat} {w : WakeLock} (hne : wl' ≠ wl)
    (hw : σ.wakeLocks[wl']? = some w) (hheld : w.statsHeld = true) (hkey : w.key = σ.keyOf (.wakeLock wl)) :
    overlaps σ wl = true := by
  refine List.any_eq_true.mpr ⟨wl', List.mem_range.mpr (List.getElem?_eq_some_iff.mp hw).1, ?_⟩
  simp [hne, hw, hheld, hkey]

theorem Active.acquire (h : Active s) (hlocks : Locks s) {wl : Nat} {timeNow : Int}
    (hr : (program cfg).Ran s a s' t (.updateStats .acquire (.wakeLock wl) timeNow) env c o) : Active s' := by
  cases (hlocks.ran hr).2 with
  | same locks block => cases block
  | new w locks fresh block => cases block
  | change wl w w' before locks transition =>
    cases transition with
    | acquired timeNow phase once =>
      obtain ⟨l', hl', ho⟩ := Option.map_eq_some_iff.mp (exec_of_ran hr)
      rw [keyOf_wakeLock before] at hl'
      have hlist : s'.shared.mStatsList = l' := by rw [hr.shared, ← ho]
      obtain ⟨l'', hupdate, hvalid, -, hentries⟩ := WakeLockEntryList.updateOnAcquire_spec h.valid
        (WakeLockEntryList.capacity_pos h.valid hl') w.key timeNow
      obtain rfl := Option.some.inj (hl'.symm.trans hupdate)
      refine ⟨by rw [hlist]; exact hvalid, fun e he => ?_⟩
      rw [hlist, hentries] at he
      by_cases hkey : e.key = w.key
      · rw [← hkey] at he
        have hheld : StatsHeld s'.shared e.key := by
          refine (statsHeld_set before locks).mpr (Or.inl ⟨?_, hkey.symm⟩)
          simp [WakeLock.statsHeld, WakeLock.statsUpdated, once]
        simp only [WakeLockEntryList.isActive_onAcquire he, hheld]
      · rw [statsHeld_other before locks rfl (Ne.symm hkey)]
        have hop : e ∈ (WakeLockEntryList.StatsOp.updateOnAcquire w.key timeNow).onEntries _ _ := he
        exact h.active e (WakeLockEntryList.mem_onEntries rfl hop hkey)
    | destroy phase alive block => rcases block with hb | hb <;> cases hb

theorem Active.release (h : Active s) (hlocks : Locks s) {wl : Nat} {timeNow : Int}
    (hr : (program cfg).Ran s a s' t (.updateStats .release (.wakeLock wl) timeNow) env c o)
    (hshared : releasesShared s a = false) : Active s' := by
  cases (hlocks.ran hr).2 with
  | same locks block => cases block
  | new w locks fresh block => cases block
  | change wl w w' before locks transition =>
    cases transition with
    | released timeNow phase once =>
      obtain ⟨l', hl', ho⟩ := Option.map_eq_some_iff.mp (exec_of_ran hr)
      rw [keyOf_wakeLock before] at hl'
      have hlist : s'.shared.mStatsList = l' := by rw [hr.shared, ← ho]
      obtain ⟨l'', hupdate, hvalid, -, hentries⟩ := WakeLockEntryList.updateOnRelease_spec h.valid w.key timeNow
      obtain rfl := Option.some.inj (hl'.symm.trans hupdate)
      refine ⟨by rw [hlist]; exact hvalid, fun e he => ?_⟩
      rw [hlist, hentries] at he
      by_cases hkey : e.key = w.key
      · rw [← hkey] at he
        obtain ⟨hinactive, hpresent⟩ := WakeLockEntryList.isActive_onRelease he
        have hfree : ¬ StatsHeld s'.shared e.key := by
          rw [statsHeld_set before locks]
          rintro (⟨hheld, -⟩ | ⟨wl', v, hne, hv, hheld, hkeyv⟩)
          · simp [WakeLock.statsHeld, WakeLock.statsUpdated, once, OnceFlag.advance] at hheld
          · obtain ⟨pick, rfl, -⟩ := hr.action
            have hover := overlaps_of_held hne hv hheld (by rw [keyOf_wakeLock before, hkeyv, hkey])
            simp [releasesShared, hr.code, hover, keyOf_wakeLock before, ← hkey, hpresent] at hshared
        simp only [hinactive, hfree, Bool.false_eq_true]
      · rw [statsHeld_other before locks rfl (Ne.symm hkey)]
        have hop : e ∈ (WakeLockEntryList.StatsOp.updateOnRelease w.key timeNow).onEntries 0 _ := he
        exact h.active e (WakeLockEntryList.mem_onEntries rfl hop hkey)
    | destroy phase alive block => rcases block with hb | hb <;> cases hb

theorem Active.ran (h : Active s) (hlocks : Locks s) (hserved : ServedCode s)
    (hr : (program cfg).Ran s a s' t b env c o) (hshared : releasesShared s a = false) : Active s' := by
  have hsame : b.changesStats = false → Active s' := by
    intro hb
    have hlist : s'.shared.mStatsList = s.shared.mStatsList := by
      rw [hr.shared]
      exact (exec_frame (exec_of_ran hr)).stats hb
    refine ⟨by rw [hlist]; exact h.valid, fun e he => ?_⟩
    rw [hlist] at he
    rw [(hlocks.ran hr).2.statsHeld fun change holder timeNow he => by rw [he] at hb; cases hb]
    exact h.active e he
  cases b with
  | updateStats change holder timeNow =>
    cases holder with
    | wakeLock wl =>
      cases change with
      | acquire => exact h.acquire hlocks hr
      | release => exact h.release hlocks hr hshared
    | direct name pid => cases hserved.block hr
  | updateNow =>
    have hexec := Option.some.inj (exec_of_ran hr)
    have hlist : s'.shared.mStatsList = s.shared.mStatsList.updateNow env.timeNow := by rw [hr.shared, ← hexec]
    have hheld : ∀ key, StatsHeld s'.shared key ↔ StatsHeld s.shared key := fun key => by
      rw [hr.shared, ← hexec]
      rfl
    obtain ⟨hvalid, hentries⟩ := WakeLockEntryList.updateNow_spec h.valid env.timeNow
    refine ⟨by rw [hlist]; exact hvalid, fun e he => ?_⟩
    rw [hlist, hentries] at he
    obtain ⟨v, hv, rfl⟩ := List.mem_map.mp he
    rw [WakeLockInfo.isActive_refreshed, WakeLockInfo.key_refreshed, hheld]
    exact h.active v hv
  | _ => exact hsame rfl

theorem Active.step (h : Active s) (hreach : (program cfg).Reach Served s) (hok : NoOverlap s a)
    (hstep : (program cfg).Step s a s') : Active s' := by
  rcases hstep.quiet_or_ran with hq | ⟨t, b, env, c, o, hr⟩
  · obtain ⟨hvalid, hactive⟩ := h
    rw [← hq.shared] at hvalid hactive
    exact ⟨hvalid, hactive⟩
  · exact h.ran (reach_locks hreach) (reach_served hreach) hr hok.2

theorem reach_active (h : (program cfg).Reach NoOverlap s) : Active s := by
  have hinit : Active (program cfg).init :=
    ⟨WakeLockEntryList.create_valid cfg.statsCapacity, fun e he => absurd he List.not_mem_nil⟩
  exact h.invariant hinit fun s a s' hreach hok hs hstep => hs.step (hreach.mono fun _ _ h => h.1) hok hstep

theorem Idle.statsHeld_eq (h : Idle s) {wl : Nat} {w : WakeLock} (hinv : LockInv s wl w) :
    w.statsHeld = w.unreleased := by
  have hnone : ∀ {δ : Type} {d : Block → Option δ}, About d wl → ∀ t, (s.code t).duties d = [] := by
    intro δ d hd t
    refine hd.duties_eq_nil ?_
    rw [h t]
    exact List.not_mem_nil
  have hacquisition : w.acquisition = .returned := by
    have hleft := hinv.acquiring w.acquirer
    rw [hnone (about_acquireDuty wl), if_pos rfl] at hleft
    cases hphase : w.acquisition with
    | returned => rfl
    | _ =>
      rw [hphase] at hleft
      cases hleft
  cases honce : w.mReleased with
  | idle =>
    simp [WakeLock.statsHeld, WakeLock.unreleased, WakeLock.incremented, WakeLock.decremented, hacquisition, honce]
  | done => simp [WakeLock.statsHeld, WakeLock.unreleased, WakeLock.decremented, honce]
  | running u stage =>
    have hleft := hinv.releasing u
    rw [hnone (about_releaseDuty wl), honce] at hleft
    cases stage <;> simp [onceLeft, releaseLeft] at hleft

end active

/-! ### One client -/

def byFirstClient : ServiceAction → Bool
  | .step t _ _ => t = .client 0
  | .wake t => t = .client 0
  | .call t _ => t = .client 0
  | .env _ => true

theorem reach_firstClient {cfg : Config} {s : ServiceState}
    (h : (program cfg).Reach (fun _ a => byFirstClient a = true) s) {n : Nat} (hn : n ≠ 0) :
    s.code (.client n) = [] := by
  refine h.invariant (I := fun s => s.code (.client n) = []) rfl fun s a s' _ hok hs hstep => ?_
  have ha : ¬ a.By (.client n) := by
    intro ha
    cases a with
    | env e => exact ha
    | step t env pick =>
      obtain rfl : t = .client n := ha
      exact hn (Tid.client.inj (of_decide_eq_true hok))
    | wake t =>
      obtain rfl : t = .client n := ha
      exact hn (Tid.client.inj (of_decide_eq_true hok))
    | call t b =>
      obtain rfl : t = .client n := ha
      exact hn (Tid.client.inj (of_decide_eq_true hok))
  rcases hstep.others_code ha with hsame | ⟨u, b, env, o, hexec, hspawn⟩
  · exact hsame.trans hs
  · obtain ⟨hp, -⟩ := exec_spawn hexec hspawn
    cases (Prod.mk.inj hp).1

theorem idle_of_firstClient {cfg : Config} {ok : ServiceState → ServiceAction → Prop} {s : ServiceState}
    (h : (program cfg).Reach ok s) (hok : ∀ s a, ok s a → byFirstClient a = true) (hcode : s.code (.client 0) = [])
    (hspawned : s.shared.spawned = 0) : Idle s := by
  intro t
  have hnil : s.code t = [] := by
    cases t with
    | client n =>
      by_cases hn : n = 0
      · rw [hn, hcode]
      · exact reach_firstClient (h.mono hok) hn
    | autosuspend n => exact (reach_loops h).unborn n (by omega)
  rw [hnil]
  rfl

/-- In runs in which no release is recorded in an entry that another lock still holds, the entries of the statistics
tell the truth between calls. -/
theorem active_iff_unreleased (cfg : Config) {s : ServiceState} (h : (program cfg).Reach NoOverlap s) (hidle : Idle s) :
    TellsTruth s := by
  intro e he
  rw [(reach_active h).active e he]
  have hlocks := reach_locks h
  constructor
  · rintro ⟨wl, w, hw, hheld, hkey⟩
    exact ⟨wl, w, hw, by rw [← hidle.statsHeld_eq (hlocks.inv wl w hw), hheld], hkey⟩
  · rintro ⟨wl, w, hw, hheld, hkey⟩
    exact ⟨wl, w, hw, by rw [hidle.statsHeld_eq (hlocks.inv wl w hw), hheld], hkey⟩

theorem active_iff_unreleased_two_names :
    ∃ s : ServiceState, (program smallConfig).Reach NoOverlap s ∧ Idle s ∧
      s.shared.mStatsList.entries.map (fun e => (e.name, e.isActive)) = [(str "a", false), (str "b", true)] ∧
      TellsTruth s := by
  obtain ⟨s, hreach, hs⟩ := Program.Reach.of_run (program smallConfig)
    (fun s a => servedAction a && !releasesShared s a && byFirstClient a)
    (goCall (.client 0) (.acquireWakeLock .aidl (str "a")) 12 ++
      goCall (.client 0) (.acquireWakeLock .hidl (str "b")) 12 ++ goCall (.client 0) (.release 0) 13)
    (fun s => s.code (.client 0) = [] && s.shared.spawned = 0 &&
      s.shared.mStatsList.entries.map (fun e => (e.name, e.isActive)) = [(str "a", false), (str "b", true)])
    (fun s a h => (by simpa [NoOverlap, Served] using h : NoOverlap s a ∧ byFirstClient a = true)) (by decide +kernel)
  simp only [Bool.and_eq_true, decide_eq_true_eq] at hs
  obtain ⟨⟨hcode, hspawned⟩, hentries⟩ := hs
  have hidle := idle_of_firstClient hreach (fun _ _ h => h.2) hcode hspawned
  have hreach' := hreach.mono fun _ _ h => h.1
  exact ⟨s, hreach', hidle, hentries, active_iff_unreleased smallConfig hreach' hidle⟩

/-- Two wake locks with the same name, and the release of the first: the entry is inactive although the second lock is
held. -/
theorem inactive_while_held : ∃ s : ServiceState, (program smallConfig).Reach Served s ∧ Idle s ∧ ¬ TellsTruth s := by
  obtain ⟨s, hreach, hs⟩ := Program.Reach.of_run (program smallConfig) (fun _ a => servedAction a && byFirstClient a)
    (goCall (.client 0) (.acquireWakeLock .aidl (str "wl")) 12 ++
      goCall (.client 0) (.acquireWakeLock .aidl (str "wl")) 12 ++ goCall (.client 0) (.release 0) 13)
    (fun s => s.code (.client 0) = [] && s.shared.spawned = 0 &&
      s.shared.wakeLocks[1]?.any (fun w => w.unreleased && w.key = (str "wl", 0)) &&
      s.shared.mStatsList.entries.any fun e => e.key = (str "wl", 0) && !e.isActive)
    (fun s a h => (by simpa [Served] using h : Served s a ∧ byFirstClient a = true)) (by decide +kernel)
  simp only [Bool.and_eq_true, decide_eq_true_eq, Option.any_eq_true, List.any_eq_true, Bool.not_eq_true'] at hs
  obtain ⟨⟨⟨hcode, hspawned⟩, w, hw, hheld, hkey⟩, e, he, hekey, hinactive⟩ := hs
  refine ⟨s, hreach.mono fun _ _ h => h.1, idle_of_firstClient hreach (fun _ _ h => h.2) hcode hspawned,
    fun htruth => ?_⟩
  have hactive := (htruth e he).mpr ⟨1, w, hw, hheld, by rw [hkey, hekey]⟩
  rw [hinactive] at hactive
  cases hactive

end Service

end HardwareInterfaces.Suspend
