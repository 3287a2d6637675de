import HardwareInterfaces.Lib.Timed
import HardwareInterfaces.Suspend.EntryLives
import HardwareInterfaces.Suspend.FurtherEffects

/-!
# The order of clock readings

`updateOnAcquire` and `updateOnRelease` read the clock before they take `mStatsLock`, `updateNow` reads it under the
lock. A thread can therefore enter the section with a reading that is older than the last change of the entry it
updates: another thread has read the clock later and overtaken it. Then the entry goes back in time. Nothing else can
make it do so: in a run in real time, every step that is not overtaken moves the entries forward.
-/

namespace HardwareInterfaces.Suspend

open CppStd Monitor Mutex

namespace WakeLockEntryList

/-- What may be seen of an entry, later than `e`. -/
structure Forward (e e' : WakeLockInfo) : Prop where
  lastChange : e.lastChange ≤ e'.lastChange
  totalTime : e.totalTime ≤ e'.totalTime
  maxTime : e.maxTime ≤ e'.maxTime

theorem Forward.refl (e : WakeLockInfo) : Forward e e := ⟨Int.le_refl _, Int.le_refl _, Int.le_refl _⟩

theorem Forward.trans {e₁ e₂ e₃ : WakeLockInfo} (h : Forward e₁ e₂) (h' : Forward e₂ e₃) : Forward e₁ e₃ :=
  ⟨h.lastChange.trans h'.lastChange, h.totalTime.trans h'.totalTime, h.maxTime.trans h'.maxTime⟩

section

variable {e : WakeLockInfo} {timeNow : Int} (h : e.lastChange ≤ timeNow)

include h

theorem Forward.acquired : Forward e (e.acquired timeNow) := ⟨h, Int.le_refl _, Int.le_refl _⟩

theorem Forward.released : Forward e (e.released timeNow) := by
  refine ⟨h, ?_, Int.le_max_left _ _⟩
  show e.totalTime ≤ e.totalTime + (timeNow - e.lastChange)
  omega

theorem Forward.refreshed : Forward e (e.refreshed timeNow) := by
  unfold WakeLockInfo.refreshed
  split
  · refine ⟨h, ?_, Int.le_max_left _ _⟩
    show e.totalTime ≤ e.totalTime + (timeNow - e.lastChange)
    omega
  · exact .refl e

end

namespace StatsOp

def touches : StatsOp → WakeLockInfo → Bool
  | updateOnAcquire key _, e => e.key = key
  | updateOnRelease key _, e => e.key = key
  | updateNow _, e => e.isActive

def timeDeltas : StatsOp → List WakeLockInfo → List Int
  | updateOnAcquire _ _, _ => []
  | updateOnRelease key timeNow, es => (es.filter fun e => e.key = key).map fun e => timeNow - e.lastChange
  | updateNow timeNow, es => (es.filter fun e => e.isActive).map fun e => timeNow - e.lastChange

variable {op : StatsOp} {e : WakeLockInfo} {es : List WakeLockInfo}

theorem onEntry_of_not_touches (h : op.touches e = false) : op.onEntry e = e := by
  cases op with
  | updateOnAcquire key timeNow => exact if_neg (by simpa [touches] using h)
  | updateOnRelease key timeNow => exact if_neg (by simpa [touches] using h)
  | updateNow timeNow =>
    rw [onEntry, WakeLockInfo.refreshed, if_neg]
    simpa [touches] using h

theorem lastChange_onEntry (h : op.touches e = true) : (op.onEntry e).lastChange = op.time := by
  cases op with
  | updateOnAcquire key timeNow => rw [onEntry, if_pos (by simpa [touches] using h)]; rfl
  | updateOnRelease key timeNow => rw [onEntry, if_pos (by simpa [touches] using h)]; rfl
  | updateNow timeNow => rw [onEntry, WakeLockInfo.refreshed, if_pos (by simpa [touches] using h)]; rfl

/-- An operation moves an entry forward, unless it is older than the last change of it. -/
theorem forward_onEntry (h : op.touches e = true → e.lastChange ≤ op.time) : Forward e (op.onEntry e) := by
  cases htouches : op.touches e with
  | false =>
    rw [onEntry_of_not_touches htouches]
    exact .refl e
  | true =>
    have hle := h htouches
    cases op with
    | updateOnAcquire key timeNow =>
      rw [onEntry, if_pos (by simpa [touches] using htouches)]
      exact .acquired hle
    | updateOnRelease key timeNow =>
      rw [onEntry, if_pos (by simpa [touches] using htouches)]
      exact .released hle
    | updateNow timeNow => exact .refreshed hle

theorem timeDeltas_nonneg (h : ∀ e ∈ es, op.touches e = true → e.lastChange ≤ op.time) :
    ∀ δ ∈ op.timeDeltas es, 0 ≤ δ := by
  intro δ hδ
  cases op with
  | updateOnAcquire key timeNow => cases hδ
  | updateOnRelease key timeNow =>
    obtain ⟨e, he, rfl⟩ := List.mem_map.mp hδ
    obtain ⟨hmem, hkey⟩ := List.mem_filter.mp he
    exact Int.sub_nonneg_of_le (h e hmem hkey)
  | updateNow timeNow =>
    obtain ⟨e, he, rfl⟩ := List.mem_map.mp hδ
    obtain ⟨hmem, hactive⟩ := List.mem_filter.mp he
    exact Int.sub_nonneg_of_le (h e hmem hactive)

theorem onEntry_mem (cap : Nat) (hnodup : (keys es).Nodup) (he : e ∈ es) (h : op.touches e = true) :
    op.onEntry e ∈ op.onEntries cap es := by
  cases op with
  | updateOnAcquire key timeNow =>
    have hkey : e.key = key := by simpa [touches] using h
    subst hkey
    rw [onEntry, if_pos rfl, onEntries, onAcquire, touched, find_key hnodup he]
    exact List.mem_cons_self
  | updateOnRelease key timeNow =>
    have hkey : e.key = key := by simpa [touches] using h
    subst hkey
    rw [onEntry, if_pos rfl, onEntries, onRelease, touched, find_key hnodup he]
    exact List.mem_cons_self
  | updateNow timeNow => exact List.mem_map_of_mem he

theorem spec_of_apply {l l' : WakeLockEntryList} (h : l.Valid) (happly : op.apply l = some l') :
    l'.Valid ∧ l'.entries = op.onEntries l.mCapacity l.entries := by
  cases op with
  | updateOnAcquire key timeNow =>
    obtain ⟨l'', hl'', hvalid, -, hentries⟩ := updateOnAcquire_spec h (capacity_pos h happly) key timeNow
    obtain rfl := Option.some.inj (happly.symm.trans hl'')
    exact ⟨hvalid, hentries⟩
  | updateOnRelease key timeNow =>
    obtain ⟨l'', hl'', hvalid, -, hentries⟩ := updateOnRelease_spec h key timeNow
    obtain rfl := Option.some.inj (happly.symm.trans hl'')
    exact ⟨hvalid, hentries⟩
  | updateNow timeNow =>
    obtain rfl := Option.some.inj happly
    exact updateNow_spec h timeNow

end StatsOp

end WakeLockEntryList

namespace Service

open WakeLockEntryList

/-! ### The service -/

def statsOp? (env : Env) (σ : Shared) : Block → Option StatsOp
  | .updateStats .acquire h timeNow => some (.updateOnAcquire (σ.keyOf h) timeNow)
  | .updateStats .release h timeNow => some (.updateOnRelease (σ.keyOf h) timeNow)
  | .updateNow => some (.updateNow env.timeNow)
  | _ => none

def readsClock : Block → Bool
  | .getTimeNow .. => true
  | .updateNow => true
  | _ => false

def nextBlock? (s : ServiceState) : ServiceAction → Option (Block × Env)
  | .step t env _ =>
    match s.code t with
    | .run b :: _ => some (b, env)
    | _ => none
  | _ => none

/-- What the clock shows when a step reads it. -/
def clockReading (s : ServiceState) (a : ServiceAction) : Option Int :=
  (nextBlock? s a).bind fun (b, env) => if readsClock b then some env.timeNow else none

/-- The operation on the statistics that a step makes. -/
def statsOp (s : ServiceState) (a : ServiceAction) : Option StatsOp :=
  (nextBlock? s a).bind fun (b, env) => statsOp? env s.shared b

def timeDeltas (s : ServiceState) (a : ServiceAction) : List Int :=
  ((statsOp s a).map fun op => op.timeDeltas s.shared.mStatsList.entries).getD []

/-- The step enters the guarded section with a reading older than the last change of the entry it updates. -/
def overtaken (s : ServiceState) (a : ServiceAction) : Bool :=
  match nextBlock? s a with
  | some (.updateStats _ h timeNow, _) =>
    s.shared.mStatsList.entries.any fun e => e.key = s.shared.keyOf h && timeNow < e.lastChange
  | _ => false

/-- Runs in which no update of an entry is overtaken. -/
def ReadInOrder (s : ServiceState) (a : ServiceAction) : Prop := overtaken s a = false

structure StepsForward (s : ServiceState) (a : ServiceAction) (s' : ServiceState) : Prop where
  timeDelta : ∀ δ ∈ timeDeltas s a, 0 ≤ δ
  entries : ∀ e ∈ s.shared.mStatsList.entries, ∀ e' ∈ s'.shared.mStatsList.entries, e'.key = e.key → Forward e e'

section blocks

variable {cfg : Config} {t : Tid} {env : Env} {σ : Shared} {b : Block} {o : Out} {op : StatsOp}

theorem exec_of_statsOp_none (h : exec cfg t env σ b = some o) (hop : statsOp? env σ b = none) :
    o.state.mStatsList = σ.mStatsList := by
  refine (exec_frame h).stats ?_
  cases b with
  | updateStats change holder timeNow => cases change <;> cases hop
  | updateNow => cases hop
  | _ => rfl

theorem exec_of_statsOp_some (h : exec cfg t env σ b = some o) (hop : statsOp? env σ b = some op) :
    op.apply σ.mStatsList = some o.state.mStatsList := by
  cases b with
  | updateStats change holder timeNow =>
    obtain ⟨stats, hstats, rfl⟩ := Option.map_eq_some_iff.mp h
    cases change <;> obtain rfl := Option.some.inj hop <;> exact hstats
  | updateNow =>
    obtain rfl := Option.some.inj hop
    obtain rfl := Option.some.inj h
    rfl
  | _ => cases hop

theorem time_of_statsOp (hop : statsOp? env σ b = some op) :
    b.pending? = some op.time ∨ (readsClock b = true ∧ op.time = env.timeNow) := by
  cases b with
  | updateStats change holder timeNow => cases change <;> obtain rfl := Option.some.inj hop <;> exact Or.inl rfl
  | updateNow =>
    obtain rfl := Option.some.inj hop
    exact Or.inr ⟨rfl, rfl⟩
  | _ => cases hop

/-- An update of the statistics gets its time from the block that puts it into the code. -/
theorem exec_pending (h : exec cfg t env σ b = some o) :
    ∀ r ∈ o.code.duties Block.pending?, readsClock b = true ∧ r = env.timeNow := by
  intro r hr
  cases hb : b.readsAhead with
  | false =>
    rw [(exec_aside h).pending hb] at hr
    cases hr
  | true =>
    cases b with
    | getTimeNow change holder =>
      obtain rfl := Option.some.inj h
      exact ⟨rfl, List.mem_singleton.mp hr⟩
    | _ => cases hb

end blocks

/-! ### Runs in real time -/

/-- No change of an entry, and no reading that waits to be used, is later than the clock. -/
structure Clocked (p : Int × ServiceState) : Prop where
  valid : p.2.shared.mStatsList.Valid
  changed : ∀ e ∈ p.2.shared.mStatsList.entries, e.lastChange ≤ p.1
  pending : ∀ t, ∀ r ∈ (p.2.code t).duties Block.pending?, r ≤ p.1

section runs

variable {cfg : Config} {s s' : ServiceState} {a : ServiceAction} {t : Tid} {b : Block} {env : Env} {c : ThreadCode}
  {o : Out} {op : StatsOp} {p q : Int × ServiceState}

theorem nextBlock_of_ran (hr : (program cfg).Ran s a s' t b env c o) : nextBlock? s a = some (b, env) := by
  obtain ⟨pick, rfl, -⟩ := hr.action
  rw [nextBlock?, hr.code]

theorem statsOp_of_ran (hr : (program cfg).Ran s a s' t b env c o) : statsOp s a = statsOp? env s.shared b := by
  rw [statsOp, nextBlock_of_ran hr]
  rfl

theorem clockReading_of_ran (hr : (program cfg).Ran s a s' t b env c o) (hb : readsClock b = true) :
    clockReading s a = some env.timeNow := by
  rw [clockReading, nextBlock_of_ran hr]
  exact if_pos hb

theorem entries_of_ran (hr : (program cfg).Ran s a s' t b env c o) (hvalid : s.shared.mStatsList.Valid)
    (hop : statsOp? env s.shared b = some op) : s'.shared.mStatsList.Valid ∧
      s'.shared.mStatsList.entries = op.onEntries s.shared.mStatsList.mCapacity s.shared.mStatsList.entries := by
  rw [hr.shared]
  exact StatsOp.spec_of_apply hvalid (exec_of_statsOp_some (exec_of_ran hr) hop)

/-- The time of an operation is not later than the clock. -/
theorem Clocked.time_le (h : Clocked p) (hle : p.1 ≤ q.1) (hreading : ∀ now ∈ clockReading p.2 a, now = q.1)
    (hr : (program cfg).Ran p.2 a s' t b env c o) (hop : statsOp? env p.2.shared b = some op) : op.time ≤ q.1 := by
  rcases time_of_statsOp hop with hpending | ⟨hb, htime⟩
  · refine (h.pending t op.time ?_).trans hle
    rw [hr.duties_before, hpending]
    exact List.mem_cons_self
  · rw [htime, hreading _ (clockReading_of_ran hr hb)]

theorem Clocked.step (h : Clocked p) (hle : p.1 ≤ q.1) (hreading : ∀ now ∈ clockReading p.2 a, now = q.1)
    (hstep : (program cfg).Step p.2 a q.2) : Clocked q := by
  rcases hstep.quiet_or_ran with hq | ⟨t, b, env, c, o, hr⟩
  · refine ⟨by rw [hq.shared]; exact h.valid, fun e he => ?_, fun u r hu => ?_⟩
    · rw [hq.shared] at he
      exact (h.changed e he).trans hle
    · rw [duties_of_quiet hq fun _ => rfl] at hu
      exact (h.pending u r hu).trans hle
  · have hpending : ∀ u, ∀ r ∈ (q.2.code u).duties Block.pending?, r ≤ q.1 := by
      intro u r hu
      by_cases hut : u = t
      · subst hut
        rw [hr.duties_self] at hu
        rcases List.mem_append.mp hu with hnew | hold
        · obtain ⟨hb, rfl⟩ := exec_pending (exec_of_ran hr) r hnew
          exact (hreading _ (clockReading_of_ran hr hb)).le
        · refine (h.pending u r ?_).trans hle
          rw [hr.duties_before]
          exact List.mem_append_right _ hold
      · rw [hr.duties_other hut (duties_of_spawn hr rfl)] at hu
        exact (h.pending u r hu).trans hle
    cases hop : statsOp? env p.2.shared b with
    | none =>
      have hlist : q.2.shared.mStatsList = p.2.shared.mStatsList := by
        rw [hr.shared]
        exact exec_of_statsOp_none (exec_of_ran hr) hop
      refine ⟨by rw [hlist]; exact h.valid, fun e he => ?_, hpending⟩
      rw [hlist] at he
      exact (h.changed e he).trans hle
    | some op =>
      obtain ⟨hvalid, hentries⟩ := entries_of_ran hr h.valid hop
      have htime := h.time_le hle hreading hr hop
      refine ⟨hvalid, fun e he => ?_, hpending⟩
      rw [hentries] at he
      rcases mem_onEntries_cases he with ⟨v, hv, -, rfl⟩ | ⟨now, rfl, -, hnew⟩
      · cases htouches : op.touches v with
        | true => rw [StatsOp.lastChange_onEntry htouches]; exact htime
        | false =>
          rw [StatsOp.onEntry_of_not_touches htouches]
          exact (h.changed v hv).trans hle
      · rw [hnew]
        exact htime

theorem nextBlock_none_or_ran (h : (program cfg).Step s a s') :
    (nextBlock? s a = none ∧ s'.shared = s.shared) ∨
      ∃ t b env c o, (program cfg).Ran s a s' t b env c o := by
  cases h with
  | lock awake code => exact Or.inl ⟨by simp only [nextBlock?, code], rfl⟩
  | unlock awake code => exact Or.inl ⟨by simp only [nextBlock?, code], rfl⟩
  | wait awake code => exact Or.inl ⟨by simp only [nextBlock?, code], rfl⟩
  | run awake code exec spawn notified =>
    exact Or.inr ⟨_, _, _, _, _, ⟨_, rfl, notified⟩, awake, code, exec, spawn, rfl⟩
  | wake parked => exact Or.inl ⟨rfl, rfl⟩
  | call idle awake entry => exact Or.inl ⟨rfl, rfl⟩
  | env external => exact Or.inl ⟨rfl, rfl⟩

theorem timedReach_clocked {ok : ServiceState → ServiceAction → Prop}
    (h : (program cfg).TimedReach clockReading ok p) : Clocked p := by
  refine h.invariant (I := Clocked) (fun now => ?_) fun p q a hle _ hreading hstep hp => hp.step hle hreading hstep
  exact ⟨create_valid cfg.statsCapacity, fun e he => absurd he List.not_mem_nil, fun t r hr => absurd hr List.not_mem_nil⟩

theorem stepsForward_of_none (hvalid : s.shared.mStatsList.Valid) (hop : statsOp s a = none)
    (hlist : s'.shared.mStatsList = s.shared.mStatsList) : StepsForward s a s' := by
  refine ⟨fun δ hδ => ?_, fun e he e' he' hkey => ?_⟩
  · rw [timeDeltas, hop] at hδ
    cases hδ
  · rw [hlist] at he'
    rw [List.inj_on_of_nodup_map hvalid.nodup he' he hkey]
    exact .refl e

theorem readInOrder_of_none (hop : statsOp s a = none) : ReadInOrder s a := by
  unfold ReadInOrder overtaken
  split
  · rename_i change holder timeNow env hnext
    rw [statsOp, hnext] at hop
    cases change <;> cases hop
  · rfl

/-- An operation is in order if no entry that it changes has changed after the time it read. Only the operations that
wait for the lock with their reading can be late. -/
theorem readInOrder_of_some (h : Clocked p) (hle : p.1 ≤ q.1) (hreading : ∀ now ∈ clockReading p.2 a, now = q.1)
    (hr : (program cfg).Ran p.2 a s' t b env c o) (hop : statsOp? env p.2.shared b = some op) :
    ReadInOrder p.2 a ↔ ∀ e ∈ p.2.shared.mStatsList.entries, op.touches e = true → e.lastChange ≤ op.time := by
  have hnext := nextBlock_of_ran hr
  cases b with
  | updateStats change holder timeNow =>
    cases change <;> obtain rfl := Option.some.inj hop <;>
      simp [ReadInOrder, overtaken, hnext, StatsOp.touches, StatsOp.time]
  | updateNow =>
    obtain rfl := Option.some.inj hop
    refine iff_of_true ?_ fun e he _ => ?_
    · rw [ReadInOrder, overtaken, hnext]
    · rw [StatsOp.time, hreading _ (clockReading_of_ran hr rfl)]
      exact (h.changed e he).trans hle
  | _ => cases hop

theorem key_onEntry (op : StatsOp) (e : WakeLockInfo) : (op.onEntry e).key = e.key := by
  cases op with
  | updateOnAcquire key timeNow => rw [StatsOp.onEntry]; split <;> rfl
  | updateOnRelease key timeNow => rw [StatsOp.onEntry]; split <;> rfl
  | updateNow timeNow => exact WakeLockInfo.key_refreshed timeNow e

/-- In real time, a step goes forward if and only if it is not overtaken. -/
theorem stepsForward_iff (h : Clocked p) (hle : p.1 ≤ q.1) (hreading : ∀ now ∈ clockReading p.2 a, now = q.1)
    (hstep : (program cfg).Step p.2 a q.2) : StepsForward p.2 a q.2 ↔ ReadInOrder p.2 a := by
  rcases nextBlock_none_or_ran hstep with ⟨hnext, hshared⟩ | ⟨t, b, env, c, o, hr⟩
  · have hop : statsOp p.2 a = none := by rw [statsOp, hnext]; rfl
    exact iff_of_true (stepsForward_of_none h.valid hop (by rw [hshared])) (readInOrder_of_none hop)
  cases hop : statsOp? env p.2.shared b with
  | none =>
    have hnone : statsOp p.2 a = none := by rw [statsOp_of_ran hr, hop]
    refine iff_of_true (stepsForward_of_none h.valid hnone ?_) (readInOrder_of_none hnone)
    rw [hr.shared]
    exact exec_of_statsOp_none (exec_of_ran hr) hop
  | some op =>
    obtain ⟨-, hentries⟩ := entries_of_ran hr h.valid hop
    rw [readInOrder_of_some h hle hreading hr hop]
    constructor
    · intro hforward e he htouches
      -- the entry stays, with the time of the operation as its last change
      have hmem := StatsOp.onEntry_mem p.2.shared.mStatsList.mCapacity h.valid.nodup he htouches
      rw [← hentries] at hmem
      rw [← StatsOp.lastChange_onEntry htouches]
      exact (hforward.entries e he _ hmem (key_onEntry op e)).lastChange
    · intro horder
      refine ⟨?_, fun e he e' he' hkey => ?_⟩
      · rw [timeDeltas, statsOp_of_ran hr, hop]
        exact StatsOp.timeDeltas_nonneg horder
      · rw [hentries] at he'
        rcases mem_onEntries_cases he' with ⟨v, hv, hvkey, rfl⟩ | ⟨now, -, hnew, -⟩
        · obtain rfl := List.inj_on_of_nodup_map h.valid.nodup hv he (hvkey.trans hkey)
          exact StatsOp.forward_onEntry (horder v hv)
        · exact absurd (hkey ▸ List.mem_map_of_mem he) hnew

def ReadInOrderWith (key : StatsKey) (s : ServiceState) (a : ServiceAction) : Prop :=
  ReadInOrder s a ∧ key ∈ keys s.shared.mStatsList.entries

theorem forward_of_runs (h : Clocked p) {key : StatsKey}
    (hrun : (program cfg).TimedRuns clockReading (ReadInOrderWith key) p q) {e : WakeLockInfo}
    (he : e ∈ p.2.shared.mStatsList.entries) (hkey : e.key = key) :
    ∀ e' ∈ q.2.shared.mStatsList.entries, e'.key = key → Forward e e' := by
  refine (hrun.invariant (I := fun r => Clocked r ∧ ∀ e' ∈ r.2.shared.mStatsList.entries, e'.key = key → Forward e e')
    ⟨h, fun e' he' hkey' => ?_⟩ ?_).2
  · rw [List.inj_on_of_nodup_map h.valid.nodup he' he (hkey'.trans hkey.symm)]
    exact .refl e
  · rintro r r' a hle ⟨horder, hpresent⟩ hreading hstep ⟨hclocked, hforward⟩
    refine ⟨hclocked.step hle hreading hstep, fun e' he' hkey' => ?_⟩
    obtain ⟨v, hv, hvkey⟩ := List.mem_map.mp hpresent
    have hnext := ((stepsForward_iff hclocked hle hreading hstep).mpr horder).entries v hv e' he' (hkey'.trans hvkey.symm)
    exact (hforward v hv hvkey).trans hnext

/-- Runs in real time. A step computes no negative `timeDelta` and moves all entries forward, if and only if it does
not enter the guarded section with a reading that is older than the last change of its entry. Between any two points of
a run of such steps, what `getWakeLockStats` returns for a native entry that was there all the time has not gone back. -/
theorem stats_run_forward {ok : ServiceState → ServiceAction → Prop} {now : Int}
    (h : (program cfg).TimedReach clockReading ok (now, s)) :
    (∀ a now' s', now ≤ now' → (∀ r ∈ clockReading s a, r = now') → (program cfg).step s a = some s' →
      (StepsForward s a s' ↔ ReadInOrder s a)) ∧
    ∀ key now' s', (program cfg).TimedRuns clockReading (ReadInOrderWith key) (now, s) (now', s') →
      ∀ e ∈ s.shared.mStatsList.nativeStats, e.key = key →
      ∀ e' ∈ s'.shared.mStatsList.nativeStats, e'.key = key →
        e.lastChange ≤ e'.lastChange ∧ e.totalTime ≤ e'.totalTime ∧ e.maxTime ≤ e'.maxTime := by
  have hclocked := timedReach_clocked h
  refine ⟨fun a now' s' hle hreading hstep => ?_, fun key now' s' hrun e he hkey e' he' hkey' => ?_⟩
  · exact stepsForward_iff (q := (now', s')) hclocked hle hreading (Program.step_cases hstep)
  · have hforward := forward_of_runs hclocked hrun he hkey e' he' hkey'
    exact ⟨hforward.lastChange, hforward.totalTime, hforward.maxTime⟩

def goAt (now : Int) (t : Tid) (n : Nat) : List (Int × ServiceAction) :=
  List.replicate n (now, .step t { timeNow := now } none)

def goCallAt (now : Int) (t : Tid) (o : Op) (n : Nat) : List (Int × ServiceAction) :=
  (now, .call t (.op o)) :: goAt now t n

/-- The last thing recorded is that client 1 has read the statistics, which have one entry, of this key. -/
def hasRead (key : StatsKey) (s : ServiceState) : Bool :=
  s.log.head? = some (.client 1, .wakeLockStats none s.shared.mStatsList.nativeStats) &&
    s.shared.mStatsList.nativeStats.map WakeLockInfo.key = [key]

theorem entry_of_hasRead {key : StatsKey} (h : hasRead key s = true) :
    ∃ e, e.key = key ∧ s.shared.mStatsList.nativeStats = [e] ∧
      s.log.head? = some (.client 1, .wakeLockStats none [e]) := by
  simp only [hasRead, Bool.and_eq_true, decide_eq_true_eq] at h
  obtain ⟨e, he, hkey⟩ := List.map_eq_singleton_iff.mp h.2
  exact ⟨e, hkey, he, he ▸ h.1⟩

/-- A wake lock is acquired at time 0 and released at time 10. What another thread sees of it at times 5 and 12. -/
theorem stats_run_forward_reads : ∃ s s' e e',
    (program smallConfig).TimedReach clockReading Served (5, s) ∧
    (program smallConfig).TimedRuns clockReading (ReadInOrderWith (str "a", 0)) (5, s) (12, s') ∧
    s.log.head? = some (.client 1, .wakeLockStats none [e]) ∧ s'.log.head? = some (.client 1, .wakeLockStats none [e']) ∧
    e.lastChange ≤ e'.lastChange ∧ e.totalTime ≤ e'.totalTime ∧ e.maxTime ≤ e'.maxTime := by
  obtain ⟨⟨now, s⟩, hreach, hs⟩ := Program.TimedRuns.of_run (program smallConfig) clockReading
    (fun _ a => servedAction a) (0, (program smallConfig).init)
    (goCallAt 0 (.client 0) (.acquireWakeLock .aidl (str "a")) 12 ++ goCallAt 5 (.client 1) .getWakeLockStats 7)
    (fun p => p.1 = 5 && hasRead (str "a", 0) p.2 && ((program smallConfig).timedSteps clockReading
        (fun s a => !overtaken s a && (keys s.shared.mStatsList.entries).contains (str "a", 0)) p
        (goCallAt 10 (.client 0) (.release 0) 12 ++ goCallAt 12 (.client 1) .getWakeLockStats 7)).any fun q =>
      q.1 = 12 && hasRead (str "a", 0) q.2)
    (fun _ _ h => h) (by decide +kernel)
  rw [Bool.and_eq_true, Bool.and_eq_true, decide_eq_true_eq] at hs
  obtain ⟨⟨rfl, hread⟩, hrest⟩ := hs
  have hok : ∀ s a, (!overtaken s a && (keys s.shared.mStatsList.entries).contains (str "a", 0)) = true →
      ReadInOrderWith (str "a", 0) s a := by
    intro s a h
    simpa [ReadInOrderWith, ReadInOrder] using h
  obtain ⟨⟨now', s'⟩, hrun, hs'⟩ := Program.TimedRuns.of_run _ _ _ _ _ _ hok hrest
  rw [Bool.and_eq_true, decide_eq_true_eq] at hs'
  obtain ⟨rfl, hread'⟩ := hs'
  obtain ⟨e, hkey, hentries, hlog⟩ := entry_of_hasRead hread
  obtain ⟨e', hkey', hentries', hlog'⟩ := entry_of_hasRead hread'
  refine ⟨s, s', e, e', ⟨0, hreach⟩, hrun, hlog, hlog', ?_⟩
  exact (stats_run_forward ⟨0, hreach⟩).2 _ _ _ hrun e (by rw [hentries]; exact List.mem_cons_self) hkey e'
    (by rw [hentries']; exact List.mem_cons_self) hkey'

/-- The thread that releases the lock reads the clock at time 10, and another thread updates and reads the
statistics at time 20 before the release enters the guarded section. The `timeDelta` is -10, and the other thread then
sees the entry go back. -/
theorem late_release_runs_backwards : ∃ s s' e e',
    (program smallConfig).TimedReach clockReading Served (20, s) ∧
    timeDeltas s (.step (.client 0) { timeNow := 20 } none) = [-10] ∧
    (program smallConfig).TimedRuns clockReading
      (fun s a => Served s a ∧ (str "a", 0) ∈ keys s.shared.mStatsList.entries) (20, s) (20, s') ∧
    s.log.head? = some (.client 1, .wakeLockStats none [e]) ∧ s'.log.head? = some (.client 1, .wakeLockStats none [e']) ∧
    e.key = (str "a", 0) ∧ e'.key = (str "a", 0) ∧
    e'.lastChange < e.lastChange ∧ e'.totalTime < e.totalTime := by
  obtain ⟨⟨now, s⟩, hreach, hs⟩ := Program.TimedRuns.of_run (program smallConfig) clockReading
    (fun _ a => servedAction a) (0, (program smallConfig).init)
    (goCallAt 0 (.client 0) (.acquireWakeLock .aidl (str "a")) 12 ++ goCallAt 10 (.client 0) (.release 0) 6 ++
      goCallAt 20 (.client 1) .getWakeLockStats 7 ++ goAt 20 (.client 0) 1)
    (fun p => p.1 = 20 && hasRead (str "a", 0) p.2 &&
      timeDeltas p.2 (.step (.client 0) { timeNow := 20 } none) = [-10] &&
      ((program smallConfig).timedSteps clockReading
        (fun s a => servedAction a && (keys s.shared.mStatsList.entries).contains (str "a", 0)) p
        (goAt 20 (.client 0) 2 ++ goCallAt 20 (.client 1) .getWakeLockStats 7)).any fun q =>
      q.1 = 20 && hasRead (str "a", 0) q.2 &&
        (p.2.shared.mStatsList.nativeStats.all fun e => q.2.shared.mStatsList.nativeStats.all fun e' =>
          e'.lastChange < e.lastChange && e'.totalTime < e.totalTime))
    (fun _ _ h => h) (by decide +kernel)
  rw [Bool.and_eq_true, Bool.and_eq_true, Bool.and_eq_true, decide_eq_true_eq, decide_eq_true_eq] at hs
  obtain ⟨⟨⟨rfl, hread⟩, hdelta⟩, hrest⟩ := hs
  have hok : ∀ s a, (servedAction a && (keys s.shared.mStatsList.entries).contains (str "a", 0)) = true →
      Served s a ∧ (str "a", 0) ∈ keys s.shared.mStatsList.entries := by
    intro s a h
    simpa [Served] using h
  obtain ⟨⟨now', s'⟩, hrun, hs'⟩ := Program.TimedRuns.of_run _ _ _ _ _ _ hok hrest
  rw [Bool.and_eq_true, Bool.and_eq_true, decide_eq_true_eq] at hs'
  obtain ⟨⟨rfl, hread'⟩, hback⟩ := hs'
  obtain ⟨e, hkey, hentries, hlog⟩ := entry_of_hasRead hread
  obtain ⟨e', hkey', hentries', hlog'⟩ := entry_of_hasRead hread'
  rw [hentries, hentries'] at hback
  simp only [List.all_cons, List.all_nil, Bool.and_true, Bool.and_eq_true, decide_eq_true_eq] at hback
  exact ⟨s, s', e, e', ⟨0, hreach⟩, hdelta, hrun, hlog, hlog', hkey, hkey', hback.1, hback.2⟩

end runs

end Service

end HardwareInterfaces.Suspend
