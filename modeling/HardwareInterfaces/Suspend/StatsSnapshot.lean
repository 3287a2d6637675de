import HardwareInterfaces.Lib.Ostream
import HardwareInterfaces.Suspend.LoopCycles
import HardwareInterfaces.Suspend.Progress
import HardwareInterfaces.Suspend.SafeSuspend
import HardwareInterfaces.Suspend.SuspendStats
import HardwareInterfaces.Suspend.WakeupEvents

/-!
# The snapshot of the suspend statistics

`getSuspendStats` reads the files of the kernel one after the other, and each attempt to suspend changes several of them.
It holds a wake lock of its own meanwhile, in a local variable that no client gets hold of: as long as that is in scope
it counts, the autosuspend thread does not come past its check of the counter, and the files stay as they are. So what is
read over time, with every other thread going on, is what could have been read at once (`consistent_snapshot`).

The lock does not hold up `forceSuspend`, and without a lock, when the service is not found, there is no such promise.
-/

namespace HardwareInterfaces.Suspend.Service

open CppStd Monitor Mutex

/-! ### The lock in the local variable -/

/-- Nobody but its destructor releases a lock in a local variable. -/
def LocalUncalled (s : ServiceState) : Prop :=
  ∀ wl w, s.shared.wakeLocks[wl]? = some w → w.isLocal = true → w.destruction = .alive → (wl, .call) ∉ lockLog s

section locals

variable {cfg : Config} {s s' : ServiceState} {a : ServiceAction} {t : Tid} {b : Block} {env : Env} {σ σ' : Shared}
  {c : ThreadCode} {o : Out} {wl : Nat} {w w' : WakeLock}

theorem Transition.alive_before (h : Transition t wl w b w') (halive : w'.destruction = .alive) :
    w.destruction = .alive ∧ b ≠ .beginDestroy wl := by
  cases h with
  | finish destructor phase once inside =>
    cases destructor with
    | false => exact ⟨halive, by simp⟩
    | true => cases halive
  | past destructor phase once inside =>
    cases destructor with
    | false => exact ⟨halive, by simp⟩
    | true => cases halive
  | destroy phase alive block => cases halive
  | ended phase once destruction => cases halive
  | _ => exact ⟨halive, by simp⟩

theorem LockChange.alive_before (h : LockChange t b σ σ') (hw' : σ'.wakeLocks[wl]? = some w') (hlt : wl < σ.wakeLocks.length)
    (halive : w'.destruction = .alive) :
    (∃ w, σ.wakeLocks[wl]? = some w ∧ w.isLocal = w'.isLocal ∧ w.destruction = .alive) ∧ b ≠ .beginDestroy wl := by
  cases h with
  | same locks block =>
    rw [locks] at hw'
    refine ⟨⟨w', hw', rfl, halive⟩, ?_⟩
    rintro rfl
    cases block
  | new w₁ locks fresh block =>
    rw [locks, List.getElem?_append_left hlt] at hw'
    refine ⟨⟨w', hw', rfl, halive⟩, ?_⟩
    rintro rfl
    cases block
  | change wl' w₁ w₂ before locks transition =>
    rw [locks] at hw'
    by_cases hwl : wl' = wl
    · subst hwl
      rw [List.getElem?_set_self hlt] at hw'
      obtain rfl := Option.some.inj hw'
      obtain ⟨hbefore, hb⟩ := transition.alive_before halive
      exact ⟨⟨w₁, before, transition.keepsLocal.1.symm, hbefore⟩, hb⟩
    · rw [List.getElem?_set_ne hwl] at hw'
      refine ⟨⟨w', hw', rfl, halive⟩, ?_⟩
      rintro rfl
      cases transition with
      | destroy phase alive block =>
        rcases block with hb | hb
        · exact hwl (Block.beginDestroy.inj hb).symm
        · cases hb

theorem uncalled_ran (hr : (program cfg).Ran s a s' t b env c o) (hw : s.shared.wakeLocks[wl]? = some w)
    (hlocal : w.isLocal = true) (hb : b ≠ .beginDestroy wl) : (wl, .call) ∉ lockEvents b := by
  have hexec := exec_of_ran hr
  intro hcall
  unfold lockEvents at hcall
  split at hcall
  · cases List.mem_singleton.mp hcall
  · cases List.mem_singleton.mp hcall
  · obtain rfl : wl = _ := (Prod.mk.inj (List.mem_singleton.mp hcall)).1
    simp [exec, execOp, release, hw, WakeLock.visible, hlocal] at hexec
  · obtain rfl : wl = _ := (Prod.mk.inj (List.mem_singleton.mp hcall)).1
    simp [exec, execOp, destroyWakeLock, hw, WakeLock.visible, hlocal] at hexec
  · obtain rfl : wl = _ := (Prod.mk.inj (List.mem_singleton.mp hcall)).1
    exact hb rfl
  · cases List.mem_singleton.mp hcall
  · cases hcall

theorem LocalUncalled.ran (h : LocalUncalled s) (hlocks : Locks s) (hlog : LogInv s)
    (hr : (program cfg).Ran s a s' t b env c o) : LocalUncalled s' := by
  intro wl w' hw' hlocal halive hcall
  rw [lockLog_ran hr] at hcall
  by_cases hlt : wl < s.shared.wakeLocks.length
  · obtain ⟨⟨w, hw, hsame, hbefore⟩, hb⟩ := (hlocks.ran hr).2.alive_before hw' hlt halive
    rw [← hsame] at hlocal
    rcases List.mem_append.mp hcall with hnew | hold
    · exact uncalled_ran hr hw hlocal hb hnew
    · exact h wl w hw hlocal hbefore hold
  · rcases List.mem_append.mp hcall with hnew | hold
    · exact hlt (hlocks.event_made hr _ hnew)
    · exact hlt (hlog.made _ hold)

theorem reach_localUncalled {ok : ServiceState → ServiceAction → Prop} (h : (program cfg).Reach ok s) :
    LocalUncalled s := by
  refine h.invariant (fun wl w hw => ?_) fun s a s' hreach _ hs hstep => ?_
  · simp [Program.init, program, Shared.start] at hw
  · rcases hstep.quiet_or_ran with hq | ⟨t, b, env, c, o, hr⟩
    · unfold LocalUncalled
      rw [hq.shared, lockLog_quiet hq]
      exact hs
    · exact hs.ran (reach_locks hreach) (reach_logInv hreach) hr

end locals

/-! ### The reader -/

/-- `t` is in the scope of its lock, past the acquisition: it reads the files. -/
def Reading (s : ServiceState) (t : Tid) : Prop := ∃ wl c, s.code t = .run (.beginDestroy wl) :: c

def forcesAction (s : ServiceState) : ServiceAction → Bool
  | .step t _ _ => (s.code t).head? = some (.run .forceSuspend)
  | _ => false

def Unforced (s : ServiceState) (a : ServiceAction) : Prop := FewLocks s a ∧ forcesAction s a = false

/-- What the kernel tells in the files of its suspend_stats after so many events; attempts to suspend change it, and
nothing else. -/
structure KernelStats where
  files : Log → Directory File
  unchanged : ∀ e log, (∀ success, e.2 ≠ .suspend success ∧ e.2 ≠ .forceSuspend success) → files (e :: log) = files log

def KernelStats.now (K : KernelStats) (s : ServiceState) : Directory File := K.files s.log

theorem KernelStats.unchanged_append (K : KernelStats) {new log : Log}
    (h : ∀ e ∈ new, ∀ success, e.2 ≠ .suspend success ∧ e.2 ≠ .forceSuspend success) :
    K.files (new ++ log) = K.files log := by
  induction new with
  | nil => rfl
  | cons e new ih =>
    rw [List.cons_append, K.unchanged e _ (h e List.mem_cons_self)]
    exact ih fun e' he' => h e' (List.mem_cons_of_mem e he')

section reading

variable {cfg : Config} {s s' : ServiceState} {a : ServiceAction} {t : Tid}

theorem Reading.counts {ok : ServiceState → ServiceAction → Prop} (h : Reading s t) (hreach : (program cfg).Reach ok s) :
    0 < unreleased s.shared := by
  obtain ⟨wl, c, hcode⟩ := h
  have hlocal := reach_localLocks hreach
  obtain ⟨w, hw, hphase, halive⟩ := hlocal.returned (reach_locks hreach) hcode
  obtain ⟨w', hw', hown, -, -⟩ := hlocal.own t wl (by rw [hcode, Code.duties_run]; exact List.mem_cons_self)
  obtain rfl := Option.some.inj (hw.symm.trans hw')
  have honce : w.mReleased = .idle := by
    by_contra hne
    exact reach_localUncalled hreach wl w hw hown halive ((reach_logInv hreach).call wl w hw (Or.inl hne))
  refine List.countP_pos_iff.mpr ⟨w, List.mem_of_getElem? hw, ?_⟩
  simp [WakeLock.unreleased, WakeLock.incremented, WakeLock.decremented, hphase, honce]

/-- So the autosuspend thread is not about to write "mem". -/
theorem Reading.no_writeState (h : Reading s t) (hmode : cfg.useSuspendCounter = true)
    (hreach : (program cfg).Reach Served s) (hfew : unreleasedLocks s < counterModulus) {u : Tid} {c : ThreadCode} :
    s.code u ≠ .run (.loop .writeState) :: c := by
  intro hcode
  obtain ⟨-, hcounter⟩ := (hreach.annotated (typing_sound cfg) (checked_annotates cfg) u).1 _ _ hcode
  have hcounted := reach_counted hreach
  rw [Counted, if_pos hmode, hcounter, ← (reach_logInv hreach).unreleasedLocks_eq, Nat.mod_eq_of_lt hfew,
    (reach_logInv hreach).unreleasedLocks_eq] at hcounted
  exact absurd hcounted (Nat.ne_of_lt (h.counts hreach))

/-- Whatever the others do, the lock stays in its scope and the files stay as they are. -/
theorem Reading.step (h : Reading s t) (K : KernelStats) (hmode : cfg.useSuspendCounter = true)
    (hreach : (program cfg).Reach FewLocks s) (hok : Unforced s a) (ha : ¬ a.By t) (hstep : (program cfg).Step s a s') :
    Reading s' t ∧ K.now s' = K.now s := by
  obtain ⟨wl, c, hcode⟩ := h
  have hsame := hstep.others_busy ha (by rw [hcode]; simp)
  refine ⟨⟨wl, c, hsame.trans hcode⟩, ?_⟩
  rcases hstep.quiet_or_ran with hq | ⟨u, b, env, c', o, hr⟩
  · rw [KernelStats.now, hq.log, KernelStats.now]
  · rw [KernelStats.now, hr.log]
    refine K.unchanged_append fun e he success => ?_
    obtain ⟨x, hx, rfl⟩ := List.mem_map.mp he
    refine ⟨?_, ?_⟩
    · rintro rfl
      obtain rfl := block_of_suspend (exec_of_ran hr) hx
      exact Reading.no_writeState ⟨wl, c, hcode⟩ hmode (hreach.mono fun _ _ h => h.1) hok.1.2 hr.code
    · rintro rfl
      obtain rfl := block_of_forceSuspend (exec_of_ran hr) hx
      obtain ⟨pick, rfl, -⟩ := hr.action
      have hunforced := hok.2
      simp [forcesAction, hr.code] at hunforced

theorem Reading.others (h : Reading s t) (K : KernelStats) (hmode : cfg.useSuspendCounter = true)
    (hreach : (program cfg).Reach FewLocks s) (hothers : (program cfg).Others Unforced t s s') :
    Reading s' t ∧ K.now s' = K.now s := by
  induction hothers with
  | refl => exact ⟨h, rfl⟩
  | tail hprefix hstep ih =>
    obtain ⟨a, ⟨hok, ha⟩, hstep⟩ := hstep
    have hmiddle : (program cfg).Reach FewLocks _ :=
      Program.Others.reach hreach (Program.Runs.mono (fun _ _ hok => ⟨hok.1.1, hok.2⟩) hprefix)
    obtain ⟨hreading, hfiles⟩ := ih.1.step K hmode hmiddle hok ha (Program.step_cases hstep)
    exact ⟨hreading, hfiles.trans ih.2⟩

end reading

/-- The statistics that `getSuspendStats` returns are those of one moment: it may read the files one after the other
while all other threads go on, as long as none forces a suspend. None of them comes to its write of "mem" meanwhile. -/
theorem consistent_snapshot (cfg : Config) (hmode : cfg.useSuspendCounter = true) {s : ServiceState}
    (h : (program cfg).Reach FewLocks s) {t : Tid} (hreading : Reading s t) (K : KernelStats)
    {result : Except SuspendStats.Failure SuspendStats}
    (hreads : ReadsAlong K.now .failsOpen ((program cfg).Others Unforced t) SuspendStats.readStat s 0 {} result) :
    result = SuspendStats.getSuspendStats (some (K.now s)) ∧
    ∀ s', (program cfg).Others Unforced t s s' → unreleasedLocks s' < counterModulus →
      ∀ u c, s'.code u ≠ .run (.loop .writeState) :: c := by
  refine ⟨hreads.at_once .refl (fun _ _ _ => .trans) fun _ hothers => (hreading.others K hmode h hothers).2, ?_⟩
  intro s' hothers hfew u c
  have hreach : (program cfg).Reach FewLocks s' :=
    Program.Others.reach h (Program.Runs.mono (fun _ _ hok => ⟨hok.1.1, hok.2⟩) hothers)
  exact (hreading.others K hmode h hothers).1.no_writeState hmode (hreach.mono fun _ _ hok => hok.1) hfew

def outcomes : KernelStats where
  files log := (AList.singleton (str "success") (.content (toDecimal (log.countP fun e => e.2 = .suspend true)))).insert
    (str "fail") (.content (toDecimal (log.countP fun e => e.2 = .suspend false)))
  unchanged e log h := by
    rw [List.countP_cons_of_neg (by simpa using (h false).1), List.countP_cons_of_neg (by simpa using (h true).1)]

def besidesReader (s : ServiceState) (a : ServiceAction) : Bool :=
  servedAction a && decide (unreleasedLocks s < counterModulus) && !forcesAction s a && match a with
    | .step t _ _ => t ≠ .client 1
    | .call t _ => t ≠ .client 1
    | _ => false

theorem besidesReader_spec (s : ServiceState) (a : ServiceAction) (h : besidesReader s a = true) :
    Unforced s a ∧ ¬ a.By (.client 1) := by
  unfold besidesReader at h
  simp only [Bool.and_eq_true, decide_eq_true_eq, Bool.not_eq_true'] at h
  obtain ⟨⟨⟨hserved, hfew⟩, hforce⟩, hother⟩ := h
  refine ⟨⟨⟨hserved, hfew⟩, hforce⟩, ?_⟩
  cases a with
  | step t env pick =>
    have hne : t ≠ .client 1 := of_decide_eq_true hother
    exact hne
  | call t b =>
    have hne : t ≠ .client 1 := of_decide_eq_true hother
    exact hne
  | _ => cases hother

def suspendedOnce (s : ServiceState) : Bool :=
  s.log.countP (fun e => e.2 = .suspend true) = 1 && s.log.countP (fun e => e.2 = .suspend false) = 0

theorem now_of_suspendedOnce {s : ServiceState} (h : suspendedOnce s = true) :
    outcomes.now s = (AList.singleton (str "success") (.content (str "1"))).insert (str "fail") (.content (str "0")) := by
  rw [suspendedOnce, Bool.and_eq_true, decide_eq_true_eq, decide_eq_true_eq] at h
  simp only [KernelStats.now, outcomes, h.1, h.2]
  rfl

/-- After a suspend a client begins to read. Before it opens the first of two files the autosuspend thread ends its
cycle, and before it opens the second one another client acquires a wake lock. -/
theorem consistent_snapshot_two : ∃ s s₁ s₂ result, (program smallConfig).Reach FewLocks s ∧ Reading s (.client 1) ∧
    (program smallConfig).Others Unforced (.client 1) s s₁ ∧ (program smallConfig).Others Unforced (.client 1) s₁ s₂ ∧
    s₁.code (.autosuspend 0) ≠ s.code (.autosuspend 0) ∧ unreleasedLocks s₁ < unreleasedLocks s₂ ∧
    ReadsAlong outcomes.now .failsOpen ((program smallConfig).Others Unforced (.client 1)) SuspendStats.readStat s 0 {} result ∧
    result = SuspendStats.getSuspendStats (some (outcomes.now s)) ∧
    ∀ c, s₂.code (.autosuspend 0) ≠ .run (.loop .writeState) :: c := by
  obtain ⟨s, hreach, hs⟩ := Program.Reach.of_run (program smallConfig)
    (fun s a => servedAction a && decide (unreleasedLocks s < counterModulus))
    (toSuspend ++ go (.autosuspend 0) 3 ++ goCall (.client 1) .getSuspendStats 12)
    (fun s => (s.code (.client 1)).head? = some (.run (.beginDestroy 0)) && suspendedOnce s &&
      ((program smallConfig).steps besidesReader s (go (.autosuspend 0) 15)).any fun s₁ =>
        suspendedOnce s₁ && s₁.code (.autosuspend 0) ≠ s.code (.autosuspend 0) &&
        ((program smallConfig).steps besidesReader s₁ (goCall (.client 2) (.acquireWakeLock .aidl (str "wl")) 12)).any
          fun s₂ => suspendedOnce s₂ && unreleasedLocks s₁ < unreleasedLocks s₂ && unreleasedLocks s₂ < counterModulus)
    (fun _ _ hok => by simpa [FewLocks, Served] using hok) (by decide +kernel)
  simp only [Bool.and_eq_true, decide_eq_true_eq, Option.any_eq_true] at hs
  obtain ⟨⟨hhead, honce⟩, s₁, hrun₁, ⟨honce₁, hmoved⟩, s₂, hrun₂, ⟨honce₂, hmore⟩, hfew⟩ := hs
  obtain ⟨c, hcode⟩ := List.head?_eq_some_iff.mp hhead
  have hothers₁ : (program smallConfig).Others Unforced (.client 1) s s₁ := Program.Runs.steps besidesReader_spec hrun₁
  have hothers₂ : (program smallConfig).Others Unforced (.client 1) s₁ s₂ := Program.Runs.steps besidesReader_spec hrun₂
  have hfirst : (outcomes.now s).entries[0]? = some ⟨str "fail", .content (str "0")⟩ := by
    rw [now_of_suspendedOnce honce]
    rfl
  have hsecond : (outcomes.now s₁).entries[1]? = some ⟨str "success", .content (str "1")⟩ := by
    rw [now_of_suspendedOnce honce₁]
    rfl
  have hended : ReadsAlong outcomes.now .failsOpen ((program smallConfig).Others Unforced (.client 1))
      SuspendStats.readStat s₂ 2 { success := 1 } (.ok { success := 1 }) :=
    .ended .refl (by rw [now_of_suspendedOnce honce₂]; rfl)
  have hrest : ReadsAlong outcomes.now .failsOpen ((program smallConfig).Others Unforced (.client 1))
      SuspendStats.readStat s₁ 1 {} (.ok { success := 1 }) :=
    .turned .refl hsecond hothers₂ (by rw [now_of_suspendedOnce honce₂]; rfl) hended
  have hreads : ReadsAlong outcomes.now .failsOpen ((program smallConfig).Others Unforced (.client 1))
      SuspendStats.readStat s 0 {} (.ok { success := 1 }) :=
    .turned .refl hfirst hothers₁ (by rw [now_of_suspendedOnce honce₁]; rfl) hrest
  obtain ⟨hresult, hwrite⟩ := consistent_snapshot smallConfig rfl hreach ⟨0, c, hcode⟩ outcomes hreads
  exact ⟨s, s₁, s₂, _, hreach, ⟨0, c, hcode⟩, hothers₁, hothers₂, hmoved, hmore, hreads, hresult,
    hwrite s₂ (hothers₁.trans hothers₂) hfew _⟩

end HardwareInterfaces.Suspend.Service
