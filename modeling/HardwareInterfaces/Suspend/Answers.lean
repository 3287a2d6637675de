import HardwareInterfaces.Suspend.Refinement

/-!
# What the service answers

Every answer of the service is explained by what was recorded before it, in whatever order the threads came to record it.
The abstract machine has each kind of statistics as a fold over the record, so the results about the lists and about the
sleep time, which are about sequences of calls, hold of what clients read and of how long the autosuspend thread
sleeps in any run.
-/

namespace HardwareInterfaces.Suspend

open CppStd Monitor Mutex

theorem WakeupList.run_values {cap : Nat} {updates : List (List StdString)} (hne : ∀ reasons ∈ updates, reasons ≠ []) :
    ∃ l, run cap updates.reverse = some l ∧ l.Valid ∧ l.mCapacity = cap ∧
      l.getWakeupStats = updates.foldr (fun reasons ws => updated cap ws (keyOf reasons)) [] := by
  induction updates with
  | nil => exact ⟨create cap, rfl, create_valid cap, rfl, rfl⟩
  | cons reasons updates ih =>
    obtain ⟨l, hrun, hvalid, hcap, hvalues⟩ := ih fun rs hrs => hne rs (List.mem_cons_of_mem _ hrs)
    obtain ⟨l', hupdate, hvalid', hcap', hvalues'⟩ := update_spec hvalid (hne reasons List.mem_cons_self)
    refine ⟨l', ?_, hvalid', hcap'.trans hcap, ?_⟩
    · rw [List.reverse_cons, run_append, hrun, Option.bind_some, hupdate]
    · rw [hvalues', hvalues, hcap, List.foldr_cons]

namespace Service

open WakeLockEntryList (StatsOp)

def recordedOp? (names : Holder → StatsKey) : Tid × Ev → Option StatsOp
  | (_, .updateStats change h timeNow) => some (PowerManager.statsOp change (names h) timeNow)
  | (_, .updateNow timeNow) => some (.updateNow timeNow)
  | _ => none

def recordedReasons? : Tid × Ev → Option (List StdString)
  | (_, .updateWakeupList wakeupReasons _) => some wakeupReasons
  | _ => none

section machine

variable {cfg : Config} {names : Holder → StatsKey} {p q : PowerManager} {e : Tid × Ev} {log : Log}

theorem step_parts (h : PowerManager.step cfg names p e = some q) :
    q.locks = ((recordedOp? names e).elim p.locks fun op => op.onEntries cfg.statsCapacity p.locks) ∧
    q.wakeups = ((recordedReasons? e).elim p.wakeups fun reasons =>
      WakeupList.updated cfg.statsCapacity p.wakeups (WakeupList.keyOf reasons)) ∧
    q.attempts = ((attempt? e).elim p.attempts fun a => a :: p.attempts) := by
  have hcheck : ∀ {agrees : Bool} {p' : PowerManager}, PowerManager.check agrees p' = some q → p' = q := by
    intro agrees p' h
    exact Option.some.inj (Option.ite_none_right_eq_some.mp h).2
  obtain ⟨t, x⟩ := e
  cases x with
  | incSuspendCounter holder =>
    cases holder with
    | wakeLock wl =>
      obtain rfl := hcheck h
      exact ⟨rfl, rfl, rfl⟩
    | direct name pid =>
      obtain rfl := Option.some.inj h
      exact ⟨rfl, rfl, rfl⟩
  | decSuspendCounter holder =>
    cases holder with
    | wakeLock wl =>
      obtain rfl := hcheck h
      exact ⟨rfl, rfl, rfl⟩
    | direct name pid =>
      obtain rfl := Option.some.inj h
      exact ⟨rfl, rfl, rfl⟩
  | registerCallback cb ret =>
    cases cb <;> cases ret <;> obtain rfl := Option.some.inj h <;> exact ⟨rfl, rfl, rfl⟩
  | _ => first
    | obtain rfl := hcheck h
      exact ⟨rfl, rfl, rfl⟩
    | obtain rfl := Option.some.inj h
      exact ⟨rfl, rfl, rfl⟩

theorem after_parts (h : (powerManager cfg names).after log = some p) :
    p.locks = (log.filterMap (recordedOp? names)).foldr (fun op es => op.onEntries cfg.statsCapacity es) [] ∧
    p.wakeups = (log.filterMap recordedReasons?).foldr
      (fun reasons ws => WakeupList.updated cfg.statsCapacity ws (WakeupList.keyOf reasons)) [] ∧
    p.attempts = log.filterMap attempt? := by
  refine ⟨Machine.run_fold (fun _ _ _ hstep => (step_parts hstep).1) h,
    Machine.run_fold (fun _ _ _ hstep => (step_parts hstep).2.1) h, ?_⟩
  rw [← List.foldr_cons_nil (l := log.filterMap attempt?)]
  exact Machine.run_fold (fun _ _ _ hstep => (step_parts hstep).2.2) h

theorem allowed_of_mem (h : (powerManager cfg names).after log = some p) (he : e ∈ log) :
    ∃ q q', PowerManager.step cfg names q e = some q' := by
  obtain ⟨later, earlier, rfl⟩ := List.append_of_mem he
  obtain ⟨q, q', -, hstep, -⟩ := Machine.run_split h
  exact ⟨q, q', hstep⟩

theorem recordedReasons_ne_nil (h : (powerManager cfg names).after log = some p) :
    ∀ reasons ∈ log.filterMap recordedReasons?, reasons ≠ [] := by
  rintro reasons hmem rfl
  obtain ⟨⟨t, x⟩, he, hreasons⟩ := List.mem_filterMap.mp hmem
  obtain ⟨q, q', hstep⟩ := allowed_of_mem h he
  cases x with
  | updateWakeupList rs evicted =>
    obtain rfl := Option.some.inj hreasons
    cases hstep
  | _ => cases hreasons

end machine

section answers

variable {cfg : Config} {s : ServiceState} {t : Tid} {later earlier : Log}

theorem machine_at {e : Tid × Ev} (h : (program cfg).Reach Served s) (hsplit : s.log = later ++ e :: earlier) :
    ∃ p q, (powerManager cfg s.shared.keyOf).after earlier = some p ∧
      PowerManager.step cfg s.shared.keyOf p e = some q := by
  obtain ⟨r, hr, -⟩ := reach_represents h
  rw [hsplit] at hr
  obtain ⟨p, q, hp, hstep, -⟩ := Machine.run_split hr
  exact ⟨p, q, hp, hstep⟩

theorem of_check {agrees : Bool} {p q : PowerManager} (h : PowerManager.check agrees p = some q) : agrees = true :=
  (Option.ite_none_right_eq_some.mp h).1

/-- What a client reads of the wake lock statistics: the native entries that one thread would have that made the recorded
operations one after the other, which are those of an LRU cache that saw the acquisitions and releases recorded before,
and then what the kernel has. -/
theorem wakeLockStats_answer (cfg : Config) (hcap : 1 ≤ cfg.statsCapacity) (h : (program cfg).Reach Served s)
    {wakeupClass : Option (Directory (Option (Directory File)))} {stats : List WakeLockInfo}
    (hsplit : s.log = later ++ (t, .wakeLockStats wakeupClass stats) :: earlier) :
    ∃ l, WakeLockEntryList.run cfg.statsCapacity (earlier.filterMap (recordedOp? s.shared.keyOf)).reverse = some l ∧
      stats = getWakeLockStats cfg.parseInt l wakeupClass ∧ l.entries.length ≤ cfg.statsCapacity ∧
      WakeLockEntryList.keys l.entries =
        WakeLockEntryList.reference cfg.statsCapacity (earlier.filterMap (recordedOp? s.shared.keyOf)).reverse := by
  obtain ⟨p, q, hp, hstep⟩ := machine_at h hsplit
  obtain rfl : stats = p.locks ++ getKernelWakelockStats cfg.parseInt wakeupClass := of_decide_eq_true (of_check hstep)
  obtain ⟨l, hrun, hvalid, hcapacity, hentries⟩ := WakeLockEntryList.run_entriesAfter hcap
    (earlier.filterMap (recordedOp? s.shared.keyOf)).reverse
  have hlocks : p.locks = l.entries := by
    rw [(after_parts hp).1, ← List.foldl_reverse]
    exact hentries.symm
  refine ⟨l, hrun, by rw [hlocks]; rfl, ?_, ?_⟩
  · rw [← hcapacity]
    exact hvalid.size
  · rw [← (WakeLockEntryList.keys_entriesAfter hcap _).1, ← hentries]

def hubDirectory : Directory (Option (Directory File)) :=
  AList.singleton (str "wakeup0") (some ((AList.singleton (str "active_count") (.content (str "3\n"))).insert (str "name")
    (.content (str "hub\n"))))

def hubEntry : WakeLockInfo := { noKernelStats with name := str "hub", activeCount := 3 }

/-- The last thing recorded is that client 1 has read the statistics, with this kernel wake lock and a cache of these
keys. -/
def hasReadHub (keys : List StatsKey) (s : ServiceState) : Bool :=
  match s.log with
  | (.client 1, .wakeLockStats wakeupClass _) :: earlier =>
    getKernelWakelockStats intValue wakeupClass = [hubEntry] &&
      WakeLockEntryList.reference 2 (earlier.filterMap (recordedOp? s.shared.keyOf)).reverse = keys
  | _ => false

theorem log_of_hasReadHub {keys : List StatsKey} (h : hasReadHub keys s = true) : ∃ wakeupClass stats earlier,
    s.log = (.client 1, .wakeLockStats wakeupClass stats) :: earlier ∧
    getKernelWakelockStats intValue wakeupClass = [hubEntry] ∧
    WakeLockEntryList.reference 2 (earlier.filterMap (recordedOp? s.shared.keyOf)).reverse = keys := by
  unfold hasReadHub at h
  split at h
  · next wakeupClass stats earlier hlog =>
    rw [Bool.and_eq_true, decide_eq_true_eq, decide_eq_true_eq] at h
    exact ⟨wakeupClass, stats, earlier, hlog, h⟩
  · cases h

theorem wakeLockStats_answer_acquired : ∃ s wakeupClass stats earlier l, (program smallConfig).Reach Served s ∧
    s.log = (.client 1, .wakeLockStats wakeupClass stats) :: earlier ∧
    WakeLockEntryList.keys (WakeLockEntryList.entries l) = [(str "a", 0)] ∧ stats = l.entries ++ [hubEntry] := by
  obtain ⟨s, hreach, hs⟩ := Program.Reach.of_run (program smallConfig) (fun _ a => servedAction a)
    (goCall (.client 0) (.acquireWakeLock .aidl (str "a")) 12 ++ goCall (.client 1) .getWakeLockStats 5 ++
      [.step (.client 1) { wakeupClass := some hubDirectory } none])
    (hasReadHub [(str "a", 0)]) (fun _ _ h => h) (by decide +kernel)
  obtain ⟨wakeupClass, stats, earlier, hlog, hkernel, hreference⟩ := log_of_hasReadHub hs
  obtain ⟨l, -, hstats, -, hkeys⟩ :=
    wakeLockStats_answer smallConfig (by decide) hreach (hlog.trans (List.nil_append _).symm)
  refine ⟨s, wakeupClass, stats, earlier, l, hreach, hlog, hkeys.trans hreference, ?_⟩
  rw [hstats, ← hkernel]
  rfl

/-- What a client reads of the wakeup statistics: the combinations of reasons that the last wakeups had, most recent
first, each with the number of its wakeups since it was last entered; and as long as all fit, every recorded wakeup is
counted in one of them. -/
theorem wakeupStats_answer (cfg : Config) (h : (program cfg).Reach Served s) {stats : List WakeupInfo}
    (hsplit : s.log = later ++ (t, .wakeupStats stats) :: earlier) :
    let keys := (earlier.filterMap recordedReasons?).reverse.map WakeupList.keyOf
    WakeupList.names stats = (Lru.recency keys).take cfg.statsCapacity ∧
    (∀ w ∈ stats, WakeupList.CountedSince cfg.statsCapacity keys w.name w.count) ∧
    (keys.dedup.length ≤ cfg.statsCapacity → (∀ w ∈ stats, w.count = keys.count w.name) ∧
      (stats.map WakeupInfo.count).sum = earlier.countP fun e => isDone .wakeups e.2) := by
  intro keys
  obtain ⟨p, q, hp, hstep⟩ := machine_at h hsplit
  obtain rfl : stats = p.wakeups := of_decide_eq_true (of_check hstep)
  have hne := recordedReasons_ne_nil hp
  obtain ⟨l, hrun, -, -, hvalues⟩ := @WakeupList.run_values cfg.statsCapacity _ hne
  obtain ⟨l', hrun', -, -, hcounts⟩ := WakeupList.run_spec cfg.statsCapacity (earlier.filterMap recordedReasons?).reverse
  obtain rfl : l = l' := Option.some.inj (hrun.symm.trans hrun')
  rw [hvalues, ← (after_parts hp).2.1] at hcounts
  have hkeys : WakeupList.keys (earlier.filterMap recordedReasons?).reverse = keys := by
    rw [WakeupList.keys, List.filter_eq_self.mpr fun reasons hmem => by simpa using hne reasons (List.mem_reverse.mp hmem)]
  rw [hkeys] at hcounts
  refine ⟨by rw [hcounts.names, Lru.run_eq_take], hcounts.count, fun hfit => ⟨fun w hw => (hcounts.count w hw).total hfit, ?_⟩⟩
  rw [WakeupList.sum_counts hfit hcounts]
  simp only [keys, List.length_map, List.length_reverse, List.length_filterMap_eq_countP]
  refine congrArg Nat.cast (List.countP_congr fun e _ => ?_)
  obtain ⟨u, x⟩ := e
  cases x <;> simp [recordedReasons?, isDone]

theorem wakeupStats_answer_unknown : ∃ s stats earlier, (program smallConfig).Reach Served s ∧
    s.log = (.client 1, .wakeupStats stats) :: earlier ∧ (stats.map WakeupInfo.count).sum = 1 := by
  obtain ⟨s, hreach, hs⟩ := Program.Reach.of_run (program smallConfig) (fun _ a => servedAction a)
    (toSuspend ++ go (.autosuspend 0) 12 ++ goCall (.client 1) .getWakeupStats 3)
    (fun s => s.log.head? = some (.client 1, .wakeupStats s.shared.mWakeupList.getWakeupStats) &&
      decide (((s.log.tail.filterMap recordedReasons?).reverse.map WakeupList.keyOf).dedup.length ≤ 2) &&
      decide (s.log.tail.countP (fun e => isDone .wakeups e.2) = 1))
    (fun _ _ h => h) (by decide +kernel)
  simp only [Bool.and_eq_true, decide_eq_true_eq] at hs
  obtain ⟨earlier, hlog⟩ := List.head?_eq_some_iff.mp hs.1.1
  rw [hlog, List.tail_cons] at hs
  obtain ⟨-, -, hfit⟩ := wakeupStats_answer smallConfig hreach (hlog.trans (List.nil_append _).symm)
  exact ⟨s, _, earlier, hreach, hlog, by rw [(hfit hs.1.2).2, hs.2]; rfl⟩

/-- How long the autosuspend thread sleeps, by the formula in the comment of `updateSleepTime`: it depends on the
attempts recorded before only, on which of them were bad in a row at the end. -/
theorem sleepTime_answer (cfg : Config) (hconfig : cfg.sleepTimeConfig.Unsigned)
    (hscale : 1 ≤ cfg.sleepTimeConfig.sleepTimeScaleFactor) (h : (program cfg).Reach Served s) {sleepTime : Int}
    {timedOut : Bool} (hsplit : s.log = later ++ (t, .slept sleepTime timedOut) :: earlier)
    (hfit : SleepState.ProductsFit cfg.sleepTimeConfig (earlier.filterMap attempt?)) :
    (∀ scale : Nat, cfg.sleepTimeConfig.sleepTimeScaleFactor = scale →
      sleepTime = SleepState.documentedSleepTime cfg.sleepTimeConfig scale
        (SleepState.badRun cfg.sleepTimeConfig (earlier.filterMap attempt?))) ∧
    min cfg.sleepTimeConfig.baseSleepTime cfg.sleepTimeConfig.maxSleepTime ≤ sleepTime ∧
    sleepTime ≤ max cfg.sleepTimeConfig.baseSleepTime cfg.sleepTimeConfig.maxSleepTime := by
  obtain ⟨p, q, hp, hstep⟩ := machine_at h hsplit
  have hsleep := of_check hstep
  rw [Bool.and_eq_true, decide_eq_true_eq] at hsleep
  rw [hsleep.1, (after_parts hp).2.2]
  have hdoc := SleepState.documented_of_fit hconfig hscale hfit
  exact ⟨hdoc.formula, hdoc.lower, hdoc.upper⟩

theorem sleepTime_answer_first : ∃ s sleepTime earlier, (program smallConfig).Reach Served s ∧
    s.log = (.autosuspend 0, .slept sleepTime true) :: earlier ∧
    sleepTime = SleepState.documentedSleepTime smallConfig.sleepTimeConfig 2 0 := by
  obtain ⟨s, hreach, hs⟩ := Program.Reach.of_run (program smallConfig) (fun _ a => servedAction a)
    (toSleep ++ .wake (.autosuspend 0) :: go (.autosuspend 0) 1 ++ [.step (.autosuspend 0) { timedOut := true } none])
    (fun s => s.log.head? = some (.autosuspend 0, .slept 10 true) &&
      SleepState.badRun ⟨10, 500, 2, 1, 50, true, true⟩ (s.log.tail.filterMap attempt?) = 0)
    (fun _ _ h => h) (by decide +kernel)
  simp only [Bool.and_eq_true, decide_eq_true_eq] at hs
  obtain ⟨earlier, hlog⟩ := List.head?_eq_some_iff.mp hs.1
  rw [hlog, List.tail_cons] at hs
  have hconfig : smallConfig.sleepTimeConfig.Unsigned := ⟨by decide, by decide, by decide, by decide⟩
  have hscale : 1 ≤ smallConfig.sleepTimeConfig.sleepTimeScaleFactor := by decide
  have hsleep := sleepTime_answer smallConfig hconfig hscale hreach (hlog.trans (List.nil_append _).symm)
    (SleepState.productsFit_of_le hconfig hscale (by decide +kernel) _)
  exact ⟨s, _, earlier, hreach, hlog, (hsleep.1 2 rfl).trans (congrArg _ hs.2)⟩

end answers

end Service

end HardwareInterfaces.Suspend
