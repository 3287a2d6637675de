import HardwareInterfaces.Suspend.Answers
import HardwareInterfaces.Suspend.LoopCycles

/-!
# A process that does not suspend the device

Where `wakeup_count` or `state` of sysfs cannot be opened, `main` gives the two ends of a socket pair to `SystemSuspend`
in their place. What the autosuspend thread reads as the wakeup count is then what was written to the other end as a
sleep state, and the read blocks until there is something. The thread itself writes a sleep state only after a read, so
that it waits at its first read, and nothing of what follows an attempt ever happens, until a client forces a suspend
(`fallback_idle`).
-/

namespace HardwareInterfaces.Suspend

open CppStd Monitor Mutex History

inductive Descriptors
  | sysfs
  | socketpair
  deriving DecidableEq

/-- The descriptors that `main` ends up with, from what `open` returned for the two files. -/
def mainDescriptors (wakeupCountFd stateFd : Int) : Descriptors :=
  if wakeupCountFd < 0 || stateFd < 0 then .socketpair else .sysfs

def LoopBlock.beforeRead : LoopBlock → Bool
  | .head _ => true
  | .sleep _ => true
  | .slept _ => true
  | .readWakeupCount _ => true
  | _ => false

namespace Service

def kSleepState : StdString := str "mem"

/-- What an event does to the bytes in the socket: a sleep state is written to one end, and the wakeup count is read from
the other. -/
def socketAfter : Ev → StdString → StdString
  | .suspend true, bytes => bytes ++ kSleepState
  | .forceSuspend true, bytes => bytes ++ kSleepState
  | .readWakeupCount wakeupCount, bytes => bytes.drop wakeupCount.length
  | _, bytes => bytes

def inSocket (log : Log) : StdString := log.foldr (fun e => socketAfter e.2) []

/-- The read of the wakeup count may return these bytes; on a socket it blocks as long as there are none. -/
def Descriptors.gives (fds : Descriptors) (log : Log) (bytes : StdString) : Bool :=
  match fds with
  | .sysfs => true
  | .socketpair => bytes ≠ [] && bytes.isPrefixOf (inSocket log)

def startedAction (fds : Descriptors) (s : ServiceState) (a : ServiceAction) : Bool :=
  servedAction a && match a with
    | .step t env _ =>
      match s.code t with
      | .run (.loop (.readWakeupCount _)) :: _ => Descriptors.gives fds s.log env.bytes
      | _ => true
    | _ => true

/-- Runs of a process that `main` has started with these descriptors. -/
def Started (fds : Descriptors) (s : ServiceState) (a : ServiceAction) : Prop := startedAction fds s a = true

def pastRead : Ev → Bool
  | .readWakeupCount _ => true
  | .wroteWakeupCount .. => true
  | .suspend _ => true
  | _ => false

/-- A read comes after a sleep state was written that is still in the socket, and a write of the thread after a read. -/
def Fed (e : Tid × Ev) (earlier : Log) : Prop :=
  match e.2 with
  | .readWakeupCount _ => inSocket earlier ≠ []
  | .wroteWakeupCount .. => ∃ wakeupCount, (e.1, .readWakeupCount wakeupCount) ∈ earlier
  | .suspend _ => ∃ wakeupCount, (e.1, .readWakeupCount wakeupCount) ∈ earlier
  | _ => True

section log

variable {log : Log} {t : Tid}

theorem written_of_socketAfter {x : Ev} (h : socketAfter x [] ≠ []) : x = .suspend true ∨ x = .forceSuspend true := by
  cases x with
  | suspend success => cases success <;> first | exact Or.inl rfl | exact absurd rfl h
  | forceSuspend success => cases success <;> first | exact Or.inr rfl | exact absurd rfl h
  | readWakeupCount wakeupCount => exact absurd List.drop_nil h
  | _ => exact absurd rfl h

theorem written_of_inSocket (h : inSocket log ≠ []) : ∃ e ∈ log, e.2 = .suspend true ∨ e.2 = .forceSuspend true := by
  induction log with
  | nil => exact absurd rfl h
  | cons e log ih =>
    by_cases hrest : inSocket log = []
    · refine ⟨e, List.mem_cons_self, written_of_socketAfter ?_⟩
      rwa [inSocket, List.foldr_cons, ← inSocket, hrest] at h
    · obtain ⟨e', hmem, he'⟩ := ih hrest
      exact ⟨e', List.mem_cons_of_mem e hmem, he'⟩

theorem no_pastRead (h : Historically Fed log) (hforce : ∀ e ∈ log, e.2 ≠ .forceSuspend true) :
    ∀ e ∈ log, pastRead e.2 = false := by
  induction log with
  | nil => exact fun e he => absurd he List.not_mem_nil
  | cons e log ih =>
    have hnone := ih h.2 fun x hx => hforce x (List.mem_cons_of_mem e hx)
    have hfed : Fed e log := h.1
    have hread : ∀ u wakeupCount, (u, .readWakeupCount wakeupCount) ∉ log := fun u wakeupCount hmem =>
      Bool.noConfusion (hnone _ hmem)
    refine List.forall_mem_cons.mpr ⟨?_, hnone⟩
    obtain ⟨u, x⟩ := e
    cases x with
    | readWakeupCount bytes =>
      obtain ⟨e', hmem, hsuspend | hforced⟩ := written_of_inSocket hfed
      · have hpast := hnone e' hmem
        rw [hsuspend] at hpast
        cases hpast
      · exact absurd hforced (hforce e' (List.mem_cons_of_mem _ hmem))
    | wroteWakeupCount wakeupCount success =>
      obtain ⟨wakeupCount', hmem⟩ := hfed
      exact absurd hmem (hread u wakeupCount')
    | suspend success =>
      obtain ⟨wakeupCount, hmem⟩ := hfed
      exact absurd hmem (hread u wakeupCount)
    | _ => rfl

end log

section runs

variable {cfg : Config} {fds : Descriptors} {s : ServiceState} {t : Tid}

theorem served_of_started {a : ServiceAction} (h : Started fds s a) : Served s a :=
  (Bool.and_eq_true_iff.mp h).1

theorem inSocket_of_read {env : Env} {pick : Option Tid} {shouldSleep : Bool} (h : Started .socketpair s (.step t env pick))
    (hcode : s.code t = [.run (.loop (.readWakeupCount shouldSleep))]) : inSocket s.log ≠ [] := by
  have hgives := (Bool.and_eq_true_iff.mp h).2
  simp only [hcode] at hgives
  obtain ⟨hne, hfront⟩ := Bool.and_eq_true_iff.mp hgives
  intro hnil
  rw [hnil] at hfront
  exact of_decide_eq_true hne (List.prefix_nil.mp (List.isPrefixOf_iff_prefix.mp hfront))

theorem mem_log_of_cycle {log : Log} {x : Ev} (h : x ∈ cycle t log) : (t, x) ∈ log := by
  obtain ⟨e, he, rfl⟩ := List.mem_map.mp ((List.takeWhile_sublist _).subset h)
  obtain ⟨hmem, ht⟩ := List.mem_filter.mp he
  rwa [← of_decide_eq_true (Bool.and_eq_true_iff.mp ht).1]

theorem reach_fed (h : (program cfg).Reach (Started .socketpair) s) : Historically Fed s.log := by
  have hcycle : Inductive cfg (Started .socketpair) (InCycle False) := inCycle_inductive cfg fun hcareful => hcareful.elim
  refine hcycle.historically (fun e log he => ?_) (fun {s t b env pick} _ hok hcode hb hs => ?_) h
  · obtain ⟨u, x⟩ := e
    cases x with
    | readWakeupCount wakeupCount => cases he
    | wroteWakeupCount wakeupCount success => cases he
    | suspend success => cases he
    | _ => trivial
  · cases b with
    | readWakeupCount shouldSleep => exact ⟨inSocket_of_read hok hcode, hs⟩
    | writeWakeupCount wakeupCount =>
      obtain ⟨-, shouldSleep, cyc, -, hcyc⟩ := hb
      have hread : (t, .readWakeupCount wakeupCount) ∈ s.log := mem_log_of_cycle (by simp [hcyc])
      exact ⟨⟨wakeupCount, hread⟩, hs⟩
    | writeState =>
      obtain ⟨wakeupCount, shouldSleep, cyc, -, -, hcyc⟩ := hb
      have hread : (t, .readWakeupCount wakeupCount) ∈ s.log := mem_log_of_cycle (by simp [hcyc])
      exact ⟨⟨wakeupCount, hread⟩, hs⟩
    | readSuspendTime success => exact hs
    | _ =>
      simp only [execLoop]
      split
      · first | exact ⟨trivial, hs⟩ | exact ⟨trivial, trivial, hs⟩ | exact hs
      · first | exact ⟨trivial, hs⟩ | exact hs

theorem summary_nil (config : SleepTimeConfig) : SuspendInfo.summary config [] = {} := by
  simp [SuspendInfo.summary, SuspendInfo.badRuns]

theorem workDone_of_no_attempts (h : (program cfg).Reach Served s) (hnone : attempts s = 0) (w : Block.Work) :
    workDone s w = 0 := by
  have hloops := reach_loops h
  have hworks := reach_onlyLoopWorks h
  have hidle : ∀ t, (∀ u, loopThread s.shared = some u → u = t) → workDone s w = 0 := by
    intro t ht
    have hbalance := reach_balanced w h t fun u hu => owes_eq_zero hworks hloops w fun he => hu (ht u he)
    omega
  cases hthread : loopThread s.shared with
  | none => exact hidle (.client 0) fun u hu => by rw [hthread] at hu; cases hu
  | some t => exact hidle t fun u hu => by rw [hthread] at hu; exact (Option.some.inj hu).symm

/-- Nothing has come of autosuspend: no cycle got past its read, no suspend was attempted, announced or counted. -/
structure KeptAwake (cfg : Config) (s : ServiceState) : Prop where
  points : ∀ t p b, s.code t = p ++ [.run (.loop b)] → b.beforeRead = true
  events : ∀ e ∈ s.log, pastRead e.2 = false
  told : ∀ t success wakeupReasons callbacks, (t, .notifyWakeup success wakeupReasons callbacks) ∉ s.log
  sleep : s.shared.sleep = (Shared.start cfg).sleep
  info : ∀ t info, (t, .suspendInfo info) ∈ s.log → info = {}
  wakeups : ∀ t stats, (t, .wakeupStats stats) ∈ s.log → stats = []

theorem beforeRead_of_no_read (h : (program cfg).Reach Served s) (hread : ∀ wakeupCount, (t, .readWakeupCount wakeupCount) ∉ s.log)
    {p : ThreadCode} {b : LoopBlock} (hcode : s.code t = p ++ [.run (.loop b)]) : b.beforeRead = true := by
  have hcycle : Inductive cfg Served (InCycle False) := inCycle_inductive cfg fun hcareful => hcareful.elim
  have hin : ∀ {wakeupCount}, .readWakeupCount wakeupCount ∉ cycle t s.log := fun hmem =>
    hread _ (mem_log_of_cycle hmem)
  have hpoint := hcycle.reach h t p b hcode
  cases b with
  | gotWakeupCount wakeupCount shouldSleep =>
    obtain ⟨-, cyc, -, hcyc⟩ := hpoint
    exact absurd (by simp [hcyc]) (@hin wakeupCount)
  | awaitCounter wakeupCount | counterIdle wakeupCount | checkTokens wakeupCount | checkCounter wakeupCount
  | writeWakeupCount wakeupCount =>
    obtain ⟨-, shouldSleep, cyc, -, hcyc⟩ := hpoint
    exact absurd (by simp [hcyc]) (@hin wakeupCount)
  | writeState =>
    obtain ⟨wakeupCount, shouldSleep, cyc, -, -, hcyc⟩ := hpoint
    exact absurd (by simp [hcyc]) (@hin wakeupCount)
  | readSuspendTime success | readWakeupReasons success =>
    obtain ⟨success', wakeupCount, shouldSleep, cyc, -, -, hcyc⟩ := hpoint
    exact absurd (by simp [hcyc]) (@hin wakeupCount)
  | _ => rfl

theorem keptAwake_of_no_attempts (h : (program cfg).Reach Served s) (hevents : ∀ e ∈ s.log, pastRead e.2 = false) :
    KeptAwake cfg s := by
  have hattempts : attempts s = 0 := by
    refine List.countP_eq_zero.mpr fun e he hattempt => ?_
    have hpast := hevents e he
    cases hx : e.2 with
    | suspend success =>
      rw [hx] at hpast
      cases hpast
    | _ =>
      rw [hx] at hattempt
      cases hattempt
  have hnone : ∀ w, ∀ e ∈ s.log, isDone w e.2 = false := fun w e he => by
    simpa using List.countP_eq_zero.mp (workDone_of_no_attempts h hattempts w) e he
  have hparts : ∀ {log : Log}, (∀ e ∈ log, e ∈ s.log) →
      log.filterMap attempt? = [] ∧ log.filterMap recordedReasons? = [] := by
    intro log hsub
    refine ⟨List.filterMap_eq_nil_iff.mpr ?_, List.filterMap_eq_nil_iff.mpr ?_⟩
    · rintro ⟨t, x⟩ he
      have hsleep := hnone .sleepTime _ (hsub _ he)
      cases x with
      | updateSleepTime success time => cases hsleep
      | _ => rfl
    · rintro ⟨t, x⟩ he
      have hwakeups := hnone .wakeups _ (hsub _ he)
      cases x with
      | updateWakeupList reasons evicted => cases hwakeups
      | _ => rfl
  have hearlier : ∀ {later earlier : Log} {e : Tid × Ev}, s.log = later ++ e :: earlier → ∀ x ∈ earlier, x ∈ s.log := by
    intro later earlier e hsplit x hx
    rw [hsplit]
    exact List.mem_append_right later (List.mem_cons_of_mem e hx)
  refine ⟨fun t p b hcode => beforeRead_of_no_read h (fun wakeupCount hmem => ?_) hcode, hevents,
    fun t success reasons callbacks hmem => ?_, ?_, fun t info hmem => ?_, fun t stats hmem => ?_⟩
  · cases hevents _ hmem
  · cases hnone .notification _ hmem
  · obtain ⟨p, hp, hrep⟩ := reach_represents h
    rw [hrep.attempts, (after_parts hp).2.2, (hparts fun e he => he).1]
    rfl
  · obtain ⟨later, earlier, hsplit⟩ := List.append_of_mem hmem
    obtain ⟨p, q, hp, hstep⟩ := machine_at h hsplit
    have hinfo : info = SuspendInfo.summary cfg.sleepTimeConfig p.attempts := of_decide_eq_true (of_check hstep)
    rw [hinfo, (after_parts hp).2.2, (hparts (hearlier hsplit)).1]
    exact summary_nil cfg.sleepTimeConfig
  · obtain ⟨later, earlier, hsplit⟩ := List.append_of_mem hmem
    obtain ⟨p, q, hp, hstep⟩ := machine_at h hsplit
    have hstats : stats = p.wakeups := of_decide_eq_true (of_check hstep)
    rw [hstats, (after_parts hp).2.1, (hparts (hearlier hsplit)).2]
    rfl

/-- Where `main` falls back on the socket pair, autosuspend comes to nothing as long as no client has forced a suspend.
-/
theorem fallback_idle (cfg : Config) {wakeupCountFd stateFd : Int} (hfd : wakeupCountFd < 0 ∨ stateFd < 0)
    (h : (program cfg).Reach (Started (mainDescriptors wakeupCountFd stateFd)) s)
    (hforce : ∀ t, (t, .forceSuspend true) ∉ s.log) : KeptAwake cfg s := by
  have hpair : mainDescriptors wakeupCountFd stateFd = .socketpair := if_pos (by simpa using hfd)
  rw [hpair] at h
  refine keptAwake_of_no_attempts (h.mono fun _ _ => served_of_started) (no_pastRead (reach_fed h) ?_)
  rintro ⟨t, x⟩ he rfl
  exact hforce t he

theorem fallback_idle_waits : ∃ s, (program smallConfig).Reach (Started (mainDescriptors (-1) 4)) s ∧
    s.code (.autosuspend 0) = [.run (.loop (.readWakeupCount true))] ∧ KeptAwake smallConfig s := by
  obtain ⟨s, hreach, hs⟩ := Program.Reach.of_run (program smallConfig) (startedAction (mainDescriptors (-1) 4))
    (toSleep ++ .wake (.autosuspend 0) :: go (.autosuspend 0) 1 ++
      .step (.autosuspend 0) { timedOut := true } none :: go (.autosuspend 0) 2)
    (fun s => s.code (.autosuspend 0) = [.run (.loop (.readWakeupCount true))] &&
      s.log.all fun e => decide (e.2 ≠ .forceSuspend true))
    (fun _ _ h => h) (by decide +kernel)
  simp only [Bool.and_eq_true, decide_eq_true_eq, List.all_eq_true] at hs
  exact ⟨s, hreach, hs.1, fallback_idle smallConfig (Or.inl (by decide)) hreach fun t hmem => hs.2 _ hmem rfl⟩

/-- A forced suspend fills the socket: the thread takes the sleep state for a wakeup count and makes an attempt. -/
theorem forced_into_socket : ∃ s, (program smallConfig).Reach (Started .socketpair) s ∧
    s.log.head? = some (.autosuspend 0, .suspend true) ∧ inSocket s.log = kSleepState := by
  obtain ⟨s, hreach, hs⟩ := Program.Reach.of_run (program smallConfig) (startedAction .socketpair)
    (toSleep ++ .wake (.autosuspend 0) :: go (.autosuspend 0) 1 ++
      .step (.autosuspend 0) { timedOut := true } none :: go (.autosuspend 0) 2 ++
      goCall (.client 1) .forceSuspend 4 ++ .step (.autosuspend 0) { bytes := kSleepState } none ::
      go (.autosuspend 0) 11)
    (fun s => s.log.head? = some (.autosuspend 0, .suspend true) && inSocket s.log = kSleepState)
    (fun _ _ h => h) (by decide +kernel)
  simp only [Bool.and_eq_true, decide_eq_true_eq] at hs
  exact ⟨s, hreach, hs.1, hs.2⟩

end runs

end Service

end HardwareInterfaces.Suspend
