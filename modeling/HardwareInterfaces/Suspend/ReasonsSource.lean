import HardwareInterfaces.Suspend.FurtherEffects

/-!
# The descriptor of the wakeup reasons

After each suspend the autosuspend thread reads the wakeup reasons through `mWakeupReasonsFd`. When the read fails it
opens the file again, by the name `/proc/self/fd/N` of that same descriptor, and puts the result in its place, also
when the open fails: the descriptor is then gone, with the only name of the file the service has. A descriptor
that is not negative refers to the file, since it was opened through one that did.
-/

namespace HardwareInterfaces.Suspend.Service

open CppStd Monitor Mutex

section blocks

variable {env : Env} {σ : Shared}

theorem wakeupReasons_of_fd (hfd : 0 ≤ σ.mWakeupReasonsFd) :
    wakeupReasons env σ =
      (readWakeupReasons env.content,
        if readWakeupReasons env.content = [kErrorWakeup] then reopenFileUsingFd env σ.mWakeupReasonsFd else σ.mWakeupReasonsFd) := by
  simp only [wakeupReasons, if_neg (Int.not_lt.mpr hfd)]

theorem reopenFileUsingFd_nonneg {fd : Int} : 0 ≤ reopenFileUsingFd env fd ↔ 0 ≤ fd ∧ 0 ≤ env.fd := by
  unfold reopenFileUsingFd
  split <;> omega

end blocks

/-! ### Runs -/

/-- A read of the reasons that fails is followed by an open that does not. -/
def reopensWork (s : ServiceState) : ServiceAction → Bool
  | .step t env _ =>
    match s.code t with
    | .run (.loop (.readWakeupReasons _)) :: _ => readWakeupReasons env.content ≠ [kErrorWakeup] || decide (0 ≤ env.fd)
    | _ => true
  | _ => true

def ReopensWork (s : ServiceState) (a : ServiceAction) : Prop := reopensWork s a = true

section runs

variable {cfg : Config} {s s' : ServiceState} {a : ServiceAction} {t : Tid} {b : Block} {env : Env} {c : ThreadCode}
  {o : Out} {success : Bool} {pick : Option Tid}

theorem reopensWork_at (hcode : s.code t = .run (.loop (.readWakeupReasons success)) :: c) :
    ReopensWork s (.step t env pick) ↔ (readWakeupReasons env.content = [kErrorWakeup] → 0 ≤ env.fd) := by
  simp only [ReopensWork, reopensWork, hcode, Bool.or_eq_true, decide_eq_true_eq]
  exact Classical.or_iff_not_imp_left.trans (by rw [not_not])

theorem reopensWork_elsewhere (hcode : s.code t = .run b :: c) (hb : b.readsReasons = false) :
    ReopensWork s (.step t env pick) := by
  simp only [ReopensWork, reopensWork, hcode]
  split
  · rename_i hread
    cases hread
    cases hb
  · rfl

theorem eq_of_readsReasons (hb : b.readsReasons = true) : ∃ success, b = .loop (.readWakeupReasons success) := by
  cases b with
  | loop point =>
    cases point with
    | readWakeupReasons success => exact ⟨success, rfl⟩
    | _ => cases hb
  | _ => cases hb

/-- From a state with a descriptor, a block loses it exactly if its attempt to open the file again fails. -/
theorem ran_fd (hr : (program cfg).Ran s a s' t b env c o) (hfd : 0 ≤ s.shared.mWakeupReasonsFd) :
    0 ≤ o.state.mWakeupReasonsFd ↔ ReopensWork s a := by
  obtain ⟨pick, rfl, -⟩ := hr.action
  cases hb : b.readsReasons with
  | false =>
    rw [(exec_aside (exec_of_ran hr)).reasons hb]
    exact iff_of_true hfd (reopensWork_elsewhere hr.code hb)
  | true =>
    obtain ⟨success, rfl⟩ := eq_of_readsReasons hb
    obtain rfl := Option.some.inj (exec_of_ran hr)
    rw [reopensWork_at hr.code]
    simp only [execLoop, wakeupReasons_of_fd hfd]
    split
    · rename_i herror
      rw [reopenFileUsingFd_nonneg]
      exact ⟨fun h _ => h.2, fun h => ⟨hfd, h herror⟩⟩
    · rename_i hread
      exact iff_of_true hfd fun herror => absurd herror hread

theorem reopensWork_of_not_run (hcode : ∀ b c, s.code t ≠ .run b :: c) : ReopensWork s (.step t env pick) := by
  simp only [ReopensWork, reopensWork]
  split
  · rename_i hread
    exact absurd hread (hcode _ _)
  · rfl

theorem step_fd (h : (program cfg).step s a = some s') (hfd : 0 ≤ s.shared.mWakeupReasonsFd) :
    0 ≤ s'.shared.mWakeupReasonsFd ↔ ReopensWork s a := by
  cases Program.step_cases h with
  | lock awake code free => exact iff_of_true hfd (reopensWork_of_not_run (by simp [code]))
  | unlock awake code => exact iff_of_true hfd (reopensWork_of_not_run (by simp [code]))
  | wait awake code => exact iff_of_true hfd (reopensWork_of_not_run (by simp [code]))
  | run awake code exec spawn notified =>
    have hr : (program cfg).Ran s _ (s.ran _ _ _ _) _ _ _ _ _ := ⟨⟨_, rfl, notified⟩, awake, code, exec, spawn, rfl⟩
    exact ran_fd hr hfd
  | wake parked => exact iff_of_true hfd rfl
  | call idle awake entry => exact iff_of_true hfd rfl
  | env external => exact iff_of_true hfd rfl

theorem step_lost (h : (program cfg).step s a = some s') (hfd : s.shared.mWakeupReasonsFd < 0) :
    s'.shared.mWakeupReasonsFd < 0 := by
  rcases (Program.step_cases h).quiet_or_ran with hq | ⟨t, b, env, c, o, hr⟩
  · rwa [hq.shared]
  · rw [hr.shared]
    cases hb : b.readsReasons with
    | false => rwa [(exec_aside (exec_of_ran hr)).reasons hb]
    | true =>
      obtain ⟨success, rfl⟩ := eq_of_readsReasons hb
      obtain rfl := Option.some.inj (exec_of_ran hr)
      have hnone : ¬ 0 ≤ (wakeupReasons env s.shared).2 := by
        simp only [wakeupReasons, if_pos hfd]
        split
        · rw [reopenFileUsingFd_nonneg]
          omega
        · omega
      exact not_le.mp hnone

theorem runs_lost {ok : ServiceState → ServiceAction → Prop} (h : (program cfg).Runs ok s s')
    (hfd : s.shared.mWakeupReasonsFd < 0) : s'.shared.mWakeupReasonsFd < 0 := by
  induction h with
  | refl => exact hfd
  | tail _ hstep ih =>
    obtain ⟨a, -, hstep⟩ := hstep
    exact step_lost hstep ih

def reportReasons (success : Bool) (reasons : List StdString) : ThreadCode :=
  lockGuard wakeupListLock [.run (.updateWakeupList reasons)] ++ callNotifyWakeup success reasons ++
    .lock mAutosuspendLock :: goto (.head true)

theorem step_reports (hcode : s.code t = .run (.loop (.readWakeupReasons success)) :: c)
    (h : (program cfg).step s (.step t env pick) = some s') :
    s'.code t = reportReasons success (wakeupReasons env s.shared).1 ++ c := by
  obtain ⟨o, hr⟩ := (Program.step_cases h).ran_of_code hcode
  have ho := Option.some.inj (exec_of_ran hr)
  rw [hr.after, State.ran_code_self, ← ho]
  rfl

/-- In every run whose attempts to open the file again all succeed, the descriptor refers to the file in every state,
and each wakeup reports what the file says at that time. The next attempt that fails loses the descriptor. -/
theorem reasons_source_kept (hfd : 0 ≤ cfg.wakeupReasonsFd) (h : (program cfg).Reach ReopensWork s) :
    0 ≤ s.shared.mWakeupReasonsFd ∧
    (∀ a s', (program cfg).step s a = some s' → (0 ≤ s'.shared.mWakeupReasonsFd ↔ ReopensWork s a)) ∧
    ∀ t env pick success c s', s.code t = .run (.loop (.readWakeupReasons success)) :: c →
      (program cfg).step s (.step t env pick) = some s' →
      s'.code t = reportReasons success (readWakeupReasons env.content) ++ c := by
  have hkept : 0 ≤ s.shared.mWakeupReasonsFd := by
    induction h with
    | init => exact hfd
    | step _ hallowed hstep ih => exact (step_fd hstep ih).mpr hallowed
  refine ⟨hkept, fun a s' hstep => step_fd hstep hkept, ?_⟩
  intro t env pick success c s' hcode hstep
  rw [step_reports hcode hstep, wakeupReasons_of_fd hkept]

/-- The first wakeup of a run fails to read the reasons, and opens the file again as descriptor 4. The second one
reads and reports them. -/
theorem reasons_source_kept_reopened : ∃ s s', (program smallConfig).Reach ReopensWork s ∧
    s.shared.mWakeupReasonsFd = 4 ∧ 0 ≤ s.shared.mWakeupReasonsFd ∧
    (program smallConfig).step s (.step (.autosuspend 0) { content := some (str "50 alarm") } none) = some s' ∧
    s'.code (.autosuspend 0) = reportReasons true [str "50 alarm"] := by
  obtain ⟨s, hreach, hs⟩ := Program.Reach.of_run (program smallConfig) reopensWork
    (toSuspend ++ go (.autosuspend 0) 7 ++ .step (.autosuspend 0) { fd := 4 } none :: go (.autosuspend 0) 10 ++
      secondCycle ++ go (.autosuspend 0) 6)
    (fun s => s.shared.mWakeupReasonsFd = 4 && s.code (.autosuspend 0) = [.run (.loop (.readWakeupReasons true))] &&
      ((program smallConfig).step s (.step (.autosuspend 0) { content := some (str "50 alarm") } none)).isSome)
    (fun _ _ h => h) (by decide +kernel)
  simp only [Bool.and_eq_true, decide_eq_true_eq, Option.isSome_iff_exists] at hs
  obtain ⟨⟨hfd, hcode⟩, s', hstep⟩ := hs
  obtain ⟨hkept, -, hreports⟩ := reasons_source_kept (by decide) hreach
  exact ⟨s, s', hreach, hfd, hkept, hstep, hreports _ _ _ _ _ _ hcode hstep⟩

/-- The first wakeup fails to read the reasons and to open the file again. At the second one the file says why the
system woke up, and the service reports an error, and so it will ever after. -/
theorem failed_reopen_loses_reasons : ∃ s s', (program smallConfig).Reach Served s ∧
    0 ≤ smallConfig.wakeupReasonsFd ∧ s.shared.mWakeupReasonsFd < 0 ∧
    s.code (.autosuspend 0) = [.run (.loop (.readWakeupReasons true))] ∧
    (program smallConfig).step s (.step (.autosuspend 0) { content := some (str "50 alarm"), fd := -1 } none) =
      some s' ∧
    s'.code (.autosuspend 0) = reportReasons true [kErrorWakeup] ∧
    readWakeupReasons (some (str "50 alarm")) = [str "50 alarm"] ∧
    ∀ s'', (program smallConfig).Runs Served s' s'' → s''.shared.mWakeupReasonsFd < 0 := by
  obtain ⟨s, hreach, hs⟩ := Program.Reach.of_run (program smallConfig) (fun _ a => servedAction a)
    (toSuspend ++ go (.autosuspend 0) 7 ++ .step (.autosuspend 0) { fd := -1 } none :: go (.autosuspend 0) 10 ++
      secondCycle ++ go (.autosuspend 0) 6)
    (fun s => s.shared.mWakeupReasonsFd < 0 && s.code (.autosuspend 0) = [.run (.loop (.readWakeupReasons true))] &&
      ((program smallConfig).step s
        (.step (.autosuspend 0) { content := some (str "50 alarm"), fd := -1 } none)).any fun s' =>
          s'.code (.autosuspend 0) = reportReasons true [kErrorWakeup] && s'.shared.mWakeupReasonsFd < 0)
    (fun _ _ h => h) (by decide +kernel)
  simp only [Bool.and_eq_true, decide_eq_true_eq, Option.any_eq_true] at hs
  obtain ⟨⟨hfd, hcode⟩, s', hstep, hreport, hfd'⟩ := hs
  exact ⟨s, s', hreach, by decide, hfd, hcode, hstep, hreport, by decide, fun _ hrun => runs_lost hrun hfd'⟩

end runs

end HardwareInterfaces.Suspend.Service
