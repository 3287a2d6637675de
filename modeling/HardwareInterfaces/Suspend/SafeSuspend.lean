import HardwareInterfaces.Suspend.Accounting

/-!
# Autosuspend never suspends over a wake lock

Between its checks and its write of "mem" the autosuspend thread holds both autosuspend locks, so that what it checked
still holds when it writes: there is a token, and the counter is 0. Autosuspend is enabled then because
there is a token, although the thread does not look at the flag again.
-/

namespace HardwareInterfaces.Suspend.Service

open CppStd Monitor Mutex

def checked : Block → Shared → Prop
  | .loop (.checkCounter _), σ => σ.mAutosuspendClientTokens ≠ []
  | .loop (.writeWakeupCount _), σ => σ.mAutosuspendClientTokens ≠ [] ∧ σ.mSuspendCounter = 0
  | .loop .writeState, σ => σ.mAutosuspendClientTokens ≠ [] ∧ σ.mSuspendCounter = 0
  | _, _ => True

/-- The points of the loop at which something has been checked. -/
def pastCheck? : Block → Option Unit
  | .loop (.checkCounter _) => some ()
  | .loop (.writeWakeupCount _) => some ()
  | .loop .writeState => some ()
  | _ => none

theorem checked_of_none {b : Block} (hb : pastCheck? b = none) (σ : Shared) : checked b σ := by
  unfold checked
  split
  · cases hb
  · cases hb
  · cases hb
  · trivial

theorem checked_congr {b : Block} {σ σ' : Shared} (h : σ'.autosuspend = σ.autosuspend) (hb : checked b σ) :
    checked b σ' := by
  have htokens : σ'.mAutosuspendClientTokens = σ.mAutosuspendClientTokens :=
    congrArg Shared.Autosuspend.mAutosuspendClientTokens h
  have hcounter : σ'.mSuspendCounter = σ.mSuspendCounter := congrArg Shared.Autosuspend.mSuspendCounter h
  unfold checked at hb ⊢
  split
  · rw [htokens]
    exact hb
  · rw [htokens, hcounter]
    exact hb
  · rw [htokens, hcounter]
    exact hb
  · trivial

theorem checked_of_mem {c : ThreadCode} (hc : c.duties pastCheck? = []) {b : Block} (hb : .run b ∈ c) (σ : Shared) :
    checked b σ :=
  checked_of_none (Code.none_of_duties hc hb) σ

theorem pastCheck_of_loops {c : ThreadCode} (hc : c.duties Block.loop? = []) : c.duties pastCheck? = [] := by
  refine Code.duties_eq_nil fun b hb => ?_
  cases b with
  | loop l => cases Code.none_of_duties hc hb
  | _ => rfl

theorem pastCheck_tail (env : Env) (σ : Shared) (l : LoopBlock) :
    Code.duties pastCheck? (execLoop env σ l).code.tail = [] := by
  cases l with
  | head shouldSleep =>
    simp only [execLoop]
    split
    · rfl
    · cases shouldSleep <;> rfl
  | readWakeupCount shouldSleep => rfl
  | writeWakeupCount wakeupCount =>
    simp only [execLoop]
    split <;> rfl
  | writeState => rfl
  | readSuspendTime success => rfl
  | readWakeupReasons success => rfl
  | _ =>
    simp only [execLoop]
    split <;> rfl

theorem checked_next {env : Env} {σ : Shared} {l : LoopBlock} (h : checked (.loop l) σ) {b : Block} {c : ThreadCode}
    (hcode : (execLoop env σ l).code = .run b :: c) : checked b (execLoop env σ l).state := by
  have hother : ∀ {c' : ThreadCode}, c'.duties pastCheck? = [] → c' = .run b :: c → ∀ x, checked b x := by
    rintro c' hc' rfl x
    exact checked_of_mem hc' List.mem_cons_self x
  cases l with
  | checkTokens wakeupCount =>
    simp only [execLoop] at hcode ⊢
    split at hcode
    · exact hother rfl hcode _
    · rename_i htokens
      obtain ⟨hb, -⟩ := List.cons.inj hcode
      obtain rfl := Instr.run.inj hb
      rw [if_neg htokens]
      exact htokens
  | checkCounter wakeupCount =>
    simp only [execLoop] at hcode ⊢
    split at hcode
    · exact hother rfl hcode _
    · rename_i hcounter
      obtain ⟨hb, -⟩ := List.cons.inj hcode
      obtain rfl := Instr.run.inj hb
      rw [if_neg hcounter]
      exact ⟨h, Nat.eq_zero_of_not_pos hcounter⟩
  | writeWakeupCount wakeupCount =>
    simp only [execLoop] at hcode ⊢
    split at hcode
    · obtain ⟨hb, -⟩ := List.cons.inj hcode
      obtain rfl := Instr.run.inj hb
      exact h
    · exact hother rfl hcode _
  | head shouldSleep =>
    simp only [execLoop] at hcode
    split at hcode
    · exact hother rfl hcode _
    · cases shouldSleep <;> exact hother rfl hcode _
  | readWakeupCount shouldSleep => exact hother rfl hcode _
  | writeState => exact hother rfl hcode _
  | readSuspendTime success => exact hother rfl hcode _
  | readWakeupReasons success => exact hother rfl hcode _
  | _ =>
    simp only [execLoop] at hcode
    split at hcode <;> exact hother rfl hcode _

theorem checked_annotates (cfg : Config) : Program.Annotates (program cfg) typing checked where
  entry := by
    intro t b x h
    obtain ⟨n, p, rfl, rfl⟩ := entry_op h
    trivial
  spawn h u cu hspawn b y hb := by
    rw [exec_spawn_code h hspawn] at hb
    exact checked_of_mem rfl hb y
  next := by
    intro t b env σ o h hb b' c hcode
    cases hloop : b.loop? with
    | none =>
      have hout := pastCheck_of_loops ((exec_frame h).loops hloop)
      refine checked_of_mem hout ?_ _
      rw [hcode]
      exact List.mem_cons_self
    | some l =>
      obtain rfl := Block.eq_loop hloop
      obtain rfl := Option.some.inj h
      exact checked_next hb hcode
  later := by
    intro t b env σ o h b' y hb'
    cases hloop : b.loop? with
    | none => exact checked_of_mem (pastCheck_of_loops ((exec_frame h).loops hloop)) (List.mem_of_mem_tail hb') y
    | some l =>
      obtain rfl := Block.eq_loop hloop
      obtain rfl := Option.some.inj h
      exact checked_of_mem (pastCheck_tail env σ l) hb' y
  stable := by
    intro t b env σ o h b' hdisjoint hb'
    cases hpast : pastCheck? b' with
    | none => exact checked_of_none hpast _
    | some x =>
      refine checked_congr (guards_autosuspend t b env σ o h (hdisjoint mAutosuspendLock ?_)) hb'
      unfold pastCheck? at hpast
      split at hpast
      · exact List.mem_cons_self
      · exact List.mem_cons_self
      · exact List.mem_cons_self
      · cases hpast

/-- When the autosuspend thread is about to write "mem", no wake lock is unreleased, autosuspend is enabled, and there
is a client token. -/
theorem no_suspend_over_wakeLock (cfg : Config) (hmode : cfg.useSuspendCounter = true) {s : ServiceState}
    (h : (program cfg).Reach Served s) (hfew : unreleasedLocks s < 2 ^ 32) {t : Tid} {c : ThreadCode}
    (hcode : s.code t = .run (.loop .writeState) :: c) :
    (∀ wl, (wl, .inc) ∈ lockLog s → (wl, .dec) ∈ lockLog s) ∧ s.shared.mAutosuspendEnabled = true ∧
      s.shared.mAutosuspendClientTokens ≠ [] := by
  have hchecked := (h.annotated (typing_sound cfg) (checked_annotates cfg) t).1 _ _ hcode
  obtain ⟨htokens, hcounter⟩ := hchecked
  have hlog := reach_logInv h
  refine ⟨fun wl hinc => ?_, (reach_loops h).consistent.tokens.mpr htokens, htokens⟩
  have hzero : unreleasedLocks s = 0 := by
    have hcounted := reach_counted h
    rw [Counted, if_pos hmode, ← hlog.unreleasedLocks_eq, hcounter] at hcounted
    rw [← Nat.mod_eq_of_lt hfew]
    exact hcounted.symm
  have hnone := List.countP_eq_zero.mp hzero wl (List.mem_range.mpr (hlog.made _ hinc))
  simpa [hinc] using hnone

/-- A client holds a wake lock while the thread comes to its wait for the counter. The release lets the thread go on to
its write. -/
def toWriteAfterRelease : List ServiceAction :=
  goCall (.client 1) (.acquireWakeLock .aidl (str "wl")) 12 ++ toRead ++ go (.autosuspend 0) 4 ++
    goCall (.client 1) (.release 0) 3 ++ .step (.client 1) {} (some (.autosuspend 0)) :: go (.client 1) 9 ++
    go (.autosuspend 0) 9

theorem no_suspend_over_wakeLock_released :
    ∃ s : ServiceState, (program smallConfig).Reach Served s ∧
      s.code (.autosuspend 0) = [.run (.loop .writeState)] ∧ (0, .inc) ∈ lockLog s ∧
      (∀ wl, (wl, .inc) ∈ lockLog s → (wl, .dec) ∈ lockLog s) ∧ s.shared.mAutosuspendEnabled = true ∧
      s.shared.mAutosuspendClientTokens ≠ [] := by
  obtain ⟨s, hreach, hs⟩ := Program.Reach.of_run (program smallConfig) (fun _ a => servedAction a) toWriteAfterRelease
    (fun s => unreleasedLocks s = 0 && s.code (.autosuspend 0) = [.run (.loop .writeState)] && ((0, .inc) ∈ lockLog s))
    (fun _ _ h => h) (by decide +kernel)
  simp only [Bool.and_eq_true, decide_eq_true_eq] at hs
  obtain ⟨⟨hfew, hcode⟩, hinc⟩ := hs
  exact ⟨s, hreach, hcode, hinc, no_suspend_over_wakeLock smallConfig rfl hreach (by omega) hcode⟩

end HardwareInterfaces.Suspend.Service
