import HardwareInterfaces.Lib.Progress
import HardwareInterfaces.Suspend.Refinement
import HardwareInterfaces.Suspend.Notifications

/-!
# The service does not get stuck

A thread that has something to do can take its next step, or waits for a thread that can. What could hold up a thread
for good: a mutex, `std::call_once` while another thread runs the callable, a use of an iterator that is no longer
valid. The mutexes are taken in an order. The callable of a wake lock tells the callbacks about the release, which are
one-way, so that nothing calls back into the service from inside it (`Enclosed`), and it comes to its end. And the
iterators are those of lists that agree with their tables.
-/

namespace HardwareInterfaces.Suspend.Service

open CppStd Monitor Mutex

/-- The notifications about wake locks are one-way: the callback has nothing to say before the call returns. -/
def answersOneway (s : ServiceState) : ServiceAction → Bool
  | .step t env _ =>
    match (s.code t).head? with
    | some (.run (.callback _ .notifyAcquired)) => env.call.isNone
    | some (.run (.callback _ .notifyReleased)) => env.call.isNone
    | _ => true
  | _ => true

def OneWay (s : ServiceState) (a : ServiceAction) : Prop := Served s a ∧ answersOneway s a = true

/-! ### The callable of `releaseOnce` -/

def insideOnce : Block → Bool
  | .decSuspendCounter _ => true
  | .getTimeNow .. => true
  | .updateStats .. => true
  | .notifyWakelock .. => true
  | .callback _ .notifyAcquired => true
  | .callback _ .notifyReleased => true
  | .onceDone .. => true
  | _ => false

def onceEnd? : Block → Option Nat
  | .onceDone wl _ => some wl
  | _ => none

/-- What comes before the end of a callable belongs to it. -/
def Enclosed (c : ThreadCode) : Prop :=
  ∀ (p : ThreadCode) (b : Block) (q : ThreadCode), c = p ++ .run b :: q → q.duties onceEnd? ≠ [] → insideOnce b = true

section enclosed

variable {p c : ThreadCode} {i : Instr Mutex Block} {b : Block}

theorem Enclosed.tail (h : Enclosed (i :: c)) : Enclosed c :=
  fun p b q hsplit hend => h (i :: p) b q (by rw [hsplit]; rfl) hend

theorem enclosed_of_duties (h : p.duties onceEnd? = []) : Enclosed p := by
  rintro p' b q rfl hend
  rw [Code.duties_append, Code.duties_run, List.append_eq_nil_iff, List.append_eq_nil_iff] at h
  exact absurd h.2.2 hend

theorem enclosed_last (i : Instr Mutex Block) : Enclosed [i] := by
  intro p b q hsplit hend
  cases p with
  | nil =>
    obtain ⟨-, rfl⟩ := List.cons.inj hsplit
    exact absurd rfl hend
  | cons j p =>
    have hnil := (List.cons.inj hsplit).2
    cases p <;> cases hnil

theorem Enclosed.append (hp : Enclosed p) (hc : Enclosed c)
    (hbefore : c.duties onceEnd? ≠ [] → ∀ b, .run b ∈ p → insideOnce b = true) : Enclosed (p ++ c) := by
  intro p' b q hsplit hend
  rcases List.append_eq_append_iff.mp hsplit with ⟨r, rfl, hr⟩ | ⟨r, rfl, hr⟩
  · exact hc r b q hr hend
  · cases r with
    | nil => exact hc [] b q hr.symm hend
    | cons j r =>
      obtain ⟨rfl, rfl⟩ := List.cons.inj hr
      by_cases hcend : c.duties onceEnd? = []
      · refine hp p' b r rfl ?_
        rwa [List.append_eq, Code.duties_append, hcend, List.append_nil] at hend
      · exact hbefore hcend b (by simp)

theorem exec_insideOnce {cfg : Config} {t : Tid} {env : Env} {σ : Shared} {o : Out} (h : exec cfg t env σ b = some o)
    (hb : insideOnce b = true)
    (hsilent : ∀ cb n, b = .callback cb n → n = .notifyAcquired ∨ n = .notifyReleased → env.call = none) :
    ∀ b', .run b' ∈ o.code → insideOnce b' = true := by
  cases b with
  | decSuspendCounter holder =>
    obtain rfl := Option.some.inj h
    simp only [decSuspendCounter]
    split <;> simp
  | getTimeNow change holder =>
    obtain rfl := Option.some.inj h
    simp [lockGuard, insideOnce]
  | updateStats change holder timeNow =>
    obtain ⟨stats, -, rfl⟩ := Option.map_eq_some_iff.mp h
    simp
  | notifyWakelock change holder =>
    obtain rfl := Option.some.inj h
    intro b' hb'
    simp only [notifyWakelock, notifyAll, List.mem_cons, reduceCtorEq, false_or, List.mem_map] at hb'
    obtain ⟨cb, -, hb'⟩ := hb'
    obtain rfl := Instr.run.inj hb'
    cases change <;> rfl
  | callback cb n =>
    obtain rfl := Option.some.inj h
    have hnone : env.call = none := by
      refine hsilent cb n rfl ?_
      cases n with
      | notifyWakeup success reasons => cases hb
      | notifyAcquired => exact Or.inl rfl
      | notifyReleased => exact Or.inr rfl
    simp [callback, hnone]
  | onceDone wl destructor =>
    obtain rfl := Option.some.inj h
    simp
  | _ => cases hb

theorem onceEnd_of_mentions (h : c.duties Block.wakeLock? = []) : c.duties onceEnd? = [] := by
  refine Code.duties_eq_nil fun b hb => ?_
  have hnone := Code.none_of_duties h hb
  cases b with
  | onceDone wl destructor => cases hnone
  | _ => rfl

theorem onceEnd_acquire (frontEnd : FrontEnd) (wl : Nat) : (callAcquireWakeLock frontEnd wl).duties onceEnd? = [] := by
  cases frontEnd <;> rfl

theorem onceEnd_getSuspendStats (t : Tid) (env : Env) (σ : Shared) : (getSuspendStats t env σ).code.duties onceEnd? = [] := by
  unfold getSuspendStats
  split <;> rfl

theorem exec_enclosed {cfg : Config} {t : Tid} {env : Env} {σ : Shared} {o : Out} (h : exec cfg t env σ b = some o) :
    Enclosed o.code := by
  cases hb : b.handlesWakeLock with
  | false => exact enclosed_of_duties (onceEnd_of_mentions ((exec_frame h).mentions hb))
  | true =>
    cases b with
    | op op =>
      cases op with
      | acquireWakeLock frontEnd name =>
        obtain rfl := Option.some.inj h
        simp only [acquireWakeLock]
        split
        · exact enclosed_of_duties rfl
        · exact enclosed_of_duties (onceEnd_acquire frontEnd _)
      | getSuspendStats =>
        obtain rfl := Option.some.inj h
        exact enclosed_of_duties (onceEnd_getSuspendStats t env σ)
      | release wl =>
        simp only [exec, execOp, release, Option.ite_none_right_eq_some] at h
        obtain rfl := Option.some.inj h.2
        exact enclosed_of_duties rfl
      | destroyWakeLock wl =>
        simp only [exec, execOp, destroyWakeLock, Option.ite_none_right_eq_some] at h
        obtain ⟨-, rfl⟩ := beginDestroy_eq h.2
        exact enclosed_of_duties rfl
      | _ => cases hb
    | dumpKernelSuspends suspendControls =>
      obtain rfl := Option.some.inj h
      refine enclosed_of_duties ?_
      rw [dumpKernelSuspends, Code.duties_append, onceEnd_getSuspendStats, List.nil_append]
      split <;> rfl
    | incSuspendCounter holder =>
      obtain rfl := Option.some.inj h
      simp only [incSuspendCounter]
      split <;> exact enclosed_of_duties rfl
    | decSuspendCounter holder =>
      obtain rfl := Option.some.inj h
      simp only [decSuspendCounter]
      split <;> exact enclosed_of_duties rfl
    | updateStats change holder timeNow =>
      obtain ⟨stats, -, rfl⟩ := Option.map_eq_some_iff.mp h
      exact enclosed_of_duties rfl
    | callOnce wl destructor =>
      simp only [exec, callOnce] at h
      split at h
      · obtain rfl := Option.some.inj h
        refine (enclosed_of_duties rfl).append (enclosed_last _) fun _ b' hb' => ?_
        simp only [releaseCallable, callDecSuspendCounter, callUpdateWakeLockStat, callNotifyWakelock, lockGuard,
          List.mem_append, List.mem_cons, List.not_mem_nil, reduceCtorEq, or_false, false_or, Instr.run.injEq] at hb'
        rcases hb' with rfl | rfl | rfl <;> rfl
      · cases h
      · obtain rfl := Option.some.inj h
        exact enclosed_of_duties rfl
    | beginDestroy wl =>
      obtain ⟨-, rfl⟩ := beginDestroy_eq h
      exact enclosed_of_duties rfl
    | getTimeNow change holder =>
      obtain rfl := Option.some.inj h
      exact enclosed_of_duties rfl
    | returnWakeLock wl =>
      obtain rfl := Option.some.inj h
      exact enclosed_of_duties rfl
    | onceDone wl destructor =>
      obtain rfl := Option.some.inj h
      exact enclosed_of_duties rfl
    | endDestroy wl =>
      obtain rfl := Option.some.inj h
      exact enclosed_of_duties rfl
    | _ => cases hb

theorem reach_enclosed {cfg : Config} {s : ServiceState} (h : (program cfg).Reach OneWay s) (u : Tid) :
    Enclosed (s.code u) := by
  refine h.invariant (I := fun s => ∀ u, Enclosed (s.code u)) (fun u => enclosed_of_duties rfl)
    (fun s a s' _ hok hs hstep u => ?_) u
  rcases hstep.quiet_or_ran with hq | ⟨t, b, env, c, o, hr⟩
  · refine hq.keeps (fun i c _ hc => hc.tail) (fun b _ hentry => ?_) (hs u)
    exact enclosed_last _
  · by_cases hu : u = t
    · subst hu
      have hbefore := hs u
      rw [hr.code] at hbefore
      rw [hr.code_self]
      refine (exec_enclosed (exec_of_ran hr)).append hbefore.tail fun hend => ?_
      refine exec_insideOnce (exec_of_ran hr) (hbefore [] b c rfl hend) fun cb n hb hn => ?_
      obtain ⟨pick, rfl, -⟩ := hr.action
      have honeway := hok.2
      subst hb
      rcases hn with rfl | rfl <;> simpa [answersOneway, hr.code] using honeway
    · rcases code_other_of_ran hr hu with hsame | ⟨-, hnew⟩
      · rw [hsame]
        exact hs u
      · rw [hnew]
        exact enclosed_of_duties rfl

end enclosed

/-! ### The lock of `getSuspendStats` -/

def localEnd? : Block → Option Nat
  | .beginDestroy wl => some wl
  | _ => none

/-- A wake lock in a local variable is alive until its thread leaves the scope, after everything else it does with it. -/
structure LocalLocks (s : ServiceState) : Prop where
  own : ∀ t, ∀ wl ∈ (s.code t).duties localEnd?, ∃ w, s.shared.wakeLocks[wl]? = some w ∧ w.isLocal = true ∧
    w.acquirer = t ∧ w.destruction = .alive
  last : ∀ t (p : ThreadCode) wl (q : ThreadCode), s.code t = p ++ .run (.beginDestroy wl) :: q →
    wl ∉ q.duties Block.wakeLock?

section locals

variable {cfg : Config} {s s' : ServiceState} {a : ServiceAction} {t : Tid} {b : Block} {env : Env} {σ σ' : Shared}
  {c : ThreadCode} {o : Out} {wl : Nat} {w w' : WakeLock}

theorem Transition.keepsLocal (h : Transition t wl w b w') :
    w'.isLocal = w.isLocal ∧ w'.acquirer = w.acquirer ∧ (w.destruction = .alive →
      w'.destruction = .alive ∨ b = .beginDestroy wl ∨ b = .op (.destroyWakeLock wl)) := by
  cases h with
  | inc phase once => exact ⟨rfl, rfl, Or.inl⟩
  | acquired timeNow phase once => exact ⟨rfl, rfl, Or.inl⟩
  | returned phase once => exact ⟨rfl, rfl, Or.inl⟩
  | start destructor phase once => exact ⟨rfl, rfl, Or.inl⟩
  | dec phase once => exact ⟨rfl, rfl, Or.inl⟩
  | released timeNow phase once => exact ⟨rfl, rfl, Or.inl⟩
  | finish destructor phase once inside =>
    refine ⟨rfl, rfl, fun halive => Or.inl ?_⟩
    cases destructor with
    | false => exact halive
    | true =>
      rw [inside rfl] at halive
      cases halive
  | past destructor phase once inside =>
    refine ⟨rfl, rfl, fun halive => Or.inl ?_⟩
    cases destructor with
    | false => exact halive
    | true =>
      rw [inside rfl] at halive
      cases halive
  | destroy phase alive block => exact ⟨rfl, rfl, fun _ => Or.inr block⟩
  | ended phase once destruction =>
    refine ⟨rfl, rfl, fun halive => ?_⟩
    rw [destruction] at halive
    cases halive

theorem LockChange.keepsLocal (h : LockChange t b σ σ') (hw : σ.wakeLocks[wl]? = some w) :
    ∃ w', σ'.wakeLocks[wl]? = some w' ∧ w'.isLocal = w.isLocal ∧ w'.acquirer = w.acquirer ∧
      (w.destruction = .alive → w'.destruction = .alive ∨ b = .beginDestroy wl ∨ b = .op (.destroyWakeLock wl)) := by
  cases h with
  | same locks block => exact ⟨w, by rw [locks]; exact hw, rfl, rfl, Or.inl⟩
  | new w₁ locks fresh block =>
    refine ⟨w, ?_, rfl, rfl, Or.inl⟩
    rw [locks, List.getElem?_append_left (List.getElem?_eq_some_iff.mp hw).1]
    exact hw
  | change wl' w₁ w₂ before locks transition =>
    by_cases hwl : wl' = wl
    · subst hwl
      obtain rfl := Option.some.inj (before.symm.trans hw)
      refine ⟨w₂, ?_, transition.keepsLocal⟩
      rw [locks, List.getElem?_set_self (List.getElem?_eq_some_iff.mp hw).1]
    · exact ⟨w, by rw [locks, List.getElem?_set_ne hwl]; exact hw, rfl, rfl, Or.inl⟩

theorem localEnd_of_mentions (h : c.duties Block.wakeLock? = []) : c.duties localEnd? = [] := by
  refine Code.duties_eq_nil fun b hb => ?_
  have hnone := Code.none_of_duties h hb
  cases b with
  | beginDestroy wl => cases hnone
  | _ => rfl

structure Scoped (t : Tid) (σ : Shared) (o : Out) (rest : ThreadCode) (w : WakeLock) : Prop where
  code : o.code = callAcquireWakeLock .aidl σ.wakeLocks.length ++ .run (.beginDestroy σ.wakeLocks.length) :: rest
  rest : rest.duties Block.wakeLock? = []
  locks : o.state.wakeLocks = σ.wakeLocks ++ [w]
  isLocal : w.isLocal = true
  acquirer : w.acquirer = t
  alive : w.destruction = .alive

theorem getSuspendStats_scoped (t : Tid) (env : Env) (σ : Shared) (hrest : c.duties Block.wakeLock? = []) :
    Code.duties localEnd? ((getSuspendStats t env σ).code ++ c) = [] ∨
      ∃ w, Scoped t σ { getSuspendStats t env σ with code := (getSuspendStats t env σ).code ++ c } c w := by
  unfold getSuspendStats
  split
  · exact Or.inl (localEnd_of_mentions hrest)
  · exact Or.inr ⟨_, by simp, hrest, rfl, rfl, rfl, rfl⟩

theorem exec_localEnd (h : exec cfg t env σ b = some o) :
    o.code.duties localEnd? = [] ∨ ∃ rest w, Scoped t σ o rest w := by
  cases hb : b.handlesWakeLock with
  | false => exact Or.inl (localEnd_of_mentions ((exec_frame h).mentions hb))
  | true =>
    cases b with
    | op op =>
      cases op with
      | acquireWakeLock frontEnd name =>
        obtain rfl := Option.some.inj h
        simp only [acquireWakeLock]
        split
        · exact Or.inl rfl
        · cases frontEnd <;> exact Or.inl rfl
      | getSuspendStats =>
        obtain rfl := Option.some.inj h
        have hscoped := getSuspendStats_scoped (c := []) t env σ rfl
        rw [List.append_nil] at hscoped
        rcases hscoped with hnone | ⟨w, hw⟩
        · exact Or.inl hnone
        · exact Or.inr ⟨[], w, hw⟩
      | release wl =>
        simp only [exec, execOp, release, Option.ite_none_right_eq_some] at h
        obtain rfl := Option.some.inj h.2
        exact Or.inl rfl
      | destroyWakeLock wl =>
        simp only [exec, execOp, destroyWakeLock, Option.ite_none_right_eq_some] at h
        obtain ⟨-, rfl⟩ := beginDestroy_eq h.2
        exact Or.inl rfl
      | _ => cases hb
    | dumpKernelSuspends suspendControls =>
      obtain rfl := Option.some.inj h
      have hrest : Code.duties Block.wakeLock? (if suspendControls && env.readable then callGetSuspendInfo else []) = [] := by
        cases suspendControls && env.readable <;> rfl
      rcases getSuspendStats_scoped t env σ hrest with hnone | ⟨w, hw⟩
      · exact Or.inl hnone
      · exact Or.inr ⟨_, w, hw⟩
    | incSuspendCounter holder =>
      obtain rfl := Option.some.inj h
      simp only [incSuspendCounter]
      split <;> exact Or.inl rfl
    | decSuspendCounter holder =>
      obtain rfl := Option.some.inj h
      simp only [decSuspendCounter]
      split <;> exact Or.inl rfl
    | updateStats change holder timeNow =>
      obtain ⟨stats, -, rfl⟩ := Option.map_eq_some_iff.mp h
      exact Or.inl rfl
    | callOnce wl destructor =>
      simp only [exec, callOnce] at h
      split at h
      · obtain rfl := Option.some.inj h
        exact Or.inl rfl
      · cases h
      · obtain rfl := Option.some.inj h
        exact Or.inl rfl
    | beginDestroy wl =>
      obtain ⟨-, rfl⟩ := beginDestroy_eq h
      exact Or.inl rfl
    | getTimeNow change holder =>
      obtain rfl := Option.some.inj h
      exact Or.inl rfl
    | returnWakeLock wl =>
      obtain rfl := Option.some.inj h
      exact Or.inl rfl
    | onceDone wl destructor =>
      obtain rfl := Option.some.inj h
      exact Or.inl rfl
    | endDestroy wl =>
      obtain rfl := Option.some.inj h
      exact Or.inl rfl
    | _ => cases hb

theorem mem_wakeLock_of_localEnd (h : wl ∈ c.duties localEnd?) : wl ∈ c.duties Block.wakeLock? := by
  obtain ⟨b, hb, hwl⟩ := Code.mem_duties.mp h
  refine Code.mem_duties.mpr ⟨b, hb, ?_⟩
  cases b with
  | beginDestroy wl' => exact hwl
  | _ => cases hwl

theorem LocalLocks.quiet (h : LocalLocks s) (hq : (program cfg).Quiet s a s') : LocalLocks s' := by
  refine ⟨fun t wl hwl => ?_, fun t => ?_⟩
  · rw [duties_of_quiet hq fun _ => rfl] at hwl
    rw [hq.shared]
    exact h.own t wl hwl
  · refine hq.keeps (K := fun c => ∀ (p : ThreadCode) wl (q : ThreadCode), c = p ++ .run (.beginDestroy wl) :: q →
      wl ∉ q.duties Block.wakeLock?) (fun i c _ hc p wl q hsplit => ?_) (fun b _ hentry p wl q hsplit => ?_) (h.last t)
    · exact hc (i :: p) wl q (by rw [hsplit]; rfl)
    · obtain ⟨n, op, -, rfl⟩ := entry_op hentry
      cases p with
      | nil => cases (List.cons.inj hsplit).1
      | cons j p =>
        have hnil := (List.cons.inj hsplit).2
        cases p <;> cases hnil

theorem LocalLocks.keeps (h : LocalLocks s) (hlocks : Locks s) (hr : (program cfg).Ran s a s' t b env c o) {u : Tid}
    (hwl : wl ∈ (s.code u).duties localEnd?) (hb : b ≠ .beginDestroy wl) :
    ∃ w, s'.shared.wakeLocks[wl]? = some w ∧ w.isLocal = true ∧ w.acquirer = u ∧ w.destruction = .alive := by
  obtain ⟨w, hw, hlocal, hacquirer, halive⟩ := h.own u wl hwl
  obtain ⟨w', hw', hlocal', hacquirer', halive'⟩ := (hlocks.ran hr).2.keepsLocal hw
  refine ⟨w', hw', hlocal'.trans hlocal, hacquirer'.trans hacquirer, ?_⟩
  rcases halive' halive with halive' | hbegin | hdestroy
  · exact halive'
  · exact absurd hbegin hb
  · -- clients cannot destroy it
    subst hdestroy
    have hexec := exec_of_ran hr
    simp [exec, execOp, destroyWakeLock, hw, WakeLock.visible, hlocal] at hexec

theorem LocalLocks.ran (h : LocalLocks s) (hlocks : Locks s) (hr : (program cfg).Ran s a s' t b env c o) :
    LocalLocks s' := by
  have hlast : ∀ (p : ThreadCode) wl (q : ThreadCode), c = p ++ .run (.beginDestroy wl) :: q → wl ∉ q.duties Block.wakeLock? :=
    fun p wl q hsplit => h.last t (.run b :: p) wl q (by rw [hr.code, hsplit]; rfl)
  refine ⟨fun u wl hwl => ?_, fun u p wl q hsplit => ?_⟩
  · by_cases hu : u = t
    · subst hu
      rw [hr.duties_self, List.mem_append] at hwl
      rcases hwl with hnew | hold
      · rcases exec_localEnd (exec_of_ran hr) with hnone | ⟨rest, w, hscoped⟩
        · rw [hnone] at hnew
          cases hnew
        · have hacquire : (callAcquireWakeLock .aidl s.shared.wakeLocks.length).duties localEnd? = [] := rfl
          rw [hscoped.code, Code.duties_append, hacquire, Code.duties_run, localEnd_of_mentions hscoped.rest] at hnew
          obtain rfl : wl = s.shared.wakeLocks.length := by simpa [localEnd?] using hnew
          rw [hr.shared, hscoped.locks]
          exact ⟨w, by simp, hscoped.isLocal, hscoped.acquirer, hscoped.alive⟩
      · refine h.keeps hlocks hr (by rw [hr.duties_before]; exact List.mem_append_right _ hold) ?_
        rintro rfl
        exact h.last u [] wl c hr.code (mem_wakeLock_of_localEnd hold)
    · rcases code_other_of_ran hr hu with hsame | ⟨-, hnew⟩
      · rw [hsame] at hwl
        refine h.keeps hlocks hr hwl ?_
        rintro rfl
        obtain ⟨w, hw, -, hacquirer, -⟩ := h.own u wl hwl
        obtain ⟨w', hw', -, hacquirer', -⟩ := h.own t wl (by rw [hr.duties_before]; exact List.mem_cons_self)
        obtain rfl := Option.some.inj (hw.symm.trans hw')
        exact hu (hacquirer.symm.trans hacquirer')
      · rw [hnew] at hwl
        cases hwl
  · by_cases hu : u = t
    · subst hu
      rw [hr.code_self] at hsplit
      rcases List.append_eq_append_iff.mp hsplit with ⟨r, -, hc⟩ | ⟨r, hcode, hq⟩
      · exact hlast r wl q hc
      · cases r with
        | nil => exact hlast [] wl q hq.symm
        | cons i r =>
          obtain ⟨rfl, rfl⟩ := List.cons.inj hq
          rcases exec_localEnd (exec_of_ran hr) with hnone | ⟨rest, w, hscoped⟩
          · cases Code.none_of_duties hnone (b := .beginDestroy wl) (by rw [hcode]; simp)
          · have hacquire : .run (.beginDestroy wl) ∉ callAcquireWakeLock .aidl s.shared.wakeLocks.length :=
              fun hmem => by cases Code.none_of_duties (d := localEnd?) rfl hmem
            have hrest : .run (.beginDestroy wl) ∉ rest :=
              fun hmem => by cases Code.none_of_duties (localEnd_of_mentions hscoped.rest) hmem
            obtain ⟨-, hwl, rfl⟩ := (List.append_cons_inj_of_notMem hacquire hrest).mp (hscoped.code.symm.trans hcode)
            obtain rfl : s.shared.wakeLocks.length = wl := Block.beginDestroy.inj (Instr.run.inj hwl)
            rw [List.append_eq, Code.duties_append, hscoped.rest, List.nil_append]
            intro hmem
            refine absurd (hlocks.unmade u _ ?_) (Nat.lt_irrefl _)
            rw [hr.duties_before]
            exact List.mem_append_right _ hmem
    · rcases code_other_of_ran hr hu with hsame | ⟨-, hnew⟩
      · exact h.last u p wl q (hsame ▸ hsplit)
      · have hnone : autosuspendThread.duties localEnd? = [] := rfl
        cases Code.none_of_duties hnone (b := .beginDestroy wl) (by rw [← hnew, hsplit]; simp)

theorem reach_localLocks {ok : ServiceState → ServiceAction → Prop} (h : (program cfg).Reach ok s) : LocalLocks s := by
  refine h.invariant ⟨fun t wl hwl => absurd hwl List.not_mem_nil, fun t p wl q hsplit => ?_⟩
    fun s a s' hreach _ hs hstep => ?_
  · cases p <;> cases hsplit
  · rcases hstep.quiet_or_ran with hq | ⟨t, b, env, c, o, hr⟩
    · exact hs.quiet hq
    · exact hs.ran (reach_locks hreach) hr

end locals

/-! ### Threads that can go on -/

/-- A call on a wake lock that its client has destroyed. -/
def CallsDestroyed (s : ServiceState) (t : Tid) : Prop :=
  ∃ wl c, (s.code t = .run (.op (.release wl)) :: c ∨ s.code t = .run (.op (.destroyWakeLock wl)) :: c) ∧
    ∀ w, s.shared.wakeLocks[wl]? = some w → ¬ (w.visible = true ∧ w.destruction = .alive)

/-- `t` waits in `std::call_once` for `u` to leave the callable. -/
def AwaitsOnce (s : ServiceState) (t u : Tid) : Prop :=
  t ∉ s.waiters ∧ ∃ wl destructor c w stage, s.code t = .run (.callOnce wl destructor) :: c ∧
    s.shared.wakeLocks[wl]? = some w ∧ w.mReleased = .running u stage

/-- The thread is parked in a wait that times out. -/
def TimedWait (s : ServiceState) (t : Tid) : Prop :=
  t ∈ s.waiters ∧ ∃ c, s.code t = .lock mAutosuspendLock :: .run (.awaitThreadExit true) :: c

section progress

variable {cfg : Config} {s : ServiceState} {t u : Tid} {b : Block} {c : ThreadCode}

theorem LocalLocks.returned (h : LocalLocks s) (hlocks : Locks s) {wl : Nat}
    (hcode : s.code t = .run (.beginDestroy wl) :: c) :
    ∃ w, s.shared.wakeLocks[wl]? = some w ∧ w.acquisition = .returned ∧ w.destruction = .alive := by
  obtain ⟨w, hw, -, hacquirer, halive⟩ := h.own t wl (by rw [hcode, Code.duties_run]; exact List.mem_cons_self)
  refine ⟨w, hw, ?_, halive⟩
  have hacquiring := (hlocks.inv wl w hw).acquiring t
  have hdone : (s.code t).duties (acquireDuty wl) = [] := by
    rw [hcode, Code.duties_run]
    refine List.append_eq_nil_iff.mpr ⟨rfl, Code.duties_eq_nil fun b hb => ?_⟩
    have hother : b.wakeLock? ≠ some wl := fun hwl =>
      h.last t [] wl c hcode (Code.mem_duties.mpr ⟨b, hb, hwl⟩)
    unfold acquireDuty
    split
    · exact if_neg fun hwl => hother (by rw [hwl]; rfl)
    · exact if_neg fun hwl => hother (by rw [hwl]; rfl)
    · exact if_neg fun hwl => hother (by rw [hwl]; rfl)
    · exact if_neg fun hwl => hother (by rw [hwl]; rfl)
    · rfl
  rw [hdone, if_pos hacquirer.symm] at hacquiring
  cases hphase : w.acquisition with
  | returned => rfl
  | _ =>
    rw [hphase] at hacquiring
    cases hacquiring

/-- The acquisitions still to be recorded can be: a list without room has no last entry that could give way. -/
def RoomToRecord (cfg : Config) (s : ServiceState) : Prop :=
  ∀ u holder timeNow, .run (.updateStats .acquire holder timeNow) ∈ s.code u → 1 ≤ cfg.statsCapacity

/-- Every block has an outcome, up to the calls no client can make and the waits in `std::call_once`. -/
theorem exec_total (env : Env) (hroom : RoomToRecord cfg s) (h : (program cfg).Reach Served s) (hawake : t ∉ s.waiters)
    (hcode : s.code t = .run b :: c) (hlive : ¬ CallsDestroyed s t) (honce : ∀ u, ¬ AwaitsOnce s t u) :
    (exec cfg t env s.shared b).isSome = true := by
  have hlocks := reach_locks h
  cases b with
  | op op =>
    have halive : ∀ wl, op = .release wl ∨ op = .destroyWakeLock wl →
        ∃ w, s.shared.wakeLocks[wl]? = some w ∧ w.visible = true ∧ w.destruction = .alive := by
      intro wl hop
      by_contra hnone
      refine hlive ⟨wl, c, ?_, fun w hw hboth => hnone ⟨w, hw, hboth⟩⟩
      rcases hop with rfl | rfl
      · exact Or.inl hcode
      · exact Or.inr hcode
    cases op with
    | release wl =>
      obtain ⟨w, hw, hvisible, -⟩ := halive wl (Or.inl rfl)
      simp [exec, execOp, release, hw, hvisible]
    | destroyWakeLock wl =>
      obtain ⟨w, hw, hvisible, hdestruction⟩ := halive wl (Or.inr rfl)
      have hreturned : w.acquisition = .returned := by
        simp only [WakeLock.visible, Bool.and_eq_true, decide_eq_true_eq] at hvisible
        exact hvisible.1.1
      simp [exec, execOp, destroyWakeLock, beginDestroy, hw, hvisible, hreturned, hdestruction]
    | registerCallback cb => cases cb <;> rfl
    | registerWakelockCallback cb name => cases cb <;> rfl
    | _ => rfl
  | updateStats change holder timeNow =>
    obtain ⟨p, -, hp⟩ := reach_represents h
    obtain ⟨hvalid, hcapacity⟩ := hp.stats_valid
    cases change with
    | acquire =>
      have hcap := hroom t holder timeNow (by rw [hcode]; exact List.mem_cons_self)
      obtain ⟨l, hl, -⟩ := WakeLockEntryList.updateOnAcquire_spec hvalid (by omega) (s.shared.keyOf holder) timeNow
      simp only [exec, updateStats, hl, Option.map_some, Option.isSome_some]
    | release =>
      obtain ⟨l, hl, -⟩ := WakeLockEntryList.updateOnRelease_spec hvalid (s.shared.keyOf holder) timeNow
      simp only [exec, updateStats, hl, Option.map_some, Option.isSome_some]
  | updateWakeupList reasons =>
    have hwakeups := reach_wakeups h
    have hne : reasons ≠ [] := by
      rintro rfl
      have hnone := hwakeups.pending t
      rw [hcode] at hnone
      cases hnone
    obtain ⟨l, hl, -⟩ := WakeupList.update_spec hwakeups.valid hne
    simp only [exec, updateWakeupList, hl, Option.map_some, Option.isSome_some]
  | callOnce wl destructor =>
    have hlt : wl < s.shared.wakeLocks.length :=
      hlocks.unmade t wl (by rw [hcode, Code.duties_run]; exact List.mem_cons_self)
    have hw := List.getElem?_eq_getElem hlt
    cases hflag : (s.shared.wakeLocks[wl]).mReleased with
    | idle => simp only [exec, callOnce, hw, Option.map_some, Option.getD_some, hflag, Option.isSome_some]
    | running u stage => exact absurd ⟨hawake, wl, destructor, c, _, stage, hcode, hw, hflag⟩ (honce u)
    | done => simp only [exec, callOnce, hw, Option.map_some, Option.getD_some, hflag, Option.isSome_some]
  | beginDestroy wl =>
    obtain ⟨w, hw, hreturned, halive⟩ := (reach_localLocks h).returned hlocks hcode
    simp [exec, beginDestroy, hw, hreturned, halive]
  | _ => rfl

theorem canStep_of_exec (h : (program cfg).Reach Served s) (hawake : t ∉ s.waiters) (hcode : s.code t = .run b :: c)
    (hexec : ∀ env, (exec cfg t env s.shared b).isSome = true) : (program cfg).CanStep s t := by
  refine Program.canStep_run hawake hcode fun env => ?_
  obtain ⟨o, ho⟩ := Option.isSome_iff_exists.mp (hexec env)
  refine ⟨o, ho, fun u cu hspawn => ?_⟩
  -- the thread that a block starts is new
  obtain ⟨hnew, -⟩ := exec_spawn ho hspawn
  obtain ⟨rfl, rfl⟩ := Prod.mk.inj hnew
  have hidle : s.code (.autosuspend s.shared.spawned) = [] := (reach_loops h).unborn _ (Nat.le_refl _)
  refine ⟨hidle, fun hparked => ?_⟩
  obtain ⟨b, c, hcode', -⟩ := (reach_parking h).parked _ hparked
  rw [hidle] at hcode'
  cases hcode'

theorem owner_goes_on (hroom : RoomToRecord cfg s) (h : (program cfg).Reach Served s) {m : Mutex}
    (howner : s.owner m = some u) (hends : ∀ w, ¬ s.WaitsFor u w) : (program cfg).CanStep s u ∨ TimedWait s u := by
  have hdisc := h.disciplined (typing_sound cfg)
  by_cases hparked : u ∈ s.waiters
  · obtain ⟨b, c, hcode, hwaits⟩ := (reach_parking h).parked u hparked
    obtain ⟨held, hheld, hbal⟩ := hdisc u
    rw [hcode, Typing.balanced_lock, Typing.balanced_run] at hbal
    have hmem : m ∈ held := (hheld.mem m).mpr howner
    unfold Waits at hwaits
    split at hwaits
    · obtain rfl : held = [] := (List.cons.inj hbal.2.1).2
      cases hmem
    · obtain rfl : held = [] := (List.cons.inj hbal.2.1).2
      cases hmem
    · exact Or.inr ⟨hparked, c, hcode⟩
    · cases hwaits
  · refine Or.inl ?_
    cases hcode : s.code u with
    | nil => exact absurd howner (hdisc.owns_nothing hcode)
    | cons i c =>
      cases i with
      | lock m' =>
        cases hfree : s.owner m' with
        | none => exact Program.canStep_lock hparked hcode hfree
        | some w => exact absurd ⟨m', c, hcode, hparked, hfree⟩ (hends w)
      | unlock m' => exact Program.canStep_unlock hparked hcode
      | wait m' => exact Program.canStep_wait hparked hcode
      | run b =>
        have hneeds : m ∈ needs b := (hdisc.owns_iff hcode).mp howner
        refine canStep_of_exec h hparked hcode fun env => exec_total env hroom h hparked hcode ?_ ?_
        · rintro ⟨wl, c', hop, -⟩
          rcases hop with hop | hop <;>
          · rw [hcode] at hop
            obtain rfl := Instr.run.inj (List.cons.inj hop).1
            cases hneeds
        · rintro v ⟨-, wl, destructor, c', w, stage, honce, -⟩
          rw [hcode] at honce
          obtain rfl := Instr.run.inj (List.cons.inj honce).1
          cases hneeds

/-- `t` waits for `u` to give up a mutex or to leave a callable. -/
def HeldUp (s : ServiceState) (t u : Tid) : Prop := s.WaitsFor t u ∨ AwaitsOnce s t u

theorem rank_lt (m : Mutex) : typing.rank m < 2 := by
  cases m <;> decide

/-- A thread that neither awaits a callable nor calls a destroyed lock can go on, or waits for a mutex of a thread that
can. -/
theorem goes_on_unless (hroom : RoomToRecord cfg s) (h : (program cfg).Reach Served s) (hbusy : s.code u ≠ [])
    (hawake : u ∉ s.waiters) (hlive : ¬ CallsDestroyed s u) (honce : ∀ v, ¬ AwaitsOnce s u v) :
    ∃ v, Relation.ReflTransGen s.WaitsFor u v ∧ ((program cfg).CanStep s v ∨ TimedWait s v) := by
  cases hcode : s.code u with
  | nil => exact absurd hcode hbusy
  | cons i c =>
    cases i with
    | lock m =>
      cases howner : s.owner m with
      | none => exact ⟨u, .refl, Or.inl (Program.canStep_lock hawake hcode howner)⟩
      | some v =>
        obtain ⟨w, m', hchain, howner', hends⟩ := (h.disciplined (typing_sound cfg)).chain_ends rank_lt howner
        exact ⟨w, .head ⟨m, c, hcode, hawake, howner⟩ hchain, owner_goes_on hroom h howner' hends⟩
    | unlock m => exact ⟨u, .refl, Or.inl (Program.canStep_unlock hawake hcode)⟩
    | wait m => exact ⟨u, .refl, Or.inl (Program.canStep_wait hawake hcode)⟩
    | run b =>
      exact ⟨u, .refl, Or.inl (canStep_of_exec h hawake hcode fun env =>
        exec_total env hroom h hawake hcode hlive honce)⟩

theorem inside_callable (h : (program cfg).Reach OneWay s) {wl : Nat} {w : WakeLock} {stage : ReleaseStage}
    (hw : s.shared.wakeLocks[wl]? = some w) (hflag : w.mReleased = .running u stage) :
    s.code u ≠ [] ∧ u ∉ s.waiters ∧ ¬ CallsDestroyed s u ∧ ∀ v, ¬ AwaitsOnce s u v := by
  have hserved := h.mono fun _ _ hok => hok.1
  have hend : (s.code u).duties onceEnd? ≠ [] := by
    have hleft := ((reach_locks hserved).inv wl w hw).releasing u
    rw [hflag, onceLeft, if_pos rfl] at hleft
    have hfinish : ReleaseStage.finish ∈ (s.code u).duties (releaseDuty wl) := by
      rw [hleft]
      cases stage <;> simp [releaseLeft]
    obtain ⟨b, hb, hduty⟩ := Code.mem_duties.mp hfinish
    intro hnone
    have hb' := Code.none_of_duties hnone hb
    unfold releaseDuty at hduty
    split at hduty
    · split at hduty <;> cases hduty
    · split at hduty <;> cases hduty
    · split at hduty <;> cases hduty
    · cases hb'
    · cases hduty
  have hhead : ∀ b (c : ThreadCode), s.code u = .run b :: c → insideOnce b = true := by
    intro b c hcode
    by_cases hrest : c.duties onceEnd? = []
    · rw [hcode, Code.duties_run, hrest, List.append_nil] at hend
      cases b with
      | onceDone wl destructor => rfl
      | _ => exact absurd rfl hend
    · exact reach_enclosed h u [] b c hcode hrest
  refine ⟨fun hnil => hend (by rw [hnil]; rfl), fun hparked => ?_, ?_, ?_⟩
  · obtain ⟨b, (c : ThreadCode), hcode, hwaits⟩ := (reach_parking hserved).parked u hparked
    have hinside : insideOnce b = true := by
      by_cases hrest : c.duties onceEnd? = []
      · rw [hcode, Code.duties_lock, Code.duties_run, hrest, List.append_nil] at hend
        cases b with
        | onceDone wl destructor => rfl
        | _ => exact absurd rfl hend
      · exact reach_enclosed h u [.lock mAutosuspendLock] b c hcode hrest
    unfold Waits at hwaits
    split at hwaits <;> first | exact False.elim hwaits | cases hinside
  · rintro ⟨wl', c, hop, -⟩
    rcases hop with hop | hop <;> cases hhead _ _ hop
  · rintro v ⟨-, wl', destructor, c, w', stage', honce, -⟩
    cases hhead _ _ honce

end progress

/-- There is no deadlock. A thread that has something to do, and is not parked on the condition variable, can take its
next step, or it waits for a mutex or for the end of a callable, directly or through other threads, and the last of these
can take a step, or wakes up on its own. What cannot go on is a call on a wake lock that its client has destroyed. -/
theorem no_deadlock (cfg : Config) (hcap : 1 ≤ cfg.statsCapacity) {s : ServiceState} (h : (program cfg).Reach OneWay s)
    {t : Tid} (hbusy : s.code t ≠ []) (hawake : t ∉ s.waiters) (hlive : ¬ CallsDestroyed s t) :
    ∃ u, Relation.ReflTransGen (HeldUp s) t u ∧ ((program cfg).CanStep s u ∨ TimedWait s u) := by
  have hserved := h.mono fun _ _ hok => hok.1
  have hroom : RoomToRecord cfg s := fun _ _ _ _ => hcap
  by_cases honce : ∃ u, AwaitsOnce s t u
  · obtain ⟨u, hawaits⟩ := honce
    have ⟨_, wl, destructor, c, w, stage, _, hw, hflag⟩ := hawaits
    obtain ⟨hbusy', hawake', hlive', honce'⟩ := inside_callable h hw hflag
    obtain ⟨v, hchain, hgoes⟩ := goes_on_unless hroom hserved hbusy' hawake' hlive' honce'
    exact ⟨v, .head (Or.inr hawaits) (Relation.ReflTransGen.mono (fun _ _ => Or.inl) _ _ hchain), hgoes⟩
  · obtain ⟨v, hchain, hgoes⟩ := goes_on_unless hroom hserved hbusy hawake hlive fun v hv => honce ⟨v, hv⟩
    exact ⟨v, Relation.ReflTransGen.mono (fun _ _ => Or.inl) _ _ hchain, hgoes⟩

theorem no_deadlock_enable : ∃ s, (program smallConfig).Reach OneWay s ∧
    s.WaitsFor (.client 1) (.autosuspend 0) ∧
    ∃ u, Relation.ReflTransGen (HeldUp s) (.client 1) u ∧ ((program smallConfig).CanStep s u ∨ TimedWait s u) := by
  obtain ⟨s, hreach, hs⟩ := Program.Reach.of_run (program smallConfig) (fun s a => servedAction a && answersOneway s a)
    (toSuspend ++ goCall (.client 1) (.enableAutosuspend 9) 1)
    (fun s => (s.code (.client 1)).head? = some (.lock mAutosuspendClientTokensLock) &&
      decide (Tid.client 1 ∉ s.waiters) && decide (s.owner mAutosuspendClientTokensLock = some (.autosuspend 0)))
    (fun _ _ h => by simpa [OneWay, Served] using h) (by decide +kernel)
  simp only [Bool.and_eq_true, decide_eq_true_eq] at hs
  obtain ⟨⟨hhead, hawake⟩, howner⟩ := hs
  obtain ⟨c, hcode⟩ := List.head?_eq_some_iff.mp hhead
  refine ⟨s, hreach, ⟨_, c, hcode, hawake, howner⟩,
    no_deadlock smallConfig (by decide) hreach (by simp [hcode]) hawake ?_⟩
  rintro ⟨wl, c', hop, -⟩
  rcases hop with hop | hop <;>
  · rw [hcode] at hop
    cases hop

end HardwareInterfaces.Suspend.Service
