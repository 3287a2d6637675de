import HardwareInterfaces.Suspend.AutosuspendThread

/-!
# The life of a wake lock

A wake lock object raises the counter, records its acquisition and is returned, in this order and by the thread that
acquires it; its first release or its destructor lowers the counter and records the release inside
`std::call_once`; its destructor ends after that. `LockInv` ties the state of an object to the steps that are still to
come in the code of the threads, and `Transition` lists the changes an object can go through.
-/

namespace HardwareInterfaces.Suspend.Service

open CppStd Monitor Mutex

/-! ### Steps that are still to come -/

/-- The phases of the acquisition that are not over. -/
def acquisitionLeft : Acquisition → List Acquisition
  | .constructing => [.constructing, .counted, .recorded]
  | .counted => [.counted, .recorded]
  | .recorded => [.recorded]
  | .returned => []

def releaseLeft : ReleaseStage → List ReleaseStage
  | .counter => [.counter, .stats, .finish]
  | .stats => [.stats, .finish]
  | .finish => [.finish]

/-- What thread `t` still has to do inside `std::call_once`. -/
def onceLeft (flag : OnceFlag) (t : Tid) : List ReleaseStage :=
  match flag with
  | .running u stage => if t = u then releaseLeft stage else []
  | _ => []

/-- The two parts of the destructor: `releaseOnce`, and the rest. -/
inductive DestructorStep
  | once
  | finish
  deriving DecidableEq

def destructorLeft (destruction : Destruction) (t : Tid) : List DestructorStep :=
  match destruction with
  | .releasing u => if t = u then [.once, .finish] else []
  | .released u => if t = u then [.finish] else []
  | _ => []

/-- The phase of the acquisition of `wl` that a block ends. -/
def acquireDuty (wl : Nat) : Block → Option Acquisition
  | .incSuspendCounter (.wakeLock wl') => if wl' = wl then some .constructing else none
  | .getTimeNow .acquire (.wakeLock wl') => if wl' = wl then some .counted else none
  | .updateStats .acquire (.wakeLock wl') _ => if wl' = wl then some .counted else none
  | .returnWakeLock wl' => if wl' = wl then some .recorded else none
  | _ => none

def releaseDuty (wl : Nat) : Block → Option ReleaseStage
  | .decSuspendCounter (.wakeLock wl') => if wl' = wl then some .counter else none
  | .getTimeNow .release (.wakeLock wl') => if wl' = wl then some .stats else none
  | .updateStats .release (.wakeLock wl') _ => if wl' = wl then some .stats else none
  | .onceDone wl' _ => if wl' = wl then some .finish else none
  | _ => none

def destructorDuty (wl : Nat) : Block → Option DestructorStep
  | .callOnce wl' destructor => if wl' = wl ∧ destructor then some .once else none
  | .onceDone wl' destructor => if wl' = wl ∧ destructor then some .once else none
  | .endDestroy wl' => if wl' = wl then some .finish else none
  | _ => none

def onceCall (wl : Nat) : Block → Option Unit
  | .callOnce wl' _ => if wl' = wl then some () else none
  | _ => none

/-- The state of the object `wl` and the code of the threads agree. -/
structure LockInv (s : ServiceState) (wl : Nat) (w : WakeLock) : Prop where
  acquiring : ∀ t, (s.code t).duties (acquireDuty wl) = if t = w.acquirer then acquisitionLeft w.acquisition else []
  releasing : ∀ t, (s.code t).duties (releaseDuty wl) = onceLeft w.mReleased t
  destroying : ∀ t, (s.code t).duties (destructorDuty wl) = destructorLeft w.destruction t
  called : ∀ t, (s.code t).duties (onceCall wl) ≠ [] → w.acquisition = .returned
  released : w.mReleased ≠ .idle → w.acquisition = .returned
  destroyed : w.destruction ≠ .alive → w.acquisition = .returned
  done : (∃ t, w.destruction = .released t) ∨ w.destruction = .ended → w.mReleased = .done

/-- Every object agrees with the code, and no code is about an object that does not exist yet. -/
structure Locks (s : ServiceState) : Prop where
  inv : ∀ wl w, s.shared.wakeLocks[wl]? = some w → LockInv s wl w
  unmade : ∀ t, ∀ wl ∈ (s.code t).duties Block.wakeLock?, wl < s.shared.wakeLocks.length

/-! ### What a block does to the objects -/

/-- A change of the object `wl` by a block of thread `t`. -/
inductive Transition (t : Tid) (wl : Nat) (w : WakeLock) : Block → WakeLock → Prop
  | inc (phase : w.acquisition = .constructing) (once : w.mReleased = .idle) :
      Transition t wl w (.incSuspendCounter (.wakeLock wl)) w.counted
  | acquired (timeNow : Int) (phase : w.acquisition = .counted) (once : w.mReleased = .idle) :
      Transition t wl w (.updateStats .acquire (.wakeLock wl) timeNow) (w.statsUpdated .acquire)
  | returned (phase : w.acquisition = .recorded) (once : w.mReleased = .idle) :
      Transition t wl w (.returnWakeLock wl) { w with acquisition := .returned }
  | start (destructor : Bool) (phase : w.acquisition = .returned) (once : w.mReleased = .idle) :
      Transition t wl w (.callOnce wl destructor) { w with mReleased := .running t .counter }
  | dec (phase : w.acquisition = .returned) (once : w.mReleased = .running t .counter) :
      Transition t wl w (.decSuspendCounter (.wakeLock wl)) w.uncounted
  | released (timeNow : Int) (phase : w.acquisition = .returned) (once : w.mReleased = .running t .stats) :
      Transition t wl w (.updateStats .release (.wakeLock wl) timeNow) (w.statsUpdated .release)
  | finish (destructor : Bool) (phase : w.acquisition = .returned) (once : w.mReleased = .running t .finish)
      (inside : destructor = true → w.destruction = .releasing t) :
      Transition t wl w (.onceDone wl destructor) (w.pastOnce t destructor)
  | past (destructor : Bool) (phase : w.acquisition = .returned) (once : w.mReleased = .done)
      (inside : destructor = true → w.destruction = .releasing t) :
      Transition t wl w (.callOnce wl destructor) (w.pastOnce t destructor)
  | destroy {b : Block} (phase : w.acquisition = .returned) (alive : w.destruction = .alive)
      (block : b = .beginDestroy wl ∨ b = .op (.destroyWakeLock wl)) :
      Transition t wl w b { w with destruction := .releasing t }
  | ended (phase : w.acquisition = .returned) (once : w.mReleased = .done) (destruction : w.destruction = .released t) :
      Transition t wl w (.endDestroy wl) { w with destruction := .ended }

section inversion

variable {w : WakeLock} {t : Tid}

theorem acquisitionLeft_cons {x : Acquisition} {rest : List Acquisition}
    (h : x :: rest = if t = w.acquirer then acquisitionLeft w.acquisition else []) :
    t = w.acquirer ∧ w.acquisition = x ∧ rest = (acquisitionLeft x).tail := by
  split at h
  · rename_i ht
    cases hphase : w.acquisition with
    | returned =>
      rw [hphase] at h
      cases h
    | _ =>
      rw [hphase] at h
      obtain ⟨rfl, rfl⟩ := List.cons.inj h
      exact ⟨ht, rfl, rfl⟩
  · cases h

theorem onceLeft_cons {flag : OnceFlag} {x : ReleaseStage} {rest : List ReleaseStage}
    (h : x :: rest = onceLeft flag t) : flag = .running t x ∧ rest = (releaseLeft x).tail := by
  unfold onceLeft at h
  split at h
  · rename_i u stage
    split at h
    · rename_i ht
      subst ht
      cases stage with
      | _ =>
        obtain ⟨rfl, rfl⟩ := List.cons.inj h
        exact ⟨rfl, rfl⟩
    · cases h
  · cases h

theorem destructorLeft_once {destruction : Destruction} {rest : List DestructorStep}
    (h : .once :: rest = destructorLeft destruction t) : destruction = .releasing t ∧ rest = [.finish] := by
  unfold destructorLeft at h
  split at h
  · split at h
    · rename_i ht
      subst ht
      exact ⟨rfl, (List.cons.inj h).2⟩
    · cases h
  · split at h
    · cases h
    · cases h
  · cases h

theorem destructorLeft_finish {destruction : Destruction} {rest : List DestructorStep}
    (h : .finish :: rest = destructorLeft destruction t) : destruction = .released t ∧ rest = [] := by
  unfold destructorLeft at h
  split at h
  · split at h
    · cases h
    · cases h
  · split at h
    · rename_i ht
      subst ht
      exact ⟨rfl, (List.cons.inj h).2⟩
    · cases h
  · cases h

end inversion

/-! ### Blocks that are not about an object -/

def Concerns (b : Block) (wl : Nat) : Prop :=
  b.wakeLock? = some wl ∨ b = .op (.release wl) ∨ b = .op (.destroyWakeLock wl)

theorem mentions_callAcquireWakeLock {frontEnd : FrontEnd} {n wl : Nat}
    (h : wl ∈ (callAcquireWakeLock frontEnd n).duties Block.wakeLock?) : wl = n := by
  cases frontEnd <;> simpa [callAcquireWakeLock, constructWakeLock, callIncSuspendCounter, callUpdateWakeLockStat,
    callNotifyWakelock, lockGuard, Block.wakeLock?] using h

theorem getElem?_construct {t : Tid} {env : Env} {σ : Shared} {frontEnd : FrontEnd} {name : StdString}
    {isLocal : Bool} {wl : Nat} (hwl : wl < σ.wakeLocks.length) :
    (construct t env σ frontEnd name isLocal).wakeLocks[wl]? = σ.wakeLocks[wl]? :=
  List.getElem?_append_left hwl

theorem getSuspendStats_unrelated (t : Tid) (env : Env) (σ : Shared) {wl : Nat} (hwl : wl < σ.wakeLocks.length) :
    (getSuspendStats t env σ).state.wakeLocks[wl]? = σ.wakeLocks[wl]? ∧
      wl ∉ (getSuspendStats t env σ).code.duties Block.wakeLock? := by
  unfold getSuspendStats
  split
  · exact ⟨rfl, List.not_mem_nil⟩
  · refine ⟨getElem?_construct hwl, fun hmem => ?_⟩
    rw [Code.duties_append, List.mem_append] at hmem
    rcases hmem with hmem | hmem
    · have := mentions_callAcquireWakeLock hmem
      omega
    · simp [Block.wakeLock?] at hmem
      omega

theorem getElem?_onLock {σ : Shared} {wl wl' : Nat} (hne : wl' ≠ wl) (f : WakeLock → WakeLock) :
    (σ.onLock wl' f).wakeLocks[wl]? = σ.wakeLocks[wl]? := by
  simp [Shared.onLock, hne]

theorem getElem?_onHolder {σ : Shared} {h : Holder} {wl : Nat} (hne : h ≠ .wakeLock wl) (f : WakeLock → WakeLock) :
    (σ.onHolder h f).wakeLocks[wl]? = σ.wakeLocks[wl]? := by
  cases h with
  | wakeLock wl' => exact getElem?_onLock (fun he => hne (by rw [he])) f
  | direct name pid => rfl

theorem execOp_unrelated {t : Tid} {env : Env} {σ : Shared} {p : Op} {o : Out} {wl : Nat}
    (h : execOp t env σ p = some o) (hb : ¬ Concerns (.op p) wl) (hwl : wl < σ.wakeLocks.length) :
    o.state.wakeLocks[wl]? = σ.wakeLocks[wl]? ∧ wl ∉ o.code.duties Block.wakeLock? := by
  have hframe := frame_execOp h
  cases p with
  | acquireWakeLock frontEnd name =>
    obtain rfl := Option.some.inj h
    unfold acquireWakeLock
    split
    · exact ⟨rfl, List.not_mem_nil⟩
    · refine ⟨getElem?_construct hwl, fun hmem => ?_⟩
      have := mentions_callAcquireWakeLock hmem
      omega
  | getSuspendStats =>
    obtain rfl := Option.some.inj h
    exact getSuspendStats_unrelated t env σ hwl
  | release wl' =>
    simp only [execOp, release] at h
    split at h
    · obtain rfl := Option.some.inj h
      refine ⟨rfl, fun hmem => hb (Or.inr (Or.inl ?_))⟩
      simp [Block.wakeLock?] at hmem
      rw [hmem]
    · cases h
  | destroyWakeLock wl' =>
    simp only [execOp, destroyWakeLock] at h
    split at h
    · obtain ⟨-, rfl⟩ := beginDestroy_eq h
      have hne : wl' ≠ wl := fun he => hb (Or.inr (Or.inr (by rw [he])))
      refine ⟨getElem?_onLock hne _, fun hmem => ?_⟩
      simp [Block.wakeLock?] at hmem
      exact hne hmem.symm
    · cases h
  | _ =>
    rw [hframe.wakeLocks rfl, hframe.mentions rfl]
    exact ⟨rfl, List.not_mem_nil⟩

theorem exec_unrelated {cfg : Config} {t : Tid} {env : Env} {σ : Shared} {b : Block} {o : Out} {wl : Nat}
    (h : exec cfg t env σ b = some o) (hb : ¬ Concerns b wl) (hwl : wl < σ.wakeLocks.length) :
    o.state.wakeLocks[wl]? = σ.wakeLocks[wl]? ∧ wl ∉ o.code.duties Block.wakeLock? := by
  have hframe := exec_frame h
  cases b with
  | op p => exact execOp_unrelated h hb hwl
  | dumpKernelSuspends suspendControls =>
    obtain rfl := Option.some.inj h
    obtain ⟨hlocks, hmention⟩ := getSuspendStats_unrelated t env σ hwl
    refine ⟨hlocks, fun hmem => hmention ?_⟩
    simp only [dumpKernelSuspends, Code.duties_append, List.mem_append] at hmem
    refine hmem.resolve_right fun hmem => ?_
    split at hmem <;> cases hmem
  | incSuspendCounter holder =>
    obtain rfl := Option.some.inj h
    have hne : holder ≠ .wakeLock wl := fun he => hb (Or.inl (by rw [he]; rfl))
    simp only [incSuspendCounter]
    split <;> exact ⟨getElem?_onHolder hne _, List.not_mem_nil⟩
  | decSuspendCounter holder =>
    obtain rfl := Option.some.inj h
    have hne : holder ≠ .wakeLock wl := fun he => hb (Or.inl (by rw [he]; rfl))
    simp only [decSuspendCounter]
    split <;> exact ⟨getElem?_onHolder hne _, List.not_mem_nil⟩
  | getTimeNow change holder =>
    obtain rfl := Option.some.inj h
    refine ⟨rfl, fun hmem => ?_⟩
    cases holder with
    | wakeLock wl' =>
      simp [lockGuard, Block.wakeLock?] at hmem
      exact hb (Or.inl (by rw [hmem]; rfl))
    | direct name pid => cases hmem
  | updateStats change holder timeNow =>
    obtain ⟨stats, -, rfl⟩ := Option.map_eq_some_iff.mp h
    have hne : holder ≠ .wakeLock wl := fun he => hb (Or.inl (by rw [he]; rfl))
    exact ⟨getElem?_onHolder hne _, List.not_mem_nil⟩
  | returnWakeLock wl' =>
    obtain rfl := Option.some.inj h
    have hne : wl' ≠ wl := fun he => hb (Or.inl (by rw [he]; rfl))
    exact ⟨getElem?_onLock hne _, List.not_mem_nil⟩
  | callOnce wl' destructor =>
    have hne : wl' ≠ wl := fun he => hb (Or.inl (by rw [he]; rfl))
    simp only [exec, callOnce] at h
    split at h
    · obtain rfl := Option.some.inj h
      refine ⟨getElem?_onLock hne _, fun hmem => hne ?_⟩
      simpa [releaseCallable, callDecSuspendCounter, callUpdateWakeLockStat, callNotifyWakelock, lockGuard,
        Block.wakeLock?, eq_comm] using hmem
    · cases h
    · obtain rfl := Option.some.inj h
      exact ⟨getElem?_onLock hne _, List.not_mem_nil⟩
  | onceDone wl' destructor =>
    obtain rfl := Option.some.inj h
    have hne : wl' ≠ wl := fun he => hb (Or.inl (by rw [he]; rfl))
    exact ⟨getElem?_onLock hne _, List.not_mem_nil⟩
  | beginDestroy wl' =>
    have hne : wl' ≠ wl := fun he => hb (Or.inl (by rw [he]; rfl))
    obtain ⟨-, rfl⟩ := beginDestroy_eq h
    refine ⟨getElem?_onLock hne _, fun hmem => hne ?_⟩
    simpa [Block.wakeLock?, eq_comm] using hmem
  | endDestroy wl' =>
    obtain rfl := Option.some.inj h
    have hne : wl' ≠ wl := fun he => hb (Or.inl (by rw [he]; rfl))
    exact ⟨getElem?_onLock hne _, List.not_mem_nil⟩
  | _ =>
    rw [hframe.wakeLocks rfl, hframe.mentions rfl]
    exact ⟨rfl, List.not_mem_nil⟩

/-! ### Objects after a step -/

/-- A duty of the object `wl` only. -/
def About {δ : Type} (d : Block → Option δ) (wl : Nat) : Prop := ∀ b, b.wakeLock? ≠ some wl → d b = none

theorem about_acquireDuty (wl : Nat) : About (acquireDuty wl) wl := by
  intro b hb
  unfold acquireDuty
  split <;> first | exact if_neg fun he => hb (by rw [he]; rfl) | rfl

theorem about_releaseDuty (wl : Nat) : About (releaseDuty wl) wl := by
  intro b hb
  unfold releaseDuty
  split <;> first | exact if_neg fun he => hb (by rw [he]; rfl) | rfl

theorem about_destructorDuty (wl : Nat) : About (destructorDuty wl) wl := by
  intro b hb
  unfold destructorDuty
  split <;> first | exact if_neg fun he => hb (by rw [he.1]; rfl) | exact if_neg fun he => hb (by rw [he]; rfl) | rfl

theorem about_onceCall (wl : Nat) : About (onceCall wl) wl := by
  intro b hb
  unfold onceCall
  split <;> first | exact if_neg fun he => hb (by rw [he]; rfl) | rfl

theorem About.duties_eq_nil {δ : Type} {d : Block → Option δ} {wl : Nat} (hd : About d wl) {c : ThreadCode}
    (hc : wl ∉ c.duties Block.wakeLock?) : c.duties d = [] :=
  Code.duties_eq_nil fun b hb => hd b fun hwl => hc (Code.mem_duties.mpr ⟨b, hb, hwl⟩)

section step

variable {cfg : Config} {s s' : ServiceState} {a : ServiceAction} {t : Tid} {b : Block} {env : Env}
  {c : ThreadCode} {o : Out} {wl : Nat} {w : WakeLock}

theorem About.spawn {δ : Type} {d : Block → Option δ} (hd : About d wl)
    (hr : (program cfg).Ran s a s' t b env c o) : ∀ v cv, o.spawn = some (v, cv) → Code.duties d cv = [] := by
  exact duties_of_spawn hr (hd.duties_eq_nil List.not_mem_nil)

theorem About.kept {δ : Type} {d : Block → Option δ} (hd : About d wl) (hr : (program cfg).Ran s a s' t b env c o)
    (hb : d b = none) (hcode : o.code.duties d = []) (u : Tid) :
    (s'.code u).duties d = (s.code u).duties d :=
  hr.duties_same (hd.spawn hr) (by rw [hcode, hb]; rfl) u

/-- A block that leaves to the code after it the duties it was. -/
theorem LockInv.kept (h : LockInv s wl w) (hr : (program cfg).Ran s a s' t b env c o)
    (hacquire : o.code.duties (acquireDuty wl) = (acquireDuty wl b).toList)
    (hrelease : o.code.duties (releaseDuty wl) = (releaseDuty wl b).toList)
    (hdestructor : o.code.duties (destructorDuty wl) = (destructorDuty wl b).toList)
    (hcall : o.code.duties (onceCall wl) = (onceCall wl b).toList) : LockInv s' wl w where
  acquiring u := (hr.duties_same ((about_acquireDuty wl).spawn hr) hacquire u).trans (h.acquiring u)
  releasing u := (hr.duties_same ((about_releaseDuty wl).spawn hr) hrelease u).trans (h.releasing u)
  destroying u := (hr.duties_same ((about_destructorDuty wl).spawn hr) hdestructor u).trans (h.destroying u)
  called u hu := h.called u (by rwa [← hr.duties_same ((about_onceCall wl).spawn hr) hcall u])
  released := h.released
  destroyed := h.destroyed
  done := h.done

theorem LockInv.unrelated (h : LockInv s wl w) (hr : (program cfg).Ran s a s' t b env c o)
    (hb : b.wakeLock? ≠ some wl) (hcode : wl ∉ o.code.duties Block.wakeLock?) : LockInv s' wl w := by
  have hnil : ∀ {δ : Type} {d : Block → Option δ}, About d wl → o.code.duties d = (d b).toList := by
    intro δ d hd
    rw [hd.duties_eq_nil hcode, hd b hb]
    rfl
  exact h.kept hr (hnil (about_acquireDuty wl)) (hnil (about_releaseDuty wl)) (hnil (about_destructorDuty wl))
    (hnil (about_onceCall wl))

theorem LockInv.acquire_step (h : LockInv s wl w) (hr : (program cfg).Ran s a s' t b env c o) {x : Acquisition}
    (hb : acquireDuty wl b = some x) :
    t = w.acquirer ∧ w.acquisition = x ∧ c.duties (acquireDuty wl) = (acquisitionLeft x).tail := by
  have hbefore := h.acquiring t
  rw [hr.duties_before, hb] at hbefore
  exact acquisitionLeft_cons hbefore

theorem LockInv.release_step (h : LockInv s wl w) (hr : (program cfg).Ran s a s' t b env c o) {x : ReleaseStage}
    (hb : releaseDuty wl b = some x) :
    w.mReleased = .running t x ∧ w.acquisition = .returned ∧
      c.duties (releaseDuty wl) = (releaseLeft x).tail := by
  have hbefore := h.releasing t
  rw [hr.duties_before, hb] at hbefore
  obtain ⟨hflag, hc⟩ := onceLeft_cons hbefore
  exact ⟨hflag, h.released (by simp [hflag]), hc⟩

theorem LockInv.unfinished (h : LockInv s wl w) (hphase : w.acquisition ≠ .returned) :
    w.mReleased = .idle ∧ w.destruction = .alive :=
  ⟨by_contra fun hne => hphase (h.released hne), by_contra fun hne => hphase (h.destroyed hne)⟩

theorem LockInv.acquired (h : LockInv s wl w) (hr : (program cfg).Ran s a s' t b env c o) {x y : Acquisition}
    (hb : acquireDuty wl b = some x) (hcode : o.code = []) (hother : releaseDuty wl b = none ∧
      destructorDuty wl b = none ∧ onceCall wl b = none) (hx : x ≠ .returned)
    (hy : acquisitionLeft y = (acquisitionLeft x).tail) : LockInv s' wl { w with acquisition := y } := by
  obtain ⟨ht, hphase, hc⟩ := h.acquire_step hr hb
  obtain ⟨honce, halive⟩ := h.unfinished (by rw [hphase]; exact hx)
  have hnil : ∀ {δ : Type} {d : Block → Option δ}, o.code.duties d = [] := by
    intro δ d
    rw [hcode]
    rfl
  refine
    { acquiring := hr.duties_update ((about_acquireDuty wl).spawn hr) h.acquiring ?_ ?_
      releasing := fun u => ((about_releaseDuty wl).kept hr hother.1 hnil u).trans (h.releasing u)
      destroying := fun u => ((about_destructorDuty wl).kept hr hother.2.1 hnil u).trans (h.destroying u)
      called := fun u hu => ?_
      released := fun hne => absurd honce hne
      destroyed := fun hne => absurd halive hne
      done := fun hd => ?_ }
  · rw [hnil, hc, if_pos ht, hy]
    rfl
  · intro u hu
    rw [if_neg fun he => hu (he.trans ht.symm), if_neg fun he => hu (he.trans ht.symm)]
  · rw [(about_onceCall wl).kept hr hother.2.2 hnil u] at hu
    exact absurd (hphase.symm.trans (h.called u hu)) hx
  · rw [halive] at hd
    obtain ⟨t, ht⟩ | hd := hd
    · cases ht
    · cases hd

theorem LockInv.advanced (h : LockInv s wl w) (hr : (program cfg).Ran s a s' t b env c o) {x y : ReleaseStage}
    (hb : releaseDuty wl b = some x) (hcode : o.code = []) (hother : acquireDuty wl b = none ∧
      destructorDuty wl b = none ∧ onceCall wl b = none)
    (hy : releaseLeft y = (releaseLeft x).tail) : LockInv s' wl { w with mReleased := .running t y } := by
  obtain ⟨hflag, hphase, hc⟩ := h.release_step hr hb
  have hnil : ∀ {δ : Type} {d : Block → Option δ}, o.code.duties d = [] := by
    intro δ d
    rw [hcode]
    rfl
  refine
    { acquiring := fun u => ((about_acquireDuty wl).kept hr hother.1 hnil u).trans (h.acquiring u)
      releasing := hr.duties_update ((about_releaseDuty wl).spawn hr) h.releasing ?_ ?_
      destroying := fun u => ((about_destructorDuty wl).kept hr hother.2.1 hnil u).trans (h.destroying u)
      called := fun u hu => ?_
      released := fun _ => hphase
      destroyed := h.destroyed
      done := fun hd => ?_ }
  · rw [hnil, hc, onceLeft, if_pos rfl, hy]
    rfl
  · intro u hu
    rw [hflag, onceLeft, onceLeft, if_neg hu, if_neg hu]
  · rw [(about_onceCall wl).kept hr hother.2.2 hnil u] at hu
    exact h.called u hu
  · have := h.done hd
    rw [hflag] at this
    cases this

theorem LockInv.started {destructor : Bool} (h : LockInv s wl w)
    (hr : (program cfg).Ran s a s' t (.callOnce wl destructor) env c o) (honce : w.mReleased = .idle)
    (hcode : o.code = releaseCallable wl ++ [.run (.onceDone wl destructor)]) :
    w.acquisition = .returned ∧ LockInv s' wl { w with mReleased := .running t .counter } := by
  have hphase : w.acquisition = .returned := by
    refine h.called t ?_
    rw [hr.duties_before]
    simp [onceCall]
  have hacquire : o.code.duties (acquireDuty wl) = [] := by
    rw [hcode]
    rfl
  have hrelease : o.code.duties (releaseDuty wl) = [.counter, .stats, .finish] := by
    rw [hcode]
    simp [releaseCallable, callDecSuspendCounter, callUpdateWakeLockStat, callNotifyWakelock, lockGuard, releaseDuty]
  have hdestructor : o.code.duties (destructorDuty wl) = (destructorDuty wl (.callOnce wl destructor)).toList := by
    rw [hcode]
    rfl
  have hidle : c.duties (releaseDuty wl) = [] := by
    have hbefore := h.releasing t
    rw [hr.duties_before, honce] at hbefore
    exact hbefore
  refine ⟨hphase,
    { acquiring := fun u => ((about_acquireDuty wl).kept hr rfl hacquire u).trans (h.acquiring u)
      releasing := hr.duties_update ((about_releaseDuty wl).spawn hr) h.releasing ?_ ?_
      destroying := fun u =>
        (hr.duties_same ((about_destructorDuty wl).spawn hr) hdestructor u).trans (h.destroying u)
      called := fun _ _ => hphase
      released := fun _ => hphase
      destroyed := h.destroyed
      done := fun hd => ?_ }⟩
  · rw [hrelease, hidle, onceLeft, if_pos rfl]
    rfl
  · intro u hu
    rw [honce, onceLeft, onceLeft, if_neg hu]
    simp
  · have := h.done hd
    rw [honce] at this
    cases this

/-- The `releaseOnce` of a destructor runs inside the destructor. -/
theorem LockInv.inside {destructor : Bool} (h : LockInv s wl w) (hr : (program cfg).Ran s a s' t b env c o)
    (hb : destructorDuty wl b = if destructor then some .once else none) (hdestructor : destructor = true) :
    w.destruction = .releasing t ∧ c.duties (destructorDuty wl) = [.finish] := by
  have hbefore := h.destroying t
  rw [hr.duties_before, hb, if_pos hdestructor, Option.toList_some, List.singleton_append] at hbefore
  exact destructorLeft_once hbefore

theorem LockInv.passed {destructor : Bool} (h : LockInv s wl w) (hr : (program cfg).Ran s a s' t b env c o)
    (hb : destructorDuty wl b = if destructor then some .once else none) (hcode : o.code = [])
    (hacquire : acquireDuty wl b = none) (hphase : w.acquisition = .returned)
    (hrelease : ∀ u, (s'.code u).duties (releaseDuty wl) = []) : LockInv s' wl (w.pastOnce t destructor) := by
  have hnil : ∀ {δ : Type} {d : Block → Option δ}, o.code.duties d = [] := by
    intro δ d
    rw [hcode]
    rfl
  refine
    { acquiring := fun u => ((about_acquireDuty wl).kept hr hacquire hnil u).trans (h.acquiring u)
      releasing := hrelease
      destroying := ?_
      called := fun _ _ => hphase
      released := fun _ => hphase
      destroyed := fun _ => hphase
      done := fun _ => rfl }
  cases destructor with
  | false => exact fun u => ((about_destructorDuty wl).kept hr hb hnil u).trans (h.destroying u)
  | true =>
    obtain ⟨hreleasing, hc⟩ := h.inside hr hb rfl
    refine hr.duties_update ((about_destructorDuty wl).spawn hr) h.destroying ?_ ?_
    · rw [hnil, hc]
      simp [WakeLock.pastOnce, destructorLeft]
    · intro u hu
      simp [WakeLock.pastOnce, destructorLeft, hreleasing, hu]

theorem LockInv.destroy (h : LockInv s wl w) (hr : (program cfg).Ran s a s' t b env c o)
    (hcode : o.code = [.run (.callOnce wl true), .run (.endDestroy wl)])
    (hb : acquireDuty wl b = none ∧ releaseDuty wl b = none ∧ destructorDuty wl b = none)
    (hphase : w.acquisition = .returned) (halive : w.destruction = .alive) :
    LockInv s' wl { w with destruction := .releasing t } := by
  have hacquire : o.code.duties (acquireDuty wl) = [] := by
    rw [hcode]
    rfl
  have hrelease : o.code.duties (releaseDuty wl) = [] := by
    rw [hcode]
    rfl
  have hdestructor : o.code.duties (destructorDuty wl) = [.once, .finish] := by
    rw [hcode]
    simp [destructorDuty]
  have hidle : c.duties (destructorDuty wl) = [] := by
    have hbefore := h.destroying t
    rw [hr.duties_before, hb.2.2, halive] at hbefore
    exact hbefore
  refine
    { acquiring := fun u => ((about_acquireDuty wl).kept hr hb.1 hacquire u).trans (h.acquiring u)
      releasing := fun u => ((about_releaseDuty wl).kept hr hb.2.1 hrelease u).trans (h.releasing u)
      destroying := hr.duties_update ((about_destructorDuty wl).spawn hr) h.destroying ?_ ?_
      called := fun _ _ => hphase
      released := fun _ => hphase
      destroyed := fun _ => hphase
      done := fun hd => ?_ }
  · rw [hdestructor, hidle, destructorLeft, if_pos rfl]
    rfl
  · intro u hu
    simp [destructorLeft, halive, hu]
  · obtain ⟨u, hu⟩ | hd := hd
    · cases hu
    · cases hd

theorem LockInv.ended (h : LockInv s wl w) (hr : (program cfg).Ran s a s' t (.endDestroy wl) env c o)
    (hcode : o.code = []) :
    w.acquisition = .returned ∧ w.mReleased = .done ∧ w.destruction = .released t ∧
      LockInv s' wl { w with destruction := .ended } := by
  have hnil : ∀ {δ : Type} {d : Block → Option δ}, o.code.duties d = [] := by
    intro δ d
    rw [hcode]
    rfl
  have hbefore := h.destroying t
  rw [hr.duties_before] at hbefore
  simp only [destructorDuty, if_pos, Option.toList_some, List.singleton_append] at hbefore
  obtain ⟨hreleased, hc⟩ := destructorLeft_finish hbefore
  have hphase : w.acquisition = .returned := h.destroyed (by simp [hreleased])
  have hdone : w.mReleased = .done := h.done (Or.inl ⟨t, hreleased⟩)
  refine ⟨hphase, hdone, hreleased,
    { acquiring := fun u => ((about_acquireDuty wl).kept hr rfl hnil u).trans (h.acquiring u)
      releasing := fun u => ((about_releaseDuty wl).kept hr rfl hnil u).trans (h.releasing u)
      destroying := hr.duties_update ((about_destructorDuty wl).spawn hr) h.destroying ?_ ?_
      called := fun _ _ => hphase
      released := fun _ => hphase
      destroyed := fun _ => hphase
      done := fun _ => hdone }⟩
  · rw [hnil, hc]
    rfl
  · intro u hu
    simp [destructorLeft, hreleased, hu]

theorem LockInv.call (h : LockInv s wl w) (hr : (program cfg).Ran s a s' t b env c o) (hb : b.wakeLock? = none)
    (hcode : o.code = [.run (.callOnce wl false)]) (hphase : w.acquisition = .returned) : LockInv s' wl w := by
  have hkept : ∀ {δ : Type} {d : Block → Option δ}, About d wl → d (.callOnce wl false) = none →
      ∀ u, (s'.code u).duties d = (s.code u).duties d := by
    intro δ d hd hcall
    refine hd.kept hr (hd b (by simp [hb])) ?_
    rw [hcode, Code.duties_run, hcall]
    rfl
  exact
    { acquiring := fun u => (hkept (about_acquireDuty wl) rfl u).trans (h.acquiring u)
      releasing := fun u => (hkept (about_releaseDuty wl) rfl u).trans (h.releasing u)
      destroying := fun u => (hkept (about_destructorDuty wl) (by simp [destructorDuty]) u).trans (h.destroying u)
      called := fun _ _ => hphase
      released := h.released
      destroyed := h.destroyed
      done := h.done }

theorem LockInv.constructed (hr : (program cfg).Ran s a s' t b env c o)
    (hmade : ∀ u, wl ∉ (s.code u).duties Block.wakeLock?) {frontEnd : FrontEnd} {rest : ThreadCode}
    (hcode : o.code = callAcquireWakeLock frontEnd wl ++ rest)
    (hrest : ∀ b', .run b' ∈ rest → b'.wakeLock? = some wl → b' = .beginDestroy wl)
    (hfresh : w.acquirer = t ∧ w.acquisition = .constructing ∧ w.mReleased = .idle ∧ w.destruction = .alive) :
    LockInv s' wl w := by
  obtain ⟨ht, hphase, honce, halive⟩ := hfresh
  have hduties : ∀ {δ : Type} {d : Block → Option δ}, About d wl → d (.beginDestroy wl) = none →
      ∀ u, (s'.code u).duties d = if u = t then (callAcquireWakeLock frontEnd wl).duties d else [] := by
    intro δ d hd hbegin
    have hc : c.duties d = [] := by
      have hbefore := hd.duties_eq_nil (hmade t)
      rw [hr.code, Code.duties_run] at hbefore
      exact (List.append_eq_nil_iff.mp hbefore).2
    have hrest' : rest.duties d = [] := by
      refine Code.duties_eq_nil fun b' hb' => ?_
      by_cases hwl : b'.wakeLock? = some wl
      · rw [hrest b' hb' hwl, hbegin]
      · exact hd b' hwl
    refine hr.duties_update (hd.spawn hr) (fun u => hd.duties_eq_nil (hmade u)) ?_ fun u hu => (if_neg hu).symm
    rw [hcode, Code.duties_append, hrest', hc, if_pos rfl, List.append_nil, List.append_nil]
  exact
    { acquiring := fun u => by
        rw [hduties (about_acquireDuty wl) rfl u, ht, hphase]
        cases frontEnd <;> simp [callAcquireWakeLock, constructWakeLock, callIncSuspendCounter,
          callUpdateWakeLockStat, callNotifyWakelock, lockGuard, acquireDuty, acquisitionLeft]
      releasing := fun u => by
        rw [hduties (about_releaseDuty wl) rfl u, honce]
        cases frontEnd <;> exact ite_self _
      destroying := fun u => by
        rw [hduties (about_destructorDuty wl) rfl u, halive]
        cases frontEnd <;> exact ite_self _
      called := fun u hu => by
        rw [hduties (about_onceCall wl) rfl u] at hu
        cases frontEnd <;> exact absurd (ite_self _) hu
      released := fun hne => absurd honce hne
      destroyed := fun hne => absurd halive hne
      done := fun hd => by
        rw [halive] at hd
        obtain ⟨u, hu⟩ | hd := hd
        · cases hu
        · cases hd }

end step

/-! ### All objects, over a run -/

def updatesLock : Block → Bool
  | .incSuspendCounter (.wakeLock _) => true
  | .decSuspendCounter (.wakeLock _) => true
  | .updateStats _ (.wakeLock _) _ => true
  | .returnWakeLock _ => true
  | .callOnce .. => true
  | .onceDone .. => true
  | .beginDestroy _ => true
  | .op (.destroyWakeLock _) => true
  | .endDestroy _ => true
  | _ => false

/-- A new object, of which nothing has happened yet. -/
structure Fresh (t : Tid) (w : WakeLock) : Prop where
  acquirer : w.acquirer = t
  acquisition : w.acquisition = .constructing
  once : w.mReleased = .idle
  alive : w.destruction = .alive

/-- What a block of thread `t` does to the objects. -/
inductive LockChange (t : Tid) (b : Block) (σ σ' : Shared) : Prop
  | same (locks : σ'.wakeLocks = σ.wakeLocks) (block : updatesLock b = false)
  | new (w : WakeLock) (locks : σ'.wakeLocks = σ.wakeLocks ++ [w]) (fresh : Fresh t w) (block : updatesLock b = false)
  | change (wl : Nat) (w w' : WakeLock) (before : σ.wakeLocks[wl]? = some w)
      (locks : σ'.wakeLocks = σ.wakeLocks.set wl w') (transition : Transition t wl w b w')

theorem modify_eq_set {α : Type} {l : List α} {wl : Nat} {w : α} (hw : l[wl]? = some w) (f : α → α) :
    l.modify wl f = l.set wl (f w) := by
  refine List.ext_getElem? fun i => ?_
  rw [List.getElem?_modify, List.getElem?_set]
  by_cases hi : wl = i
  · subst hi
    have hlt := (List.getElem?_eq_some_iff.mp hw).1
    simp only [if_pos, hw, hlt, Option.map_eq_map, Option.map_some]
  · simp [hi]

theorem set_getElem?_self {l : List WakeLock} {wl : Nat} {w : WakeLock} (hw : l[wl]? = some w) :
    l.set wl w = l := by
  obtain ⟨hlt, rfl⟩ := List.getElem?_eq_some_iff.mp hw
  exact List.set_getElem_self hlt

section run

variable {cfg : Config} {s s' : ServiceState} {a : ServiceAction} {t : Tid} {b : Block} {env : Env}
  {c : ThreadCode} {o : Out}

/-- The code after a block mentions what it mentioned before and what the block mentions. -/
theorem Locks.mentions (h : Locks s) (hr : (program cfg).Ran s a s' t b env c o) {u : Tid} {wl : Nat}
    (hwl : wl ∈ (s'.code u).duties Block.wakeLock?) :
    wl < s.shared.wakeLocks.length ∨ wl ∈ o.code.duties Block.wakeLock? := by
  by_cases hu : u = t
  · subst hu
    rw [hr.duties_self, List.mem_append] at hwl
    rcases hwl with hwl | hwl
    · exact Or.inr hwl
    · refine Or.inl (h.unmade u wl ?_)
      rw [hr.duties_before]
      exact List.mem_append_right _ hwl
  · rw [hr.duties_other hu (duties_of_spawn hr rfl)] at hwl
    exact Or.inl (h.unmade u wl hwl)

theorem Locks.exists (h : Locks s) (hr : (program cfg).Ran s a s' t b env c o) {wl : Nat}
    (hb : b.wakeLock? = some wl) : ∃ w, s.shared.wakeLocks[wl]? = some w ∧ LockInv s wl w := by
  have hlt : wl < s.shared.wakeLocks.length := by
    refine h.unmade t wl ?_
    rw [hr.duties_before, hb]
    exact List.mem_cons_self
  exact ⟨_, List.getElem?_eq_getElem hlt, h.inv wl _ (List.getElem?_eq_getElem hlt)⟩

theorem Locks.unrelated (h : Locks s) (hr : (program cfg).Ran s a s' t b env c o) {wl : Nat} {w : WakeLock}
    (hwl : s.shared.wakeLocks[wl]? = some w) (hb : ¬ Concerns b wl) : LockInv s' wl w := by
  have hlt := (List.getElem?_eq_some_iff.mp hwl).1
  exact (h.inv wl w hwl).unrelated hr (fun he => hb (Or.inl he)) (exec_unrelated (exec_of_ran hr) hb hlt).2

theorem Locks.changed (h : Locks s) (hr : (program cfg).Ran s a s' t b env c o) {wl : Nat} {w w' : WakeLock}
    (hw : s.shared.wakeLocks[wl]? = some w) (hlocks : o.state.wakeLocks = s.shared.wakeLocks.set wl w')
    (hconcerns : ∀ wl', Concerns b wl' → wl' = wl) (hmentions : ∀ wl' ∈ o.code.duties Block.wakeLock?, wl' = wl)
    (hinv : LockInv s' wl w') : Locks s' := by
  have hlt := (List.getElem?_eq_some_iff.mp hw).1
  refine ⟨fun wl₁ w₁ hw₁ => ?_, fun u wl₁ hwl₁ => ?_⟩
  · rw [hr.shared, hlocks, List.getElem?_set] at hw₁
    split at hw₁
    · rename_i he
      subst he
      simp only [Option.some.injEq] at hw₁
      rw [← hw₁]
      exact hinv
    · rename_i hne
      exact h.unrelated hr hw₁ fun hb => hne (hconcerns wl₁ hb).symm
  · rw [hr.shared, hlocks, List.length_set]
    rcases h.mentions hr hwl₁ with hlt₁ | hmem
    · exact hlt₁
    · rw [hmentions wl₁ hmem]
      exact hlt

theorem Locks.same (h : Locks s) (hr : (program cfg).Ran s a s' t b env c o)
    (hlocks : o.state.wakeLocks = s.shared.wakeLocks) (hconcerns : ∀ wl, ¬ Concerns b wl)
    (hmentions : o.code.duties Block.wakeLock? = []) (hupdates : updatesLock b = false) :
    Locks s' ∧ LockChange t b s.shared s'.shared := by
  refine ⟨⟨fun wl w hw => ?_, fun u wl hwl => ?_⟩, .same (by rw [hr.shared, hlocks]) hupdates⟩
  · rw [hr.shared, hlocks] at hw
    exact h.unrelated hr hw (hconcerns wl)
  · rw [hr.shared, hlocks]
    refine (h.mentions hr hwl).resolve_right fun hmem => ?_
    rw [hmentions] at hmem
    cases hmem

theorem Locks.constructed (h : Locks s) (hr : (program cfg).Ran s a s' t b env c o) {w : WakeLock}
    (hlocks : o.state.wakeLocks = s.shared.wakeLocks ++ [w]) (hconcerns : ∀ wl, ¬ Concerns b wl)
    {frontEnd : FrontEnd} {rest : ThreadCode}
    (hcode : o.code = callAcquireWakeLock frontEnd s.shared.wakeLocks.length ++ rest)
    (hrest : ∀ b', .run b' ∈ rest → b'.wakeLock? = none ∨ b' = .beginDestroy s.shared.wakeLocks.length)
    (hfresh : Fresh t w) : Locks s' := by
  have hunmade : ∀ u, s.shared.wakeLocks.length ∉ (s.code u).duties Block.wakeLock? :=
    fun u hmem => Nat.lt_irrefl _ (h.unmade u _ hmem)
  refine ⟨fun wl₁ w₁ hw₁ => ?_, fun u wl₁ hwl₁ => ?_⟩
  · rw [hr.shared, hlocks] at hw₁
    rcases Nat.lt_trichotomy wl₁ s.shared.wakeLocks.length with hlt | rfl | hgt
    · rw [List.getElem?_append_left hlt] at hw₁
      exact h.unrelated hr hw₁ (hconcerns wl₁)
    · rw [List.getElem?_append_right (Nat.le_refl _), Nat.sub_self] at hw₁
      obtain rfl := Option.some.inj hw₁
      refine LockInv.constructed hr hunmade hcode (fun b' hb' hwl => ?_)
        ⟨hfresh.acquirer, hfresh.acquisition, hfresh.once, hfresh.alive⟩
      rcases hrest b' hb' with hnone | hbegin
      · rw [hnone] at hwl
        cases hwl
      · exact hbegin
    · have := (List.getElem?_eq_some_iff.mp hw₁).1
      rw [List.length_append, List.length_singleton] at this
      omega
  · rw [hr.shared, hlocks, List.length_append, List.length_singleton]
    rcases h.mentions hr hwl₁ with hlt | hmem
    · omega
    · rw [hcode, Code.duties_append, List.mem_append] at hmem
      rcases hmem with hmem | hmem
      · have := mentions_callAcquireWakeLock hmem
        omega
      · obtain ⟨b', hb', hwl⟩ := Code.mem_duties.mp hmem
        rcases hrest b' hb' with hnone | rfl
        · rw [hnone] at hwl
          cases hwl
        · have := Option.some.inj hwl
          omega

/-- A `getSuspendStats` or a `dump`, which constructs an object or not. -/
theorem Locks.getSuspendStats (h : Locks s) (hr : (program cfg).Ran s a s' t b env c o)
    (hb : ∀ wl, ¬ Concerns b wl) (hupdates : updatesLock b = false) (rest : ThreadCode)
    (hrest : rest.duties Block.wakeLock? = [])
    (ho : o = { Service.getSuspendStats t env s.shared with
      code := (Service.getSuspendStats t env s.shared).code ++ rest }) :
    Locks s' ∧ LockChange t b s.shared s'.shared := by
  unfold Service.getSuspendStats at ho
  split at ho
  · subst ho
    exact h.same hr rfl hb hrest hupdates
  · subst ho
    refine ⟨h.constructed hr rfl hb (List.append_assoc ..) (fun b' hb' => ?_) ⟨rfl, rfl, rfl, rfl⟩,
      .new _ (by rw [hr.shared]; rfl) ⟨rfl, rfl, rfl, rfl⟩ hupdates⟩
    rcases List.mem_append.mp hb' with hb' | hb'
    · right
      simpa using hb'
    · left
      cases hwl : b'.wakeLock? with
      | none => rfl
      | some wl =>
        have hmem := Code.mem_duties.mpr ⟨b', hb', hwl⟩
        rw [hrest] at hmem
        cases hmem

theorem Locks.beginDestroy (h : Locks s) {wl : Nat} (hr : (program cfg).Ran s a s' t b env c o)
    (hb : b = .beginDestroy wl ∨ b = .op (.destroyWakeLock wl))
    (ho : Service.beginDestroy t s.shared wl = some o) : Locks s' ∧ LockChange t b s.shared s'.shared := by
  obtain ⟨⟨w, hw, hphase, halive⟩, rfl⟩ := beginDestroy_eq ho
  have hlocks := modify_eq_set hw fun w => { w with destruction := .releasing t }
  have hinv := (h.inv wl w hw).destroy hr rfl (by rcases hb with rfl | rfl <;> exact ⟨rfl, rfl, rfl⟩) hphase halive
  refine ⟨h.changed hr hw hlocks ?_ ?_ hinv,
    .change wl w _ hw (by rw [hr.shared]; exact hlocks) (.destroy hphase halive hb)⟩
  · intro wl' hwl'
    rcases hb with rfl | rfl
    · simpa [Concerns, Block.wakeLock?, eq_comm] using hwl'
    · simpa [Concerns, Block.wakeLock?, eq_comm] using hwl'
  · intro wl' hwl'
    simpa [Block.wakeLock?] using hwl'

theorem Locks.worked (h : Locks s) (hr : (program cfg).Ran s a s' t b env c o) {wl : Nat} {w : WakeLock}
    {f : WakeLock → WakeLock} (hb : b.wakeLock? = some wl) (hw : s.shared.wakeLocks[wl]? = some w)
    (hlocks : o.state.wakeLocks = s.shared.wakeLocks.modify wl f)
    (hmentions : ∀ wl' ∈ o.code.duties Block.wakeLock?, wl' = wl) (hinv : LockInv s' wl (f w))
    (htransition : Transition t wl w b (f w)) : Locks s' ∧ LockChange t b s.shared s'.shared := by
  rw [modify_eq_set hw f] at hlocks
  refine ⟨h.changed hr hw hlocks (fun wl' hwl' => ?_) hmentions hinv,
    .change wl w _ hw (by rw [hr.shared, hlocks]) htransition⟩
  rcases hwl' with hwl' | rfl | rfl
  · exact Option.some.inj (hwl'.symm.trans hb)
  · cases hb
  · cases hb

theorem Locks.inc (h : Locks s) {wl : Nat}
    (hr : (program cfg).Ran s a s' t (.incSuspendCounter (.wakeLock wl)) env c o) :
    Locks s' ∧ LockChange t (.incSuspendCounter (.wakeLock wl)) s.shared s'.shared := by
  obtain ⟨w, hw, hinv⟩ := h.exists hr rfl
  have hduty : acquireDuty wl (.incSuspendCounter (.wakeLock wl)) = some .constructing := if_pos rfl
  obtain ⟨-, hphase, -⟩ := hinv.acquire_step hr hduty
  obtain ⟨honce, -⟩ := hinv.unfinished (by simp [hphase])
  have hout : o.state.wakeLocks = s.shared.wakeLocks.modify wl WakeLock.counted ∧ o.code = [] := by
    obtain rfl := Option.some.inj (exec_of_ran hr)
    simp only [incSuspendCounter]
    split <;> exact ⟨rfl, rfl⟩
  exact h.worked hr rfl hw hout.1 (by simp [hout.2])
    (hinv.acquired hr hduty hout.2 ⟨rfl, rfl, rfl⟩ (by simp) rfl) (.inc hphase honce)

theorem Locks.dec (h : Locks s) {wl : Nat}
    (hr : (program cfg).Ran s a s' t (.decSuspendCounter (.wakeLock wl)) env c o) :
    Locks s' ∧ LockChange t (.decSuspendCounter (.wakeLock wl)) s.shared s'.shared := by
  obtain ⟨w, hw, hinv⟩ := h.exists hr rfl
  have hduty : releaseDuty wl (.decSuspendCounter (.wakeLock wl)) = some .counter := if_pos rfl
  obtain ⟨hflag, hphase, -⟩ := hinv.release_step hr hduty
  have hout : o.state.wakeLocks = s.shared.wakeLocks.modify wl WakeLock.uncounted ∧ o.code = [] := by
    obtain rfl := Option.some.inj (exec_of_ran hr)
    simp only [decSuspendCounter]
    split <;> exact ⟨rfl, rfl⟩
  have hw' : w.uncounted = { w with mReleased := .running t .stats } := by
    rw [WakeLock.uncounted, hflag]
    rfl
  refine h.worked hr rfl hw hout.1 (by simp [hout.2]) ?_ (.dec hphase hflag)
  rw [hw']
  exact hinv.advanced hr hduty hout.2 ⟨rfl, rfl, rfl⟩ rfl

theorem Locks.updateStats (h : Locks s) {change : Change} {wl : Nat} {timeNow : Int}
    (hr : (program cfg).Ran s a s' t (.updateStats change (.wakeLock wl) timeNow) env c o) :
    Locks s' ∧ LockChange t (.updateStats change (.wakeLock wl) timeNow) s.shared s'.shared := by
  obtain ⟨w, hw, hinv⟩ := h.exists hr rfl
  have hout : o.state.wakeLocks = s.shared.wakeLocks.modify wl (WakeLock.statsUpdated change) ∧ o.code = [] := by
    obtain ⟨stats, -, rfl⟩ := Option.map_eq_some_iff.mp (exec_of_ran hr)
    exact ⟨rfl, rfl⟩
  cases change with
  | acquire =>
    have hduty : acquireDuty wl (.updateStats .acquire (.wakeLock wl) timeNow) = some .counted := if_pos rfl
    obtain ⟨-, hphase, -⟩ := hinv.acquire_step hr hduty
    obtain ⟨honce, -⟩ := hinv.unfinished (by simp [hphase])
    exact h.worked hr rfl hw hout.1 (by simp [hout.2])
      (hinv.acquired hr hduty hout.2 ⟨rfl, rfl, rfl⟩ (by simp) rfl) (.acquired timeNow hphase honce)
  | release =>
    have hduty : releaseDuty wl (.updateStats .release (.wakeLock wl) timeNow) = some .stats := if_pos rfl
    obtain ⟨hflag, hphase, -⟩ := hinv.release_step hr hduty
    have hw' : w.statsUpdated .release = { w with mReleased := .running t .finish } := by
      simp only [WakeLock.statsUpdated, hflag]
      rfl
    refine h.worked hr rfl hw hout.1 (by simp [hout.2]) ?_ (.released timeNow hphase hflag)
    rw [hw']
    exact hinv.advanced hr hduty hout.2 ⟨rfl, rfl, rfl⟩ rfl

theorem Locks.callOnce (h : Locks s) {wl : Nat} {destructor : Bool}
    (hr : (program cfg).Ran s a s' t (.callOnce wl destructor) env c o) :
    Locks s' ∧ LockChange t (.callOnce wl destructor) s.shared s'.shared := by
  obtain ⟨w, hw, hinv⟩ := h.exists hr rfl
  have hexec := exec_of_ran hr
  simp only [exec, Service.callOnce, hw, Option.map_some, Option.getD_some] at hexec
  split at hexec
  · rename_i honce
    obtain rfl := Option.some.inj hexec
    obtain ⟨hphase, hinv'⟩ := hinv.started hr honce rfl
    refine h.worked hr rfl hw rfl (fun wl' hwl' => ?_) hinv' (.start destructor hphase honce)
    simpa [releaseCallable, callDecSuspendCounter, callUpdateWakeLockStat, callNotifyWakelock, lockGuard,
      Block.wakeLock?] using hwl'
  · cases hexec
  · rename_i hdone
    obtain rfl := Option.some.inj hexec
    have hphase := hinv.released (by simp [hdone])
    have hduty : destructorDuty wl (.callOnce wl destructor) = if destructor then some .once else none := by
      cases destructor <;> simp [destructorDuty]
    refine h.worked hr rfl hw rfl (by simp) (hinv.passed hr hduty rfl rfl hphase fun u => ?_)
      (.past destructor hphase hdone fun hd => (hinv.inside hr hduty hd).1)
    · rw [(about_releaseDuty wl).kept hr rfl rfl u, hinv.releasing u, hdone]
      rfl

theorem Locks.onceDone (h : Locks s) {wl : Nat} {destructor : Bool}
    (hr : (program cfg).Ran s a s' t (.onceDone wl destructor) env c o) :
    Locks s' ∧ LockChange t (.onceDone wl destructor) s.shared s'.shared := by
  obtain ⟨w, hw, hinv⟩ := h.exists hr rfl
  have hduty : releaseDuty wl (.onceDone wl destructor) = some .finish := if_pos rfl
  obtain ⟨hflag, hphase, hc⟩ := hinv.release_step hr hduty
  obtain rfl := Option.some.inj (exec_of_ran hr)
  have hdestructor : destructorDuty wl (.onceDone wl destructor) = if destructor then some .once else none := by
    cases destructor <;> simp [destructorDuty]
  refine h.worked hr rfl hw rfl (by simp) (hinv.passed hr hdestructor rfl rfl hphase ?_)
    (.finish destructor hphase hflag fun hd => (hinv.inside hr hdestructor hd).1)
  refine hr.duties_update ((about_releaseDuty wl).spawn hr) hinv.releasing ?_ fun u hu => ?_
  · rw [hc]
    rfl
  · rw [hflag, onceLeft, if_neg hu]

theorem Locks.release (h : Locks s) {wl : Nat} (hr : (program cfg).Ran s a s' t (.op (.release wl)) env c o) :
    Locks s' ∧ LockChange t (.op (.release wl)) s.shared s'.shared := by
  have hexec := exec_of_ran hr
  simp only [exec, execOp, Service.release] at hexec
  split at hexec
  · rename_i hvisible
    obtain rfl := Option.some.inj hexec
    obtain ⟨w, hw⟩ : ∃ w, s.shared.wakeLocks[wl]? = some w := by
      cases hw : s.shared.wakeLocks[wl]? with
      | none => simp [hw] at hvisible
      | some w => exact ⟨w, rfl⟩
    have hphase : w.acquisition = .returned := by
      simp only [hw, Option.any_some, WakeLock.visible, Bool.and_eq_true, decide_eq_true_eq] at hvisible
      exact hvisible.1.1
    refine ⟨h.changed hr hw (set_getElem?_self hw).symm (fun wl' hwl' => ?_) (fun wl' hwl' => ?_)
      ((h.inv wl w hw).call hr rfl rfl hphase), .same (by rw [hr.shared]) rfl⟩
    · simpa [Concerns, Block.wakeLock?, eq_comm] using hwl'
    · simpa [Block.wakeLock?] using hwl'
  · cases hexec

theorem Locks.getTimeNow (h : Locks s) {change : Change} {wl : Nat}
    (hr : (program cfg).Ran s a s' t (.getTimeNow change (.wakeLock wl)) env c o) :
    Locks s' ∧ LockChange t (.getTimeNow change (.wakeLock wl)) s.shared s'.shared := by
  obtain ⟨w, hw, hinv⟩ := h.exists hr rfl
  obtain rfl := Option.some.inj (exec_of_ran hr)
  refine ⟨h.changed hr hw (set_getElem?_self hw).symm (fun wl' hwl' => ?_) (fun wl' hwl' => ?_) ?_,
    .same (by rw [hr.shared]) rfl⟩
  · simpa [Concerns, Block.wakeLock?, eq_comm] using hwl'
  · simpa [lockGuard, Block.wakeLock?] using hwl'
  · cases change <;> exact hinv.kept hr rfl rfl rfl rfl

theorem Locks.returnWakeLock (h : Locks s) {wl : Nat}
    (hr : (program cfg).Ran s a s' t (.returnWakeLock wl) env c o) :
    Locks s' ∧ LockChange t (.returnWakeLock wl) s.shared s'.shared := by
  obtain ⟨w, hw, hinv⟩ := h.exists hr rfl
  have hduty : acquireDuty wl (.returnWakeLock wl) = some .recorded := if_pos rfl
  obtain ⟨-, hphase, -⟩ := hinv.acquire_step hr hduty
  obtain ⟨honce, -⟩ := hinv.unfinished (by simp [hphase])
  obtain rfl := Option.some.inj (exec_of_ran hr)
  exact h.worked hr rfl hw rfl (by simp) (hinv.acquired hr hduty rfl ⟨rfl, rfl, rfl⟩ (by simp) rfl)
    (.returned hphase honce)

theorem Locks.endDestroy (h : Locks s) {wl : Nat} (hr : (program cfg).Ran s a s' t (.endDestroy wl) env c o) :
    Locks s' ∧ LockChange t (.endDestroy wl) s.shared s'.shared := by
  obtain ⟨w, hw, hinv⟩ := h.exists hr rfl
  obtain rfl := Option.some.inj (exec_of_ran hr)
  obtain ⟨hphase, hdone, hreleased, hinv'⟩ := hinv.ended hr rfl
  exact h.worked hr rfl hw rfl (by simp) hinv' (.ended hphase hdone hreleased)

theorem Locks.ran (h : Locks s) (hr : (program cfg).Ran s a s' t b env c o) :
    Locks s' ∧ LockChange t b s.shared s'.shared := by
  have hframe := exec_frame (exec_of_ran hr)
  have hsame : b.handlesWakeLock = false → (∀ wl, ¬ Concerns b wl) → updatesLock b = false →
      Locks s' ∧ LockChange t b s.shared s'.shared := fun hb hconcerns hupdates =>
    h.same hr (hframe.wakeLocks hb) hconcerns (hframe.mentions hb) hupdates
  have hexec := exec_of_ran hr
  cases b with
  | op p =>
    cases p with
    | acquireWakeLock frontEnd name =>
      obtain rfl := Option.some.inj hexec
      unfold Service.acquireWakeLock at hr
      split at hr
      · exact h.same hr rfl (by simp [Concerns, Block.wakeLock?]) rfl rfl
      · exact ⟨h.constructed hr rfl (by simp [Concerns, Block.wakeLock?]) (List.append_nil _).symm (by simp)
          ⟨rfl, rfl, rfl, rfl⟩, .new _ (by rw [hr.shared]; rfl) ⟨rfl, rfl, rfl, rfl⟩ rfl⟩
    | getSuspendStats =>
      obtain rfl := Option.some.inj hexec
      refine h.getSuspendStats hr (by simp [Concerns, Block.wakeLock?]) rfl [] rfl ?_
      rw [List.append_nil]
    | release wl => exact h.release hr
    | destroyWakeLock wl =>
      simp only [exec, execOp, destroyWakeLock] at hexec
      split at hexec
      · exact h.beginDestroy hr (Or.inr rfl) hexec
      · cases hexec
    | _ => exact hsame rfl (by simp [Concerns, Block.wakeLock?]) rfl
  | dumpKernelSuspends suspendControls =>
    refine h.getSuspendStats hr (by simp [Concerns, Block.wakeLock?]) rfl _ ?_ (Option.some.inj hexec).symm
    split <;> rfl
  | incSuspendCounter holder =>
    cases holder with
    | wakeLock wl => exact h.inc hr
    | direct name pid =>
      obtain rfl := Option.some.inj hexec
      unfold incSuspendCounter at hr
      split at hr <;> exact h.same hr rfl (by simp [Concerns, Block.wakeLock?]) rfl rfl
  | decSuspendCounter holder =>
    cases holder with
    | wakeLock wl => exact h.dec hr
    | direct name pid =>
      obtain rfl := Option.some.inj hexec
      unfold decSuspendCounter at hr
      split at hr <;> exact h.same hr rfl (by simp [Concerns, Block.wakeLock?]) rfl rfl
  | getTimeNow change holder =>
    cases holder with
    | wakeLock wl => exact h.getTimeNow hr
    | direct name pid =>
      obtain rfl := Option.some.inj hexec
      exact h.same hr rfl (by simp [Concerns, Block.wakeLock?]) rfl rfl
  | updateStats change holder timeNow =>
    cases holder with
    | wakeLock wl => exact h.updateStats hr
    | direct name pid =>
      obtain ⟨stats, -, rfl⟩ := Option.map_eq_some_iff.mp hexec
      exact h.same hr rfl (by simp [Concerns, Block.wakeLock?]) rfl rfl
  | returnWakeLock wl => exact h.returnWakeLock hr
  | callOnce wl destructor => exact h.callOnce hr
  | onceDone wl destructor => exact h.onceDone hr
  | beginDestroy wl => exact h.beginDestroy hr (Or.inl rfl) hexec
  | endDestroy wl => exact h.endDestroy hr
  | _ => exact hsame rfl (by simp [Concerns, Block.wakeLock?]) rfl

theorem Locks.quiet (h : Locks s) (hq : (program cfg).Quiet s a s') : Locks s' := by
  refine ⟨fun wl w hw => ?_, fun u wl hwl => ?_⟩
  · rw [hq.shared] at hw
    have hinv := h.inv wl w hw
    exact
      { acquiring := fun u => (duties_of_quiet hq (fun _ => rfl) u).trans (hinv.acquiring u)
        releasing := fun u => (duties_of_quiet hq (fun _ => rfl) u).trans (hinv.releasing u)
        destroying := fun u => (duties_of_quiet hq (fun _ => rfl) u).trans (hinv.destroying u)
        called := fun u hu => hinv.called u (by rwa [← duties_of_quiet hq (fun _ => rfl) u])
        released := hinv.released
        destroyed := hinv.destroyed
        done := hinv.done }
  · rw [hq.shared]
    refine h.unmade u wl ?_
    rwa [← duties_of_quiet hq (fun _ => rfl) u]

theorem locks_init (cfg : Config) : Locks (program cfg).init where
  inv wl w hw := by simp [Program.init, program, Shared.start] at hw
  unmade t wl hwl := by cases hwl

theorem reach_locks {ok : ServiceState → ServiceAction → Prop} (h : (program cfg).Reach ok s) : Locks s := by
  refine h.invariant (locks_init cfg) fun s a s' _ _ hs hstep => ?_
  rcases hstep.quiet_or_ran with hq | ⟨t, b, env, c, o, hr⟩
  · exact hs.quiet hq
  · exact (hs.ran hr).1

end run

end HardwareInterfaces.Suspend.Service
