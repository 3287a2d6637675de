import HardwareInterfaces.Suspend.SleepTime
import Mathlib.Tactic.Linarith

/-!
# The backoff over a history of suspend attempts

`updateSleepTime` keeps no exponent: it multiplies, rounds and caps the sleep time it set before. Over a whole
history of attempts, the newest first, the sleep time is the closed form that its comment documents, in the number of bad
attempts since the last good one. The product is rounded to 64 bits before it is capped, so this is so exactly as long
as every product that is formed fits (`sleepTime_documented_iff`).
-/

namespace HardwareInterfaces.Suspend

open CppStd

structure Attempt where
  success : Bool
  time : SuspendTime
  deriving DecidableEq

namespace Attempt

variable (config : SleepTimeConfig) (a : Attempt)

def Short : Prop :=
  a.success = true ∧ 0 < a.time.suspendTime ∧ a.time.suspendTime < config.shortSuspendThreshold * nanosPerMilli

/-- A failure or a short suspend, if it counts for the backoff. -/
def Bad : Prop :=
  (a.success = false ∧ config.failedSuspendBackoffEnabled = true) ∨
    (a.Short config ∧ config.shortSuspendBackoffEnabled = true)

theorem shortSuspend_iff : config.shortSuspend a.success a.time = true ↔ a.Short config := by
  simp [SleepTimeConfig.shortSuspend, Short, and_assoc]

theorem badSuspend_iff : config.badSuspend a.success a.time = true ↔ a.Bad config := by
  rw [SleepTimeConfig.badSuspend, Bad, Bool.or_eq_true, Bool.and_eq_true, Bool.and_eq_true, shortSuspend_iff,
    Bool.not_eq_true', and_comm, and_comm (a := config.shortSuspendBackoffEnabled = true)]

instance : Decidable (a.Short config) := decidable_of_iff _ (shortSuspend_iff config a)

instance : Decidable (a.Bad config) := decidable_of_iff _ (badSuspend_iff config a)

end Attempt

namespace SleepState

variable (config : SleepTimeConfig)

def initial : SleepState := { mSleepTime := config.baseSleepTime }

def after : List Attempt → SleepState
  | [] => initial config
  | a :: earlier => (after earlier).updateSleepTime config a.success a.time

/-- The number of bad attempts since the last one that was not. -/
def badRun (history : List Attempt) : Nat := (history.takeWhile fun a => a.Bad config).length

theorem badRun_cons (a : Attempt) (earlier : List Attempt) :
    badRun config (a :: earlier) = if a.Bad config then badRun config earlier + 1 else 0 := by
  rw [badRun, List.takeWhile_cons]
  by_cases ha : a.Bad config
  · simp [ha, badRun]
  · simp [ha]

theorem updateSleepTime_backoff (s : SleepState) (a : Attempt) :
    (s.updateSleepTime config a.success a.time).mNumConsecutiveBadSuspends =
        (if a.Bad config then s.mNumConsecutiveBadSuspends + 1 else 0) ∧
      (s.updateSleepTime config a.success a.time).mSleepTime =
        if a.Bad config then
          if config.backoffThreshold ≤ s.mNumConsecutiveBadSuspends then config.scaledSleepTime s.mSleepTime
          else s.mSleepTime
        else config.baseSleepTime := by
  simp only [updateSleepTime]
  by_cases ha : a.Bad config
  · rw [if_pos ha, if_pos ha, (Attempt.badSuspend_iff config a).mpr ha]
    simp only [Bool.not_true, Bool.false_eq_true, if_false, backedOff, ge_iff_le]
    split <;> exact ⟨rfl, rfl⟩
  · have hbad : config.badSuspend a.success a.time = false := by
      rw [← Bool.not_eq_true, Attempt.badSuspend_iff]
      exact ha
    simp [ha, hbad]

theorem after_bad (history : List Attempt) :
    (after config history).mNumConsecutiveBadSuspends = badRun config history := by
  induction history with
  | nil => rfl
  | cons a earlier ih => rw [after, (updateSleepTime_backoff config _ a).1, badRun_cons, ih]

theorem after_sleepTime (a : Attempt) (earlier : List Attempt) :
    (after config (a :: earlier)).mSleepTime =
      if a.Bad config then
        if config.backoffThreshold ≤ badRun config earlier then
          config.scaledSleepTime (after config earlier).mSleepTime
        else (after config earlier).mSleepTime
      else config.baseSleepTime := by
  rw [after, (updateSleepTime_backoff config _ a).2, after_bad]

end SleepState

/-! ### Scaling without a bound on the product -/

theorem min_mul_min {x cap : Int} {scale : Nat} (hcap : 0 ≤ cap) (hscale : 1 ≤ scale) :
    min (min x cap * scale) cap = min (x * scale) cap := by
  have hscale' : (1 : Int) ≤ scale := by exact_mod_cast hscale
  have hgrow : cap ≤ cap * scale := le_mul_of_one_le_right hcap hscale'
  rcases le_or_gt x cap with hx | hx
  · rw [min_eq_left hx]
  · have hlarge : x ≤ x * scale := le_mul_of_one_le_right (hcap.trans hx.le) hscale'
    rw [min_eq_right hx.le, min_eq_right hgrow, min_eq_right (hx.le.trans hlarge)]

namespace SleepTimeConfig

/-- What `main` promises of the sleep times: it reads them from unsigned properties of 32 bits. -/
structure Unsigned (config : SleepTimeConfig) : Prop where
  base_nonneg : 0 ≤ config.baseSleepTime
  base_lt : config.baseSleepTime < 2 ^ 32
  max_nonneg : 0 ≤ config.maxSleepTime
  max_lt : config.maxSleepTime < 2 ^ 32

/-- The product of doubles that is rounded and capped. -/
def product (config : SleepTimeConfig) (sleepTime : Int) : ℚ := toDouble (sleepTime * config.sleepTimeScaleFactor)

/-- The base time scaled `k` times, each time rounded and capped, with whole numbers of any size. -/
def scaled (config : SleepTimeConfig) : Nat → Int
  | 0 => config.baseSleepTime
  | k + 1 => min (chronoRound (config.product (config.scaled k))) config.maxSleepTime

variable {config : SleepTimeConfig}

theorem le_product {z sleepTime : Int} (hz : 0 ≤ z) (hzmax : z ≤ 2 ^ 53)
    (h : (z : ℚ) ≤ sleepTime * config.sleepTimeScaleFactor) : (z : ℚ) ≤ config.product sleepTime := by
  obtain ⟨n, rfl⟩ := Int.eq_ofNat_of_zero_le hz
  rw [Int.cast_natCast] at h ⊢
  exact natCast_le_toDouble (by exact_mod_cast hzmax) h

theorem min_product_natCast {scale : Nat} {sleepTime cap : Int} (h : config.sleepTimeScaleFactor = scale)
    (hsleep : 0 ≤ sleepTime) (hcap : cap ≤ 2 ^ 53) :
    min (chronoRound (config.product sleepTime)) cap = min (sleepTime * scale) cap := by
  obtain ⟨n, rfl⟩ := Int.eq_ofNat_of_zero_le hsleep
  have hcast : ((n : Int) : ℚ) * config.sleepTimeScaleFactor = ((n * scale : Nat) : ℚ) := by
    rw [h]
    push_cast
    rfl
  rcases le_or_gt (n * scale) (2 ^ 53) with hsmall | hlarge
  · have hexact : config.product n = ((n * scale : Nat) : ℚ) := by
      rw [product, hcast, toDouble_natCast hsmall]
    rw [hexact, ← Int.cast_natCast, chronoRound_intCast, Nat.cast_mul]
  · have hround : 2 ^ 53 ≤ chronoRound (config.product n) := by
      refine le_chronoRound (le_product (by norm_num) le_rfl ?_)
      rw [hcast]
      exact_mod_cast hlarge.le
    have hlarge' : (2 ^ 53 : Int) ≤ n * scale := by exact_mod_cast hlarge.le
    rw [min_eq_right (hcap.trans hround), min_eq_right (hcap.trans hlarge')]

theorem min_le_scaled_succ (hscale : 1 ≤ config.sleepTimeScaleFactor) {k : Nat} (hpos : 0 ≤ config.scaled k)
    (hle : config.scaled k ≤ 2 ^ 53) : min (config.scaled k) config.maxSleepTime ≤ config.scaled (k + 1) := by
  refine min_le_min_right _ (le_chronoRound (le_product hpos hle ?_))
  exact le_mul_of_one_le_right (by exact_mod_cast hpos) hscale

section

variable (hconfig : config.Unsigned) (hscale : 1 ≤ config.sleepTimeScaleFactor)

include hconfig hscale

theorem scaled_bounds (k : Nat) : min config.baseSleepTime config.maxSleepTime ≤ config.scaled k ∧
    config.scaled k ≤ max config.baseSleepTime config.maxSleepTime := by
  obtain ⟨hbase, hbase', hmax, hmax'⟩ := hconfig
  induction k with
  | zero => exact ⟨min_le_left _ _, le_max_left _ _⟩
  | succ k ih =>
    obtain ⟨hlow, hhigh⟩ := ih
    have hpos : 0 ≤ config.scaled k := (le_min hbase hmax).trans hlow
    have hstep := min_le_scaled_succ hscale hpos (by omega)
    exact ⟨(le_min hlow (min_le_right _ _)).trans hstep, (min_le_right _ _).trans (le_max_right _ _)⟩

theorem scaled_pos_le (k : Nat) : 0 ≤ config.scaled k ∧ config.scaled k ≤ 2 ^ 53 := by
  obtain ⟨hlow, hhigh⟩ := scaled_bounds hconfig hscale k
  obtain ⟨hbase, hbase', hmax, hmax'⟩ := hconfig
  omega

theorem scaled_le_succ (hle : config.baseSleepTime ≤ config.maxSleepTime) (k : Nat) :
    config.scaled k ≤ config.scaled (k + 1) := by
  obtain ⟨hpos, hsmall⟩ := scaled_pos_le hconfig hscale k
  have hhigh := (scaled_bounds hconfig hscale k).2
  have hstep := min_le_scaled_succ hscale hpos hsmall
  rwa [min_eq_left (by rwa [max_eq_right hle] at hhigh)] at hstep

theorem scaled_natCast {scale : Nat} (h : config.sleepTimeScaleFactor = scale) (k : Nat) :
    config.scaled (k + 1) = min (config.baseSleepTime * scale ^ (k + 1)) config.maxSleepTime := by
  have hone : 1 ≤ scale := by
    rw [h] at hscale
    exact_mod_cast hscale
  obtain ⟨hbase, hbase', hmax, hmax'⟩ := hconfig
  induction k with
  | zero => rw [zero_add, pow_one]; exact min_product_natCast h hbase (by omega)
  | succ k ih =>
    have hpos := (scaled_pos_le ⟨hbase, hbase', hmax, hmax'⟩ hscale (k + 1)).1
    rw [scaled, min_product_natCast h hpos (by omega), ih, min_mul_min hmax hone, mul_assoc, ← pow_succ]

end

end SleepTimeConfig

namespace SleepState

/-- The formula in the comment of `updateSleepTime`. -/
def documentedSleepTime (config : SleepTimeConfig) (scale n : Nat) : Int :=
  if n ≤ config.backoffThreshold then config.baseSleepTime
  else min (config.baseSleepTime * scale ^ (n - config.backoffThreshold)) config.maxSleepTime

/-- Every product that is formed in the course of the history fits an `int64_t`. -/
def ProductsFit (config : SleepTimeConfig) : List Attempt → Prop
  | [] => True
  | a :: earlier =>
    ProductsFit config earlier ∧
      (a.Bad config → config.backoffThreshold ≤ badRun config earlier →
        FitsInt64 (config.product (config.scaled (badRun config earlier - config.backoffThreshold))))

instance ProductsFit.decidable (config : SleepTimeConfig) : ∀ history, Decidable (ProductsFit config history)
  | [] => inferInstanceAs (Decidable True)
  | _ :: earlier =>
    have := ProductsFit.decidable config earlier
    inferInstanceAs (Decidable (_ ∧ (_ → _ → _)))

/-- What is promised of the sleep time after a history. The formula is for natural scale factors. -/
structure Documented (config : SleepTimeConfig) (history : List Attempt) : Prop where
  formula : ∀ scale : Nat, config.sleepTimeScaleFactor = scale →
    (after config history).mSleepTime = documentedSleepTime config scale (badRun config history)
  lower : min config.baseSleepTime config.maxSleepTime ≤ (after config history).mSleepTime
  upper : (after config history).mSleepTime ≤ max config.baseSleepTime config.maxSleepTime
  grows : config.baseSleepTime ≤ config.maxSleepTime → ∀ a earlier, history = a :: earlier → a.Bad config →
    (after config earlier).mSleepTime ≤ (after config history).mSleepTime
  reset : ∀ a earlier, history = a :: earlier → ¬ a.Bad config →
    (after config history).mSleepTime = config.baseSleepTime

variable {config : SleepTimeConfig}

theorem ProductsFit.suffix {history earlier : List Attempt} (h : ProductsFit config history)
    (hsuffix : earlier <:+ history) : ProductsFit config earlier := by
  induction history with
  | nil => rwa [List.suffix_nil.mp hsuffix]
  | cons a history ih =>
    rcases List.suffix_cons_iff.mp hsuffix with rfl | hsuffix
    · exact h
    · exact ih h.1 hsuffix

section

variable (hconfig : config.Unsigned) (hscale : 1 ≤ config.sleepTimeScaleFactor)

include hconfig hscale

/-- With a moderate scale factor, such as the default of `main`, this is so whatever happens. -/
theorem productsFit_of_le
    (hle : (max config.baseSleepTime config.maxSleepTime : Int) * config.sleepTimeScaleFactor ≤ 2 ^ 62)
    (history : List Attempt) : ProductsFit config history := by
  induction history with
  | nil => trivial
  | cons a earlier ih =>
    refine ⟨ih, fun _ _ => ?_⟩
    generalize badRun config earlier - config.backoffThreshold = k
    have hpos : (0 : ℚ) ≤ config.scaled k := by
      exact_mod_cast (SleepTimeConfig.scaled_pos_le hconfig hscale k).1
    have hbound : (config.scaled k : ℚ) ≤ (max config.baseSleepTime config.maxSleepTime : Int) := by
      exact_mod_cast (SleepTimeConfig.scaled_bounds hconfig hscale k).2
    have hscale' : 0 ≤ config.sleepTimeScaleFactor := zero_le_one.trans hscale
    have hproduct : (config.scaled k : ℚ) * config.sleepTimeScaleFactor ≤ 2 ^ 62 :=
      (mul_le_mul_of_nonneg_right hbound hscale').trans hle
    unfold SleepTimeConfig.product
    rcases (mul_nonneg hpos hscale').eq_or_lt with hzero | hpos
    · rw [← hzero, toDouble_zero]
      norm_num [FitsInt64]
    · have hhigh := toDouble_le (m := 1) (by norm_num) (k := 62) hpos (by simpa using hproduct)
      have hlow := natCast_le_toDouble (n := 0) (by norm_num) (by simpa using hpos.le)
      norm_num at hhigh hlow
      constructor <;> linarith

theorem scaledSleepTime_scaled (k : Nat) : config.scaledSleepTime (config.scaled k) =
    min (roundInt64 (config.product (config.scaled k))) config.maxSleepTime := by
  obtain ⟨hpos, hle⟩ := SleepTimeConfig.scaled_pos_le hconfig hscale k
  obtain ⟨n, hn⟩ := Int.eq_ofNat_of_zero_le hpos
  have hexact : toDouble (config.scaled k) = config.scaled k := by
    rw [hn] at hle ⊢
    exact toDouble_natCast (by exact_mod_cast hle)
  rw [SleepTimeConfig.scaledSleepTime, hexact, SleepTimeConfig.product]

theorem after_scaled {history : List Attempt} (hfit : ProductsFit config history) :
    (after config history).mSleepTime = config.scaled (badRun config history - config.backoffThreshold) := by
  induction history with
  | nil => rw [badRun, List.takeWhile_nil, List.length_nil, Nat.zero_sub]; rfl
  | cons a earlier ih =>
    obtain ⟨hearlier, hlast⟩ := hfit
    rw [after_sleepTime, badRun_cons, ih hearlier]
    by_cases ha : a.Bad config
    · rw [if_pos ha, if_pos ha]
      split
      · next hn =>
        rw [scaledSleepTime_scaled hconfig hscale, roundInt64_of_fits (hlast ha hn), Nat.succ_sub hn]
        rfl
      · next hn =>
        rw [Nat.sub_eq_zero_of_le (by omega), Nat.sub_eq_zero_of_le (by omega)]
    · rw [if_neg ha, if_neg ha, Nat.zero_sub]
      rfl

theorem scaled_documented {scale : Nat} (h : config.sleepTimeScaleFactor = scale) (n : Nat) :
    config.scaled (n - config.backoffThreshold) = documentedSleepTime config scale n := by
  unfold documentedSleepTime
  split
  · next hn =>
    rw [Nat.sub_eq_zero_of_le hn]
    rfl
  · next hn =>
    obtain ⟨k, hk⟩ := Nat.exists_eq_succ_of_ne_zero (Nat.sub_ne_zero_of_lt (not_le.mp hn))
    rw [hk]
    exact SleepTimeConfig.scaled_natCast hconfig hscale h k

theorem documented_of_fit {history : List Attempt} (hfit : ProductsFit config history) : Documented config history := by
  have hafter := after_scaled hconfig hscale hfit
  obtain ⟨hlow, hhigh⟩ := SleepTimeConfig.scaled_bounds hconfig hscale (badRun config history - config.backoffThreshold)
  refine ⟨?_, ?_, ?_, ?_, ?_⟩
  · intro scale h
    rw [hafter, scaled_documented hconfig hscale h]
  · rwa [hafter]
  · rwa [hafter]
  · rintro hle a earlier rfl ha
    rw [hafter, after_scaled hconfig hscale hfit.1, badRun_cons, if_pos ha]
    rcases le_or_gt config.backoffThreshold (badRun config earlier) with hn | hn
    · rw [Nat.succ_sub hn]
      exact SleepTimeConfig.scaled_le_succ hconfig hscale hle _
    · rw [Nat.sub_eq_zero_of_le hn.le, Nat.sub_eq_zero_of_le hn]
  · rintro a earlier rfl ha
    rw [after_sleepTime, if_neg ha]

/-- A product that does not fit makes the sleep time negative. -/
theorem fits_of_documented {a : Attempt} {earlier : List Attempt} (hfit : ProductsFit config earlier)
    (hdoc : Documented config (a :: earlier)) (ha : a.Bad config)
    (hn : config.backoffThreshold ≤ badRun config earlier) :
    FitsInt64 (config.product (config.scaled (badRun config earlier - config.backoffThreshold))) := by
  obtain ⟨hpos, hle⟩ := SleepTimeConfig.scaled_pos_le hconfig hscale (badRun config earlier - config.backoffThreshold)
  have hproduct : (0 : ℚ) ≤ config.product (config.scaled (badRun config earlier - config.backoffThreshold)) := by
    refine SleepTimeConfig.le_product (z := 0) le_rfl (by norm_num) ?_
    exact mul_nonneg (by exact_mod_cast hpos) (zero_le_one.trans hscale)
  have hlower := hdoc.lower
  rw [after_sleepTime, if_pos ha, if_pos hn, after_scaled hconfig hscale hfit,
    scaledSleepTime_scaled hconfig hscale] at hlower
  have hround : 0 ≤ roundInt64 (config.product (config.scaled (badRun config earlier - config.backoffThreshold))) :=
    ((le_min hconfig.base_nonneg hconfig.max_nonneg).trans hlower).trans (min_le_left _ _)
  refine ⟨by linarith, ?_⟩
  by_contra hlarge
  exact (roundInt64_neg (not_lt.mp hlarge)).not_ge hround

end

/-- The sleep time is the documented one all along a history if and only if every product fits. -/
theorem sleepTime_documented_iff (config : SleepTimeConfig) (hconfig : config.Unsigned)
    (hscale : 1 ≤ config.sleepTimeScaleFactor) (history : List Attempt) :
    (∀ earlier, earlier <:+ history → Documented config earlier) ↔ ProductsFit config history := by
  constructor
  · intro hdoc
    induction history with
    | nil => trivial
    | cons a earlier ih =>
      have hfit := ih fun _ hsuffix => hdoc _ (hsuffix.trans (List.suffix_cons a earlier))
      exact ⟨hfit, fits_of_documented hconfig hscale hfit (hdoc _ List.suffix_rfl)⟩
  · intro hfit earlier hsuffix
    exact documented_of_fit hconfig hscale (hfit.suffix hsuffix)

theorem sleepTime_documented_failures :
    let config : SleepTimeConfig := ⟨10, 500, 2, 1, 50, true, true⟩
    let history : List Attempt := List.replicate 3 ⟨false, ⟨0, 0⟩⟩
    badRun config history = 3 ∧ (after config history).mSleepTime = 40 := by
  refine ⟨by decide, ?_⟩
  have hdoc := (sleepTime_documented_iff ⟨10, 500, 2, 1, 50, true, true⟩ ⟨by decide, by decide, by decide, by decide⟩
    (by norm_num) (List.replicate 3 ⟨false, ⟨0, 0⟩⟩)).mpr (by decide +kernel)
  rw [(hdoc _ List.suffix_rfl).formula 2 rfl]
  decide

/-- A scale factor of 10^18: after the second failure the product of 10^19 ms no longer fits, and the time is negative
where the formula has 500. -/
theorem sleepTime_overflow :
    let config : SleepTimeConfig := ⟨10, 500, 10 ^ 18, 1, 50, true, true⟩
    let history : List Attempt := List.replicate 2 ⟨false, ⟨0, 0⟩⟩
    (after config history).mSleepTime = -9223372036854775807 ∧
      documentedSleepTime config (10 ^ 18) (badRun config history) = 500 ∧ ¬ Documented config history := by
  have hafter : (after ⟨10, 500, 10 ^ 18, 1, 50, true, true⟩ (List.replicate 2 ⟨false, ⟨0, 0⟩⟩)).mSleepTime =
      -9223372036854775807 := by
    decide +kernel
  refine ⟨hafter, by decide, ?_⟩
  intro hdoc
  have hlower := hdoc.lower
  rw [hafter] at hlower
  exact absurd hlower (by decide)

end SleepState

end HardwareInterfaces.Suspend
