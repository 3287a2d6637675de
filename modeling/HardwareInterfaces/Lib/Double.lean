import Mathlib.Algebra.Order.Floor.Ring
import Mathlib.Data.Int.Log
import Mathlib.Data.Rat.Floor
import Mathlib.Tactic.Linarith
import Mathlib.Tactic.Positivity

/-!
# Doubles and their rounding to whole numbers

`toDouble` is the `double` nearest to a rational, with 53 significant bits and an exponent that is not bounded: what
overflows to infinity is far above every `int64_t`. `roundInt64` is `std::chrono::round` from a count that is a `double` to
one that is an `int64_t`, step by step as the library computes it. It agrees with the rounding of rationals as long as the
count and its successor fit (`roundInt64_of_fits`), and is negative above (`roundInt64_neg`).
-/

namespace CppStd

/-- To the nearest integer, ties to the even one. -/
def chronoRound (q : ℚ) : Int :=
  let below := q.floor
  if q - below < 1 / 2 then below
  else if 1 / 2 < q - below then below + 1
  else if below % 2 = 0 then below else below + 1

theorem le_chronoRound {z : Int} {q : ℚ} (h : (z : ℚ) ≤ q) : z ≤ chronoRound q := by
  have hfloor : z ≤ q.floor := Rat.le_floor_iff.mpr h
  unfold chronoRound
  dsimp only
  split
  · exact hfloor
  · split
    · omega
    · split <;> omega

theorem chronoRound_intCast (z : Int) : chronoRound z = z := by
  simp [chronoRound]

theorem chronoRound_le {z : Int} {q : ℚ} (h : q ≤ z) : chronoRound q ≤ z := by
  rcases h.eq_or_lt with heq | hlt
  · rw [heq, chronoRound_intCast]
  · have hfloor : q.floor < z := by
      have hle : (q.floor : ℚ) ≤ q := Rat.floor_le q
      exact_mod_cast hle.trans_lt hlt
    unfold chronoRound
    dsimp only
    split
    · exact hfloor.le
    · split
      · omega
      · split <;> omega

/-! ### Doubles -/

/-- The distance between the doubles around `q`. -/
def ulp (q : ℚ) : ℚ := 2 ^ (Int.log 2 |q| - 52)

def toDouble (q : ℚ) : ℚ := chronoRound (q / ulp q) * ulp q

theorem ulp_pos (q : ℚ) : 0 < ulp q := zpow_pos two_pos _

theorem mul_ulp_le {q : ℚ} (h : 0 < q) : 2 ^ 52 * ulp q ≤ q := by
  have hlog : (2 : ℚ) ^ Int.log 2 q ≤ q := Int.zpow_log_le_self one_lt_two h
  have hulp : (2 : ℚ) ^ 52 * ulp q = 2 ^ Int.log 2 q := by
    rw [ulp, abs_of_pos h, ← zpow_natCast, ← zpow_add₀ two_ne_zero]
    congr 1
    ring
  rwa [hulp]

/-- A number of 53 significant bits is a whole number of steps between the doubles around `q`, or at most 2^52 of them. -/
theorem significand_cases {m : Nat} (hm : m ≤ 2 ^ 53) (k : Int) (q : ℚ) :
    (∃ j : Int, (m * 2 ^ k : ℚ) = j * ulp q) ∨ (m * 2 ^ k : ℚ) ≤ 2 ^ 52 * ulp q := by
  rcases le_or_gt (Int.log 2 |q| - 52) k with hk | hk
  · obtain ⟨n, hn⟩ := Int.eq_ofNat_of_zero_le (sub_nonneg.mpr hk)
    refine .inl ⟨m * 2 ^ n, ?_⟩
    have hpow : (2 : ℚ) ^ k = 2 ^ n * 2 ^ (Int.log 2 |q| - 52) := by
      rw [← zpow_natCast, ← zpow_add₀ two_ne_zero]
      congr 1
      omega
    rw [ulp, hpow]
    push_cast
    ring
  · have hm' : (m : ℚ) ≤ 2 ^ 53 := by exact_mod_cast hm
    have hpow : (2 : ℚ) ^ k * 2 ≤ ulp q := by
      rw [ulp, ← zpow_add_one₀ two_ne_zero]
      exact zpow_le_zpow_right₀ one_le_two hk
    refine .inr ?_
    calc (m * 2 ^ k : ℚ) ≤ 2 ^ 53 * 2 ^ k := mul_le_mul_of_nonneg_right hm' (zpow_pos two_pos k).le
      _ = 2 ^ 52 * (2 ^ k * 2) := by ring
      _ ≤ 2 ^ 52 * ulp q := by gcongr

theorem toDouble_zero : toDouble 0 = 0 := by
  rw [toDouble, zero_div, ← Int.cast_zero, chronoRound_intCast, Int.cast_zero, zero_mul]

theorem mul_ulp_le_toDouble {j : Int} {q : ℚ} (h : j * ulp q ≤ q) : j * ulp q ≤ toDouble q := by
  have hround : j ≤ chronoRound (q / ulp q) := le_chronoRound ((le_div_iff₀ (ulp_pos q)).mpr h)
  exact mul_le_mul_of_nonneg_right (by exact_mod_cast hround) (ulp_pos q).le

theorem toDouble_le_mul_ulp {j : Int} {q : ℚ} (h : q ≤ j * ulp q) : toDouble q ≤ j * ulp q := by
  have hround : chronoRound (q / ulp q) ≤ j := chronoRound_le ((div_le_iff₀ (ulp_pos q)).mpr h)
  exact mul_le_mul_of_nonneg_right (by exact_mod_cast hround) (ulp_pos q).le

theorem le_toDouble {m : Nat} (hm : m ≤ 2 ^ 53) {k : Int} {q : ℚ} (h : m * 2 ^ k ≤ q) : m * 2 ^ k ≤ toDouble q := by
  obtain ⟨j, hj⟩ | hsmall := significand_cases hm k q
  · rw [hj] at h ⊢
    exact mul_ulp_le_toDouble h
  · have hnonneg : (0 : ℚ) ≤ m * 2 ^ k := mul_nonneg m.cast_nonneg (zpow_pos two_pos k).le
    rcases (hnonneg.trans h).eq_or_lt with rfl | hq
    · rwa [toDouble_zero]
    · have hpower := mul_ulp_le_toDouble (j := 2 ^ 52) (by exact_mod_cast mul_ulp_le hq)
      exact hsmall.trans (by exact_mod_cast hpower)

theorem toDouble_le {m : Nat} (hm : m ≤ 2 ^ 53) {k : Int} {q : ℚ} (hq : 0 < q) (h : q ≤ m * 2 ^ k) :
    toDouble q ≤ m * 2 ^ k := by
  obtain ⟨j, hj⟩ | hsmall := significand_cases hm k q
  · rw [hj] at h ⊢
    exact toDouble_le_mul_ulp h
  · -- `q` is the power of two at which the distance doubles
    have hpower := toDouble_le_mul_ulp (j := 2 ^ 52) (by exact_mod_cast h.trans hsmall)
    exact (by exact_mod_cast hpower : toDouble q ≤ 2 ^ 52 * ulp q).trans ((mul_ulp_le hq).trans h)

theorem natCast_le_toDouble {n : Nat} (hn : n ≤ 2 ^ 53) {q : ℚ} (h : n ≤ q) : n ≤ toDouble q := by
  have hle := le_toDouble hn (k := 0) (q := q) (by rwa [zpow_zero, mul_one])
  rwa [zpow_zero, mul_one] at hle

theorem toDouble_natCast {n : Nat} (hn : n ≤ 2 ^ 53) : toDouble n = n := by
  rcases Nat.eq_zero_or_pos n with rfl | hpos
  · exact_mod_cast toDouble_zero
  · have hle := toDouble_le hn (k := 0) (q := n) (by exact_mod_cast hpos) (by rw [zpow_zero, mul_one])
    rw [zpow_zero, mul_one] at hle
    exact le_antisymm hle (natCast_le_toDouble hn le_rfl)

/-! ### Whole numbers of 64 bits -/

def wrap (z : Int) : Int := z.bmod (2 ^ 64)

/-- `static_cast<int64_t>` of a `double`: the fraction is dropped. The language leaves the result open if it does not fit, this
is the one of x86-64. -/
def toInt64 (d : ℚ) : Int :=
  let whole := if 0 ≤ d then d.floor else d.ceil
  if -2 ^ 63 ≤ whole ∧ whole < 2 ^ 63 then whole else -2 ^ 63

def floorInt64 (d : ℚ) : Int :=
  let t := toInt64 d
  if d < t then wrap (t - 1) else t

/-- `std::chrono::round`. -/
def roundInt64 (d : ℚ) : Int :=
  let lower := floorInt64 d
  let upper := wrap (lower + 1)
  if d - lower < upper - d then lower
  else if upper - d < d - lower then upper
  else if lower % 2 = 0 then lower else upper

/-- The count and its successor, which `std::chrono::round` computes, are values of an `int64_t`. -/
def FitsInt64 (d : ℚ) : Prop := -2 ^ 63 ≤ d ∧ d < 2 ^ 63 - 1

instance (d : ℚ) : Decidable (FitsInt64 d) := inferInstanceAs (Decidable (_ ∧ _))

theorem wrap_eq_self {z : Int} (hlow : -2 ^ 63 ≤ z) (hhigh : z < 2 ^ 63) : wrap z = z := by
  exact Int.bmod_eq_of_le (by omega) (by omega)

theorem floorInt64_eq {d : ℚ} (hlow : -2 ^ 63 ≤ d) (hhigh : d < 2 ^ 63) : floorInt64 d = d.floor := by
  have hfloor : d.floor < 2 ^ 63 := by
    rw [Rat.floor_lt_iff]
    exact_mod_cast hhigh
  rcases le_or_gt 0 d with hd | hd
  · have hzero : 0 ≤ d.floor := Rat.le_floor_iff.mpr (by exact_mod_cast hd)
    have hcast : toInt64 d = d.floor := by
      rw [toInt64, if_pos hd, if_pos ⟨by omega, hfloor⟩]
    rw [floorInt64, hcast, if_neg (Rat.floor_le d).not_gt]
  · have hceil : -2 ^ 63 ≤ d.ceil ∧ d.ceil ≤ 0 := by
      refine ⟨?_, Rat.ceil_le_iff.mpr (by exact_mod_cast hd.le)⟩
      have h := hlow.trans (Rat.le_ceil (x := d))
      exact_mod_cast h
    have hcast : toInt64 d = d.ceil := by
      rw [toInt64, if_neg hd.not_ge, if_pos ⟨hceil.1, by omega⟩]
    rw [floorInt64, hcast]
    split
    · next hlt =>
      have hfloor : d.floor < d.ceil := Rat.floor_lt_iff.mpr hlt
      have hbelow : d.ceil - 1 ≤ d.floor := by
        have h := Rat.ceil_lt (x := d)
        refine Rat.le_floor_iff.mpr ?_
        push_cast
        linarith
      have hceil' : -2 ^ 63 < d.ceil := by
        rw [Rat.lt_ceil_iff]
        refine lt_of_le_of_ne (by exact_mod_cast hlow) ?_
        intro heq
        rw [← heq, Rat.ceil_intCast] at hlt
        exact hlt.ne rfl
      rw [wrap_eq_self (by omega) (by omega)]
      omega
    · next hle =>
      have heq : d.ceil ≤ d.floor := Rat.le_floor_iff.mpr (not_lt.mp hle)
      have h : d.floor ≤ d.ceil := by
        have h := (Rat.floor_le d).trans (Rat.le_ceil (x := d))
        exact_mod_cast h
      omega

theorem roundInt64_of_fits {d : ℚ} (h : FitsInt64 d) : roundInt64 d = chronoRound d := by
  obtain ⟨hlow, hhigh⟩ := h
  have hfloor : -2 ^ 63 ≤ d.floor ∧ d.floor < 2 ^ 63 - 1 := by
    refine ⟨Rat.le_floor_iff.mpr (by exact_mod_cast hlow), ?_⟩
    rw [Rat.floor_lt_iff]
    exact_mod_cast hhigh
  have hupper : wrap (d.floor + 1) = d.floor + 1 := wrap_eq_self (by omega) (by omega)
  rw [roundInt64, floorInt64_eq hlow (by linarith), hupper]
  unfold chronoRound
  have hbelow : (d - d.floor < ((d.floor + 1 : Int) : ℚ) - d) ↔ d - d.floor < 1 / 2 := by
    push_cast
    constructor <;> intro h <;> linarith
  have habove : (((d.floor + 1 : Int) : ℚ) - d < d - d.floor) ↔ 1 / 2 < d - d.floor := by
    push_cast
    constructor <;> intro h <;> linarith
  simp only [hbelow, habove]

/-- Above it the successor of the lower neighbour has wrapped around, and counts as the nearer one. -/
theorem roundInt64_neg {d : ℚ} (h : 2 ^ 63 - 1 ≤ d) : roundInt64 d < 0 := by
  have hlower : ((floorInt64 d : Int) : ℚ) ≤ d ∧ wrap (floorInt64 d + 1) < 0 := by
    rcases lt_or_ge d (2 ^ 63) with hd | hd
    · have hfloor : d.floor = 2 ^ 63 - 1 := by
        have hlt : d.floor < 2 ^ 63 := by
          rw [Rat.floor_lt_iff]
          exact_mod_cast hd
        have hle : (2 ^ 63 - 1 : Int) ≤ d.floor := Rat.le_floor_iff.mpr (by exact_mod_cast h)
        omega
      rw [floorInt64_eq (by linarith) hd]
      refine ⟨Rat.floor_le d, ?_⟩
      rw [hfloor]
      decide
    · have hfloor : (2 ^ 63 : Int) ≤ d.floor := Rat.le_floor_iff.mpr (by exact_mod_cast hd)
      have hcast : toInt64 d = -2 ^ 63 := by
        have hpos : 0 ≤ d := by linarith
        rw [toInt64, if_pos hpos, if_neg (by omega)]
      have hlow : ((-2 ^ 63 : Int) : ℚ) ≤ d := by
        push_cast
        linarith
      rw [floorInt64, hcast, if_neg hlow.not_gt]
      exact ⟨hlow, by decide⟩
  obtain ⟨hlow, hneg⟩ := hlower
  have hupper : ((wrap (floorInt64 d + 1) : Int) : ℚ) < 0 := by exact_mod_cast hneg
  rw [roundInt64, if_neg (by linarith), if_pos (by linarith)]
  exact hneg

end CppStd
