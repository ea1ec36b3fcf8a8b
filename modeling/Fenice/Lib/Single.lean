import Mathlib.Algebra.Order.Field.Power
import Mathlib.Data.Rat.Floor
import Mathlib.Data.Nat.Log
import Mathlib.Tactic.Linarith
import Mathlib.Tactic.Positivity

/-!
# Single precision

The values of a `float`. A rational number is rounded to the nearest multiple of
the unit in the last place, ties to the even one, and overflows from `2 ^ 128` on.
-/

namespace Fenice

/-- A `float`; a zero has no sign here. -/
inductive Single where
  | finite (x : ℚ)
  | infinite (negative : Bool)
  | nan
  deriving DecidableEq

namespace Single

/-- The exponent of the leading bit of a number. -/
def exponent (x : ℚ) : ℤ :=
  let e : ℤ := Nat.log2 x.num.natAbs - Nat.log2 x.den
  if |x| < 2 ^ e then e - 1 else e

/-- The exponent of the last bit: the mantissa has 24 bits, and subnormal numbers
have fewer. -/
def unit (x : ℚ) : ℤ := max (exponent x) (-126) - 23

/-- To the nearest integer, in the middle to the even one. -/
def nearest (x : ℚ) : ℤ :=
  let d := x - ⌊x⌋
  if d < 1 / 2 ∨ d = 1 / 2 ∧ ⌊x⌋ % 2 = 0 then ⌊x⌋ else ⌊x⌋ + 1

def round (x : ℚ) : ℚ := nearest (x / 2 ^ unit x) * 2 ^ unit x

def ofRat (x : ℚ) : Single :=
  if 2 ^ 128 ≤ |round x| then .infinite (decide (x < 0)) else .finite (round x)

/-- A finite value greater than zero. -/
def Positive : Single → Prop
  | .finite x => 0 < x
  | _ => False

instance : ∀ s : Single, Decidable s.Positive
  | .finite x => inferInstanceAs (Decidable (0 < x))
  | .infinite _ => isFalse id
  | .nan => isFalse id

/-- `s <= t` for a number `t`; no comparison with a NaN holds. -/
def le : Single → ℚ → Prop
  | .finite x, t => x ≤ t
  | .infinite negative, _ => negative = true
  | .nan, _ => False

/-! ### What rounding does to small and large numbers -/

theorem two_zpow_pos (e : ℤ) : (0 : ℚ) < 2 ^ e := zpow_pos (by norm_num) e

theorem log2_bounds {n : ℕ} (hn : n ≠ 0) :
    (2 : ℚ) ^ (Nat.log2 n : ℤ) ≤ n ∧ (n : ℚ) < 2 ^ ((Nat.log2 n : ℤ) + 1) := by
  have hle : 2 ^ Nat.log2 n ≤ n := Nat.log2_self_le hn
  have hlt : n < 2 ^ (Nat.log2 n + 1) := Nat.lt_log2_self
  constructor
  · rw [zpow_natCast]
    exact_mod_cast hle
  · have hcast : ((Nat.log2 n : ℤ) + 1) = ((Nat.log2 n + 1 : ℕ) : ℤ) := by push_cast; rfl
    rw [hcast, zpow_natCast]
    exact_mod_cast hlt

theorem exponent_le {x : ℚ} (hx : 0 < x) : (2 : ℚ) ^ exponent x ≤ x := by
  have hnum : 0 < x.num := Rat.num_pos.mpr hx
  obtain ⟨hn, -⟩ := log2_bounds (n := x.num.natAbs) (by omega)
  obtain ⟨-, hd⟩ := log2_bounds x.den_ne_zero
  have hden : (0 : ℚ) < x.den := by exact_mod_cast x.den_pos
  have habs : ((x.num.natAbs : ℕ) : ℚ) = x * x.den := by
    have hcast : ((x.num.natAbs : ℕ) : ℚ) = (x.num : ℚ) := by
      rw [← Int.cast_natCast, Int.natAbs_of_nonneg hnum.le]
    rw [hcast, Rat.mul_den_eq_num]
  unfold exponent
  dsimp only
  rw [abs_of_pos hx]
  split_ifs with hlt
  · have hmul : (2 : ℚ) ^ (((Nat.log2 x.num.natAbs : ℤ) - Nat.log2 x.den) - 1) *
        2 ^ ((Nat.log2 x.den : ℤ) + 1) = 2 ^ (Nat.log2 x.num.natAbs : ℤ) := by
      rw [← zpow_add₀ (by norm_num)]
      congr 1
      ring
    have hpow := two_zpow_pos (((Nat.log2 x.num.natAbs : ℤ) - Nat.log2 x.den) - 1)
    by_contra hnot
    rw [not_le] at hnot
    have h1 : x * x.den < 2 ^ (((Nat.log2 x.num.natAbs : ℤ) - Nat.log2 x.den) - 1) * x.den :=
      mul_lt_mul_of_pos_right hnot hden
    have h2 := mul_lt_mul_of_pos_left hd hpow
    rw [hmul] at h2
    linarith
  · exact not_lt.mp hlt

theorem nearest_bounds (x : ℚ) : x - 1 / 2 ≤ nearest x ∧ (nearest x : ℚ) ≤ x + 1 / 2 := by
  have hle := Int.floor_le x
  have hlt := Int.lt_floor_add_one x
  unfold nearest
  dsimp only
  split_ifs with hd
  · have hhalf : x - ⌊x⌋ ≤ 1 / 2 := by
      rcases hd with hd | ⟨hd, -⟩
      · exact hd.le
      · exact hd.le
    constructor
    · linarith
    · linarith
  · have hhalf : 1 / 2 ≤ x - ⌊x⌋ := by
      rw [not_or, not_lt] at hd
      exact hd.1
    rw [Int.cast_add, Int.cast_one]
    constructor
    · linarith
    · linarith

theorem nearest_nonpos {x : ℚ} (hx : x ≤ 0) : nearest x ≤ 0 := by
  have hfloor : ⌊x⌋ ≤ 0 := by
    have hle := (Int.floor_le x).trans hx
    exact_mod_cast hle
  unfold nearest
  dsimp only
  split_ifs with hd
  · exact hfloor
  · by_contra hnot
    have hzero : ⌊x⌋ = 0 := by omega
    rw [hzero, Int.cast_zero, sub_zero] at hd
    exact hd (.inl (by linarith))

theorem not_positive_of_nonpos {x : ℚ} (hx : x ≤ 0) : ¬(ofRat x).Positive := by
  have hround : round x ≤ 0 := by
    have hdiv : x / 2 ^ unit x ≤ 0 := div_nonpos_of_nonpos_of_nonneg hx (two_zpow_pos _).le
    have hnear : (nearest (x / 2 ^ unit x) : ℚ) ≤ 0 := by exact_mod_cast nearest_nonpos hdiv
    exact mul_nonpos_of_nonpos_of_nonneg hnear (two_zpow_pos _).le
  intro h
  unfold ofRat at h
  split_ifs at h
  · exact h
  · exact absurd hround (not_le.mpr h)

theorem positive_ofRat {x : ℚ} (hlow : 2 ^ (-126 : ℤ) ≤ x) (hhigh : x ≤ 2 ^ 126) :
    (ofRat x).Positive := by
  have hx : 0 < x := (two_zpow_pos _).trans_le hlow
  have hunit : (2 : ℚ) ^ unit x ≤ x := by
    have hmax : (2 : ℚ) ^ max (exponent x) (-126) ≤ x := by
      rcases max_choice (exponent x) (-126) with h | h
      · rw [h]
        exact exponent_le hx
      · rw [h]
        exact hlow
    refine le_trans ?_ hmax
    exact zpow_le_zpow_right₀ (by norm_num) (by unfold unit; omega)
  have hpos := two_zpow_pos (unit x)
  have hquot : 1 ≤ x / 2 ^ unit x := (one_le_div hpos).mpr hunit
  obtain ⟨hge, hle⟩ := nearest_bounds (x / 2 ^ unit x)
  have hround : 0 < round x := mul_pos (by linarith) hpos
  have hupper : round x ≤ 2 * x := by
    have hnear : (nearest (x / 2 ^ unit x) : ℚ) ≤ 2 * (x / 2 ^ unit x) := by linarith
    have hmul := mul_le_mul_of_nonneg_right hnear hpos.le
    rwa [mul_assoc, div_mul_cancel₀ _ hpos.ne'] at hmul
  have hfinite : ¬2 ^ 128 ≤ |round x| := by
    rw [abs_of_pos hround, not_le]
    have h128 : (2 : ℚ) * 2 ^ 126 < 2 ^ 128 := by norm_num
    linarith
  rw [ofRat, if_neg hfinite]
  exact hround

end Single

end Fenice
