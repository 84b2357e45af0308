import Mathlib.Algebra.Order.Floor.Ring
import Mathlib.Data.Rat.Floor
import Mathlib.Tactic.Linarith
import Mathlib.Tactic.Positivity
import Mathlib.Tactic.FieldSimp
import Mathlib.Algebra.Order.BigOperators.Group.List
import Mathlib.Algebra.Order.AbsoluteValue.Basic

/-!
# Decimals of a fixed scale

Rounding a rational to a number of decimal places: to the nearest, ties away from zero (`toScale`, what
a `NUMERIC(p, s)` column stores) or to the even digit (`roundTo`, what `round(x, n)` returns).
Either moves a value by at most half a unit of the last place (`abs_toScale_sub_le`,
`abs_roundTo_sub_le`).
-/

set_option autoImplicit false

namespace Lib

/-- Half a unit of the last of `s` decimal places. -/
def halfUnit (s : ℕ) : ℚ := 1 / (2 * 10 ^ s)

/-- To the nearest integer, ties away from zero. -/
def roundAway (x : ℚ) : ℤ := if 0 ≤ x then ⌊x + 1 / 2⌋ else -⌊-x + 1 / 2⌋

/-- To the nearest integer, ties to the even one. -/
def roundEven (x : ℚ) : ℤ :=
  if Int.fract x < 1 / 2 then ⌊x⌋
  else if 1 / 2 < Int.fract x then ⌊x⌋ + 1
  else if ⌊x⌋ % 2 = 0 then ⌊x⌋
  else ⌊x⌋ + 1

def toScale (s : ℕ) (x : ℚ) : ℚ := roundAway (x * 10 ^ s) / 10 ^ s

def roundTo (s : ℕ) (x : ℚ) : ℚ := roundEven (x * 10 ^ s) / 10 ^ s

theorem abs_floor_add_half_sub_le (x : ℚ) : |(⌊x + 1 / 2⌋ : ℚ) - x| ≤ 1 / 2 := by
  have hlo := Int.floor_le (x + 1 / 2)
  have hhi := Int.lt_floor_add_one (x + 1 / 2)
  rw [abs_le]
  constructor <;> linarith

theorem abs_roundAway_sub_le (x : ℚ) : |(roundAway x : ℚ) - x| ≤ 1 / 2 := by
  unfold roundAway
  split
  · exact abs_floor_add_half_sub_le x
  · have h := abs_floor_add_half_sub_le (-x)
    rw [abs_sub_comm] at h
    push_cast
    rwa [show -(⌊-x + 1 / 2⌋ : ℚ) - x = -x - ⌊-x + 1 / 2⌋ by ring]

theorem abs_roundEven_sub_le (x : ℚ) : |(roundEven x : ℚ) - x| ≤ 1 / 2 := by
  have hsplit := Int.floor_add_fract x
  have hnonneg := Int.fract_nonneg x
  have hlt := Int.fract_lt_one x
  unfold roundEven
  split_ifs <;> rw [abs_le] <;> push_cast <;> constructor <;> linarith

/-- A rounding of the scaled value. -/
theorem abs_scaled_sub_le {s : ℕ} {x : ℚ} {n : ℤ} (h : |(n : ℚ) - x * 10 ^ s| ≤ 1 / 2) :
    |(n : ℚ) / 10 ^ s - x| ≤ halfUnit s := by
  have hpos : (0 : ℚ) < 10 ^ s := by positivity
  have hscaled : (n : ℚ) / 10 ^ s - x = (n - x * 10 ^ s) / 10 ^ s := by
    field_simp
  rw [hscaled, abs_div, abs_of_pos hpos, halfUnit, div_le_div_iff₀ hpos (by positivity)]
  nlinarith [h]

theorem abs_toScale_sub_le (s : ℕ) (x : ℚ) : |toScale s x - x| ≤ halfUnit s :=
  abs_scaled_sub_le (abs_roundAway_sub_le _)

theorem abs_roundTo_sub_le (s : ℕ) (x : ℚ) : |roundTo s x - x| ≤ halfUnit s :=
  abs_scaled_sub_le (abs_roundEven_sub_le _)

theorem toScale_nonneg {s : ℕ} {x : ℚ} (h : 0 ≤ x) : 0 ≤ toScale s x := by
  have hscaled : 0 ≤ x * 10 ^ s := by positivity
  unfold toScale roundAway
  rw [if_pos hscaled]
  have : 0 ≤ ⌊x * 10 ^ s + 1 / 2⌋ := Int.floor_nonneg.mpr (by linarith)
  positivity

/-- What rounding every summand does to a sum. -/
theorem abs_sum_sub_le {ι : Type} {e : ℚ} {f g : ι → ℚ} (h : ∀ i, |f i - g i| ≤ e) (xs : List ι) :
    |(xs.map f).sum - (xs.map g).sum| ≤ xs.length * e := by
  induction xs with
  | nil => simp
  | cons x xs ih =>
    have hsplit : ((x :: xs).map f).sum - ((x :: xs).map g).sum =
        (f x - g x) + ((xs.map f).sum - (xs.map g).sum) := by
      simp only [List.map_cons, List.sum_cons]
      ring
    rw [hsplit]
    calc |(f x - g x) + ((xs.map f).sum - (xs.map g).sum)|
        ≤ |f x - g x| + |(xs.map f).sum - (xs.map g).sum| := abs_add_le _ _
      _ ≤ e + xs.length * e := add_le_add (h x) ih
      _ = (x :: xs).length * e := by
        rw [List.length_cons]
        push_cast
        ring

end Lib
