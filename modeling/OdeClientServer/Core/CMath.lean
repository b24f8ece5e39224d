/-
The numbers of the solvers. A `double` is read as an exact number of a linearly ordered field with the functions of
<cmath> that the code calls; `R = ℝ` is the reading of every theorem. The definitions stay generic in R, so they can be
evaluated at any R whose operations can.

A quotient with divisor 0 is the one place where exact reading needs an extra value: `tolerance / error` is +∞ in the
source when the error estimate is 0 and the tolerance is not, and the code goes on with it (pow, log, min, clamp). Such
a value lives in `WithTop R`, and ⊤ is +∞. With a tolerance of 0 as well the source has 0 / 0, a NaN, which no exact
number reads: a run with tolerance 0 that meets an estimate of 0 is outside this reading. `Solvers.Doubles` has the step
of RK2 and the attempts of DISPF in doubles.
-/
import OdeClientServer.Core.Numerals
import Mathlib.Tactic
import Mathlib.Analysis.SpecialFunctions.Pow.Real
import Mathlib.Analysis.SpecialFunctions.Trigonometric.Basic

namespace OdeClientServer

/-- the functions of <cmath> that the solvers and the right-hand sides call -/
class CMath (R : Type) where
  sqrt : R → R
  pow : R → R → R
  log : R → R
  exp : R → R
  cos : R → R

noncomputable instance : CMath ℝ := ⟨Real.sqrt, fun x y => x ^ y, Real.log, Real.exp, Real.cos⟩

@[simp] theorem cmath_sqrt (x : ℝ) : CMath.sqrt x = Real.sqrt x := rfl

@[simp] theorem cmath_pow (x y : ℝ) : CMath.pow x y = x ^ y := rfl

@[simp] theorem cmath_log (x : ℝ) : CMath.log x = Real.log x := rfl

@[simp] theorem cmath_exp (x : ℝ) : CMath.exp x = Real.exp x := rfl

@[simp] theorem cmath_cos (x : ℝ) : CMath.cos x = Real.cos x := rfl

section Generic

variable {R : Type} [Field R] [LinearOrder R]

/-- `a / b` for a > 0: +∞ when b = 0 (0 / 0 is a NaN in the source and has no value here) -/
def quot (a b : R) : WithTop R := if b = 0 then ⊤ else ↑(a / b)

/-- `std::min(x, hi)` -/
def minTop (x : WithTop R) (hi : R) : R :=
  match x with
  | ⊤ => hi
  | (a : R) => min a hi

/-- `std::max(lo, x)` of a value x that is finite in the source: +∞ has no finite maximum -/
def maxTop (lo : R) (x : WithTop R) : R :=
  match x with
  | ⊤ => lo
  | (a : R) => max lo a

/-- `std::clamp(x, lo, hi)` for lo ≤ hi, and `std::min(hi, std::max(lo, x))` -/
def clampTop (lo hi : R) (x : WithTop R) : R :=
  match x with
  | ⊤ => hi
  | (a : R) => min hi (max lo a)

/-- `std::pow(x, e)` for an exponent e > 0: pow(+∞, e) is +∞ -/
def powTop [CMath R] (x : WithTop R) (e : R) : WithTop R := x.map fun a => CMath.pow a e

/-- `c * x` for a constant c > 0 -/
def mulTop (c : R) (x : WithTop R) : WithTop R := x.map fun a => c * a

end Generic

/-! ## The extended values over ℝ -/

theorem quot_zero (a : ℝ) : quot a 0 = ⊤ := if_pos rfl

theorem quot_of_ne {a b : ℝ} (h : b ≠ 0) : quot a b = ↑(a / b) := if_neg h

@[simp] theorem minTop_top (hi : ℝ) : minTop ⊤ hi = hi := rfl

@[simp] theorem minTop_coe (a hi : ℝ) : minTop (a : WithTop ℝ) hi = min a hi := rfl

@[simp] theorem maxTop_coe (lo a : ℝ) : maxTop lo (a : WithTop ℝ) = max lo a := rfl

@[simp] theorem clampTop_top (lo hi : ℝ) : clampTop lo hi ⊤ = hi := rfl

@[simp] theorem clampTop_coe (lo hi a : ℝ) : clampTop lo hi (a : WithTop ℝ) = min hi (max lo a) := rfl

@[simp] theorem powTop_top (e : ℝ) : powTop (⊤ : WithTop ℝ) e = ⊤ := rfl

@[simp] theorem powTop_coe (a e : ℝ) : powTop (a : WithTop ℝ) e = ↑(a ^ e) := rfl

@[simp] theorem mulTop_top (c : ℝ) : mulTop c ⊤ = ⊤ := rfl

@[simp] theorem mulTop_coe (c a : ℝ) : mulTop c (a : WithTop ℝ) = ↑(c * a) := rfl

theorem mulTop_one (x : WithTop ℝ) : mulTop 1 x = x := by
  cases x with
  | top => rfl
  | coe a => rw [mulTop_coe, one_mul]

/-! ## Step-size factors

The factor of an accepted step is `c * pow(tolerance / error, 1/k)`, cut off above or clamped. -/

theorem mul_rpow_ratio_eq_one {c tol err : ℝ} (hc : 0 < c) (htol : 0 < tol) (herr : 0 < err) {k : ℕ} (hk : k ≠ 0) :
    c * (tol / err) ^ (1 / (k : ℝ)) = 1 ↔ err = c ^ k * tol := by
  have hr : 0 < tol / err := div_pos htol herr
  have hroot : 0 < (tol / err) ^ (1 / (k : ℝ)) := Real.rpow_pos_of_pos hr _
  have hpow : (c * (tol / err) ^ (1 / (k : ℝ))) ^ k = c ^ k * (tol / err) := by
    rw [mul_pow, one_div, Real.rpow_inv_natCast_pow hr.le hk]
  have hiff : c * (tol / err) ^ (1 / (k : ℝ)) = 1 ↔ (c * (tol / err) ^ (1 / (k : ℝ))) ^ k = 1 :=
    (pow_eq_one_iff_of_nonneg (mul_pos hc hroot).le hk).symm
  rw [hiff, hpow, ← mul_div_assoc, div_eq_one_iff_eq herr.ne']
  exact eq_comm

theorem min_eq_one_iff {x hi : ℝ} (hhi : 1 < hi) : min x hi = 1 ↔ x = 1 := by
  rcases min_choice x hi with h | h
  · rw [h]
  · have hle := min_le_left x hi
    rw [h] at hle ⊢
    exact ⟨fun e => absurd e hhi.ne', fun e => absurd (e ▸ hle) (not_le.2 hhi)⟩

theorem max_eq_one_iff {lo x : ℝ} (hlo : lo < 1) : max lo x = 1 ↔ x = 1 := by
  rcases max_choice lo x with h | h
  · have hle := le_max_right lo x
    rw [h] at hle ⊢
    exact ⟨fun e => absurd e hlo.ne, fun e => absurd (e ▸ hle) (not_le.2 hlo)⟩
  · rw [h]

/-- **Factor 1, cut off above.** A factor `min(c * pow(tol / err, 1/k), hi)` is 1 for exactly one error estimate. -/
theorem minTop_ratio_eq_one {c tol err hi e : ℝ} (hc : 0 < c) (htol : 0 < tol) (herr : 0 ≤ err) (hhi : 1 < hi)
    {k : ℕ} (hk : k ≠ 0) (he : e = 1 / (k : ℝ)) :
    minTop (mulTop c (powTop (quot tol err) e)) hi = 1 ↔ err = c ^ k * tol := by
  rcases herr.eq_or_lt with rfl | hpos
  · rw [quot_zero, powTop_top, mulTop_top, minTop_top]
    exact ⟨fun h => absurd h hhi.ne', fun h => absurd h (mul_pos (pow_pos hc k) htol).ne⟩
  · rw [quot_of_ne hpos.ne', powTop_coe, mulTop_coe, minTop_coe, min_eq_one_iff hhi, he]
    exact mul_rpow_ratio_eq_one hc htol hpos hk

/-- **Factor 1, clamped.** A factor `clamp(c * pow(tol / err, 1/k), lo, hi)` is 1 for exactly one error estimate. -/
theorem clampTop_ratio_eq_one {c tol err lo hi e : ℝ} (hc : 0 < c) (htol : 0 < tol) (herr : 0 ≤ err) (hlo : lo < 1)
    (hhi : 1 < hi) {k : ℕ} (hk : k ≠ 0) (he : e = 1 / (k : ℝ)) :
    clampTop lo hi (mulTop c (powTop (quot tol err) e)) = 1 ↔ err = c ^ k * tol := by
  rcases herr.eq_or_lt with rfl | hpos
  · rw [quot_zero, powTop_top, mulTop_top, clampTop_top]
    exact ⟨fun h => absurd h hhi.ne', fun h => absurd h (mul_pos (pow_pos hc k) htol).ne⟩
  · rw [quot_of_ne hpos.ne', powTop_coe, mulTop_coe, clampTop_coe, min_comm, min_eq_one_iff hhi, max_eq_one_iff hlo, he]
    exact mul_rpow_ratio_eq_one hc htol hpos hk

/-- the factor does not shrink the step when the error estimate is small enough -/
theorem one_le_mul_rpow_ratio {c tol err : ℝ} (hc : 0 < c) (htol : 0 < tol) (herr : 0 < err) {k : ℕ} (hk : k ≠ 0)
    (hle : err ≤ c ^ k * tol) : 1 ≤ c * (tol / err) ^ (1 / (k : ℝ)) := by
  have hr : 0 < tol / err := div_pos htol herr
  have hroot : 0 < (tol / err) ^ (1 / (k : ℝ)) := Real.rpow_pos_of_pos hr _
  refine (one_le_pow_iff_of_nonneg (mul_pos hc hroot).le hk).1 ?_
  rw [mul_pow, one_div, Real.rpow_inv_natCast_pow hr.le hk, ← mul_div_assoc]
  exact (one_le_div herr).2 hle

theorem one_le_clampTop_ratio {c tol err lo hi e : ℝ} (hc : 0 < c) (htol : 0 < tol) (herr : 0 ≤ err) (hhi : 1 ≤ hi)
    {k : ℕ} (hk : k ≠ 0) (he : e = 1 / (k : ℝ)) (hle : err ≤ c ^ k * tol) :
    1 ≤ clampTop lo hi (mulTop c (powTop (quot tol err) e)) := by
  rcases herr.eq_or_lt with rfl | hpos
  · rw [quot_zero, powTop_top, mulTop_top, clampTop_top]
    exact hhi
  · rw [quot_of_ne hpos.ne', powTop_coe, mulTop_coe, clampTop_coe, he]
    exact le_min hhi (le_max_of_le_right (one_le_mul_rpow_ratio hc htol hpos hk hle))

theorem minTop_ratio_pos {c tol err hi e : ℝ} (hc : 0 < c) (htol : 0 < tol) (herr : 0 ≤ err) (hhi : 0 < hi) :
    0 < minTop (mulTop c (powTop (quot tol err) e)) hi := by
  rcases herr.eq_or_lt with rfl | hpos
  · rw [quot_zero, powTop_top, mulTop_top, minTop_top]; exact hhi
  · rw [quot_of_ne hpos.ne', powTop_coe, mulTop_coe, minTop_coe]
    exact lt_min (mul_pos hc (Real.rpow_pos_of_pos (div_pos htol hpos) e)) hhi

theorem clampTop_pos {lo hi : ℝ} (hlo : 0 < lo) (hhi : 0 < hi) (x : WithTop ℝ) : 0 < clampTop lo hi x := by
  cases x with
  | top => exact hhi
  | coe a => exact lt_min hhi (lt_max_of_lt_left hlo)

theorem le_clampTop {lo hi : ℝ} (h : lo ≤ hi) {x : WithTop ℝ} : lo ≤ clampTop lo hi x := by
  cases x with
  | top => exact h
  | coe a => exact le_min h (le_max_left _ _)

theorem clampTop_le (lo hi : ℝ) {x : WithTop ℝ} : clampTop lo hi x ≤ hi := by
  cases x with
  | top => exact le_rfl
  | coe a => exact min_le_left _ _

theorem le_maxTop (lo : ℝ) (x : WithTop ℝ) : lo ≤ maxTop lo x := by
  cases x with
  | top => exact le_rfl
  | coe a => exact le_max_left _ _

end OdeClientServer
