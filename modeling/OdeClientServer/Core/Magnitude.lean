/-
How large the results of operations on doubles are.

`Within p x` bounds a finite number by 2^p units. `AtMost c x` allows an infinity and NaN beside that, and is what a
chain of operations that may overflow keeps. `Vanishes x` is a zero or NaN.

- `within_*`, `atMost_*`, `vanishes_*`: the operations.
- `units_mul_le_of_shrinks`, `units_mul_lt_of_halves`: a factor up to 0.905 lowers every number but the few smallest, a
  factor up to 0.5 every number but 0.
- `quotient_zero`, `quotient_unit`: the quotient of a number and a larger one.
-/
import OdeClientServer.Core.Double

namespace OdeClientServer.Double

open Float.Model Float.Model.UnpackedFloat Rounding

variable {x y c f : Float}

/-! ## The results of the operations in units -/

theorem two_pow_lt {a b : ℕ} (h : a < b) : 2 ^ a < 2 ^ b := Nat.pow_lt_pow_right Nat.one_lt_two h

theorem one_lt_limit : 2 ^ 1074 < 2 ^ 2098 := two_pow_lt (by norm_num)

theorem units_lt (x : Float) : units x < 2 ^ 2098 := by
  have hdouble := kind_isDouble x
  rw [units]
  generalize kind x = v at hdouble
  cases v with
  | finite s m e hm => exact mul_two_pow_lt hdouble.1.lt (by have := hdouble.1.min; have := hdouble.2; omega)
  | _ => positivity

theorem isFinite_eq_false (h : x.isInf = true) : x.isFinite = false := by
  rw [isInf_eq] at h
  rw [isFinite_eq]
  cases hk : kind x with
  | infinity s => rfl
  | _ => rw [hk] at h; cases h

theorem not_isInf (h : x.isFinite = true) : x.isInf = false := by
  by_contra hinf
  rw [isFinite_eq_false (Bool.eq_true_of_not_eq_false hinf)] at h
  cases h

theorem not_isNaN (h : x.isFinite = true) : x.isNaN = false := by
  rw [isFinite_eq] at h
  rw [isNaN_eq]
  cases hk : kind x with
  | notANumber => rw [hk] at h; cases h
  | _ => rfl

theorem isNaN_iff : x.isNaN = true ↔ kind x = .notANumber := by
  rw [isNaN_eq]
  cases kind x with
  | notANumber => exact iff_of_true rfl rfl
  | _ => exact iff_of_false (fun h => by cases h) (fun h => by cases h)

theorem isNaN_mul_left (h : x.isNaN = true) (y : Float) : (x * y).isNaN = true := by
  rw [isNaN_iff, kind_mul, isNaN_iff.1 h]
  cases kind y <;> simp [UnpackedFloat.mul]

theorem isNaN_mul_right (x : Float) (h : y.isNaN = true) : (x * y).isNaN = true := by
  rw [isNaN_iff, kind_mul, isNaN_iff.1 h]
  cases kind x <;> simp [UnpackedFloat.mul]

theorem isNaN_div_right (x : Float) (h : y.isNaN = true) : (x / y).isNaN = true := by
  rw [isNaN_iff, kind_div, isNaN_iff.1 h]
  cases kind x <;> simp [UnpackedFloat.div]

theorem units_eq_zero (h : x.isNaN = true) : units x = 0 := by
  rw [units, isNaN_iff.1 h]
  rfl

theorem isFinite_or_isNaN (h : x.isInf = false) : x.isFinite = true ∨ x.isNaN = true := by
  obtain hf | hinf | hnan := finite_inf_or_nan x
  · exact Or.inl hf
  · rw [hinf] at h
    cases h
  · exact Or.inr hnan

theorem isFinite_or_isInf (h : x.isNaN = false) : x.isFinite = true ∨ x.isInf = true := by
  obtain hf | hinf | hnan := finite_inf_or_nan x
  · exact Or.inl hf
  · exact Or.inr hinf
  · rw [hnan] at h
    cases h

theorem not_isNaN_of_div (hc : Positive c) (h : (x / c).isNaN = false) : x.isNaN = false := by
  obtain ⟨m, e, hm, hc⟩ := hc
  rw [isNaN_eq, kind_div, hc] at h
  rw [isNaN_eq]
  cases hk : kind x with
  | notANumber =>
    rw [hk] at h
    change (stored .notANumber).isNaN = false at h
    cases h
  | _ => rfl

theorem not_isNaN_of_nonNeg (h : NonNeg x) : x.isNaN = false := by
  rw [NonNeg] at h
  rw [isNaN_eq]
  cases hk : kind x with
  | notANumber => rw [hk] at h; exact h.elim
  | _ => rfl

theorem positive_iff : Positive c ↔ c.isFinite = true ∧ (0.0 : Float) < c := by
  rw [lt_iff, isFinite_eq, Positive, show kind (0.0 : Float) = .zero .positive from rfl]
  generalize kind c = v
  rcases v with (_ | _) | _ | _ | ⟨_ | _, m, e, hm⟩
  · exact iff_of_false (fun ⟨_, _, _, h⟩ => by cases h) (fun h => by cases h.1)
  · exact iff_of_false (fun ⟨_, _, _, h⟩ => by cases h) (fun h => by cases h.1)
  · exact iff_of_false (fun ⟨_, _, _, h⟩ => by cases h) (fun h => by cases h.1)
  · exact iff_of_false (fun ⟨_, _, _, h⟩ => by cases h) (fun h => by cases h.2)
  · exact iff_of_false (fun ⟨_, _, _, h⟩ => by cases h) (fun h => by cases h.2)
  · exact iff_of_true ⟨m, e, hm, rfl⟩ ⟨rfl, rfl⟩

theorem beq_zero_iff : (x == 0.0) = true ↔ ∃ s, kind x = .zero s := by
  change (kind x).beq (.zero .positive) = true ↔ _
  generalize kind x = v
  rcases v with (_ | _) | _ | _ | ⟨_ | _, m, e, hm⟩
  · exact iff_of_false (fun h => by cases h) (fun ⟨_, h⟩ => by cases h)
  · exact iff_of_false (fun h => by cases h) (fun ⟨_, h⟩ => by cases h)
  · exact iff_of_false (fun h => by cases h) (fun ⟨_, h⟩ => by cases h)
  · exact iff_of_true rfl ⟨_, rfl⟩
  · exact iff_of_false (fun h => by cases h) (fun ⟨_, h⟩ => by cases h)
  · exact iff_of_false (fun h => by cases h) (fun ⟨_, h⟩ => by cases h)

/-- a result that is finite -/
theorem Nearest.units_rounds {v : UnpackedFloat} {w : ℝ} (h : Nearest v w) (hx : kind x = stored v)
    (hf : x.isFinite = true) : Rounds |w| (units x) := by
  obtain ⟨u, hu, ⟨-, rfl, -⟩ | ⟨hinf, -⟩⟩ := h.rounds
  · rw [units, hx]
    exact hu
  · rw [isFinite_eq_false (by rw [isInf_eq, hx]; exact hinf)] at hf
    cases hf

/-- a result is finite when what it is rounded from is not too large -/
theorem Nearest.isFinite {v : UnpackedFloat} {w : ℝ} (h : Nearest v w) (hx : kind x = stored v)
    (hw : ∀ u, Rounds |w| u → u < 2 ^ 2098) : x.isFinite = true := by
  obtain ⟨u, hu, ⟨hf, -, -⟩ | ⟨-, hlarge⟩⟩ := h.rounds
  · rw [isFinite_eq, hx]
    exact hf
  · exact absurd (hw u hu) (not_lt.2 hlarge)

theorem nearest_units_mul (hx : x.isFinite = true) (hy : y.isFinite = true) :
    ∃ w, Nearest (UnpackedFloat.mul .binary64 (kind x) (kind y)) w ∧ |w| = units x * units y / 2 ^ 1074 := by
  refine ⟨_, nearest_mul (kind_isDouble x) (kind_isDouble y) hx hy, ?_⟩
  rw [abs_div, abs_mul, abs_signed, abs_signed, abs_of_pos (by positivity)]
  rfl

theorem nearest_units_add (hx : x.isFinite = true) (hy : y.isFinite = true) :
    ∃ w, Nearest (UnpackedFloat.add .binary64 (kind x) (kind y)) w ∧ |w| ≤ units x + units y := by
  refine ⟨_, nearest_add (kind_isDouble x) (kind_isDouble y) hx hy, (abs_add_le _ _).trans ?_⟩
  rw [abs_signed, abs_signed]
  rfl

theorem nearest_units_sub (hx : x.isFinite = true) (hy : y.isFinite = true) :
    ∃ w, Nearest (UnpackedFloat.sub .binary64 (kind x) (kind y)) w ∧ |w| ≤ units x + units y := by
  refine ⟨_, nearest_sub (kind_isDouble x) (kind_isDouble y) hx hy, (abs_sub _ _).trans ?_⟩
  rw [abs_signed, abs_signed]
  rfl

theorem nearest_units_div (hx : x.isFinite = true) (hy : y.isFinite = true) (hy0 : 0 < units y) :
    ∃ w, Nearest (UnpackedFloat.div .binary64 (kind x) (kind y)) w ∧ |w| = units x * 2 ^ 1074 / units y ∧
      (NonNeg x → NonNeg y → 0 ≤ w) := by
  have hne : signed (kind y) ≠ 0 := fun h => by
    have habs := abs_signed (kind y)
    rw [h, Int.cast_zero, abs_zero] at habs
    exact hy0.ne (by exact_mod_cast habs)
  refine ⟨_, nearest_div (kind_isDouble x) (kind_isDouble y) hx hy hne, ?_, fun hx hy => ?_⟩
  · rw [abs_div, abs_mul, abs_signed, abs_signed, abs_of_pos (by positivity)]
    rfl
  · exact div_nonneg (mul_nonneg (by exact_mod_cast signed_nonneg hx) (by positivity))
      (by exact_mod_cast signed_nonneg hy)

/-! ## Bounds -/

/-- x is finite, and at most 2^p units from 0 -/
def Within (p : ℕ) (x : Float) : Prop := x.isFinite = true ∧ units x ≤ 2 ^ p

/-- x is infinite, NaN or at most c units from 0 -/
def AtMost (c : ℕ) (x : Float) : Prop := x.isFinite = true → units x ≤ c

variable {p q r : ℕ}

instance (c : ℕ) (x : Float) : Decidable (AtMost c x) :=
  inferInstanceAs (Decidable (x.isFinite = true → units x ≤ c))

instance (p : ℕ) (x : Float) : Decidable (Within p x) :=
  inferInstanceAs (Decidable (x.isFinite = true ∧ units x ≤ 2 ^ p))

theorem AtMost.mono {c c' : ℕ} (h : AtMost c x) (hc : c ≤ c') : AtMost c' x := fun hf => (h hf).trans hc

theorem AtMost.within (h : AtMost (2 ^ p) x) (hf : x.isFinite = true) : Within p x := ⟨hf, h hf⟩

theorem Within.mono (h : Within p x) (hpq : p ≤ q) : Within q x := ⟨h.1, h.2.trans (two_pow_le hpq)⟩

theorem Within.atMost (h : Within p x) : AtMost (2 ^ p) x := fun _ => h.2

theorem Within.cast (h : Within p x) : (units x : ℝ) ≤ 2 ^ p := by exact_mod_cast h.2

/-- the range of the doubles -/
theorem atMost_all (hr : 2098 ≤ r) (x : Float) : AtMost (2 ^ r) x := fun _ => (units_lt x).le.trans (two_pow_le hr)

theorem atMost_abs {c : ℕ} : AtMost c x.abs ↔ AtMost c x := by
  simp only [AtMost, isFinite_abs, units_abs]

section Nearest

variable {v : UnpackedFloat} {w : ℝ}

theorem Nearest.atMost (h : Nearest v w) (hx : kind x = stored v) (hw : |w| ≤ 2 ^ r) : AtMost (2 ^ r) x :=
  fun hf => (h.units_rounds hx hf).le_two_pow hw

theorem Nearest.atMost_zero (h : Nearest v w) (hx : kind x = stored v) (hw : |w| ≤ 1 / 2) : AtMost 0 x :=
  fun hf => ((h.units_rounds hx hf).eq_zero hw).le

theorem Nearest.within (h : Nearest v w) (hx : kind x = stored v) (hw : |w| ≤ 2 ^ r) (hr : r < 2098) : Within r x :=
  (h.atMost hx hw).within (h.isFinite hx fun _ hu => (hu.le_two_pow hw).trans_lt (two_pow_lt hr))

end Nearest

/-! ### Products -/

theorem units_mul_units_le (hx : Within p x) (hy : Within q y) : (units x : ℝ) * units y ≤ 2 ^ (p + q) :=
  calc (units x : ℝ) * units y ≤ 2 ^ p * 2 ^ q := mul_le_mul hx.cast hy.cast (Nat.cast_nonneg _) (by positivity)
    _ = 2 ^ (p + q) := (pow_add 2 p q).symm

theorem nearest_mul_le (hx : Within p x) (hy : Within q y) (hr : p + q ≤ r + 1074) :
    ∃ w, Nearest (UnpackedFloat.mul .binary64 (kind x) (kind y)) w ∧ |w| ≤ 2 ^ r := by
  obtain ⟨w, hnear, hw⟩ := nearest_units_mul hx.1 hy.1
  refine ⟨w, hnear, ?_⟩
  rw [hw, div_le_iff₀ (by positivity), ← pow_add]
  exact (units_mul_units_le hx hy).trans (pow_le_pow_right₀ one_le_two hr)

theorem within_mul (hx : Within p x) (hy : Within q y) (hp : p + q ≤ r + 1074) (hr : r < 2098) : Within r (x * y) := by
  obtain ⟨w, hnear, hw⟩ := nearest_mul_le hx hy hp
  exact hnear.within (kind_mul x y) hw hr

theorem atMost_mul (hx : AtMost (2 ^ p) x) (hy : AtMost (2 ^ q) y) (hr : p + q ≤ r + 1074) :
    AtMost (2 ^ r) (x * y) := by
  intro hf
  obtain ⟨hxf, hyf⟩ := isFinite_of_mul hf
  obtain ⟨w, hnear, hw⟩ := nearest_mul_le (hx.within hxf) (hy.within hyf) hr
  exact hnear.atMost (kind_mul x y) hw hf

/-- a product that underflows -/
theorem atMost_zero_mul (hx : AtMost (2 ^ p) x) (hy : AtMost (2 ^ q) y) (hpq : p + q < 1074) : AtMost 0 (x * y) := by
  intro hf
  obtain ⟨hxf, hyf⟩ := isFinite_of_mul hf
  obtain ⟨w, hnear, hw⟩ := nearest_units_mul hxf hyf
  refine hnear.atMost_zero (kind_mul x y) ?_ hf
  have hdouble : (2 : ℝ) ^ (p + q) * 2 ≤ 2 ^ 1074 := by
    rw [← pow_succ]
    exact pow_le_pow_right₀ one_le_two hpq
  rw [hw, div_le_iff₀ (by positivity)]
  generalize (2 : ℝ) ^ 1074 = one at hdouble ⊢
  linarith [units_mul_units_le (hx.within hxf) (hy.within hyf)]

/-! ### Sums and differences -/

theorem units_add_units_le (hx : Within r x) (hy : Within r y) : (units x : ℝ) + units y ≤ 2 ^ (r + 1) := by
  rw [pow_succ]
  linarith [hx.cast, hy.cast]

theorem within_add (hx : Within r x) (hy : Within r y) (hr : r < 2097) : Within (r + 1) (x + y) := by
  obtain ⟨w, hnear, hw⟩ := nearest_units_add hx.1 hy.1
  exact hnear.within (kind_add x y) (hw.trans (units_add_units_le hx hy)) (Nat.succ_lt_succ hr)

theorem within_sub (hx : Within r x) (hy : Within r y) (hr : r < 2097) : Within (r + 1) (x - y) := by
  obtain ⟨w, hnear, hw⟩ := nearest_units_sub hx.1 hy.1
  exact hnear.within (kind_sub x y) (hw.trans (units_add_units_le hx hy)) (Nat.succ_lt_succ hr)

theorem atMost_add (hx : AtMost (2 ^ r) x) (hy : AtMost (2 ^ r) y) : AtMost (2 ^ (r + 1)) (x + y) := by
  intro hf
  obtain ⟨hxf, hyf⟩ := isFinite_of_add hf
  obtain ⟨w, hnear, hw⟩ := nearest_units_add hxf hyf
  exact hnear.atMost (kind_add x y) (hw.trans (units_add_units_le (hx.within hxf) (hy.within hyf))) hf

theorem atMost_sub (hx : AtMost (2 ^ r) x) (hy : AtMost (2 ^ r) y) : AtMost (2 ^ (r + 1)) (x - y) := by
  intro hf
  obtain ⟨hxf, hyf⟩ := isFinite_of_sub hf
  obtain ⟨w, hnear, hw⟩ := nearest_units_sub hxf hyf
  exact hnear.atMost (kind_sub x y) (hw.trans (units_add_units_le (hx.within hxf) (hy.within hyf))) hf

theorem atMost_zero_add (hx : AtMost 0 x) (hy : AtMost 0 y) : AtMost 0 (x + y) := by
  intro hf
  obtain ⟨hxf, hyf⟩ := isFinite_of_add hf
  obtain ⟨w, hnear, hw⟩ := nearest_units_add hxf hyf
  refine hnear.atMost_zero (kind_add x y) ?_ hf
  rw [Nat.le_zero.1 (hx hxf), Nat.le_zero.1 (hy hyf), Nat.cast_zero, add_zero] at hw
  linarith

/-! ### Roots and quotients -/

theorem nonNeg_of_sqrt (h : x.sqrt.isNaN = false) : NonNeg x := by
  rw [isNaN_eq, kind_sqrt] at h
  rw [NonNeg]
  generalize kind x = v at h
  rcases v with (_ | _) | _ | _ | ⟨_ | _, m, e, hm⟩
  · change (stored .notANumber).isNaN = false at h
    cases h
  · trivial
  · change (stored .notANumber).isNaN = false at h
    cases h
  · trivial
  · change (stored .notANumber).isNaN = false at h
    cases h
  · trivial

theorem atMost_sqrt (hx : AtMost (2 ^ p) x) (hr : p + 1074 ≤ 2 * r) : AtMost (2 ^ r) x.sqrt := by
  intro hf
  have hxf := isFinite_of_sqrt hf
  have hnear := nearest_sqrt (kind_isDouble x) hxf (nonNeg_of_sqrt (not_isNaN hf))
  refine hnear.atMost (kind_sqrt x) ?_ hf
  rw [abs_of_nonneg (Real.sqrt_nonneg _)]
  refine Real.sqrt_le_iff.2 ⟨by positivity, ?_⟩
  calc (units x : ℝ) * 2 ^ 1074 ≤ 2 ^ p * 2 ^ 1074 :=
        mul_le_mul_of_nonneg_right (hx.within hxf).cast (by positivity)
    _ = 2 ^ (p + 1074) := (pow_add 2 p 1074).symm
    _ ≤ 2 ^ (2 * r) := pow_le_pow_right₀ one_le_two hr
    _ = (2 ^ r) ^ 2 := by rw [mul_comm, pow_mul]

theorem atMost_zero_sqrt (hx : AtMost 0 x) : AtMost 0 x.sqrt := by
  intro hf
  have hxf := isFinite_of_sqrt hf
  have hnear := nearest_sqrt (kind_isDouble x) hxf (nonNeg_of_sqrt (not_isNaN hf))
  refine hnear.atMost_zero (kind_sqrt x) ?_ hf
  have hzero : magnitude (kind x) = 0 := Nat.le_zero.1 (hx hxf)
  rw [hzero, Nat.cast_zero, zero_mul, Real.sqrt_zero, abs_zero]
  norm_num

theorem nearest_div_le (hx : Within p x) (hc : Positive c) (hcq : 2 ^ q ≤ units c) (hr : p + 1074 ≤ r + q) :
    ∃ w, Nearest (UnpackedFloat.div .binary64 (kind x) (kind c)) w ∧ |w| ≤ 2 ^ r := by
  have hc0 : 0 < units c := lt_of_lt_of_le (by positivity) hcq
  obtain ⟨w, hnear, hw, -⟩ := nearest_units_div hx.1 (positive_iff.1 hc).1 hc0
  refine ⟨w, hnear, ?_⟩
  have hc' : (2 : ℝ) ^ q ≤ units c := by exact_mod_cast hcq
  rw [hw, div_le_iff₀ (by exact_mod_cast hc0)]
  calc (units x : ℝ) * 2 ^ 1074 ≤ 2 ^ p * 2 ^ 1074 := mul_le_mul_of_nonneg_right hx.cast (by positivity)
    _ = 2 ^ (p + 1074) := (pow_add 2 p 1074).symm
    _ ≤ 2 ^ (r + q) := pow_le_pow_right₀ one_le_two hr
    _ = 2 ^ r * 2 ^ q := pow_add 2 r q
    _ ≤ 2 ^ r * units c := mul_le_mul_of_nonneg_left hc' (by positivity)

theorem within_div (hx : Within p x) (hc : Positive c) (hcq : 2 ^ q ≤ units c) (hp : p + 1074 ≤ r + q) (hr : r < 2098) :
    Within r (x / c) := by
  obtain ⟨w, hnear, hw⟩ := nearest_div_le hx hc hcq hp
  exact hnear.within (kind_div x c) hw hr

theorem atMost_div (hx : AtMost (2 ^ p) x) (hc : Positive c) (hcq : 2 ^ q ≤ units c) (hr : p + 1074 ≤ r + q) :
    AtMost (2 ^ r) (x / c) := by
  intro hf
  obtain ⟨w, hnear, hw⟩ := nearest_div_le (hx.within (isFinite_of_div hc hf)) hc hcq hr
  exact hnear.atMost (kind_div x c) hw hf

theorem atMost_zero_div (hx : AtMost 0 x) (hc : Positive c) (hc0 : 0 < units c) : AtMost 0 (x / c) := by
  intro hf
  have hxf := isFinite_of_div hc hf
  obtain ⟨w, hnear, hw, -⟩ := nearest_units_div hxf (positive_iff.1 hc).1 hc0
  refine hnear.atMost_zero (kind_div x c) ?_ hf
  rw [hw, Nat.le_zero.1 (hx hxf), Nat.cast_zero, zero_mul, zero_div]
  norm_num

theorem abs_le_abs_iff (hy : y.isFinite = true) : x.abs ≤ y.abs ↔ x.isFinite = true ∧ units x ≤ units y := by
  have hyf : y.abs.isFinite = true := (isFinite_abs y).trans hy
  have hy0 := nonNeg_abs (not_isNaN hy)
  constructor
  · intro h
    have hx0 := nonNeg_abs ((isNaN_abs x).symm.trans (not_isNaN_of_le h).1)
    have hxf := isFinite_of_le hx0 hyf h
    rw [le_iff_not_lt hx0 hy0, lt_iff_units hy0 hx0 hyf, units_abs, units_abs] at h
    exact ⟨(isFinite_abs x).symm.trans hxf, not_lt.1 fun hlt => h (Or.inr hlt)⟩
  · rintro ⟨hx, h⟩
    have hx0 := nonNeg_abs (not_isNaN hx)
    have hinf : x.abs.isInf = false := not_isInf ((isFinite_abs x).trans hx)
    rw [le_iff_not_lt hx0 hy0, lt_iff_units hy0 hx0 hyf, units_abs, units_abs, hinf]
    exact fun hlt => absurd (hlt.resolve_left Bool.false_ne_true) (not_lt.2 h)

/-! ## Factors that shrink -/

/-- at most 0.905 -/
def Shrinks (f : Float) : Prop := f.isFinite = true ∧ 1000 * units f ≤ 905 * 2 ^ 1074

/-- at most 0.5 -/
def Halves (f : Float) : Prop := f.isFinite = true ∧ 2 * units f ≤ 2 ^ 1074

theorem units_mul_le_of_shrinks (hf : Shrinks f) (hx : x.isFinite = true) :
    (x * f).isFinite = true ∧ 100 * units (x * f) ≤ 91 * units x + 50 := by
  obtain ⟨w, hnear, hw⟩ := nearest_units_mul hx hf.1
  have hf' : 1000 * (units f : ℝ) ≤ 905 * 2 ^ 1074 := by exact_mod_cast hf.2
  have hx0 : (0 : ℝ) ≤ units x := Nat.cast_nonneg _
  have hsmall : |w| ≤ 905 / 1000 * units x := by
    rw [hw, div_le_iff₀ (by positivity)]
    generalize (2 : ℝ) ^ 1074 = one at hf' ⊢
    calc (units x : ℝ) * units f ≤ units x * (905 / 1000 * one) := mul_le_mul_of_nonneg_left (by linarith) hx0
      _ = 905 / 1000 * units x * one := by ring
  have hround : ∀ u, Rounds |w| u → 100 * u ≤ 91 * units x + 50 := fun u hu => by
    have hle := hu.le (abs_nonneg w)
    have hcast : (100 : ℝ) * u ≤ 91 * units x + 50 := by
      have hdiv : |w| / 2 ^ 53 ≤ units x / 1000 := by
        rw [div_le_div_iff₀ (by positivity) (by norm_num)]
        norm_num
        linarith
      linarith
    exact_mod_cast hcast
  have hxf := units_lt x
  have hfinite : (x * f).isFinite = true := hnear.isFinite (kind_mul x f) fun u hu => by
    have := hround u hu
    omega
  exact ⟨hfinite, hround _ (hnear.units_rounds (kind_mul x f) hfinite)⟩

theorem units_mul_lt_of_halves (hf : Halves f) (hx : x.isFinite = true) (hx0 : 0 < units x) :
    units (x * f) < units x := by
  obtain ⟨w, hnear, hw⟩ := nearest_units_mul hx hf.1
  have hf' : 2 * (units f : ℝ) ≤ 2 ^ 1074 := by exact_mod_cast hf.2
  have hsmall : |w| ≤ units x / 2 := by
    rw [hw, div_le_iff₀ (by positivity)]
    generalize (2 : ℝ) ^ 1074 = one at hf' ⊢
    calc (units x : ℝ) * units f ≤ units x * (one / 2) :=
        mul_le_mul_of_nonneg_left (by linarith) (Nat.cast_nonneg _)
      _ = units x / 2 * one := by ring
  by_cases hf : (x * f).isFinite = true
  · have hround := hnear.units_rounds (kind_mul x f) hf
    rcases Nat.lt_or_ge 1 (units x) with hlarge | hone
    · have hle := hround.le (abs_nonneg w)
      have hlarge' : (2 : ℝ) ≤ units x := by exact_mod_cast hlarge
      have hdiv : |w| / 2 ^ 53 ≤ units x / 1000 := by
        rw [div_le_div_iff₀ (by positivity) (by norm_num)]
        norm_num
        linarith
      have hcast : (units (x * f) : ℝ) < units x := by linarith
      exact_mod_cast hcast
    · have hle : (units x : ℝ) ≤ 1 := by exact_mod_cast hone
      rw [hround.eq_zero (by linarith)]
      exact hx0
  · have hzero : units (x * f) = 0 := by
      rw [isFinite_eq] at hf
      rw [units]
      cases hk : kind (x * f) with
      | zero s => rfl
      | finite s m e hm => rw [hk] at hf; exact absurd rfl hf
      | _ => rfl
    rw [hzero]
    exact hx0

theorem Halves.shrinks (hf : Halves f) : Shrinks f := by
  refine ⟨hf.1, ?_⟩
  have hle := hf.2
  generalize 2 ^ 1074 = one at hle ⊢
  omega

/-! ## Zeros -/

/-- 0 or NaN -/
def Vanishes (x : Float) : Prop := kind x = .notANumber ∨ ∃ s, kind x = .zero s

theorem vanishes_mul (hx : Vanishes x) (y : Float) : Vanishes (x * y) := by
  rw [Vanishes, kind_mul]
  obtain hx | ⟨s, hx⟩ := hx
  · rw [hx]
    exact Or.inl (by cases kind y <;> exact stored_notANumber)
  · rw [hx]
    cases kind y with
    | notANumber => exact Or.inl stored_notANumber
    | infinity s' => exact Or.inl stored_notANumber
    | zero s' => exact Or.inr ⟨_, stored_zero _⟩
    | finite s' m e hm => exact Or.inr ⟨_, stored_zero _⟩

theorem vanishes_mul' (hx : Vanishes x) (y : Float) : Vanishes (y * x) := by
  rw [Vanishes, kind_mul]
  obtain hx | ⟨s, hx⟩ := hx
  · rw [hx]
    exact Or.inl (by cases kind y <;> exact stored_notANumber)
  · rw [hx]
    cases kind y with
    | notANumber => exact Or.inl stored_notANumber
    | infinity s' => exact Or.inl stored_notANumber
    | zero s' => exact Or.inr ⟨_, stored_zero _⟩
    | finite s' m e hm => exact Or.inr ⟨_, stored_zero _⟩

theorem vanishes_add (hx : Vanishes x) (hy : Vanishes y) : Vanishes (x + y) := by
  rw [Vanishes, kind_add]
  obtain hx | ⟨s, hx⟩ := hx
  · rw [hx]
    exact Or.inl (by cases kind y <;> exact stored_notANumber)
  · obtain hy | ⟨s', hy⟩ := hy
    · rw [hx, hy]
      exact Or.inl stored_notANumber
    · rw [hx, hy]
      cases s <;> cases s' <;> exact Or.inr ⟨_, stored_zero _⟩

theorem vanishes_neg_kind {v : UnpackedFloat} (h : v = .notANumber ∨ ∃ s, v = .zero s) :
    v.neg = .notANumber ∨ ∃ s, v.neg = .zero s := by
  obtain rfl | ⟨s, rfl⟩ := h
  · exact Or.inl rfl
  · exact Or.inr ⟨-s, rfl⟩

theorem vanishes_sub (hx : Vanishes x) (hy : Vanishes y) : Vanishes (x - y) := by
  rw [Vanishes, kind_sub, sub_eq]
  obtain hx | ⟨s, hx⟩ := hx
  · rw [hx]
    exact Or.inl (by cases (kind y).neg <;> exact stored_notANumber)
  · obtain hy | ⟨s', hy⟩ := vanishes_neg_kind hy
    · rw [hx, hy]
      exact Or.inl stored_notANumber
    · rw [hx, hy]
      cases s <;> cases s' <;> exact Or.inr ⟨_, stored_zero _⟩

theorem vanishes_abs (hx : Vanishes x) : Vanishes x.abs := by
  rw [Vanishes, kind_abs]
  obtain hx | ⟨s, hx⟩ := hx
  · exact Or.inl (by rw [hx]; rfl)
  · exact Or.inr ⟨.positive, by rw [hx]; rfl⟩

theorem vanishes_sqrt (hx : Vanishes x) : Vanishes x.sqrt := by
  rw [Vanishes, kind_sqrt]
  obtain hx | ⟨s, hx⟩ := hx
  · exact Or.inl (by rw [hx]; exact stored_notANumber)
  · exact Or.inr ⟨s, by rw [hx]; exact stored_zero s⟩

theorem vanishes_div (hx : Vanishes x) (hc : Positive c) : Vanishes (x / c) := by
  obtain ⟨m, e, hm, hc⟩ := hc
  rw [Vanishes, kind_div, hc]
  obtain hx | ⟨s, hx⟩ := hx
  · exact Or.inl (by rw [hx]; exact stored_notANumber)
  · exact Or.inr ⟨_, by rw [hx]; exact stored_zero _⟩

theorem vanishes_of_units (hf : x.isFinite = true) (hx : units x = 0) : Vanishes x := by
  rw [isFinite_eq] at hf
  rw [units] at hx
  rcases cases_of_isFinite hf with ⟨s, hk⟩ | ⟨s, m, e, hm, hk⟩
  · exact Or.inr ⟨s, hk⟩
  · rw [hk] at hx
    have hpos : 0 < magnitude (.finite s m e hm) := by
      rw [magnitude]
      positivity
    omega

/-- nothing that vanishes is above a number that is not negative -/
theorem Vanishes.not_lt (hx : Vanishes x) (hy : NonNeg y) : ¬ y < x := by
  intro h
  obtain hx | ⟨s, hx⟩ := hx
  · have hnan := (not_isNaN_of_lt h).2
    rw [isNaN_eq, hx] at hnan
    cases hnan
  · have hyf := isFinite_of_lt hy h
    have hnonneg : NonNeg x := by
      rw [NonNeg, hx]
      trivial
    rw [lt_iff_units hy hnonneg hyf, isInf_eq, units, units, hx] at h
    obtain h | h := h
    · cases h
    · exact Nat.not_lt_zero _ h

/-! ## Quotients of a number and a larger one -/

theorem quotient_zero (hx : NonNeg x) (hlt : x < y) (h : y.isInf = true ∨ units x = 0) :
    ∃ s, kind (x / y) = .zero s := by
  have hy := nonNeg_of_lt hx hlt
  have hf := isFinite_of_lt hx hlt
  rw [lt_iff_units hx hy hf, isInf_eq, units, units] at hlt
  rw [isInf_eq, units] at h
  rw [isFinite_eq] at hf
  rw [kind_div]
  rw [NonNeg] at hx hy
  rcases cases_of_isFinite hf with ⟨s, hk⟩ | ⟨s, m, e, hm, hk⟩
  · rw [hk] at hlt ⊢
    cases hky : kind y with
    | notANumber => rw [hky] at hy; exact hy.elim
    | infinity s' => exact ⟨_, stored_zero _⟩
    | zero s' =>
      rw [hky] at hlt
      obtain hlt | hlt := hlt
      · cases hlt
      · exact absurd hlt (lt_irrefl 0)
    | finite s' m e hm => exact ⟨_, stored_zero _⟩
  · rw [hk] at h ⊢
    have hpos : 0 < magnitude (.finite s m e hm) := by
      rw [magnitude]
      positivity
    cases hky : kind y with
    | infinity s' => exact ⟨_, stored_zero _⟩
    | _ =>
      rw [hky] at h
      obtain h | h := h
      · cases h
      · omega

theorem units_one : units (1.0 : Float) = 2 ^ 1074 := by decide +kernel

theorem nonNeg_one : NonNeg (1.0 : Float) := trivial

theorem quotient_unit (hx : NonNeg x) (hlt : x < y) (hyf : y.isFinite = true) :
    (0.0 : Float) ≤ x / y ∧ x / y ≤ 1.0 := by
  have hy := nonNeg_of_lt hx hlt
  have hf := isFinite_of_lt hx hlt
  have hunits : units x < units y := ((lt_iff_units hx hy hf).1 hlt).resolve_left fun hinf => by
    rw [isFinite_eq_false hinf] at hyf
    cases hyf
  have hpos : 0 < units y := Nat.zero_lt_of_lt hunits
  obtain ⟨w, hnear, hw, hw0⟩ := nearest_units_div hf hyf hpos
  have hle : |w| ≤ 2 ^ 1074 := by
    have hunits' : (units x : ℝ) ≤ units y := by exact_mod_cast hunits.le
    rw [hw, div_le_iff₀ (by exact_mod_cast hpos), mul_comm]
    exact mul_le_mul_of_nonneg_left hunits' (by positivity)
  obtain ⟨hfinite, hwithin⟩ := hnear.within (kind_div x y) hle (by norm_num)
  have hnonneg : NonNeg (x / y) := by
    rw [NonNeg, kind_div]
    exact hnear.notNegative (hw0 hx hy)
  refine ⟨nonNeg_iff.1 hnonneg, (le_iff_not_lt hnonneg nonNeg_one).2 fun hgt => ?_⟩
  rw [lt_iff_units nonNeg_one hnonneg rfl, not_isInf hfinite, units_one] at hgt
  exact absurd (hgt.resolve_left Bool.false_ne_true) (not_lt.2 hwithin)

end OdeClientServer.Double
