/-
The rounding of the logical model of `Float`: what `UnpackedFloat.round` and its variants make of a real number.

The model keeps a number as a mantissa and an exponent and what lies behind the mantissa as two bits. The real number
behind these bits is `Approximates`. Rounded to 53 bits, in units of the smallest positive double, it is `Rounds`.

- `roundWithAccuracy_rounds`, `round_rounds`: the model rounds to nearest, ties to even.
- `approximates_exact`, `approximates_div`, `approximates_sqrt`: what the operations hand to the rounding.
- `unpack_pack`, `unpack_pack_large`: a rounded number is read back as it is, or as an infinity.
-/
import Mathlib
import OdeClientServer.Core.Numerals

namespace OdeClientServer.Rounding

open Float.Model Float.Model.UnpackedFloat

/-- x lies where the two bits say: at the mantissa, halfway to the next one, or between these -/
def Approximates (em : ExtendedMantissa) (x : ℝ) : Prop :=
  match em.roundBit, em.stickyBit with
  | false, false => x = em.mantissa
  | false, true => em.mantissa < x ∧ x < em.mantissa + 1 / 2
  | true, false => x = em.mantissa + 1 / 2
  | true, true => em.mantissa + 1 / 2 < x ∧ x < em.mantissa + 1

variable {em : ExtendedMantissa} {x : ℝ}

theorem Approximates.le (h : Approximates em x) : (em.mantissa : ℝ) ≤ x := by
  rcases em with ⟨m, _ | _, _ | _⟩
  · exact h.ge
  · exact h.1.le
  · rw [show x = m + 1 / 2 from h]
    linarith
  · have hlow : (m : ℝ) + 1 / 2 < x := h.1
    dsimp only
    linarith

/-- the rounded mantissa is a nearest integer, and the even one if there are two -/
theorem Approximates.nearest (h : Approximates em x) :
    |(em.roundedMantissa : ℝ) - x| ≤ 1 / 2 ∧ (|(em.roundedMantissa : ℝ) - x| = 1 / 2 → Even em.roundedMantissa) := by
  rcases em with ⟨m, _ | _, _ | _⟩
  · have hx : x = m := h
    have hr : ExtendedMantissa.roundedMantissa ⟨m, false, false⟩ = m := rfl
    rw [hr, hx, sub_self, abs_zero]
    exact ⟨by norm_num, fun hhalf => by norm_num at hhalf⟩
  · have hx : (m : ℝ) < x ∧ x < m + 1 / 2 := h
    have hr : ExtendedMantissa.roundedMantissa ⟨m, false, true⟩ = m := rfl
    rw [hr, abs_of_neg (by linarith)]
    exact ⟨by linarith, fun hhalf => by linarith⟩
  · have hx : x = m + 1 / 2 := h
    have hr : ExtendedMantissa.roundedMantissa ⟨m, true, false⟩ = m + m % 2 := rfl
    have heven : Even (m + m % 2) := by
      rw [Nat.even_add, Nat.even_iff, Nat.even_iff, Nat.mod_mod]
    rw [hr]
    refine ⟨?_, fun _ => heven⟩
    rw [hx, abs_le]
    have hmod : ((m % 2 : ℕ) : ℝ) ≤ 1 := by exact_mod_cast Nat.le_of_lt_succ (Nat.mod_lt m two_pos)
    have hpos : (0 : ℝ) ≤ ((m % 2 : ℕ) : ℝ) := Nat.cast_nonneg _
    push_cast at hmod hpos ⊢
    exact ⟨by linarith, by linarith⟩
  · have hx : (m : ℝ) + 1 / 2 < x ∧ x < m + 1 := h
    have hr : ExtendedMantissa.roundedMantissa ⟨m, true, true⟩ = m + 1 := rfl
    rw [hr, abs_of_pos (by push_cast; linarith)]
    push_cast
    exact ⟨by linarith, fun hhalf => by linarith⟩

/-- a shift keeps what the bits say of half the value -/
theorem Approximates.shiftRightOne (h : Approximates em x) : Approximates em.shiftRightOne (x / 2) := by
  rcases em with ⟨m, r, s⟩
  have hdiv : (m : ℝ) = 2 * ((m / 2 : ℕ) : ℝ) + ((m % 2 : ℕ) : ℝ) := by exact_mod_cast (Nat.div_add_mod m 2).symm
  rcases Nat.mod_two_eq_zero_or_one m with hm | hm <;> rw [hm] at hdiv <;> push_cast at hdiv <;>
    rcases r with _ | _ <;> rcases s with _ | _ <;>
    simp only [Approximates, ExtendedMantissa.shiftRightOne, hm] at h ⊢ <;>
    grind

theorem Approximates.shiftRight (h : Approximates em x) (k : ℕ) : Approximates (em >>> k) (x / 2 ^ k) := by
  induction k with
  | zero =>
    rw [pow_zero, div_one]
    exact h
  | succ k ih =>
    rw [pow_succ, ← div_div]
    exact ih.shiftRightOne

/-! ## Rounding to 53 bits -/

/-- u is x rounded to a multiple of a power of two, which is 1 or at most the 52nd part of x; ties go to even -/
def Rounds (x : ℝ) (u : ℕ) : Prop :=
  ∃ s r : ℕ, u = r * 2 ^ s ∧ |(r : ℝ) - x / 2 ^ s| ≤ 1 / 2 ∧ (|(r : ℝ) - x / 2 ^ s| = 1 / 2 → Even r) ∧
    (s = 0 ∨ 2 ^ (s + 52) ≤ x)

theorem Rounds.zero : Rounds 0 0 := ⟨0, 0, by norm_num, by norm_num, by norm_num, Or.inl rfl⟩

/-- at most half of the last place is added -/
theorem Rounds.le {u : ℕ} (h : Rounds x u) (hx : 0 ≤ x) : (u : ℝ) ≤ x + x / 2 ^ 53 + 1 / 2 := by
  obtain ⟨s, r, rfl, hr, -, hs⟩ := h
  have hpow : (0 : ℝ) < 2 ^ s := by positivity
  have hle : (r : ℝ) * 2 ^ s ≤ x + 2 ^ s / 2 := by
    have hupper : (r : ℝ) ≤ x / 2 ^ s + 1 / 2 := by linarith [(abs_le.1 hr).2]
    calc (r : ℝ) * 2 ^ s ≤ (x / 2 ^ s + 1 / 2) * 2 ^ s := mul_le_mul_of_nonneg_right hupper hpow.le
      _ = x + 2 ^ s / 2 := by field_simp
  push_cast
  rcases hs with rfl | hs
  · have hquotient : 0 ≤ x / 2 ^ 53 := by positivity
    rw [pow_zero] at hle ⊢
    linarith
  · have hhalf : (2 : ℝ) ^ s / 2 ≤ x / 2 ^ 53 := by
      rw [div_le_div_iff₀ two_pos (by positivity)]
      calc (2 : ℝ) ^ s * 2 ^ 53 = 2 ^ (s + 52) * 2 := by rw [pow_add]; ring
        _ ≤ x * 2 := by linarith
    linarith

/-- half of the smallest double is rounded to zero -/
theorem Rounds.eq_zero {u : ℕ} (h : Rounds x u) (hx : x ≤ 1 / 2) : u = 0 := by
  obtain ⟨s, r, rfl, hr, heven, hs⟩ := h
  have hs0 : s = 0 := by
    refine hs.resolve_right fun hlarge => ?_
    have hone : (1 : ℝ) ≤ 2 ^ (s + 52) := one_le_pow₀ one_le_two
    linarith
  subst hs0
  rw [pow_zero, div_one] at hr heven
  rw [pow_zero, mul_one]
  have hupper : (r : ℝ) ≤ 1 := by linarith [(abs_le.1 hr).2]
  have hr1 : r ≤ 1 := by exact_mod_cast hupper
  refine (Nat.le_one_iff_eq_zero_or_eq_one.1 hr1).resolve_right ?_
  rintro rfl
  have hx' : x = 1 / 2 := by
    have := (abs_le.1 hr).2
    push_cast at this
    linarith
  exact absurd (heven (by rw [hx']; norm_num)) (by decide)

/-- powers of two are kept -/
theorem Rounds.le_two_pow {u k : ℕ} (h : Rounds x u) (hx : x ≤ 2 ^ k) : u ≤ 2 ^ k := by
  obtain ⟨s, r, rfl, hr, -, hs⟩ := h
  have hsk : s ≤ k := by
    rcases hs with rfl | hs
    · exact Nat.zero_le k
    · have hpow : (2 : ℝ) ^ (s + 52) ≤ 2 ^ k := hs.trans hx
      have := (pow_le_pow_iff_right₀ one_lt_two).1 hpow
      omega
  have hquotient : x / 2 ^ s ≤ 2 ^ (k - s) := by
    rw [div_le_iff₀ (by positivity), ← pow_add, Nat.sub_add_cancel hsk]
    exact hx
  have hupper : (r : ℝ) < 2 ^ (k - s) + 1 := by linarith [(abs_le.1 hr).2]
  have hr' : r ≤ 2 ^ (k - s) := Nat.lt_succ_iff.1 (by exact_mod_cast hupper)
  calc r * 2 ^ s ≤ 2 ^ (k - s) * 2 ^ s := Nat.mul_le_mul_right _ hr'
    _ = 2 ^ k := by rw [← pow_add, Nat.sub_add_cancel hsk]

/-! ## The rounding of the model -/

/-- a mantissa of 53 bits, or one of fewer bits with the smallest exponent -/
structure Canonical (m : ℕ) (e : ℤ) : Prop where
  lt : m < 2 ^ 53
  min : -1074 ≤ e
  full : e = -1074 ∨ 2 ^ 52 ≤ m

/-- |v| in multiples of 2^-1074, the smallest positive double; 0 for what is not finite -/
def magnitude : UnpackedFloat → ℕ
  | .finite _ m e _ => m * 2 ^ (e + 1074).toNat
  | _ => 0

/-- v is finite, and canonical -/
def Rounded (sign : Sign) (u : ℕ) : UnpackedFloat → Prop
  | .zero s => s = sign ∧ u = 0
  | .finite s m e _ => s = sign ∧ Canonical m e ∧ u = m * 2 ^ (e + 1074).toNat
  | _ => False

theorem targetExponent_eq (m : ℕ) (e : ℤ) :
    Format.binary64.targetExponent (totalExponent m e) = max (m.log2 + e - 52) (-1074) := by
  simp only [Format.targetExponent, totalExponent, Format.mantissaBits, Format.minExponent]
  norm_num
  omega

theorem shift_mantissa (em : ExtendedMantissa) (k : ℕ) : (em >>> k).mantissa = em.mantissa / 2 ^ k := by
  induction k with
  | zero => exact (Nat.div_one _).symm
  | succ k ih =>
    change ((em >>> k).mantissa) / 2 = _
    rw [ih, Nat.div_div_eq_div_mul, pow_succ]

/-- a mantissa that has room in the format stays as it is -/
theorem shiftToTargetExponent_exact {m : ℕ} {e : ℤ} (hm : m < 2 ^ 53) (he : -1074 ≤ e) :
    shiftToTargetExponent .binary64 m e .exact = (⟨m, false, false⟩, e) := by
  have hlog : m.log2 ≤ 52 := by
    rcases Nat.eq_zero_or_pos m with rfl | hpos
    · decide
    · exact Nat.lt_succ_iff.1 ((Nat.log2_lt hpos.ne').2 hm)
  have hshift : (Format.binary64.targetExponent (totalExponent m e) - e).toNat = 0 := by
    rw [targetExponent_eq]
    omega
  rw [shiftToTargetExponent, shiftToExponent, hshift]
  exact Prod.ext rfl (by simp)

theorem shiftToTargetExponent_full {e : ℤ} (he : -1074 ≤ e) :
    shiftToTargetExponent .binary64 (2 ^ 53) e .exact = (⟨2 ^ 52, false, false⟩, e + 1) := by
  have hshift : (Format.binary64.targetExponent (totalExponent (2 ^ 53) e) - e).toNat = 1 := by
    rw [targetExponent_eq, Nat.log2_two_pow]
    omega
  rw [shiftToTargetExponent, shiftToExponent, hshift]
  rfl

theorem roundedMantissa_bounds (em : ExtendedMantissa) :
    em.mantissa ≤ em.roundedMantissa ∧ em.roundedMantissa ≤ em.mantissa + 1 := by
  rcases em with ⟨m, _ | _, _ | _⟩
  · exact ⟨le_rfl, Nat.le_succ m⟩
  · exact ⟨le_rfl, Nat.le_succ m⟩
  · have hmod : m % 2 < 2 := Nat.mod_lt m two_pos
    exact ⟨Nat.le_add_right m _, Nat.add_le_add_left (Nat.lt_succ_iff.1 hmod) m⟩
  · exact ⟨Nat.le_succ m, le_rfl⟩

theorem ofMantissaAndAccuracy_mantissa (m : ℕ) (acc : Accuracy) :
    (ExtendedMantissa.ofMantissaAndAccuracy m acc).mantissa = m := by
  rcases acc with _ | _ | _ | _ <;> rfl

/-- **Rounding.** What the model makes of a mantissa and what lies behind it is the nearest double. -/
theorem roundWithAccuracy_rounds (sign : Sign) {m : ℕ} {e : ℤ} {acc : Accuracy} {x : ℝ}
    (hx : Approximates (.ofMantissaAndAccuracy m acc) x) (hplaced : e ≤ -1074 ∨ 2 ^ 52 ≤ m) :
    ∃ u, Rounds (x * 2 ^ (e + 1074)) u ∧ Rounded sign u (roundWithAccuracy .binary64 sign m e acc) := by
  set t : ℤ := max (m.log2 + e - 52) (-1074) with ht
  have hlog52 : 2 ^ 52 ≤ m → 52 ≤ m.log2 := fun h => (Nat.le_log2 (by omega)).2 h
  have hlog0 : m = 0 → m.log2 = 0 := fun h => by rw [h]; rfl
  have hte : e ≤ t := by omega
  obtain ⟨k, hk⟩ := Int.eq_ofNat_of_zero_le (sub_nonneg.2 hte)
  obtain ⟨s, hs⟩ : ∃ s : ℕ, t + 1074 = s := Int.eq_ofNat_of_zero_le (by omega)
  set em := ExtendedMantissa.ofMantissaAndAccuracy m acc >>> k with hem
  set r := em.roundedMantissa with hr
  have hshift : shiftToTargetExponent .binary64 m e acc = (em, t) := by
    rw [shiftToTargetExponent, shiftToExponent, targetExponent_eq, ← ht, show (t - e).toNat = k by omega]
    exact Prod.ext rfl (by simp only; omega)
  have hmantissa : em.mantissa = m / 2 ^ k := by rw [hem, shift_mantissa, ofMantissaAndAccuracy_mantissa]
  have hbounds := roundedMantissa_bounds em
  have hlt : m / 2 ^ k < 2 ^ 53 := by
    rw [Nat.div_lt_iff_lt_mul (by positivity), ← pow_add]
    exact Nat.lt_log2_self.trans_le (Nat.pow_le_pow_right two_pos (by omega))
  have hfull : t = -1074 ∨ 2 ^ 52 ≤ m / 2 ^ k := by
    refine (eq_or_ne t (-1074)).imp_right fun hne => ?_
    rw [Nat.le_div_iff_mul_le (by positivity), ← pow_add, show 52 + k = m.log2 by omega]
    exact Nat.log2_self_le (by omega)
  have hmin : -1074 ≤ t := le_max_right _ _
  have hscale : x * 2 ^ (e + 1074) / 2 ^ s = x / 2 ^ k := by
    rw [mul_div_assoc, div_eq_mul_inv x]
    congr 1
    rw [← zpow_natCast, ← zpow_natCast, ← zpow_sub₀ two_ne_zero, ← zpow_neg]
    congr 1
    omega
  have happrox : Approximates em (x / 2 ^ k) := hx.shiftRight k
  have hx0 : (m : ℝ) ≤ x := by
    have hle := hx.le
    rwa [ofMantissaAndAccuracy_mantissa] at hle
  refine ⟨r * 2 ^ s, ⟨s, r, rfl, ?_, ?_, ?_⟩, ?_⟩
  · rw [hscale]
    exact happrox.nearest.1
  · rw [hscale]
    exact happrox.nearest.2
  · refine (eq_or_ne s 0).imp_right fun hne => ?_
    have hlog : (2 : ℝ) ^ m.log2 ≤ m := by exact_mod_cast Nat.log2_self_le (by omega)
    calc (2 : ℝ) ^ (s + 52) = 2 ^ m.log2 * 2 ^ (e + 1074) := by
          rw [← zpow_natCast, ← zpow_natCast, ← zpow_add₀ two_ne_zero]
          congr 1
          omega
      _ ≤ x * 2 ^ (e + 1074) := mul_le_mul_of_nonneg_right (hlog.trans hx0) (by positivity)
  · rw [roundWithAccuracy, hshift]
    dsimp only
    rcases Nat.lt_or_ge r (2 ^ 53) with hsmall | hlarge
    · rw [shiftToTargetExponent_exact hsmall hmin]
      dsimp only
      split_ifs with hzero
      · exact ⟨rfl, by rw [hzero, zero_mul]⟩
      · refine ⟨rfl, ⟨hsmall, hmin, hfull.imp_right fun h => ?_⟩, ?_⟩
        · rw [← hmantissa] at h
          exact h.trans hbounds.1
        · rw [hs, Int.toNat_natCast]
    · have hr53 : r = 2 ^ 53 := by omega
      rw [← hr, hr53, shiftToTargetExponent_full hmin]
      dsimp only
      rw [dif_neg (by decide)]
      refine ⟨rfl, ⟨by norm_num, by omega, Or.inr le_rfl⟩, ?_⟩
      rw [show (t + 1 + 1074).toNat = s + 1 by omega]
      ring

theorem Canonical.cast {m : ℕ} {e : ℤ} (h : Canonical m e) :
    ((m * 2 ^ (e + 1074).toNat : ℕ) : ℝ) = m * 2 ^ (e + 1074) := by
  have hexponent : ((e + 1074).toNat : ℤ) = e + 1074 := Int.toNat_of_nonneg (by linarith [h.min])
  push_cast
  rw [← zpow_natCast, hexponent]

theorem approximates_exact (m : ℕ) : Approximates (.ofMantissaAndAccuracy m .exact) m := rfl

/-- the quotient and the remainder of a division -/
theorem approximates_div (m : ℕ) {d : ℕ} (hd : 0 < d) :
    Approximates (.ofMantissaAndAccuracy (m / d) (accuracyOfFraction (m % d) d)) ((m : ℝ) / d) := by
  have hd' : (0 : ℝ) < d := by exact_mod_cast hd
  have hquotient : (m : ℝ) / d = (m / d : ℕ) + ((m % d : ℕ) : ℝ) / d := by
    rw [div_eq_iff hd'.ne', add_mul, div_mul_cancel₀ _ hd'.ne']
    exact_mod_cast (Nat.div_add_mod' m d).symm
  have hlt : ((m % d : ℕ) : ℝ) / d < 1 := (div_lt_one hd').2 (by exact_mod_cast Nat.mod_lt m hd)
  rw [accuracyOfFraction]
  split_ifs with hzero
  · rw [hquotient, hzero, Nat.cast_zero, zero_div, add_zero]
    exact rfl
  · have hpos : (0 : ℝ) < ((m % d : ℕ) : ℝ) / d := div_pos (by exact_mod_cast Nat.pos_of_ne_zero hzero) hd'
    rcases lt_trichotomy (2 * (m % d)) d with h | h | h
    · rw [Nat.compare_eq_lt.2 h, hquotient]
      have hhalf : ((m % d : ℕ) : ℝ) / d < 1 / 2 := by
        rw [div_lt_div_iff₀ hd' two_pos, one_mul, mul_comm]
        exact_mod_cast h
      exact ⟨by dsimp only [ExtendedMantissa.ofMantissaAndAccuracy]; linarith,
        by dsimp only [ExtendedMantissa.ofMantissaAndAccuracy]; linarith⟩
    · rw [Nat.compare_eq_eq.2 h, hquotient]
      have hhalf : ((m % d : ℕ) : ℝ) / d = 1 / 2 := by
        rw [div_eq_div_iff hd'.ne' two_ne_zero, one_mul, mul_comm]
        exact_mod_cast h
      rw [hhalf]
      exact rfl
    · rw [Nat.compare_eq_gt.2 h, hquotient]
      have hhalf : 1 / 2 < ((m % d : ℕ) : ℝ) / d := by
        rw [div_lt_div_iff₀ two_pos hd', one_mul, mul_comm]
        exact_mod_cast h
      exact ⟨by dsimp only [ExtendedMantissa.ofMantissaAndAccuracy]; linarith,
        by dsimp only [ExtendedMantissa.ofMantissaAndAccuracy]; linarith⟩

/-- the root and what is left of a square root -/
theorem approximates_sqrt (m : ℕ) :
    Approximates (.ofMantissaAndAccuracy (Nat.sqrt m) (if m - Nat.sqrt m * Nat.sqrt m = 0 then .exact
      else .inexact (if m - Nat.sqrt m * Nat.sqrt m ≤ Nat.sqrt m then .lt else .gt))) (√(m : ℝ)) := by
  obtain ⟨rest, hrest⟩ := Nat.exists_eq_add_of_le (Nat.sqrt_le m)
  have hlt : m < (Nat.sqrt m + 1) * (Nat.sqrt m + 1) := Nat.lt_succ_sqrt m
  rw [show m - Nat.sqrt m * Nat.sqrt m = rest by omega]
  generalize Nat.sqrt m = r at hrest hlt
  have hm : (m : ℝ) = r * r + rest := by exact_mod_cast hrest
  have hr : (0 : ℝ) ≤ r := Nat.cast_nonneg r
  split_ifs with hzero hsmall
  · rw [hm, hzero, Nat.cast_zero, add_zero, Real.sqrt_mul_self hr]
    exact rfl
  · have hrest1 : (1 : ℝ) ≤ rest := by exact_mod_cast Nat.one_le_iff_ne_zero.2 hzero
    have hsmall' : (rest : ℝ) ≤ r := by exact_mod_cast hsmall
    refine ⟨?_, ?_⟩
    · refine Real.lt_sqrt_of_sq_lt ?_
      dsimp only [ExtendedMantissa.ofMantissaAndAccuracy]
      rw [hm]
      linarith [sq (r : ℝ)]
    · refine (Real.sqrt_lt' (by dsimp only [ExtendedMantissa.ofMantissaAndAccuracy]; linarith)).2 ?_
      dsimp only [ExtendedMantissa.ofMantissaAndAccuracy]
      rw [hm]
      linarith [sq ((r : ℝ) + 1 / 2)]
  · have hlarge : (r : ℝ) + 1 ≤ rest := by exact_mod_cast not_le.1 hsmall
    have hlt' : (m : ℝ) < (r + 1) * (r + 1) := by exact_mod_cast hlt
    refine ⟨?_, ?_⟩
    · refine Real.lt_sqrt_of_sq_lt ?_
      dsimp only [ExtendedMantissa.ofMantissaAndAccuracy]
      rw [hm]
      linarith [sq ((r : ℝ) + 1 / 2)]
    · refine (Real.sqrt_lt' (by dsimp only [ExtendedMantissa.ofMantissaAndAccuracy]; linarith)).2 ?_
      dsimp only [ExtendedMantissa.ofMantissaAndAccuracy]
      linarith [sq ((r : ℝ) + 1)]

/-- a number of the format is not changed -/
theorem Canonical.rounds {m : ℕ} {e : ℤ} (h : Canonical m e) :
    Rounds ((m * 2 ^ (e + 1074).toNat : ℕ) : ℝ) (m * 2 ^ (e + 1074).toNat) := by
  have hdiff : (m : ℝ) - ((m * 2 ^ (e + 1074).toNat : ℕ) : ℝ) / 2 ^ (e + 1074).toNat = 0 := by
    push_cast
    rw [mul_div_cancel_right₀ _ (by positivity), sub_self]
  refine ⟨_, m, rfl, ?_, fun hhalf => ?_, ?_⟩
  · rw [hdiff]
    norm_num
  · rw [hdiff] at hhalf
    norm_num at hhalf
  · refine h.full.imp (fun he => by rw [he]; rfl) fun hm => ?_
    push_cast
    rw [pow_add, mul_comm]
    exact mul_le_mul_of_nonneg_right (by exact_mod_cast hm) (by positivity)

/-- a mantissa that is not placed yet -/
theorem round_rounds (sign : Sign) {m : ℕ} (hm : 0 < m) (e : ℤ) :
    ∃ u, Rounds (m * 2 ^ (e + 1074)) u ∧ Rounded sign u (UnpackedFloat.round .binary64 sign m e) := by
  set t : ℤ := max (m.log2 + e - 52) (-1074) with ht
  obtain ⟨k, hk⟩ : ∃ k : ℕ, (e - t).toNat = k := ⟨_, rfl⟩
  have hround : UnpackedFloat.round .binary64 sign m e =
      roundWithAccuracy .binary64 sign (m * 2 ^ k) (e - k) .exact := by
    unfold UnpackedFloat.round decreaseExponent
    dsimp only
    rw [targetExponent_eq, ← ht, hk, Nat.shiftLeft_eq]
  have hplaced : e - k ≤ -1074 ∨ 2 ^ 52 ≤ m * 2 ^ k := by
    rcases le_or_gt (e - k) (-1074) with hsmall | hlarge
    · exact Or.inl hsmall
    · refine Or.inr ?_
      calc 2 ^ 52 ≤ 2 ^ (m.log2 + k) := Nat.pow_le_pow_right two_pos (by omega)
        _ = 2 ^ m.log2 * 2 ^ k := pow_add 2 _ _
        _ ≤ m * 2 ^ k := Nat.mul_le_mul_right _ (Nat.log2_self_le hm.ne')
  obtain ⟨u, hu, hrounded⟩ := roundWithAccuracy_rounds sign (approximates_exact (m * 2 ^ k)) hplaced
  refine ⟨u, ?_, hround ▸ hrounded⟩
  have hvalue : ((m * 2 ^ k : ℕ) : ℝ) * 2 ^ (e - k + 1074) = m * 2 ^ (e + 1074) := by
    push_cast
    rw [mul_assoc, ← zpow_natCast (2 : ℝ) k, ← zpow_add₀ two_ne_zero]
    congr 2
    omega
  rwa [hvalue] at hu

/-! ## Packing -/

theorem sign_of_toBitVec (s : Sign) : Sign.ofBitVec s.toBitVec = s := by
  cases s <;> rfl

theorem unpackSign_packed (s : Sign) (exponent : BitVec 11) (mantissa : BitVec 52) :
    unpackSign (packComponents .binary64 s exponent mantissa) = s.toBitVec := by
  ext i hi
  obtain rfl : i = 0 := by omega
  rw [unpackSign, packComponents, BitVec.getElem_cast, ← BitVec.getLsbD_eq_getElem, BitVec.getLsbD_extractLsb,
    BitVec.getLsbD_append, BitVec.getLsbD_append, ← BitVec.getLsbD_eq_getElem]
  norm_num

theorem implicit_toNat (mantissa : BitVec 52) : (1#1 ++ mantissa).toNat = 2 ^ 52 + mantissa.toNat := by
  rw [BitVec.toNat_append, Nat.shiftLeft_eq, mul_comm, ← Nat.two_pow_add_eq_or_of_lt mantissa.isLt]
  rfl

theorem unpack_packed (s : Sign) (exponent : BitVec 11) (mantissa : BitVec 52) :
    UnpackedFloat.unpack .binary64 (packComponents .binary64 s exponent mantissa) =
      if exponent = -1#11 then if mantissa = 0#52 then .infinity s else .notANumber
      else if exponent = 0#11 then
        if h : mantissa = 0#52 then .zero s
        else .finite s mantissa.toNat ((exponent.toNat : ℤ) - 1075 + 1)
          (by simpa [BitVec.toNat_pos, BitVec.pos_iff_ne_zero])
      else .finite s (1#1 ++ mantissa).toNat ((exponent.toNat : ℤ) - 1075) (by rw [implicit_toNat]; omega) := by
  unfold UnpackedFloat.unpack
  simp only [unpackMantissa_packComponents, unpackExponent_packComponents, unpackSign_packed, sign_of_toBitVec]
  rfl

theorem log2_canonical {m : ℕ} (hm : m < 2 ^ 53) (hpos : 0 < m) : m.log2 + 1 = 53 ↔ 2 ^ 52 ≤ m := by
  have hlt : m.log2 < 53 := (Nat.log2_lt hpos.ne').2 hm
  rw [← Nat.le_log2 hpos.ne']
  omega

/-- a canonical number in the range of the doubles is read back -/
theorem unpack_pack {s : Sign} {m : ℕ} {e : ℤ} (hpos : 0 < m) (h : Canonical m e) (he : e ≤ 971) :
    UnpackedFloat.unpack .binary64 (UnpackedFloat.pack .binary64 (.finite s m e hpos)) = .finite s m e hpos := by
  obtain ⟨k, hk⟩ : ∃ k : ℕ, e + 1074 = k := Int.eq_ofNat_of_zero_le (by linarith [h.min])
  have hbiased : (e + (Format.binary64.exponentBias : ℤ) + (52 : ℕ)).toNat = k + 1 := by
    change (e + (1023 : ℕ) + (52 : ℕ)).toNat = k + 1
    omega
  have hmantissa : (BitVec.ofNat 52 m).toNat = m % 2 ^ 52 := BitVec.toNat_ofNat m 52
  unfold UnpackedFloat.pack
  dsimp only
  rw [hbiased, if_neg (by omega : ¬ 2 ^ 11 ≤ k + 1 + 1)]
  change UnpackedFloat.unpack _ (if m.log2 + 1 = 53 then _ else _) = _
  by_cases hfull : 2 ^ 52 ≤ m
  · have hexponent : (BitVec.ofNat 11 (k + 1)).toNat = k + 1 := by
      rw [BitVec.toNat_ofNat, Nat.mod_eq_of_lt (by omega)]
    have hall : BitVec.ofNat 11 (k + 1) ≠ -1#11 := fun hall => by
      have := hexponent.symm.trans (congrArg BitVec.toNat hall)
      change k + 1 = 2047 at this
      omega
    have hnone : BitVec.ofNat 11 (k + 1) ≠ 0#11 := fun hnone => by
      have := hexponent.symm.trans (congrArg BitVec.toNat hnone)
      change k + 1 = 0 at this
      omega
    rw [if_pos ((log2_canonical h.lt hpos).2 hfull)]
    refine (unpack_packed _ _ _).trans ?_
    rw [if_neg hall, if_neg hnone, UnpackedFloat.finite.injEq]
    refine ⟨rfl, ?_, ?_⟩
    · rw [implicit_toNat, hmantissa]
      have := h.lt
      omega
    · rw [hexponent]
      push_cast
      omega
  · have he0 : e = -1074 := h.full.resolve_right hfull
    have hm : (BitVec.ofNat 52 m).toNat = m := by rw [hmantissa, Nat.mod_eq_of_lt (not_le.1 hfull)]
    have hne : BitVec.ofNat 52 m ≠ 0#52 := fun hzero => by
      have := hm.symm.trans (congrArg BitVec.toNat hzero)
      change m = 0 at this
      omega
    rw [if_neg (fun hlog => hfull ((log2_canonical h.lt hpos).1 hlog))]
    refine (unpack_packed _ _ _).trans ?_
    rw [if_neg (by decide), if_pos rfl, dif_neg hne, UnpackedFloat.finite.injEq]
    exact ⟨rfl, hm, he0.symm⟩

/-- a larger number is read back as an infinity -/
theorem unpack_pack_large {s : Sign} {m : ℕ} {e : ℤ} (hpos : 0 < m) (he : 971 < e) :
    UnpackedFloat.unpack .binary64 (UnpackedFloat.pack .binary64 (.finite s m e hpos)) = .infinity s := by
  have hbiased : 2 ^ 11 ≤ (e + (Format.binary64.exponentBias : ℤ) + (52 : ℕ)).toNat + 1 := by
    change 2 ^ 11 ≤ (e + (1023 : ℕ) + (52 : ℕ)).toNat + 1
    omega
  unfold UnpackedFloat.pack
  dsimp only
  rw [if_pos hbiased, packedInfinity]
  refine (unpack_packed _ _ _).trans ?_
  rw [if_pos rfl]
  exact if_pos rfl

/-- a finite number that is a double -/
def IsDouble : UnpackedFloat → Prop
  | .finite _ m e _ => Canonical m e ∧ e ≤ 971
  | _ => True

theorem unpack_isDouble (b : BitVec 64) : IsDouble (UnpackedFloat.unpack .binary64 b) := by
  have hmantissa : (@unpackMantissa .binary64 b).toNat < 2 ^ 52 := BitVec.isLt _
  have hexponent : (@unpackExponent .binary64 b).toNat < 2 ^ 11 := BitVec.isLt _
  have hbias : ((Format.binary64.exponentBias : ℤ) + ((52 : ℕ) : ℤ)) = 1075 := rfl
  unfold UnpackedFloat.unpack
  dsimp only
  split_ifs with hall hzero hnone hzero
  · trivial
  · trivial
  · trivial
  · have hexponent0 : (@unpackExponent .binary64 b).toNat = 0 := congrArg BitVec.toNat hnone
    rw [IsDouble, hbias, hexponent0]
    exact ⟨⟨by omega, by omega, Or.inl (by omega)⟩, by omega⟩
  · have hsome : (@unpackExponent .binary64 b).toNat ≠ 0 := fun h => hnone (BitVec.eq_of_toNat_eq h)
    have hless : (@unpackExponent .binary64 b).toNat ≠ 2047 := fun h => hall (BitVec.eq_of_toNat_eq h)
    rw [IsDouble, hbias]
    refine ⟨⟨?_, by omega, Or.inr ?_⟩, by omega⟩
    · refine (implicit_toNat _).trans_lt ?_
      change 2 ^ 52 + (@unpackMantissa .binary64 b).toNat < 2 ^ 53
      omega
    · exact (Nat.le_add_right _ _).trans_eq (implicit_toNat _).symm

end OdeClientServer.Rounding
