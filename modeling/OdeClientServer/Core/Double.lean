/-
Doubles: what the operations and comparisons of `Float` return, infinities and NaN included.

`kind x` is the number as the model of `Float` sees it and `units x` its distance from 0 in multiples of 2^-1074. An
operation on finite numbers returns the double nearest to the exact result, or an infinity (`Nearest`).

- `nearest_add`, `nearest_sub`, `nearest_mul`, `nearest_div`, `nearest_sqrt`: the operations.
- `isFinite_of_add` and its like: a finite result has finite operands.
- `nonNeg_add` and its like: the operations on numbers that are not below 0.
- `lt_iff_units`, `le_iff_not_lt`: the order of such numbers is that of their units.
-/
import OdeClientServer.Core.Rounding

namespace OdeClientServer.Double

open Float.Model Float.Model.UnpackedFloat Rounding

/-! ## What a double is -/

/-- an infinity, NaN, a zero, or a sign, a mantissa and an exponent -/
def kind (x : Float) : UnpackedFloat := x.toModel.unpack

/-- |x| in multiples of 2^-1074, the smallest positive double; 0 for an infinity and NaN -/
def units (x : Float) : ℕ := magnitude (kind x)

/-- v in multiples of 2^-1074; 0 for what is not finite -/
def signed : UnpackedFloat → ℤ
  | .finite s m e _ => s.apply (m * 2 ^ (e + 1074).toNat : ℕ)
  | _ => 0

/-- not below 0, and not NaN -/
def NotNegative : UnpackedFloat → Prop
  | .infinity .positive => True
  | .zero _ => True
  | .finite .positive _ _ _ => True
  | _ => False

def NonNeg (x : Float) : Prop := NotNegative (kind x)

/-- a number as it is read from the memory -/
def stored (v : UnpackedFloat) : UnpackedFloat := UnpackedFloat.unpack .binary64 (UnpackedFloat.pack .binary64 v)

variable {x y : Float}

@[simp] theorem stored_notANumber : stored .notANumber = .notANumber := rfl

@[simp] theorem stored_infinity (s : Sign) : stored (.infinity s) = .infinity s := by cases s <;> rfl

@[simp] theorem stored_zero (s : Sign) : stored (.zero s) = .zero s := by cases s <;> rfl

theorem stored_of_isDouble {v : UnpackedFloat} (h : IsDouble v) : stored v = v := by
  cases v with
  | notANumber => exact stored_notANumber
  | infinity s => exact stored_infinity s
  | zero s => exact stored_zero s
  | finite s m e hpos => exact unpack_pack hpos h.1 h.2

theorem kind_isDouble (x : Float) : IsDouble (kind x) := unpack_isDouble _

theorem kind_add (x y : Float) : kind (x + y) = stored (UnpackedFloat.add .binary64 (kind x) (kind y)) := rfl

theorem kind_sub (x y : Float) : kind (x - y) = stored (UnpackedFloat.sub .binary64 (kind x) (kind y)) := rfl

theorem kind_mul (x y : Float) : kind (x * y) = stored (UnpackedFloat.mul .binary64 (kind x) (kind y)) := rfl

theorem kind_div (x y : Float) : kind (x / y) = stored (UnpackedFloat.div .binary64 (kind x) (kind y)) := rfl

theorem kind_sqrt (x : Float) : kind x.sqrt = stored (UnpackedFloat.sqrt .binary64 (kind x)) := rfl

theorem isFinite_eq (x : Float) : x.isFinite = (kind x).isFinite := rfl

theorem isNaN_eq (x : Float) : x.isNaN = (kind x).isNaN := rfl

theorem isInf_eq (x : Float) : x.isInf = (kind x).isInf := rfl

theorem lt_iff : x < y ↔ (kind x).compare (kind y) = some .lt := by
  change decide (x.toModel < y.toModel) = true ↔ _
  rw [decide_eq_true_iff]
  change ((kind x).compare (kind y) == some .lt) = true ↔ _
  rw [beq_iff_eq]

theorem le_iff : x ≤ y ↔ ((kind x).compare (kind y)).any (·.isLE) = true := by
  change decide (x.toModel ≤ y.toModel) = true ↔ _
  rw [decide_eq_true_iff]
  rfl

theorem sub_eq (v w : UnpackedFloat) : UnpackedFloat.sub .binary64 v w = UnpackedFloat.add .binary64 v w.neg := by
  have happly : ∀ (s : Sign) (n : ℤ), (-s).apply n = -s.apply n := fun s n => by
    cases s
    · exact (neg_neg n).symm
    · rfl
  cases v <;> cases w
  case finite.finite =>
    simp only [UnpackedFloat.sub, UnpackedFloat.neg, UnpackedFloat.add, happly, Int.sub_eq_add_neg]
  all_goals rfl

/-! ## Operations that round -/

theorem two_pow_le {a b : ℕ} (h : a ≤ b) : 2 ^ a ≤ 2 ^ b := Nat.pow_le_pow_right two_pos h

theorem mul_two_pow_lt {m a b k : ℕ} (hm : m < 2 ^ a) (hab : a + k ≤ b) : m * 2 ^ k < 2 ^ b :=
  calc m * 2 ^ k < 2 ^ a * 2 ^ k := Nat.mul_lt_mul_of_pos_right hm (by positivity)
    _ = 2 ^ (a + k) := (pow_add 2 a k).symm
    _ ≤ 2 ^ b := two_pow_le hab

theorem two_pow_le_mul {m a b k : ℕ} (hm : 2 ^ a ≤ m) (hab : b ≤ a + k) : 2 ^ b ≤ m * 2 ^ k :=
  calc 2 ^ b ≤ 2 ^ (a + k) := two_pow_le hab
    _ = 2 ^ a * 2 ^ k := pow_add 2 a k
    _ ≤ m * 2 ^ k := Nat.mul_le_mul_right _ hm

/-- v, as it is stored, is the double nearest to w, or an infinity if w is too large -/
structure Nearest (v : UnpackedFloat) (w : ℝ) : Prop where
  rounds : ∃ u, Rounds |w| u ∧
    ((stored v).isFinite = true ∧ magnitude (stored v) = u ∧ u < 2 ^ 2098 ∨ (stored v).isInf = true ∧ 2 ^ 2098 ≤ u)
  notNegative : 0 ≤ w → NotNegative (stored v)

theorem nearest_of_rounded {sign : Sign} {u : ℕ} {v : UnpackedFloat} {w : ℝ} (hu : Rounds |w| u)
    (hv : Rounded sign u v) (hsign : 0 ≤ w → sign = .positive ∨ u = 0) : Nearest v w := by
  cases v with
  | notANumber => exact hv.elim
  | infinity s => exact hv.elim
  | zero s =>
    refine ⟨⟨u, hu, Or.inl ⟨by rw [stored_zero]; rfl, ?_, ?_⟩⟩, fun _ => by rw [stored_zero]; trivial⟩
    · rw [stored_zero, hv.2]
      rfl
    · rw [hv.2]
      positivity
  | finite s m e hpos =>
    obtain ⟨rfl, hcanonical, rfl⟩ := hv
    have hne : m * 2 ^ (e + 1074).toNat ≠ 0 := by positivity
    have hpositive : 0 ≤ w → s = .positive := fun h => (hsign h).resolve_right hne
    rcases le_or_gt e 971 with hsmall | hlarge
    · have hstored : stored (.finite s m e hpos) = .finite s m e hpos := unpack_pack hpos hcanonical hsmall
      refine ⟨⟨_, hu, Or.inl ⟨by rw [hstored]; rfl, by rw [hstored]; rfl, ?_⟩⟩, fun h => ?_⟩
      · exact mul_two_pow_lt hcanonical.lt (by omega)
      · rw [hstored, hpositive h]
        trivial
    · have hstored : stored (.finite s m e hpos) = .infinity s := unpack_pack_large hpos hlarge
      refine ⟨⟨_, hu, Or.inr ⟨by rw [hstored]; rfl, ?_⟩⟩, fun h => ?_⟩
      · exact two_pow_le_mul (hcanonical.full.resolve_left (by omega)) (by omega)
      · rw [hstored, hpositive h]
        trivial

theorem apply_nonneg_iff {s : Sign} {n : ℕ} (hn : 0 < n) : 0 ≤ s.apply (n : ℤ) ↔ s = .positive := by
  cases s
  · exact iff_of_false (by change ¬ 0 ≤ -(n : ℤ); omega) (fun h => by cases h)
  · exact iff_of_true (Int.natCast_nonneg n) rfl

theorem abs_apply (s : Sign) (n : ℕ) : |((s.apply n : ℤ) : ℝ)| = n := by
  cases s
  · change |((-(n : ℤ) : ℤ) : ℝ)| = n
    rw [Int.cast_neg, abs_neg, Int.cast_natCast, Nat.abs_cast]
  · change |((n : ℤ) : ℝ)| = n
    rw [Int.cast_natCast, Nat.abs_cast]

/-- the sign of a product -/
theorem sign_of_mul_nonneg {s s' : Sign} {a b : ℕ} (ha : 0 < a) (hb : 0 < b)
    (h : (0 : ℝ) ≤ (s.apply a : ℤ) * (s'.apply b : ℤ)) : s * s' = .positive := by
  have hpos : (0 : ℝ) < (a : ℝ) * b := by positivity
  cases s <;> cases s'
  · rfl
  · have h' : (0 : ℝ) ≤ ((-(a : ℤ) : ℤ) : ℝ) * ((b : ℤ) : ℝ) := h
    push_cast at h'
    linarith
  · have h' : (0 : ℝ) ≤ ((a : ℤ) : ℝ) * ((-(b : ℤ) : ℤ) : ℝ) := h
    push_cast at h'
    linarith
  · rfl

theorem nearest_zero (s : Sign) : Nearest (.zero s) 0 :=
  nearest_of_rounded (by rw [abs_zero]; exact Rounds.zero) ⟨rfl, rfl⟩ fun _ => Or.inr rfl

theorem cases_of_isFinite {v : UnpackedFloat} (h : v.isFinite = true) :
    (∃ s, v = .zero s) ∨ ∃ s m e hm, v = .finite s m e hm := by
  cases v with
  | notANumber => exact absurd h Bool.false_ne_true
  | infinity s => exact absurd h Bool.false_ne_true
  | zero s => exact Or.inl ⟨s, rfl⟩
  | finite s m e hm => exact Or.inr ⟨s, m, e, hm, rfl⟩

@[simp] theorem signed_zero (s : Sign) : signed (.zero s) = 0 := rfl

theorem nearest_mul {v w : UnpackedFloat} (hv : IsDouble v) (hw : IsDouble w) (hvf : v.isFinite = true)
    (hwf : w.isFinite = true) : Nearest (UnpackedFloat.mul .binary64 v w) (signed v * signed w / 2 ^ 1074) := by
  rcases cases_of_isFinite hvf with ⟨s, rfl⟩ | ⟨s, m, e, hm, rfl⟩ <;>
    rcases cases_of_isFinite hwf with ⟨s', rfl⟩ | ⟨s', m', e', hm', rfl⟩
  · rw [signed_zero, Int.cast_zero, zero_mul, zero_div]
    exact nearest_zero (s * s')
  · rw [signed_zero, Int.cast_zero, zero_mul, zero_div]
    exact nearest_zero (s * s')
  · rw [signed_zero, Int.cast_zero, mul_zero, zero_div]
    exact nearest_zero (s * s')
  · have hplaced : e + e' ≤ -1074 ∨ 2 ^ 52 ≤ m * m' := by
      rcases hv.1.full with he | hfull
      · rcases hw.1.full with he' | hfull'
        · exact Or.inl (by omega)
        · exact Or.inr (hfull'.trans (Nat.le_mul_of_pos_left m' hm))
      · exact Or.inr (hfull.trans (Nat.le_mul_of_pos_right m hm'))
    obtain ⟨u, hu, hrounded⟩ := roundWithAccuracy_rounds (s * s') (approximates_exact (m * m')) hplaced
    refine nearest_of_rounded ?_ hrounded fun h => Or.inl ?_
    · have hexact : |((s.apply (m * 2 ^ (e + 1074).toNat : ℕ) : ℤ) : ℝ) *
          ((s'.apply (m' * 2 ^ (e' + 1074).toNat : ℕ) : ℤ) : ℝ) / 2 ^ 1074| =
          ((m * m' : ℕ) : ℝ) * 2 ^ (e + e' + 1074) := by
        rw [abs_div, abs_mul, abs_apply, abs_apply, hv.1.cast, hw.1.cast, abs_of_pos (by positivity),
          div_eq_iff (by positivity), ← zpow_natCast]
        push_cast
        rw [mul_mul_mul_comm, mul_assoc ((m : ℝ) * m'), ← zpow_add₀ two_ne_zero, ← zpow_add₀ two_ne_zero]
        congr 2
        ring
      exact hexact ▸ hu
    · refine sign_of_mul_nonneg (a := m * 2 ^ (e + 1074).toNat) (b := m' * 2 ^ (e' + 1074).toNat) (by positivity)
        (by positivity) ?_
      exact (div_nonneg_iff.1 h).elim (fun h => h.1) fun h => absurd h.2 (not_le.2 (by positivity))

theorem abs_signed (v : UnpackedFloat) : |((signed v : ℤ) : ℝ)| = magnitude v := by
  cases v with
  | finite s m e hm => exact abs_apply s _
  | _ => rw [show signed _ = 0 from rfl, Int.cast_zero, abs_zero]; exact Nat.cast_zero.symm

theorem nearest_self {v : UnpackedFloat} (hv : IsDouble v) (hvf : v.isFinite = true) : Nearest v (signed v) := by
  rcases cases_of_isFinite hvf with ⟨s, rfl⟩ | ⟨s, m, e, hm, rfl⟩
  · rw [signed_zero, Int.cast_zero]
    exact nearest_zero s
  · have hrounded : Rounded s (m * 2 ^ (e + 1074).toNat) (.finite s m e hm) := ⟨rfl, hv.1, rfl⟩
    refine nearest_of_rounded ?_ hrounded fun h => Or.inl ?_
    · rw [abs_signed]
      exact hv.1.rounds
    · exact (apply_nonneg_iff (n := m * 2 ^ (e + 1074).toNat) (by positivity)).1 (by exact_mod_cast h)

theorem nearest_normalize (m : ℤ) (e : ℤ) (s : Sign) :
    Nearest (UnpackedFloat.normalize .binary64 m e s) (m * 2 ^ (e + 1074)) := by
  have hpow : (0 : ℝ) < 2 ^ (e + 1074) := by positivity
  rcases lt_trichotomy m 0 with hneg | rfl | hpos
  · obtain ⟨k, rfl⟩ : ∃ k : ℕ, m = -k := ⟨m.natAbs, by omega⟩
    obtain ⟨u, hu, hrounded⟩ := round_rounds .negative (m := k) (by omega) e
    have hnormalize : UnpackedFloat.normalize .binary64 (-k) e s = UnpackedFloat.round .binary64 .negative k e := by
      simp only [UnpackedFloat.normalize, Int.compare_eq_lt.2 hneg, neg_neg, Int.toNat_natCast]
    rw [hnormalize]
    refine nearest_of_rounded ?_ hrounded fun h => absurd h (not_le.2 ?_)
    · have hexact : |((-k : ℤ) : ℝ) * 2 ^ (e + 1074)| = k * 2 ^ (e + 1074) := by
        rw [abs_mul, abs_of_pos hpow]
        push_cast
        rw [abs_neg, Nat.abs_cast]
      exact hexact ▸ hu
    · exact mul_neg_of_neg_of_pos (by exact_mod_cast hneg) hpow
  · rw [Int.cast_zero, zero_mul]
    exact nearest_zero s
  · obtain ⟨k, rfl⟩ : ∃ k : ℕ, m = k := ⟨m.natAbs, by omega⟩
    obtain ⟨u, hu, hrounded⟩ := round_rounds .positive (m := k) (by omega) e
    have hnormalize : UnpackedFloat.normalize .binary64 k e s = UnpackedFloat.round .binary64 .positive k e := by
      simp only [UnpackedFloat.normalize, Int.compare_eq_gt.2 hpos, Int.toNat_natCast]
    rw [hnormalize]
    refine nearest_of_rounded ?_ hrounded fun _ => Or.inl rfl
    rw [Int.cast_natCast, abs_of_nonneg (by positivity)]
    exact hu

theorem apply_cast (s : Sign) (n : ℕ) : ((s.apply (n : ℤ) : ℤ) : ℝ) = ((s.apply 1 : ℤ) : ℝ) * n := by
  cases s
  · change ((-(n : ℤ) : ℤ) : ℝ) = ((-1 : ℤ) : ℝ) * n
    push_cast
    ring
  · change (((n : ℤ) : ℤ) : ℝ) = ((1 : ℤ) : ℝ) * n
    push_cast
    ring

/-- a mantissa that is moved to a smaller exponent -/
theorem signed_shifted {s : Sign} {m : ℕ} {e t : ℤ} (hcanonical : Canonical m e) (ht : t ≤ e) :
    ((s.apply ((m <<< (e - t).toNat : ℕ) : ℤ) : ℤ) : ℝ) * 2 ^ (t + 1074) =
      (s.apply (m * 2 ^ (e + 1074).toNat : ℕ) : ℤ) := by
  obtain ⟨k, hk⟩ := Int.eq_ofNat_of_zero_le (sub_nonneg.2 ht)
  rw [apply_cast, apply_cast, hcanonical.cast, hk, Int.toNat_natCast, Nat.shiftLeft_eq, mul_assoc]
  push_cast
  rw [mul_assoc (m : ℝ), ← zpow_natCast (2 : ℝ) k, ← zpow_add₀ two_ne_zero]
  congr 3
  omega

theorem nearest_add {v w : UnpackedFloat} (hv : IsDouble v) (hw : IsDouble w) (hvf : v.isFinite = true)
    (hwf : w.isFinite = true) : Nearest (UnpackedFloat.add .binary64 v w) (signed v + signed w) := by
  rcases cases_of_isFinite hvf with ⟨s, rfl⟩ | ⟨s, m, e, hm, rfl⟩ <;>
    rcases cases_of_isFinite hwf with ⟨s', rfl⟩ | ⟨s', m', e', hm', rfl⟩
  · rw [signed_zero, signed_zero, Int.cast_zero, add_zero]
    cases s <;> cases s' <;> exact nearest_zero _
  · rw [signed_zero, Int.cast_zero, zero_add]
    exact nearest_self hw hwf
  · rw [signed_zero, Int.cast_zero, add_zero]
    exact nearest_self hv hvf
  · have hsum := nearest_normalize (s.apply ((m <<< (e - min e e').toNat : ℕ) : ℤ) +
      s'.apply ((m' <<< (e' - min e e').toNat : ℕ) : ℤ)) (min e e') .positive
    rw [Int.cast_add, add_mul, signed_shifted hv.1 (min_le_left e e'), signed_shifted hw.1 (min_le_right e e')] at hsum
    exact hsum

/-- the sign of a quotient -/
theorem sign_of_div_nonneg {s s' : Sign} {a b : ℕ} (ha : 0 < a) (hb : 0 < b)
    (h : (0 : ℝ) ≤ (s.apply a : ℤ) * 2 ^ 1074 / (s'.apply b : ℤ)) : s / s' = .positive := by
  have hmul : s / s' = s * s' := by cases s <;> cases s' <;> rfl
  rw [hmul]
  refine sign_of_mul_nonneg ha hb ?_
  rw [mul_div_right_comm] at h
  exact mul_nonneg_iff.2 (div_nonneg_iff.1 (nonneg_of_mul_nonneg_left h (by positivity)))

theorem nearest_div {v w : UnpackedFloat} (hv : IsDouble v) (hw : IsDouble w) (hvf : v.isFinite = true)
    (hwf : w.isFinite = true) (hw0 : signed w ≠ 0) :
    Nearest (UnpackedFloat.div .binary64 v w) (signed v * 2 ^ 1074 / signed w) := by
  rcases cases_of_isFinite hwf with ⟨s', rfl⟩ | ⟨s', m', e', hm', rfl⟩
  · exact absurd rfl hw0
  rcases cases_of_isFinite hvf with ⟨s, rfl⟩ | ⟨s, m, e, hm, rfl⟩
  · rw [signed_zero, Int.cast_zero, zero_mul, zero_div]
    exact nearest_zero (s / s')
  have ht := targetExponent_eq m e
  set t : ℤ := min (e - e') (Format.binary64.targetExponent (totalExponent m e - totalExponent m' e')) with hmin
  have htarget : Format.binary64.targetExponent (totalExponent m e - totalExponent m' e') =
      max (m.log2 - m'.log2 + e - e' - 53) (-1074) := by
    simp only [Format.targetExponent, totalExponent, Format.mantissaBits, Format.minExponent]
    norm_num
    omega
  obtain ⟨k, hk⟩ := Int.eq_ofNat_of_zero_le (sub_nonneg.2 (min_le_left (e - e') _) : 0 ≤ e - e' - t)
  have hplaced : t ≤ -1074 ∨ 2 ^ 52 ≤ m * 2 ^ k / m' := by
    rcases le_or_gt t (-1074) with hsmall | hlarge
    · exact Or.inl hsmall
    · refine Or.inr ((Nat.le_div_iff_mul_le hm').2 ?_)
      calc 2 ^ 52 * m' ≤ 2 ^ 52 * 2 ^ (m'.log2 + 1) := Nat.mul_le_mul_left _ Nat.lt_log2_self.le
        _ = 2 ^ (52 + (m'.log2 + 1)) := (pow_add 2 _ _).symm
        _ ≤ 2 ^ (m.log2 + k) := Nat.pow_le_pow_right two_pos (by omega)
        _ = 2 ^ m.log2 * 2 ^ k := pow_add 2 _ _
        _ ≤ m * 2 ^ k := Nat.mul_le_mul_right _ (Nat.log2_self_le hm.ne')
  obtain ⟨u, hu, hrounded⟩ := roundWithAccuracy_rounds (s / s') (approximates_div (m * 2 ^ k) hm') hplaced
  have hdiv : UnpackedFloat.div .binary64 (.finite s m e hm) (.finite s' m' e' hm') =
      roundWithAccuracy .binary64 (s / s') (m * 2 ^ k / m') t (accuracyOfFraction (m * 2 ^ k % m') m') := by
    simp only [UnpackedFloat.div, divCore, ← hmin, hk, Int.toNat_natCast, Nat.shiftLeft_eq]
  rw [hdiv]
  refine nearest_of_rounded ?_ hrounded fun h => Or.inl (sign_of_div_nonneg (by positivity) (by positivity) h)
  have hexact : |((s.apply (m * 2 ^ (e + 1074).toNat : ℕ) : ℤ) : ℝ) * 2 ^ 1074 /
      ((s'.apply (m' * 2 ^ (e' + 1074).toNat : ℕ) : ℤ) : ℝ)| =
      ((m * 2 ^ k : ℕ) : ℝ) / m' * 2 ^ (t + 1074) := by
    have hpowers : (2 : ℝ) ^ (e + 1074) * 2 ^ 1074 = 2 ^ k * 2 ^ (t + 1074) * 2 ^ (e' + 1074) := by
      rw [← zpow_natCast, ← zpow_natCast, ← zpow_add₀ two_ne_zero, ← zpow_add₀ two_ne_zero, ← zpow_add₀ two_ne_zero]
      congr 1
      push_cast
      omega
    rw [abs_div, abs_mul, abs_apply, abs_apply, hv.1.cast, hw.1.cast, abs_of_pos (by positivity), div_mul_eq_mul_div,
      div_eq_div_iff (by positivity) (by positivity)]
    push_cast
    generalize (2 : ℝ) ^ 1074 = one at hpowers ⊢
    linear_combination (m : ℝ) * m' * hpowers
  exact hexact ▸ hu

theorem nearest_sqrt {v : UnpackedFloat} (hv : IsDouble v) (hvf : v.isFinite = true) (hpos : NotNegative v) :
    Nearest (UnpackedFloat.sqrt .binary64 v) (√((magnitude v : ℝ) * 2 ^ 1074)) := by
  rcases cases_of_isFinite hvf with ⟨s, rfl⟩ | ⟨_ | _, m, e, hm, rfl⟩
  · rw [show magnitude (.zero s) = 0 from rfl, Nat.cast_zero, zero_mul, Real.sqrt_zero]
    exact nearest_zero s
  · exact hpos.elim
  set t : ℤ := min (e.ediv 2) (Format.binary64.targetExponent ((totalExponent m e + 1).ediv 2)) with hmin
  have htarget : Format.binary64.targetExponent ((totalExponent m e + 1).ediv 2) =
      max ((m.log2 + 1 + e + 1) / 2 - 53) (-1074) := rfl
  have hhalf : e.ediv 2 = e / 2 := rfl
  obtain ⟨k, hk⟩ := Int.eq_ofNat_of_zero_le (by omega : 0 ≤ e - 2 * t)
  have hplaced : t ≤ -1074 ∨ 2 ^ 52 ≤ Nat.sqrt (m * 2 ^ k) := by
    rcases le_or_gt t (-1074) with hsmall | hlarge
    · exact Or.inl hsmall
    · refine Or.inr (Nat.le_sqrt.2 ?_)
      calc 2 ^ 52 * 2 ^ 52 = 2 ^ 104 := (pow_add 2 52 52).symm
        _ ≤ 2 ^ (m.log2 + k) := Nat.pow_le_pow_right two_pos (by omega)
        _ = 2 ^ m.log2 * 2 ^ k := pow_add 2 _ _
        _ ≤ m * 2 ^ k := Nat.mul_le_mul_right _ (Nat.log2_self_le hm.ne')
  obtain ⟨u, hu, hrounded⟩ := roundWithAccuracy_rounds .positive (approximates_sqrt (m * 2 ^ k)) hplaced
  have hsqrt : Rounded .positive u (UnpackedFloat.sqrt .binary64 (.finite .positive m e hm)) := by
    simp only [UnpackedFloat.sqrt, sqrtCore, ← hmin, hk, Int.toNat_natCast, Nat.shiftLeft_eq]
    exact hrounded
  refine nearest_of_rounded ?_ hsqrt fun _ => Or.inl rfl
  have hexact : √((magnitude (.finite .positive m e hm) : ℝ) * 2 ^ 1074) = √((m * 2 ^ k : ℕ) : ℝ) * 2 ^ (t + 1074) := by
    have hsq : (magnitude (.finite .positive m e hm) : ℝ) * 2 ^ 1074 =
        ((m * 2 ^ k : ℕ) : ℝ) * (2 ^ (t + 1074)) ^ 2 := by
      rw [show magnitude (.finite .positive m e hm) = m * 2 ^ (e + 1074).toNat from rfl, hv.1.cast, ← zpow_natCast,
        ← zpow_natCast, ← zpow_mul]
      push_cast
      rw [mul_assoc, mul_assoc, ← zpow_natCast, ← zpow_add₀ two_ne_zero, ← zpow_add₀ two_ne_zero]
      congr 2
      omega
    rw [hsq, Real.sqrt_mul (Nat.cast_nonneg _), Real.sqrt_sq (by positivity)]
  rw [abs_of_nonneg (Real.sqrt_nonneg _), hexact]
  exact hu

theorem isDouble_neg {v : UnpackedFloat} (hv : IsDouble v) : IsDouble v.neg := by
  cases v <;> exact hv

theorem isFinite_neg (v : UnpackedFloat) : v.neg.isFinite = v.isFinite := by
  cases v <;> rfl

theorem signed_neg (v : UnpackedFloat) : signed v.neg = -signed v := by
  cases v with
  | finite s m e hm =>
    cases s
    · exact (neg_neg _).symm
    · rfl
  | _ => rfl

theorem nearest_sub {v w : UnpackedFloat} (hv : IsDouble v) (hw : IsDouble w) (hvf : v.isFinite = true)
    (hwf : w.isFinite = true) : Nearest (UnpackedFloat.sub .binary64 v w) (signed v - signed w) := by
  have hadd := nearest_add hv (isDouble_neg hw) hvf ((isFinite_neg w).trans hwf)
  rwa [signed_neg, Int.cast_neg, ← sub_eq_add_neg, ← sub_eq] at hadd

/-! ## Infinities and NaN -/

theorem finite_inf_or_nan (x : Float) : x.isFinite = true ∨ x.isInf = true ∨ x.isNaN = true := by
  rw [isFinite_eq, isInf_eq, isNaN_eq]
  cases kind x with
  | notANumber => exact Or.inr (Or.inr rfl)
  | infinity s => exact Or.inr (Or.inl rfl)
  | zero s => exact Or.inl rfl
  | finite s m e hm => exact Or.inl rfl

theorem kind_abs (x : Float) : kind x.abs = (kind x).abs := by
  have habs : ∀ v, IsDouble v → IsDouble v.abs := fun v hv => by cases v <;> exact hv
  exact stored_of_isDouble (habs _ (kind_isDouble x))

@[simp] theorem isFinite_abs (x : Float) : x.abs.isFinite = x.isFinite := by
  rw [isFinite_eq, isFinite_eq, kind_abs]
  cases kind x <;> rfl

@[simp] theorem units_abs (x : Float) : units x.abs = units x := by
  rw [units, units, kind_abs]
  cases kind x <;> rfl

@[simp] theorem isNaN_abs (x : Float) : x.abs.isNaN = x.isNaN := by
  rw [isNaN_eq, isNaN_eq, kind_abs]
  cases kind x <;> rfl

theorem nonNeg_abs (h : x.isNaN = false) : NonNeg x.abs := by
  rw [isNaN_eq] at h
  rw [NonNeg, kind_abs]
  cases hk : kind x with
  | notANumber => rw [hk] at h; cases h
  | _ => trivial

theorem isFinite_of_mul (h : (x * y).isFinite = true) : x.isFinite = true ∧ y.isFinite = true := by
  rw [isFinite_eq, kind_mul] at h
  rw [isFinite_eq, isFinite_eq]
  generalize kind x = v, kind y = w at h
  cases v <;> cases w <;> simp [UnpackedFloat.mul, UnpackedFloat.isFinite] at h ⊢

theorem isFinite_of_add (h : (x + y).isFinite = true) : x.isFinite = true ∧ y.isFinite = true := by
  rw [isFinite_eq, kind_add] at h
  rw [isFinite_eq, isFinite_eq]
  generalize kind x = v, kind y = w at h
  rcases v with (_ | _) | _ | _ | _ <;> rcases w with (_ | _) | _ | _ | _ <;>
    simp [UnpackedFloat.add, UnpackedFloat.isFinite] at h ⊢

theorem isFinite_of_sub (h : (x - y).isFinite = true) : x.isFinite = true ∧ y.isFinite = true := by
  rw [isFinite_eq, kind_sub] at h
  rw [isFinite_eq, isFinite_eq]
  generalize kind x = v, kind y = w at h
  rcases v with (_ | _) | _ | _ | _ <;> rcases w with (_ | _) | _ | _ | _ <;>
    simp [UnpackedFloat.sub, UnpackedFloat.isFinite] at h ⊢ <;> cases h

theorem isFinite_of_sqrt (h : x.sqrt.isFinite = true) : x.isFinite = true := by
  rw [isFinite_eq, kind_sqrt] at h
  rw [isFinite_eq]
  generalize kind x = v at h
  rcases v with (_ | _) | _ | _ | ⟨_ | _, _, _, _⟩ <;> simp [UnpackedFloat.sqrt, UnpackedFloat.isFinite] at h ⊢

/-- positive, and no infinity -/
def Positive (c : Float) : Prop := ∃ m e hm, kind c = .finite .positive m e hm

theorem isFinite_of_div {c : Float} (hc : Positive c) (h : (x / c).isFinite = true) : x.isFinite = true := by
  obtain ⟨m, e, hm, hc⟩ := hc
  rw [isFinite_eq, kind_div, hc] at h
  rw [isFinite_eq]
  generalize kind x = v at h
  cases v <;> simp [UnpackedFloat.div, UnpackedFloat.isFinite] at h ⊢

/-! ## Signs -/

theorem nonNeg_mul_self (h : x.isNaN = false) : NonNeg (x * x) := by
  have hdouble := kind_isDouble x
  rw [isNaN_eq] at h
  rw [NonNeg, kind_mul]
  cases hk : kind x with
  | notANumber => rw [hk] at h; cases h
  | infinity s =>
    change NotNegative (stored (.infinity (s * s)))
    rw [stored_infinity]
    cases s <;> trivial
  | _ =>
    rw [hk] at hdouble
    exact (nearest_mul hdouble hdouble rfl rfl).notNegative (div_nonneg (mul_self_nonneg _) (by positivity))

theorem signed_nonneg {v : UnpackedFloat} (h : NotNegative v) : 0 ≤ signed v := by
  rcases v with _ | _ | _ | ⟨_ | _, m, e, hm⟩
  · exact le_rfl
  · exact le_rfl
  · exact le_rfl
  · exact h.elim
  · exact Int.natCast_nonneg _

theorem eq_infinity {v : UnpackedFloat} (h : NotNegative v) (hf : v.isFinite = false) : v = .infinity .positive := by
  rcases v with (_ | _) | _ | _ | _
  · exact h.elim
  · rfl
  · exact h.elim
  · cases hf
  · cases hf

theorem notNegative_infinity : NotNegative (stored (.infinity .positive)) := by
  rw [stored_infinity]
  trivial

theorem nonNeg_add (hx : NonNeg x) (hy : NonNeg y) : NonNeg (x + y) := by
  have hdx := kind_isDouble x
  have hdy := kind_isDouble y
  rw [NonNeg] at hx hy
  rw [NonNeg, kind_add]
  generalize kind x = v, kind y = w at hx hy hdx hdy
  rcases hvf : v.isFinite with _ | _
  · obtain rfl := eq_infinity hx hvf
    rcases w with (_ | _) | _ | _ | _
    · exact hy.elim
    · exact notNegative_infinity
    · exact hy.elim
    · exact notNegative_infinity
    · exact notNegative_infinity
  · rcases hwf : w.isFinite with _ | _
    · obtain rfl := eq_infinity hy hwf
      rcases v with _ | _ | _ | _
      · cases hvf
      · cases hvf
      · exact notNegative_infinity
      · exact notNegative_infinity
    · exact (nearest_add hdx hdy hvf hwf).notNegative
        (add_nonneg (by exact_mod_cast signed_nonneg hx) (by exact_mod_cast signed_nonneg hy))

theorem nonNeg_sqrt (hx : NonNeg x) : NonNeg x.sqrt := by
  have hdouble := kind_isDouble x
  rw [NonNeg] at hx
  rw [NonNeg, kind_sqrt]
  generalize kind x = v at hx hdouble
  rcases hvf : v.isFinite with _ | _
  · obtain rfl := eq_infinity hx hvf
    exact notNegative_infinity
  · exact (nearest_sqrt hdouble hvf hx).notNegative (Real.sqrt_nonneg _)

theorem Positive.signed_pos {c : Float} (hc : Positive c) : 0 < signed (kind c) := by
  obtain ⟨m, e, hm, hc⟩ := hc
  rw [hc]
  exact Int.natCast_pos.2 (by positivity)

theorem nonNeg_mul {c : Float} (hx : NonNeg x) (hc : Positive c) : NonNeg (x * c) := by
  have hdx := kind_isDouble x
  have hdc := kind_isDouble c
  have hpos := hc.signed_pos
  obtain ⟨m, e, hm, hc⟩ := hc
  rw [NonNeg] at hx
  rw [NonNeg, kind_mul]
  rw [hc] at hdc hpos ⊢
  generalize kind x = v at hx hdx
  rcases hvf : v.isFinite with _ | _
  · obtain rfl := eq_infinity hx hvf
    exact notNegative_infinity
  · exact (nearest_mul hdx hdc hvf rfl).notNegative (div_nonneg (mul_nonneg (by exact_mod_cast signed_nonneg hx)
      (by exact_mod_cast hpos.le)) (by positivity))

theorem nonNeg_div {c : Float} (hx : NonNeg x) (hc : Positive c) : NonNeg (x / c) := by
  have hdx := kind_isDouble x
  have hdc := kind_isDouble c
  have hpos := hc.signed_pos
  obtain ⟨m, e, hm, hc⟩ := hc
  rw [NonNeg] at hx
  rw [NonNeg, kind_div]
  rw [hc] at hdc hpos ⊢
  generalize kind x = v at hx hdx
  rcases hvf : v.isFinite with _ | _
  · obtain rfl := eq_infinity hx hvf
    exact notNegative_infinity
  · exact (nearest_div hdx hdc hvf rfl hpos.ne').notNegative (div_nonneg (mul_nonneg
      (by exact_mod_cast signed_nonneg hx) (by positivity)) (by exact_mod_cast hpos.le))

/-! ## Order -/

theorem magnitude_lt_iff {m m' : ℕ} {e e' : ℤ} (h : Canonical m e) (h' : Canonical m' e') :
    m * 2 ^ (e + 1074).toNat < m' * 2 ^ (e' + 1074).toNat ↔ e < e' ∨ e = e' ∧ m < m' := by
  have hless : ∀ {m m' : ℕ} {e e' : ℤ}, Canonical m e → Canonical m' e' → e < e' →
      m * 2 ^ (e + 1074).toNat < m' * 2 ^ (e' + 1074).toNat := fun {m m' e e'} h h' hlt =>
    (mul_two_pow_lt h.lt le_rfl).trans_le
      (two_pow_le_mul (h'.full.resolve_left (by have := h.min; omega)) (by have := h.min; omega))
  rcases lt_trichotomy e e' with hlt | rfl | hgt
  · exact iff_of_true (hless h h' hlt) (Or.inl hlt)
  · rw [Nat.mul_lt_mul_right (by positivity)]
    simp
  · exact iff_of_false (not_lt.2 (hless h' h hgt).le) (by omega)

theorem compare_eq_lt_iff {m m' : ℕ} {e e' : ℤ} :
    (compare e e').then (compare m m') = .lt ↔ e < e' ∨ e = e' ∧ m < m' := by
  rw [Ordering.then_eq_lt, Int.compare_eq_lt, Int.compare_eq_eq, Nat.compare_eq_lt]

theorem lt_iff_units (hx : NonNeg x) (hy : NonNeg y) (hxf : x.isFinite = true) :
    x < y ↔ y.isInf = true ∨ units x < units y := by
  have hdx := kind_isDouble x
  have hdy := kind_isDouble y
  rw [isFinite_eq] at hxf
  rw [lt_iff, isInf_eq, units, units]
  rw [NonNeg] at hx hy
  generalize kind x = v, kind y = w at hx hy hdx hdy hxf
  rcases v with _ | _ | _ | ⟨_ | _, m, e, hm⟩
  · cases hxf
  · cases hxf
  · rcases w with (_ | _) | _ | _ | ⟨_ | _, m', e', hm'⟩
    · exact hy.elim
    · exact iff_of_true rfl (Or.inl rfl)
    · exact hy.elim
    · exact iff_of_false (fun h => by cases h) (fun h => h.elim (fun h => by cases h) (lt_irrefl 0))
    · exact hy.elim
    · exact iff_of_true rfl (Or.inr (by simp only [magnitude]; positivity))
  · exact hx.elim
  · rcases w with (_ | _) | _ | _ | ⟨_ | _, m', e', hm'⟩
    · exact hy.elim
    · exact iff_of_true rfl (Or.inl rfl)
    · exact hy.elim
    · exact iff_of_false (fun h => by cases h) (fun h => h.elim (fun h => by cases h) (Nat.not_lt_zero _))
    · exact hy.elim
    · change some _ = some _ ↔ false = true ∨ _
      rw [Option.some.injEq, compare_eq_lt_iff, magnitude, magnitude, magnitude_lt_iff hdx.1 hdy.1]
      simp

theorem nonNeg_iff : NonNeg x ↔ (0.0 : Float) ≤ x := by
  rw [le_iff, show kind (0.0 : Float) = .zero .positive from rfl, NonNeg]
  generalize kind x = v
  rcases v with (_ | _) | _ | _ | ⟨_ | _, m, e, hm⟩
  · exact iff_of_false id (fun h => by cases h)
  · exact iff_of_true trivial rfl
  · exact iff_of_false id (fun h => by cases h)
  · exact iff_of_true trivial rfl
  · exact iff_of_false id (fun h => by cases h)
  · exact iff_of_true trivial rfl

/-- the order of two numbers of which none is below 0 is total -/
theorem le_iff_not_lt (hx : NonNeg x) (hy : NonNeg y) : x ≤ y ↔ ¬ y < x := by
  have hswap : ∀ (m m' : ℕ) (e e' : ℤ), ((compare e e').then (compare m m')).isLE = true ↔
      ¬ (compare e' e).then (compare m' m) = .lt := fun m m' e e' => by
    rw [compare_eq_lt_iff, Ordering.isLE_iff_ne_gt, Ordering.then_eq_gt, Int.compare_eq_gt, Int.compare_eq_eq,
      Nat.compare_eq_gt]
    exact not_congr (or_congr Iff.rfl (and_congr_left' eq_comm))
  rw [le_iff, lt_iff]
  rw [NonNeg] at hx hy
  generalize kind x = v, kind y = w at hx hy
  rcases v with (_ | _) | _ | _ | ⟨_ | _, m, e, hm⟩
  · exact hx.elim
  · rcases w with (_ | _) | _ | _ | ⟨_ | _, m', e', hm'⟩
    · exact hy.elim
    · exact iff_of_true rfl (fun h => by cases h)
    · exact hy.elim
    · exact iff_of_false (fun h => by cases h) (not_not.2 rfl)
    · exact hy.elim
    · exact iff_of_false (fun h => by cases h) (not_not.2 rfl)
  · exact hx.elim
  · rcases w with (_ | _) | _ | _ | ⟨_ | _, m', e', hm'⟩
    · exact hy.elim
    · exact iff_of_true rfl (fun h => by cases h)
    · exact hy.elim
    · exact iff_of_true rfl (fun h => by cases h)
    · exact hy.elim
    · exact iff_of_true rfl (fun h => by cases h)
  · exact hx.elim
  · rcases w with (_ | _) | _ | _ | ⟨_ | _, m', e', hm'⟩
    · exact hy.elim
    · exact iff_of_true rfl (fun h => by cases h)
    · exact hy.elim
    · exact iff_of_false (fun h => by cases h) (not_not.2 rfl)
    · exact hy.elim
    · change ((compare e e').then (compare m m')).isLE = true ↔ ¬ some ((compare e' e).then (compare m' m)) = some .lt
      rw [hswap, Option.some.injEq]

/-- below 0, or NaN -/
theorem not_le_of_negative (hx : NonNeg x) (hy : ¬ NonNeg y) : ¬ x ≤ y := by
  rw [le_iff]
  rw [NonNeg] at hx hy
  generalize kind x = v, kind y = w at hx hy
  rcases v with (_ | _) | _ | _ | ⟨_ | _, m, e, hm⟩ <;> rcases w with (_ | _) | _ | _ | ⟨_ | _, m', e', hm'⟩ <;>
    first
    | exact hx.elim
    | exact absurd trivial hy
    | exact fun h => by cases h

theorem lt_of_negative (hx : NonNeg x) (hy : y.isNaN = false) (hneg : ¬ NonNeg y) : y < x := by
  rw [isNaN_eq] at hy
  rw [lt_iff]
  rw [NonNeg] at hx hneg
  generalize kind x = v, kind y = w at hx hy hneg
  rcases w with (_ | _) | _ | _ | ⟨_ | _, m', e', hm'⟩ <;> rcases v with (_ | _) | _ | _ | ⟨_ | _, m, e, hm⟩ <;>
    first
    | exact hx.elim
    | exact absurd trivial hneg
    | rfl
    | cases hy

theorem not_isNaN_of_lt (h : x < y) : x.isNaN = false ∧ y.isNaN = false := by
  rw [lt_iff] at h
  rw [isNaN_eq, isNaN_eq]
  generalize kind x = v, kind y = w at h
  cases v <;> cases w <;> first | exact ⟨rfl, rfl⟩ | cases h

theorem not_isNaN_of_le (h : x ≤ y) : x.isNaN = false ∧ y.isNaN = false := by
  rw [le_iff] at h
  rw [isNaN_eq, isNaN_eq]
  generalize kind x = v, kind y = w at h
  cases v <;> cases w <;> first | exact ⟨rfl, rfl⟩ | cases h

theorem nonNeg_of_lt (hx : NonNeg x) (h : x < y) : NonNeg y := by
  rw [lt_iff] at h
  rw [NonNeg] at hx ⊢
  generalize kind x = v, kind y = w at hx h
  rcases w with (_ | _) | _ | _ | ⟨_ | _, m', e', hm'⟩ <;> rcases v with (_ | _) | _ | _ | ⟨_ | _, m, e, hm⟩ <;>
    first
    | trivial
    | exact hx.elim
    | cases h

/-- nothing is above an infinity -/
theorem isFinite_of_lt (hx : NonNeg x) (h : x < y) : x.isFinite = true := by
  rw [lt_iff] at h
  rw [isFinite_eq]
  rw [NonNeg] at hx
  generalize kind x = v, kind y = w at hx h
  rcases v with (_ | _) | _ | _ | _
  · exact hx.elim
  · rcases w with (_ | _) | _ | _ | _ <;> cases h
  · exact hx.elim
  · rfl
  · rfl

theorem isFinite_of_le (hx : NonNeg x) (hy : y.isFinite = true) (h : x ≤ y) : x.isFinite = true := by
  rw [le_iff] at h
  rw [isFinite_eq] at hy ⊢
  rw [NonNeg] at hx
  generalize kind x = v, kind y = w at hx hy h
  rcases v with (_ | _) | _ | _ | _
  · exact hx.elim
  · rcases w with (_ | _) | _ | _ | _
    · cases hy
    · cases hy
    · cases hy
    · cases h
    · cases h
  · exact hx.elim
  · rfl
  · rfl

end OdeClientServer.Double
