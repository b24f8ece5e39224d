/-
The retries of RK2 and DISPF in doubles: when they stop.

A retry multiplies h, and in DISPF the cached first stage with it, by a factor that is at most 0.905, and at most 0.5
when the error is infinite or the tolerance is 0. In units of the smallest double such a factor lowers every number but
the few smallest, so the retries stop unless they stall at a few units or meet NaN.

- `Scaled.lower`: a retry lowers the sum of the units.
- `stopsRK2`, `not_stopsRK2`: the retries of RK2. One attempt is accepted only with a finite first stage
  (`isFinite_of_accepted`), and none after NaN (`not_stopsRK2_of_isNaN`).
- `stopsRetry`, `not_stopsRetry`: the retries of a routine of DISPF. `returnsAB` and `returnsC` are what these need of
  the passes.
- `BoundedNear`: how large the right-hand side is about the point of the step, which says how far down a tolerance may
  be for a step of a few units to be accepted.
-/
import OdeClientServer.Core.Magnitude
import OdeClientServer.Core.Retry
import OdeClientServer.Solvers.Doubles

namespace OdeClientServer.Doubles

open Double Retry

variable {n : ℕ} {pow : Float → Float → Float} {f : Rhs n} {tolerance t h : Float} {y : Vec n} {v : Vec n}

/-! ## Largest components and norms -/

theorem stdMax_eq (a b : Float) : stdMax a b = a ∨ a < b ∧ stdMax a b = b := by
  rw [stdMax]
  split_ifs with hlt
  · exact Or.inr ⟨hlt, rfl⟩
  · exact Or.inl rfl

/-- what holds of 0 and of the components holds of the largest -/
theorem largest_induct {P : Float → Prop} (h0 : P 0.0) (hv : ∀ i, P (v i).abs) : P (largest v) := by
  refine List.foldlRecOn _ _ h0 fun m hm i _ => ?_
  obtain heq | ⟨-, heq⟩ := stdMax_eq m (v i).abs
  · rw [heq]
    exact hm
  · rw [heq]
    exact hv i

/-- NaN is passed over -/
theorem nonNeg_largest (v : Vec n) : NonNeg (largest v) := by
  refine List.foldlRecOn _ _ trivial fun m hm i _ => ?_
  obtain heq | ⟨hlt, heq⟩ := stdMax_eq m (v i).abs
  · rw [heq]
    exact hm
  · rw [heq]
    exact nonNeg_abs ((isNaN_abs _).symm.trans (not_isNaN_of_lt hlt).2)

theorem nonNeg_norm (hv : (norm v).isNaN = false) : NonNeg (norm v) := nonNeg_sqrt (nonNeg_of_sqrt hv)

theorem nonNeg_norm_of (hv : ∀ i, (v i).isNaN = false) : NonNeg (norm v) := by
  refine nonNeg_sqrt (List.foldlRecOn _ _ trivial fun sum hsum i _ => ?_)
  exact nonNeg_add hsum (nonNeg_mul_self (hv i))

theorem isFinite_of_norm (hv : (norm v).isFinite = true) (i : Fin n) : (v i).isFinite = true := by
  have hsum : ∀ (l : List (Fin n)) (s : Float), (l.foldl (fun sum i => sum + v i * v i) s).isFinite = true →
      s.isFinite = true ∧ ∀ i ∈ l, (v i).isFinite = true := by
    intro l
    induction l with
    | nil => exact fun s hs => ⟨hs, fun i hi => by cases hi⟩
    | cons j l ih =>
      intro s hs
      obtain ⟨hj, hl⟩ := ih _ hs
      obtain ⟨hs, hjj⟩ := isFinite_of_add hj
      exact ⟨hs, List.forall_mem_cons.2 ⟨(isFinite_of_mul hjj).1, hl⟩⟩
  exact (hsum _ _ (isFinite_of_sqrt hv)).2 i (List.mem_finRange i)

theorem vanishes_zero : Vanishes 0.0 := Or.inr ⟨.positive, rfl⟩

theorem vanishes_norm (hv : ∀ i, Vanishes (v i)) : Vanishes (norm v) := by
  refine vanishes_sqrt (List.foldlRecOn _ _ vanishes_zero fun sum hsum i _ => ?_)
  exact vanishes_add hsum (vanishes_mul (hv i) _)

theorem vanishes_largest (hv : ∀ i, Vanishes (v i)) : Vanishes (largest v) :=
  largest_induct vanishes_zero fun i => vanishes_abs (hv i)

theorem atMost_largest {c : ℕ} (hv : ∀ i, AtMost c (v i)) : AtMost c (largest v) :=
  largest_induct (fun _ => Nat.zero_le c) fun i => atMost_abs.2 (hv i)

/-- the squares of numbers below 2^-537 vanish, so the bound has a floor -/
theorem atMost_norm {s : ℕ} (hs : 537 ≤ s) (hv : ∀ i, AtMost (2 ^ s) (v i)) : AtMost (2 ^ (s + n)) (norm v) := by
  have hsum : ∀ (l : List (Fin n)) (r : ℕ) (a : Float), 2 * s - 1074 ≤ r → AtMost (2 ^ r) a →
      AtMost (2 ^ (r + l.length)) (l.foldl (fun sum i => sum + v i * v i) a) := by
    intro l
    induction l with
    | nil => exact fun r a _ ha => ha
    | cons j l ih =>
      intro r a hr ha
      have hsquare : AtMost (2 ^ r) (v j * v j) := atMost_mul (hv j) (hv j) (by omega)
      have hrest := ih (r + 1) _ (by omega) (atMost_add ha hsquare)
      rwa [List.length_cons, Nat.add_comm l.length, ← Nat.add_assoc]
  have htotal := hsum (List.finRange n) (2 * s - 1074) 0.0 le_rfl (fun _ => Nat.zero_le _)
  rw [List.length_finRange] at htotal
  exact atMost_sqrt htotal (by omega)

/-- small enough squares all vanish -/
theorem atMost_zero_norm {s : ℕ} (hs : s < 537) (hv : ∀ i, AtMost (2 ^ s) (v i)) : AtMost 0 (norm v) := by
  refine atMost_zero_sqrt (List.foldlRecOn _ _ (fun _ => le_rfl) fun sum hsum i _ => ?_)
  exact atMost_zero_add hsum (atMost_zero_mul (hv i) (hv i) (by omega))

/-! ## The factors of the retries -/

theorem shrinks_nine_tenths : Shrinks 0.9 := ⟨by decide +kernel, by decide +kernel⟩

/-- nine tenths of a number up to 1 -/
theorem shrinks_mul_unit {p : Float} (hp0 : 0.0 ≤ p) (hp1 : p ≤ 1.0) : Shrinks (0.9 * p) := by
  have hp := nonNeg_iff.2 hp0
  have hpf : p.isFinite = true := isFinite_of_le hp rfl hp1
  have hunits : units p ≤ 2 ^ 1074 := by
    rw [le_iff_not_lt hp nonNeg_one, lt_iff_units nonNeg_one hp rfl, units_one] at hp1
    exact not_lt.1 fun hlt => hp1 (Or.inr hlt)
  have hnine : 1000000 * units 0.9 ≤ 900001 * 2 ^ 1074 := by decide +kernel
  obtain ⟨w, hnear, hw⟩ := nearest_units_mul shrinks_nine_tenths.1 hpf
  have hround : ∀ u, Rounding.Rounds |w| u → 1000 * u ≤ 905 * 2 ^ 1074 := fun u hu => by
    have hle := hu.le (abs_nonneg w)
    have hnine' : 1000000 * (units 0.9 : ℝ) ≤ 900001 * 2 ^ 1074 := by exact_mod_cast hnine
    have hunits' : (units p : ℝ) ≤ 2 ^ 1074 := by exact_mod_cast hunits
    have hbig : (2 : ℝ) ^ 10 ≤ 2 ^ 1074 := pow_le_pow_right₀ one_le_two (by norm_num)
    have hsmall : |w| ≤ units 0.9 := by
      rw [hw, div_le_iff₀ (by positivity)]
      exact mul_le_mul_of_nonneg_left hunits' (Nat.cast_nonneg _)
    have hcast : (1000 : ℝ) * u ≤ 905 * 2 ^ 1074 := by
      generalize (2 : ℝ) ^ 1074 = one at hnine' hbig ⊢
      have hdiv : |w| / 2 ^ 53 ≤ one / 1000 := by
        rw [div_le_div_iff₀ (by positivity) (by norm_num)]
        norm_num
        linarith
      linarith
    exact_mod_cast hcast
  have hfinite : (0.9 * p).isFinite = true := hnear.isFinite (kind_mul 0.9 p) fun u hu => by
    have hsmall := hround u hu
    have hpow := one_lt_limit
    generalize 2 ^ 1074 = one at hsmall hpow
    generalize 2 ^ 2098 = limit at hpow ⊢
    omega
  exact ⟨hfinite, hround _ (hnear.units_rounds (kind_mul 0.9 p) hfinite)⟩


theorem lt_of_not_le {x z : Float} (hx : NonNeg x) (hz : NonNeg z) (h : ¬ x ≤ z) : z < x := by
  rw [le_iff_not_lt hx hz] at h
  exact not_not.1 h

theorem halves_half : Halves 0.5 := ⟨by decide +kernel, by decide +kernel⟩

theorem halves_fifth : Halves 0.2 := ⟨by decide +kernel, by decide +kernel⟩

/-- whatever `std::pow` returns -/
theorem shrinks_shrink (pow : Float → Float → Float) (tolerance error : Float) :
    Shrinks (shrink pow tolerance error) := by
  have hhalf : NonNeg (0.5 : Float) := trivial
  have hnine : NonNeg (0.9 : Float) := trivial
  have hnonneg : NonNeg (stdMax 0.5 (pow (tolerance / error) (1.0 / 5.0))) := by
    obtain heq | ⟨hlt, heq⟩ := stdMax_eq 0.5 (pow (tolerance / error) (1.0 / 5.0))
    · rw [heq]
      exact hhalf
    · rw [heq]
      exact nonNeg_of_lt hhalf hlt
  rw [shrink, stdMin]
  split_ifs with hlt
  · have hf := isFinite_of_lt hnonneg hlt
    have hunits := ((lt_iff_units hnonneg hnine hf).1 hlt).resolve_left (by decide)
    exact ⟨hf, (Nat.mul_le_mul_left 1000 hunits.le).trans shrinks_nine_tenths.2⟩
  · exact shrinks_nine_tenths

variable {e : Float}

/-- the quotient of the tolerance and an error above it, under a root -/
theorem pow_zero_quotient (hpow : PowLaws pow) (htol : NonNeg tolerance) (hlt : tolerance < e)
    (h : e.isInf = true ∨ units tolerance = 0) {a : Float} (ha0 : 0.0 < a) (ha1 : a < 1.0) :
    pow (tolerance / e) a = 0.0 :=
  hpow.zero _ _ (beq_zero_iff.2 (quotient_zero htol hlt h)) ha0 ha1

theorem halves_shrink (hpow : PowLaws pow) (htol : NonNeg tolerance) (hlt : tolerance < e)
    (h : e.isInf = true ∨ units tolerance = 0) : Halves (shrink pow tolerance e) := by
  have hmax : stdMax 0.5 0.0 = 0.5 := if_neg (by decide +kernel)
  have hmin : stdMin 0.9 0.5 = 0.5 := if_pos (by decide +kernel)
  rw [shrink, pow_zero_quotient hpow htol hlt h (by decide +kernel) (by decide +kernel), hmax, hmin]
  exact halves_half

/-- the factor of h for the next attempt of RK2 -/
def factor (pow : Float → Float → Float) (tolerance e : Float) : Float :=
  stdMax (0.9 * pow (tolerance / e) (1.0 / 3.0)) 0.2

theorem halves_factor (hpow : PowLaws pow) (htol : NonNeg tolerance) (hlt : tolerance < e)
    (h : e.isInf = true ∨ units tolerance = 0) : Halves (factor pow tolerance e) := by
  have hmax : stdMax (0.9 * 0.0) 0.2 = 0.2 := if_pos (by decide +kernel)
  rw [factor, pow_zero_quotient hpow htol hlt h (by decide +kernel) (by decide +kernel), hmax]
  exact halves_fifth

theorem shrinks_factor (hpow : PowLaws pow) (htol : NonNeg tolerance) (hlt : tolerance < e) :
    Shrinks (factor pow tolerance e) := by
  obtain hf | hinf := isFinite_or_isInf (not_isNaN_of_lt hlt).2
  · obtain ⟨hq0, hq1⟩ := quotient_unit htol hlt hf
    obtain ⟨hp0, hp1⟩ := hpow.unit _ (1.0 / 3.0) hq0 hq1 (by decide +kernel) (by decide +kernel)
    obtain heq | ⟨-, heq⟩ := stdMax_eq (0.9 * pow (tolerance / e) (1.0 / 3.0)) 0.2
    · rw [factor, heq]
      exact shrinks_mul_unit hp0 hp1
    · rw [factor, heq]
      exact halves_fifth.shrinks
  · exact (halves_factor hpow htol hlt (Or.inl hinf)).shrinks

/-! ## Searches that scale their numbers -/

section Scaled

variable {ι : Type} {w w' : ι → Float} {bound : ℕ} {c : Float}

/-- a retry that multiplies the numbers w by c, after an attempt with the error e -/
structure Scaled (tolerance : Float) (bound : ℕ) (w w' : ι → Float) (e c : Float) : Prop where
  eq : ∀ i, w' i = w i * c
  above : tolerance < e
  shrinks : Shrinks c
  halves : e.isInf = true ∨ units tolerance = 0 → Halves c
  vanishes : (∀ i, Vanishes (w i)) → Vanishes e
  small : (∀ i, AtMost 5 (w i)) → AtMost bound e

/-- a number that is no infinity stays so and does not grow -/
theorem scaled_le {x : Float} (hc : Shrinks c) (hx : x.isInf = false) :
    (x * c).isInf = false ∧ units (x * c) ≤ units x := by
  obtain hf | hnan := isFinite_or_isNaN hx
  · obtain ⟨hfinite, hle⟩ := units_mul_le_of_shrinks hc hf
    exact ⟨not_isInf hfinite, by omega⟩
  · have hkind : kind (x * c) = .notANumber := by
      rw [kind_mul, isNaN_iff.1 hnan]
      cases kind c <;> exact stored_notANumber
    rw [isInf_eq, units, hkind]
    exact ⟨rfl, Nat.zero_le _⟩

variable [Fintype ι]

theorem Scaled.lower (hs : Scaled tolerance bound w w' e c) (htol : NonNeg tolerance)
    (hsize : units tolerance = 0 ∨ bound ≤ units tolerance) (hw : ∀ i, (w i).isInf = false) :
    (∀ i, (w' i).isInf = false ∧ units (w' i) ≤ units (w i)) ∧ ∑ i, units (w' i) < ∑ i, units (w i) := by
  have hle : ∀ i, (w' i).isInf = false ∧ units (w' i) ≤ units (w i) := fun i => by
    rw [hs.eq i]
    exact scaled_le hs.shrinks (hw i)
  refine ⟨hle, Finset.sum_lt_sum (fun i _ => (hle i).2) ?_⟩
  by_cases hz : e.isInf = true ∨ units tolerance = 0
  · -- the factor is a half, and some number is not 0 since the error is not
    have hpos : ∃ i, 0 < units (w i) := by
      by_contra hzero
      push Not at hzero
      refine (hs.vanishes fun i => ?_).not_lt htol hs.above
      obtain hf | hnan := isFinite_or_isNaN (hw i)
      · exact vanishes_of_units hf (Nat.le_zero.1 (hzero i))
      · exact Or.inl (isNaN_iff.1 hnan)
    obtain ⟨i, hi⟩ := hpos
    refine ⟨i, Finset.mem_univ i, ?_⟩
    have hf := (isFinite_or_isNaN (hw i)).resolve_right fun hnan => hi.ne' (units_eq_zero hnan)
    rw [hs.eq i]
    exact units_mul_lt_of_halves (hs.halves hz) hf hi
  · -- the error is above the bound, so some number is not among the smallest
    obtain ⟨hinf, hne⟩ := not_or.1 hz
    have hlarge : ∃ i, 5 < units (w i) := by
      by_contra hsmall
      push Not at hsmall
      have hfe := (isFinite_or_isInf (not_isNaN_of_lt hs.above).2).resolve_right hinf
      have hbound := hs.small (fun i _ => hsmall i) hfe
      have hlt := (lt_iff_units htol (nonNeg_of_lt htol hs.above) (isFinite_of_lt htol hs.above)).1 hs.above
      have hunits := hlt.resolve_left hinf
      have htol' := hsize.resolve_left hne
      omega
    obtain ⟨i, hi⟩ := hlarge
    refine ⟨i, Finset.mem_univ i, ?_⟩
    have hf := (isFinite_or_isNaN (hw i)).resolve_right fun hnan => by
      rw [units_eq_zero hnan] at hi
      cases hi
    rw [hs.eq i]
    have hle := (units_mul_le_of_shrinks hs.shrinks hf).2
    omega

end Scaled

/-! ## The right-hand side about a point -/

/-- x' is x, or is x with something added that is at most c units or not finite -/
def Near (c : ℕ) (x x' : Float) : Prop := x' = x ∨ ∃ d, AtMost c d ∧ x' = x + d

/-- about (t, y) the values of f are at most 2^b where they are finite -/
def BoundedNear (f : Rhs n) (b : ℕ) (t : Float) (y : Vec n) : Prop :=
  ∀ t' y', Near (2 ^ (b + 12)) t t' → (∀ i, Near (2 ^ (b + 12)) (y i) (y' i)) → ∀ i, AtMost (2 ^ (b + 1074)) (f t' y' i)

/-- with b = 1024 this asks for nothing -/
theorem boundedNear_all (f : Rhs n) (t : Float) (y : Vec n) : BoundedNear f 1024 t y :=
  fun _ _ _ _ _ => atMost_all (by norm_num) _

variable {b : ℕ}

theorem AtMost.step (hh : AtMost 5 h) : AtMost (2 ^ 3) h := hh.mono (by norm_num)

/-- a stage of a tiny step -/
theorem atMost_stage {x : Float} (hh : AtMost 5 h) (hx : AtMost (2 ^ (b + 1074)) x) : AtMost (2 ^ (b + 3)) (h * x) :=
  atMost_mul (AtMost.step hh) hx (by omega)

/-! ## RK2 -/

/-- the retry of `RK2Solver::Step` after the attempt with step h -/
def nextRK2 (pow : Float → Float → Float) (f : Rhs n) (tolerance t : Float) (y : Vec n) (h : Float) : Option Float :=
  if errorRK2 f t y h ≤ tolerance then none else some (h * factor pow tolerance (errorRK2 f t y h))

theorem stepRK2_ends_iff :
    (∃ fuel, (stepRK2 pow f tolerance t y fuel h).isSome = true) ↔ Stops (nextRK2 pow f tolerance t y) h := by
  refine stops_iff_fuel (p := id) (D := fun fuel h => (stepRK2 pow f tolerance t y fuel h).isSome = true)
    (fun _ hd => by cases hd) ?_ ?_ h
  · intro fuel h hnext
    rw [id, nextRK2] at hnext
    split_ifs at hnext with he
    rw [stepRK2, if_pos he]
    rfl
  · intro h h' hnext
    rw [id, nextRK2] at hnext
    split_ifs at hnext with he
    cases hnext
    refine ⟨_, rfl, fun fuel => ?_⟩
    rw [stepRK2, if_neg he]
    rfl

theorem positive_four : Positive 4.0 := positive_iff.2 ⟨rfl, by decide +kernel⟩

theorem positive_six : Positive 6.0 := positive_iff.2 ⟨rfl, by decide +kernel⟩

theorem nonNeg_errorRK2 (he : (errorRK2 f t y h).isNaN = false) : NonNeg (errorRK2 f t y h) := by
  rw [errorRK2] at he ⊢
  obtain heq | ⟨-, heq⟩ := stdMax_eq (norm (subtractVectors (k2 f t y h) (k1 f t y h)) / 4.0)
    (norm (subtractVectors (hfNext f t y h) (k1 f t y h)) / 6.0)
  · rw [heq] at he ⊢
    exact nonNeg_div (nonNeg_norm (not_isNaN_of_div positive_four he)) positive_four
  · rw [heq] at he ⊢
    exact nonNeg_div (nonNeg_norm (not_isNaN_of_div positive_six he)) positive_six

/-- the first estimate decides whether the error is NaN -/
theorem not_isNaN_errorRK2 (hk : ∀ i, (subtractVectors (k2 f t y h) (k1 f t y h) i).isNaN = false) :
    (errorRK2 f t y h).isNaN = false := by
  rw [errorRK2]
  obtain heq | ⟨hlt, heq⟩ := stdMax_eq (norm (subtractVectors (k2 f t y h) (k1 f t y h)) / 4.0)
    (norm (subtractVectors (hfNext f t y h) (k1 f t y h)) / 6.0)
  · rw [heq]
    exact not_isNaN_of_nonNeg (nonNeg_div (nonNeg_norm_of hk) positive_four)
  · rw [heq]
    exact (not_isNaN_of_lt hlt).2

/-- an accepted attempt has finite stages -/
theorem isFinite_stages (htol : tolerance.isFinite = true) (he : errorRK2 f t y h ≤ tolerance) (i : Fin n) :
    (k2 f t y h i).isFinite = true ∧ (k1 f t y h i).isFinite = true := by
  have hnonneg := nonNeg_errorRK2 (not_isNaN_of_le he).1
  have hfirst : (norm (subtractVectors (k2 f t y h) (k1 f t y h)) / 4.0).isFinite = true := by
    obtain heq | ⟨hlt, -⟩ := stdMax_eq (norm (subtractVectors (k2 f t y h) (k1 f t y h)) / 4.0)
      (norm (subtractVectors (hfNext f t y h) (k1 f t y h)) / 6.0)
    · rw [← heq]
      exact isFinite_of_le hnonneg htol he
    · have hnan := not_isNaN_of_div positive_four (not_isNaN_of_lt hlt).1
      exact isFinite_of_lt (nonNeg_div (nonNeg_norm hnan) positive_four) hlt
  exact isFinite_of_sub (isFinite_of_norm (isFinite_of_div positive_four hfirst) i)

/-- so h and the right-hand side are finite -/
theorem isFinite_of_accepted (htol : tolerance.isFinite = true) (he : errorRK2 f t y h ≤ tolerance) (i : Fin n) :
    h.isFinite = true ∧ (f t y i).isFinite = true :=
  isFinite_of_mul (isFinite_stages htol he i).2

theorem vanishes_errorRK2 (f : Rhs n) (t : Float) (y : Vec n) (hh : Vanishes h) : Vanishes (errorRK2 f t y h) := by
  have hk1 : ∀ i, Vanishes (k1 f t y h i) := fun i => vanishes_mul hh _
  have hdiff2 : ∀ i, Vanishes (subtractVectors (k2 f t y h) (k1 f t y h) i) :=
    fun i => vanishes_sub (vanishes_mul hh _) (hk1 i)
  have hdiff3 : ∀ i, Vanishes (subtractVectors (hfNext f t y h) (k1 f t y h) i) :=
    fun i => vanishes_sub (vanishes_mul hh _) (hk1 i)
  rw [errorRK2]
  obtain heq | ⟨-, heq⟩ := stdMax_eq (norm (subtractVectors (k2 f t y h) (k1 f t y h)) / 4.0)
    (norm (subtractVectors (hfNext f t y h) (k1 f t y h)) / 6.0)
  · rw [heq]
    exact vanishes_div (vanishes_norm hdiff2) positive_four
  · rw [heq]
    exact vanishes_div (vanishes_norm hdiff3) positive_six

/-- the error of RK2 for a tiny h, when f is at most 2^b: its squares vanish unless b is large -/
def boundRK2 (n b : ℕ) : ℕ := if b ≤ 532 then 0 else 2 ^ (b + n + 12)

theorem atMost_normRK2 {a c : Vec n} {d : Float} (ha : ∀ i, AtMost (2 ^ (b + 3)) (a i))
    (hc : ∀ i, AtMost (2 ^ (b + 3)) (c i)) (hd : Positive d) (hd1 : 2 ^ 1074 ≤ units d) :
    AtMost (boundRK2 n b) (norm (subtractVectors a c) / d) := by
  have hdiff : ∀ i, AtMost (2 ^ (b + 4)) (subtractVectors a c i) := fun i => atMost_sub (ha i) (hc i)
  rw [boundRK2]
  split_ifs with hb
  · exact atMost_zero_div (atMost_zero_norm (by omega) hdiff) hd (lt_of_lt_of_le (by positivity) hd1)
  · exact (atMost_div (r := b + 4 + n) (atMost_norm (by omega) hdiff) hd hd1 (by omega)).mono (two_pow_le (by omega))

theorem atMost_errorRK2 (hf : BoundedNear f b t y) (hh : AtMost 5 h) : AtMost (boundRK2 n b) (errorRK2 f t y h) := by
  have hb21 : AtMost (2 ^ 1074) b21 := by decide +kernel
  have hp1 : AtMost (2 ^ 1074) p1 := by decide +kernel
  have hp2 : AtMost (2 ^ 1074) p2 := by decide +kernel
  have hk1 : ∀ i, AtMost (2 ^ (b + 3)) (k1 f t y h i) :=
    fun i => atMost_stage hh (hf t y (Or.inl rfl) (fun _ => Or.inl rfl) i)
  have hk2 : ∀ i, AtMost (2 ^ (b + 3)) (k2 f t y h i) := fun i => by
    refine atMost_stage hh (hf t _ (Or.inl rfl) (fun j => Or.inr ⟨_, ?_, rfl⟩) i)
    exact (atMost_mul (r := b + 3) hb21 (hk1 j) (by omega)).mono (two_pow_le (by omega))
  have hk3 : ∀ i, AtMost (2 ^ (b + 3)) (hfNext f t y h i) := fun i => by
    refine atMost_stage hh (hf _ _ (Or.inr ⟨h, ?_, rfl⟩) (fun j => Or.inr ⟨_, ?_, rfl⟩) i)
    · exact (AtMost.step hh).mono (two_pow_le (by omega))
    · have hsum := atMost_add (atMost_mul (r := b + 3) hp1 (hk1 j) (by omega))
        (atMost_mul (r := b + 3) hp2 (hk2 j) (by omega))
      exact hsum.mono (two_pow_le (by omega))
  rw [errorRK2]
  obtain heq | ⟨-, heq⟩ := stdMax_eq (norm (subtractVectors (k2 f t y h) (k1 f t y h)) / 4.0)
    (norm (subtractVectors (hfNext f t y h) (k1 f t y h)) / 6.0)
  · rw [heq]
    exact atMost_normRK2 hk2 hk1 positive_four (by decide +kernel)
  · rw [heq]
    exact atMost_normRK2 hk3 hk1 positive_six (by decide +kernel)

theorem scaled_nextRK2 (hpow : PowLaws pow) (htol : NonNeg tolerance) (hf : BoundedNear f b t y)
    (hnan : (errorRK2 f t y h).isNaN = false) {h' : Float} (hnext : nextRK2 pow f tolerance t y h = some h') :
    Scaled tolerance (boundRK2 n b) (fun _ : Unit => h) (fun _ => h') (errorRK2 f t y h)
      (factor pow tolerance (errorRK2 f t y h)) := by
  rw [nextRK2] at hnext
  split_ifs at hnext with he
  cases hnext
  have habove := lt_of_not_le (nonNeg_errorRK2 hnan) htol he
  exact {
    eq := fun _ => rfl
    above := habove
    shrinks := shrinks_factor hpow htol habove
    halves := halves_factor hpow htol habove
    vanishes := fun hh => vanishes_errorRK2 f t y (hh ())
    small := fun hh => atMost_errorRK2 hf (hh ()) }

/-- **RK2.** With a tolerance that is 0 or not too small the retries stop, if the first estimate is never NaN. -/
theorem stopsRK2 (hpow : PowLaws pow) (htol : NonNeg tolerance)
    (hsize : units tolerance = 0 ∨ boundRK2 n b ≤ units tolerance) (hf : BoundedNear f b t y)
    (hh : h.isFinite = true)
    (hk : ∀ h', h'.abs ≤ h.abs → ∀ i, (subtractVectors (k2 f t y h') (k1 f t y h') i).isNaN = false) :
    Stops (nextRK2 pow f tolerance t y) h := by
  refine stops_of_rank (fun h' => ∑ _i : Unit, units h') (I := fun h' => h'.isFinite = true ∧ units h' ≤ units h)
    ⟨hh, le_rfl⟩ ?_
  intro s s' ⟨hs, hle⟩ hnext
  have hscaled := scaled_nextRK2 hpow htol hf (not_isNaN_errorRK2 (hk s ((abs_le_abs_iff hh).2 ⟨hs, hle⟩))) hnext
  obtain ⟨hall, hlt⟩ := hscaled.lower htol hsize fun _ => not_isInf hs
  refine ⟨⟨?_, (hall ()).2.trans hle⟩, hlt⟩
  rw [hscaled.eq ()]
  exact (units_mul_le_of_shrinks hscaled.shrinks hs).1

/-- a state that no attempt accepts -/
theorem not_stopsRK2 (hnever : ∀ h, ¬ errorRK2 f t y h ≤ tolerance) : ¬ Stops (nextRK2 pow f tolerance t y) h := by
  refine not_stops_of_forever (I := fun _ => True) trivial fun s _ => ?_
  rw [nextRK2, if_neg (hnever s)]
  exact ⟨_, rfl, trivial⟩

/-- NaN in the error makes the next h NaN, if `std::pow` keeps it -/
theorem isNaN_factor (hpow : ∀ x a, x.isNaN = true → (pow x a).isNaN = true) {e : Float} (he : e.isNaN = true) :
    (factor pow tolerance e).isNaN = true := by
  have hp : (0.9 * pow (tolerance / e) (1.0 / 3.0)).isNaN = true :=
    isNaN_mul_right _ (hpow _ _ (isNaN_div_right _ he))
  obtain heq | ⟨hlt, -⟩ := stdMax_eq (0.9 * pow (tolerance / e) (1.0 / 3.0)) 0.2
  · rw [factor, heq]
    exact hp
  · rw [(not_isNaN_of_lt hlt).1] at hp
    cases hp

/-- **NaN.** A first attempt with NaN in its error is never followed by an accepted one. -/
theorem not_stopsRK2_of_isNaN (hpow : ∀ x a, x.isNaN = true → (pow x a).isNaN = true)
    (htol : tolerance.isFinite = true) (i : Fin n) (he : (errorRK2 f t y h).isNaN = true) :
    ¬ Stops (nextRK2 pow f tolerance t y) h := by
  refine not_stops_of_forever (I := fun s => s = h ∨ s.isNaN = true) (Or.inl rfl) fun s hs => ?_
  obtain rfl | hs := hs
  · have hnever : ¬ errorRK2 f t y s ≤ tolerance := fun hle => by
      rw [(not_isNaN_of_le hle).1] at he
      cases he
    rw [nextRK2, if_neg hnever]
    exact ⟨_, rfl, Or.inr (isNaN_mul_right _ (isNaN_factor hpow he))⟩
  · have hnever : ¬ errorRK2 f t y s ≤ tolerance := fun hle => by
      rw [not_isNaN (isFinite_of_accepted htol hle i).1] at hs
      cases hs
    rw [nextRK2, if_neg hnever]
    exact ⟨_, rfl, Or.inr (isNaN_mul_left hs _)⟩

/-! ## DISPF -/

section DISPF

variable {pass : Float → Vec n → Except Float (Accepted n)} {first : Vec n} {G : Formula} {k : List (Vec n)}

/-- the retry of a step routine after a pass -/
def nextRetry (pow : Float → Float → Float) (tolerance : Float) (pass : Float → Vec n → Except Float (Accepted n))
    (s : Float × Vec n) : Option (Float × Vec n) :=
  match pass s.1 s.2 with
  | .ok _ => none
  | .error error => some (s.1 * shrink pow tolerance error, fun i => s.2 i * shrink pow tolerance error)

theorem retry_ends_iff :
    (∃ fuel, (retry pow tolerance pass fuel h first).isSome = true) ↔
      Stops (nextRetry pow tolerance pass) (h, first) := by
  refine stops_iff_fuel (p := id) (D := fun fuel s => (retry pow tolerance pass fuel s.1 s.2).isSome = true)
    (fun _ hd => by cases hd) ?_ ?_ (h, first)
  · intro fuel s hnext
    rw [id, nextRetry] at hnext
    rw [retry]
    cases hp : pass s.1 s.2 with
    | ok accepted => rfl
    | error e =>
      rw [hp] at hnext
      cases hnext
  · intro s s' hnext
    rw [id, nextRetry] at hnext
    cases hp : pass s.1 s.2 with
    | ok accepted =>
      rw [hp] at hnext
      cases hnext
    | error e =>
      rw [hp] at hnext
      cases hnext
      refine ⟨_, rfl, fun fuel => ?_⟩
      rw [retry, hp]

/-- h and the cached first stage -/
def numbers (s : Float × Vec n) : Option (Fin n) → Float
  | none => s.1
  | some i => s.2 i

/-- what sends a pass back is an error above the tolerance, that vanishes with h and the first stage, and is at most
`bound` units when these are tiny -/
structure Returns (tolerance : Float) (bound : ℕ) (pass : Float → Vec n → Except Float (Accepted n)) : Prop where
  above : ∀ {h first e}, pass h first = .error e → tolerance < e
  vanishes : ∀ {h first e}, pass h first = .error e → Vanishes h → (∀ i, Vanishes (first i)) → Vanishes e
  small : ∀ {h first e}, pass h first = .error e → AtMost 5 h → (∀ i, AtMost 5 (first i)) → AtMost bound e

/-- **DISPF.** With a tolerance that is 0 or not too small the retries stop, if the first stage has no infinity. -/
theorem stopsRetry {bound : ℕ} (hpow : PowLaws pow) (htol : NonNeg tolerance)
    (hsize : units tolerance = 0 ∨ bound ≤ units tolerance) (hpass : Returns tolerance bound pass)
    (hh : h.isInf = false) (hfirst : ∀ i, (first i).isInf = false) :
    Stops (nextRetry pow tolerance pass) (h, first) := by
  refine stops_of_rank (fun s => ∑ i, units (numbers s i)) (I := fun s => ∀ i, (numbers s i).isInf = false) ?_ ?_
  · rintro (_ | i)
    · exact hh
    · exact hfirst i
  · intro s s' hs hnext
    rw [nextRetry] at hnext
    cases hp : pass s.1 s.2 with
    | ok accepted =>
      rw [hp] at hnext
      cases hnext
    | error e =>
      rw [hp] at hnext
      cases hnext
      have habove := hpass.above hp
      have hscaled : Scaled tolerance bound (numbers s)
          (numbers (s.1 * shrink pow tolerance e, fun i => s.2 i * shrink pow tolerance e)) e
          (shrink pow tolerance e) := {
        eq := by rintro (_ | i) <;> rfl
        above := habove
        shrinks := shrinks_shrink pow tolerance e
        halves := halves_shrink hpow htol habove
        vanishes := fun hw => hpass.vanishes hp (hw none) fun i => hw (some i)
        small := fun hw => hpass.small hp (hw none) fun i => hw (some i) }
      obtain ⟨hall, hlt⟩ := hscaled.lower htol hsize hs
      exact ⟨fun i => (hall i).1, hlt⟩

/-! ### The stages of a tiny step -/

theorem atMost_weightedSum {w : List Float} (hw : ∀ c ∈ w, AtMost (2 ^ 1077) c) (hlength : w.length ≤ 6)
    {i : Fin n} (hk : ∀ v ∈ k, AtMost (2 ^ (b + 3)) (v i)) : AtMost (2 ^ (b + 12)) (weightedSum w k i) := by
  have hsum : ∀ (l : List (Float × Vec n)) (r : ℕ) (a : Float), (∀ p ∈ l, AtMost (2 ^ 1077) p.1 ∧
      AtMost (2 ^ (b + 3)) (p.2 i)) → b + 6 ≤ r → AtMost (2 ^ r) a →
      AtMost (2 ^ (r + l.length)) (l.foldl (fun sum p => sum + p.1 * p.2 i) a) := by
    intro l
    induction l with
    | nil => exact fun r a _ _ ha => ha
    | cons p l ih =>
      intro r a hl hr ha
      obtain ⟨hp, hl⟩ := List.forall_mem_cons.1 hl
      have hterm : AtMost (2 ^ r) (p.1 * p.2 i) := atMost_mul hp.1 hp.2 (by omega)
      have hrest := ih (r + 1) _ hl (by omega) (atMost_add ha hterm)
      rwa [List.length_cons, Nat.add_comm l.length, ← Nat.add_assoc]
  have htotal := hsum (w.zip k) (b + 6) 0.0
    (fun p hp => ⟨hw _ (List.of_mem_zip hp).1, hk _ (List.of_mem_zip hp).2⟩) le_rfl (fun _ => Nat.zero_le _)
  refine htotal.mono (two_pow_le ?_)
  have hzip : (w.zip k).length ≤ w.length := by
    rw [List.length_zip]
    exact min_le_left _ _
  omega

theorem vanishes_weightedSum (w : List Float) {i : Fin n} (hk : ∀ v ∈ k, Vanishes (v i)) :
    Vanishes (weightedSum w k i) := by
  refine List.foldlRecOn _ _ vanishes_zero fun sum hsum p hp => ?_
  exact vanishes_add hsum (vanishes_mul' (hk _ (List.of_mem_zip hp).2) _)

/-- the entries of the table are at most 8, and its times at most 1 -/
theorem rows_le : ∀ row ∈ rows, AtMost (2 ^ 1074) row.1 ∧ (∀ c ∈ row.2, AtMost (2 ^ 1077) c) ∧ row.2.length ≤ 6 := by
  decide +kernel

theorem near_time {c : Float} (hc : AtMost (2 ^ 1074) c) (hh : AtMost 5 h) : Near (2 ^ (b + 12)) t (t + c * h) := by
  refine Or.inr ⟨_, ?_, rfl⟩
  exact (atMost_mul (r := 3) hc (AtMost.step hh) (by omega)).mono (two_pow_le (by omega))

theorem atMost_nextStage (hf : BoundedNear f b t y) (hh : AtMost 5 h) {row : Float × List Float} (hrow : row ∈ rows)
    (hk : ∀ v ∈ k, ∀ i, AtMost (2 ^ (b + 3)) (v i)) :
    ∀ v ∈ nextStage f t y h k row, ∀ i, AtMost (2 ^ (b + 3)) (v i) := by
  obtain ⟨htime, hcoefs, hlength⟩ := rows_le row hrow
  intro v hv i
  rw [nextStage, List.mem_append, List.mem_singleton] at hv
  obtain hv | rfl := hv
  · exact hk v hv i
  · have hpoint := hf (t + row.1 * h) (fun j => y j + weightedSum row.2 k j) (near_time htime hh)
      (fun j => Or.inr ⟨_, atMost_weightedSum hcoefs hlength fun v hv => hk v hv j, rfl⟩) i
    exact atMost_mul hpoint (AtMost.step hh) (by omega)

theorem atMost_stages (hf : BoundedNear f b t y) (hh : AtMost 5 h) {rs : List (Float × List Float)}
    (hrs : ∀ row ∈ rs, row ∈ rows) (hk : ∀ v ∈ k, ∀ i, AtMost (2 ^ (b + 3)) (v i)) :
    ∀ v ∈ rs.foldl (nextStage f t y h) k, ∀ i, AtMost (2 ^ (b + 3)) (v i) := by
  induction rs generalizing k with
  | nil => exact hk
  | cons row rs ih =>
    obtain ⟨hrow, hrs⟩ := List.forall_mem_cons.1 hrs
    exact ih hrs (atMost_nextStage hf hh hrow hk)

theorem vanishes_stages (hh : Vanishes h) (rs : List (Float × List Float)) (hk : ∀ v ∈ k, ∀ i, Vanishes (v i)) :
    ∀ v ∈ rs.foldl (nextStage f t y h) k, ∀ i, Vanishes (v i) := by
  induction rs generalizing k with
  | nil => exact hk
  | cons row rs ih =>
    refine ih fun v hv i => ?_
    rw [nextStage, List.mem_append, List.mem_singleton] at hv
    obtain hv | rfl := hv
    · exact hk v hv i
    · exact vanishes_mul' hh _

/-! ### The estimates -/

/-- the two formulas that share their passes -/
def IsFormula (G : Formula) : Prop := G = formulaA ∨ G = formulaB

theorem positive_coef (hG : IsFormula G) : Positive G.coef := by
  obtain rfl | rfl := hG
  · exact positive_iff.2 ⟨by decide +kernel, by decide +kernel⟩
  · exact positive_iff.2 ⟨by decide +kernel, by decide +kernel⟩

theorem atMost_coef (hG : IsFormula G) : AtMost (2 ^ 1075) G.coef := by
  obtain rfl | rfl := hG
  · decide +kernel
  · decide +kernel

theorem weights_le (hG : IsFormula G) : (∀ c ∈ G.weights, AtMost (2 ^ 1077) c) ∧ G.weights.length ≤ 6 := by
  obtain rfl | rfl := hG
  · exact ⟨by decide +kernel, by decide⟩
  · exact ⟨by decide +kernel, by decide⟩

theorem atMost_firstTerm (hG : IsFormula G) {x : Float} (hx : AtMost 5 x) : AtMost (2 ^ 4) (G.firstTerm x) := by
  have hquarter : AtMost (2 ^ 3) (1.0 / 4.0 * x) :=
    atMost_mul (p := 1074) (by decide +kernel) (AtMost.step hx) (by omega)
  obtain rfl | rfl := hG
  · exact atMost_add (fun _ => Nat.zero_le _) hquarter
  · exact hquarter.mono (by norm_num)

theorem atMost_second (hG : IsFormula G) (hf : BoundedNear f b t y) (hh : AtMost 5 h) (hfirst : ∀ i, AtMost 5 (first i))
    (i : Fin n) : AtMost (2 ^ (b + 3)) (second f t y G h first i) := by
  refine atMost_mul (hf _ _ (near_time (by decide +kernel) hh) (fun j => Or.inr ⟨_, ?_, rfl⟩) i)
    (AtMost.step hh) (by omega)
  exact (atMost_firstTerm hG (hfirst j)).mono (two_pow_le (by omega))

theorem atMost_first (hfirst : ∀ i, AtMost 5 (first i)) (i : Fin n) : AtMost (2 ^ (b + 3)) (first i) :=
  (AtMost.step (hfirst i)).mono (two_pow_le (by omega))

/-- an estimate is the largest difference of two stages, with a coefficient -/
theorem atMost_estimate (hG : IsFormula G) {a c : Vec n} (ha : ∀ i, AtMost (2 ^ (b + 3)) (a i))
    (hc : ∀ i, AtMost (2 ^ (b + 3)) (c i)) : AtMost (2 ^ (b + 12)) (largest (fun i => a i - c i) * G.coef) := by
  have hlargest := atMost_largest fun i => atMost_sub (ha i) (hc i)
  exact (atMost_mul (r := b + 5) hlargest (atMost_coef hG) (by omega)).mono (two_pow_le (by omega))

theorem vanishes_estimate {a c : Vec n} (ha : ∀ i, Vanishes (a i)) (hc : ∀ i, Vanishes (c i)) (x : Float) :
    Vanishes (largest (fun i => a i - c i) * x) :=
  vanishes_mul (vanishes_largest fun i => vanishes_sub (ha i) (hc i)) x

theorem atMost_fEnd (hG : IsFormula G) (hf : BoundedNear f b t y) (hh : AtMost 5 h) (hfirst : ∀ i, AtMost 5 (first i))
    (i : Fin n) : AtMost (2 ^ (b + 3)) (fEnd f t y G h first i * h) := by
  have hstages := atMost_stages (k := [first, second f t y G h first]) hf hh
    (fun row (hrow : row ∈ rows.drop 1) => List.mem_of_mem_drop hrow) fun v hv j => by
      obtain rfl | hv := List.mem_cons.1 hv
      · exact atMost_first hfirst j
      · rw [List.mem_singleton.1 hv]
        exact atMost_second hG hf hh hfirst j
  refine atMost_mul (hf _ _ (Or.inr ⟨h, ?_, rfl⟩) (fun j => Or.inr ⟨_, ?_, rfl⟩) i) (AtMost.step hh) (by omega)
  · exact (AtMost.step hh).mono (two_pow_le (by omega))
  · exact atMost_weightedSum (weights_le hG).1 (weights_le hG).2 fun v hv => hstages v hv j

theorem passAB_error {e : Float} (he : passAB pow f tolerance t y G h first = .error e) :
    tolerance < e ∧ (e = early f t y G h first ∨ e = late f t y G h first) := by
  rw [passAB] at he
  split_ifs at he with hearly hlate
  · cases he
    exact ⟨hearly, Or.inl rfl⟩
  · cases he
    exact ⟨hlate, Or.inr rfl⟩

theorem returnsAB (hG : IsFormula G) (hf : BoundedNear f b t y) :
    Returns tolerance (2 ^ (b + 12)) (passAB pow f tolerance t y G) where
  above he := (passAB_error he).1
  vanishes he hh hfirst := by
    obtain ⟨-, rfl | rfl⟩ := passAB_error he
    · exact vanishes_estimate (fun i => vanishes_mul' hh _) hfirst _
    · exact vanishes_estimate (fun i => vanishes_mul' hh _) hfirst _
  small he hh hfirst := by
    obtain ⟨-, rfl | rfl⟩ := passAB_error he
    · exact atMost_estimate hG (atMost_second hG hf hh hfirst) (atMost_first hfirst)
    · exact atMost_estimate hG (atMost_fEnd hG hf hh hfirst) (atMost_first hfirst)

theorem passC_error {e : Float} (he : passC pow f tolerance t y h first = .error e) :
    tolerance < e ∧ e = embedded f t y h first := by
  rw [passC] at he
  split_ifs at he with hlt
  cases he
  exact ⟨hlt, rfl⟩

theorem returnsC (hf : BoundedNear f b t y) : Returns tolerance (2 ^ (b + 12)) (passC pow f tolerance t y) where
  above he := (passC_error he).1
  vanishes he hh hfirst := by
    obtain ⟨-, rfl⟩ := passC_error he
    refine vanishes_mul (vanishes_largest fun i => vanishes_weightedSum _ fun v hv => ?_) _
    refine vanishes_stages hh rows (fun v hv j => ?_) v hv i
    rw [List.mem_singleton.1 hv]
    exact hfirst j
  small he hh hfirst := by
    obtain ⟨-, rfl⟩ := passC_error he
    have hstages := atMost_stages (k := [_]) hf hh (fun row (hrow : row ∈ rows) => hrow) fun v hv j => by
      rw [List.mem_singleton.1 hv]
      exact atMost_first hfirst j
    have hlargest := atMost_largest fun i => atMost_weightedSum (i := i)
      (w := List.zipWith (· - ·) P36 P4) (by decide +kernel) (by decide) fun v hv => hstages v hv i
    exact atMost_mul (q := 1074) hlargest (by decide +kernel) (by omega)

/-! ### Tolerances below 0 -/

theorem not_stopsRetry (hnever : ∀ h first, ∃ e, pass h first = .error e) :
    ¬ Stops (nextRetry pow tolerance pass) (h, first) := by
  refine not_stops_of_forever (I := fun _ => True) trivial fun s _ => ?_
  obtain ⟨e, he⟩ := hnever s.1 s.2
  rw [nextRetry, he]
  exact ⟨_, rfl, trivial⟩

theorem passAB_negative (hG : IsFormula G) (htol : tolerance.isFinite = true) (hneg : ¬ NonNeg tolerance) (h : Float)
    (first : Vec n) : ∃ e, passAB pow f tolerance t y G h first = .error e := by
  have hlt : tolerance < early f t y G h first :=
    lt_of_negative (nonNeg_mul (nonNeg_largest _) (positive_coef hG)) (not_isNaN htol) hneg
  exact ⟨_, if_pos hlt⟩

theorem passC_negative (htol : tolerance.isFinite = true) (hneg : ¬ NonNeg tolerance) (h : Float) (first : Vec n) :
    ∃ e, passC pow f tolerance t y h first = .error e := by
  have hcoef : Positive (17.0 / 24.0) := positive_iff.2 ⟨by decide +kernel, by decide +kernel⟩
  have hlt : tolerance < embedded f t y h first :=
    lt_of_negative (nonNeg_mul (nonNeg_largest _) hcoef) (not_isNaN htol) hneg
  exact ⟨_, if_pos hlt⟩

end DISPF

end OdeClientServer.Doubles
