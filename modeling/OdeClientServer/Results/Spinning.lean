/-
Which requests keep a call of `Step` of RK2 or DISPF in its retries forever, in doubles.

- `proper_of_ends`: no call comes to an end with a tolerance below 0, and no call of RK2 at a point where the right-hand
  side is infinite or NaN. The test of the retries is never met there.
- `calls_end_iff`: where the proper calls of a request meet no overflow, and its tolerance is 0 or not among the
  smallest doubles, every call of the run ends exactly if all are proper. RK2 needs no lower bound of the tolerance when
  the right-hand side is at most 2^532 about the point. DISPF does: with a tolerance of a few units a retry may leave h
  and the first stage as they are (`vanDerPol_stalls`). After an overflow RK2 may retry with NaN
  (`vanDerPol_overflows`).
- `ordinary_vanDerPol`: the conditions hold of VanDerPol with moderate numbers.
-/
import OdeClientServer.Results.DoubleRetries

namespace OdeClientServer.Doubles

open Double Retry

variable {n b : ℕ} {pow : Float → Float → Float} {f : Rhs n} {tolerance tEnd t h : Float} {y : Vec n} {c : Call n}

/-- the call comes to an end -/
def Ends (pow : Float → Float → Float) (f : Rhs n) (tolerance : Float) (c : Call n) : Prop :=
  match c.routine with
  | .RK2 => ∃ fuel, (stepRK2 pow f tolerance c.t c.y fuel c.h).isSome = true
  | .DISPF method first => ∃ fuel, (stepDISPF pow f tolerance c.t c.y method fuel c.h first).isSome = true

/-- the tolerance is not below 0, and RK2 has a finite right-hand side at the point of the step -/
def Proper (f : Rhs n) (tolerance : Float) (c : Call n) : Prop :=
  match c.routine with
  | .RK2 => (0.0 : Float) ≤ tolerance ∧ ∀ i, (f c.t c.y i).isFinite = true
  | .DISPF _ _ => (0.0 : Float) ≤ tolerance

/-- no overflow reaches the tests of the retries: for no h up to the first one is the difference of the stages of RK2
NaN, and the first stage of DISPF has no infinity -/
def Clear (f : Rhs n) (c : Call n) : Prop :=
  match c.routine with
  | .RK2 => ∀ h, h.abs ≤ c.h.abs → ∀ i, (k2 f c.t c.y h i - k1 f c.t c.y h i).isNaN = false
  | .DISPF .DISPFC _ => ∀ i, (f c.t c.y i * c.h).isInf = false
  | .DISPF _ first => ∀ i, (first i).isInf = false

/-- what the error of a step of a few units can come to when f is at most 2^b, in units -/
def tinyError (b : ℕ) (c : Call n) : ℕ :=
  match c.routine with
  | .RK2 => boundRK2 n b
  | .DISPF _ _ => 2 ^ (b + 12)

/-- a call with a finite h that meets no overflow, and whose tolerance is 0 or not among the smallest doubles -/
structure Ordinary (f : Rhs n) (tolerance : Float) (c : Call n) : Prop where
  finite : c.h.isFinite = true
  clear : Clear f c
  tolerance : ∃ b, BoundedNear f b c.t c.y ∧ (units tolerance = 0 ∨ tinyError b c ≤ units tolerance)

/-! ## Necessary -/

theorem proper_of_endsRK2 (htol : tolerance.isFinite = true)
    (hends : ∃ fuel, (stepRK2 pow f tolerance t y fuel h).isSome = true) :
    (0.0 : Float) ≤ tolerance ∧ ∀ i, (f t y i).isFinite = true := by
  by_contra hproper
  refine not_stopsRK2 (fun h' he => hproper ?_) (stepRK2_ends_iff.1 hends)
  have hnonneg := nonNeg_errorRK2 (not_isNaN_of_le he).1
  refine ⟨nonNeg_iff.1 ?_, fun i => (isFinite_of_accepted htol he i).2⟩
  by_contra hneg
  exact not_le_of_negative hnonneg hneg he

theorem nonneg_of_endsDISPF {method : Method} {first : Vec n} (htol : tolerance.isFinite = true)
    (hends : ∃ fuel, (stepDISPF pow f tolerance t y method fuel h first).isSome = true) :
    (0.0 : Float) ≤ tolerance := by
  by_contra hneg
  rw [← nonNeg_iff] at hneg
  cases method with
  | DISPFA => exact not_stopsRetry (passAB_negative (Or.inl rfl) htol hneg) (retry_ends_iff.1 hends)
  | DISPFB => exact not_stopsRetry (passAB_negative (Or.inr rfl) htol hneg) (retry_ends_iff.1 hends)
  | DISPFC => exact not_stopsRetry (passC_negative htol hneg) (retry_ends_iff.1 hends)

/-- **Necessary.** No call comes to an end with a tolerance below 0, and no call of RK2 at a point where the right-hand
side is not finite. -/
theorem proper_of_ends (htol : tolerance.isFinite = true) (hends : Ends pow f tolerance c) : Proper f tolerance c := by
  obtain ⟨t, y, h, _ | ⟨method, first⟩⟩ := c
  · exact proper_of_endsRK2 htol hends
  · exact nonneg_of_endsDISPF htol hends

/-! ## Sufficient -/

theorem ends_of_proper (hpow : PowLaws pow) (hc : Ordinary f tolerance c) (hproper : Proper f tolerance c) :
    Ends pow f tolerance c := by
  obtain ⟨hh, hclear, b, hf, hsize⟩ := hc
  obtain ⟨t, y, h, _ | ⟨method, first⟩⟩ := c
  · exact stepRK2_ends_iff.2 (stopsRK2 hpow (nonNeg_iff.2 hproper.1) hsize hf hh hclear)
  · have htol := nonNeg_iff.2 hproper
    cases method with
    | DISPFA => exact retry_ends_iff.2 (stopsRetry hpow htol hsize (returnsAB (Or.inl rfl) hf) (not_isInf hh) hclear)
    | DISPFB => exact retry_ends_iff.2 (stopsRetry hpow htol hsize (returnsAB (Or.inr rfl) hf) (not_isInf hh) hclear)
    | DISPFC => exact retry_ends_iff.2 (stopsRetry hpow htol hsize (returnsC hf) (not_isInf hh) hclear)

/-- **Spinning.** If every call of `Step` of a request comes to an end, all are proper. Where the proper calls meet no
overflow, and the tolerance is 0 or not among the smallest doubles, that is all it takes. -/
theorem calls_end_iff (hpow : PowLaws pow) (htol : tolerance.isFinite = true) (switch : Call n → Method)
    (start : Call n) :
    ((∀ c, Called pow f tolerance tEnd switch start c → Ends pow f tolerance c) →
      ∀ c, Called pow f tolerance tEnd switch start c → Proper f tolerance c) ∧
    ((∀ c, Called pow f tolerance tEnd switch start c → Proper f tolerance c → Ordinary f tolerance c) →
      ((∀ c, Called pow f tolerance tEnd switch start c → Ends pow f tolerance c) ↔
        ∀ c, Called pow f tolerance tEnd switch start c → Proper f tolerance c)) := by
  have hnecessary : (∀ c, Called pow f tolerance tEnd switch start c → Ends pow f tolerance c) →
      ∀ c, Called pow f tolerance tEnd switch start c → Proper f tolerance c := by
    intro hends c hc
    exact proper_of_ends htol (hends c hc)
  refine ⟨hnecessary, fun hordinary => ⟨hnecessary, ?_⟩⟩
  intro hproper c hc
  exact ends_of_proper hpow (hordinary c hc (hproper c hc)) (hproper c hc)

/-! ## VanDerPol -/

section VanDerPol

variable {mu p : Float} {u : Vec 2} {a m d : ℕ}

/-- mu is at most 2^m and p at least 2^-d -/
structure Moderate (m d : ℕ) (mu p : Float) : Prop where
  mu : Within (1074 + m) mu
  pos : Positive p
  divisor : ∃ q, 1074 ≤ q + d ∧ 2 ^ q ≤ units p

theorem within_vanDerPol (hp : Moderate m d mu p) (hu : ∀ i, Within (1074 + a) (u i))
    (hsize : 3 * a + m + d + 2 < 1024) (t : Float) (i : Fin 2) :
    Within (1074 + (3 * a + m + d + 2)) (vanDerPol mu p t u i) := by
  fin_cases i
  · exact (hu 1).mono (by omega)
  · obtain ⟨q, hq, hpq⟩ := hp.divisor
    have hone : Within (1074 + 2 * a) 1.0 := Within.mono (p := 1074) (by decide +kernel) (by omega)
    have hsquare : Within (1074 + 2 * a) (u 0 * u 0) := within_mul (hu 0) (hu 0) (by omega) (by omega)
    have hdamping : Within (1074 + 2 * a + 1) (1.0 - u 0 * u 0) := within_sub hone hsquare (by omega)
    have hmu : Within (1074 + 2 * a + 1 + m) (mu * (1.0 - u 0 * u 0)) :=
      within_mul hp.mu hdamping (by omega) (by omega)
    have hspeed : Within (1074 + (3 * a + m + 1)) (mu * (1.0 - u 0 * u 0) * u 1) :=
      within_mul hmu (hu 1) (by omega) (by omega)
    have hforce := within_sub hspeed ((hu 0).mono (by omega)) (by omega)
    exact within_div hforce hp.pos hpq (by omega) (by omega)

theorem atMost_vanDerPol (hp : Moderate m d mu p) (hu : ∀ i, AtMost (2 ^ (1074 + a)) (u i))
    (hsize : 3 * a + m + d + 2 < 1024) (t : Float) (i : Fin 2) :
    AtMost (2 ^ (1074 + (3 * a + m + d + 2))) (vanDerPol mu p t u i) := by
  fin_cases i
  · exact (hu 1).mono (two_pow_le (by omega))
  · intro hf
    -- a finite value comes from finite components
    obtain ⟨hspeed, h0⟩ := isFinite_of_sub (isFinite_of_div hp.pos hf)
    have h1 := (isFinite_of_mul hspeed).2
    have hall : ∀ i, Within (1074 + a) (u i) := fun i => by
      fin_cases i
      · exact (hu 0).within h0
      · exact (hu 1).within h1
    exact (within_vanDerPol hp hall hsize t 1).2

theorem atMost_near {x x' : Float} {r : ℕ} (hx : AtMost (2 ^ r) x) (hnear : Near (2 ^ r) x x') :
    AtMost (2 ^ (r + 1)) x' := by
  obtain rfl | ⟨d, hd, rfl⟩ := hnear
  · exact hx.mono (two_pow_le (by omega))
  · exact atMost_add hx hd

/-- VanDerPol is bounded about a point -/
theorem boundedNear_vanDerPol (hp : Moderate m d mu p) (hu : ∀ i, Within (1074 + a) (u i))
    (hsize : 3 * a + m + d + 5 < 1024) (t : Float) :
    BoundedNear (vanDerPol mu p) (3 * a + m + d + 5) t u := by
  intro t' u' _ hnear i
  have hu' : ∀ i, AtMost (2 ^ (1074 + (a + 1))) (u' i) := fun i => by
    refine atMost_near (r := 1074 + a) (hu i).atMost ?_
    obtain heq | ⟨d, hd, heq⟩ := hnear i
    · exact Or.inl heq
    · exact Or.inr ⟨d, hd.mono (two_pow_le (by omega)), heq⟩
  exact (atMost_vanDerPol hp hu' (by omega) t' i).mono (two_pow_le (by omega))

/-- and a step of a length up to 1 does not overflow -/
theorem clear_vanDerPol (hp : Moderate m d mu p) (hu : ∀ i, Within (1074 + a) (u i))
    (hsize : 9 * a + 4 * m + 4 * d + 12 < 1023) (hh : Within 1074 h) (t : Float) :
    Clear (vanDerPol mu p) ⟨t, u, h, .RK2⟩ := by
  intro h' hle i
  obtain ⟨hf', hunits⟩ := (abs_le_abs_iff hh.1).1 hle
  have hh' : Within 1074 h' := ⟨hf', hunits.trans hh.2⟩
  have hk1 : ∀ i, Within (1074 + (3 * a + m + d + 2)) (k1 (vanDerPol mu p) t u h' i) :=
    fun i => within_mul hh' (within_vanDerPol hp hu (by omega) t i) (by omega) (by omega)
  have hb21 : Within 1074 b21 := by decide +kernel
  have hpoint : ∀ i, Within (1074 + (3 * a + m + d + 3))
      (addVectors u (multiplyScalarByVector b21 (k1 (vanDerPol mu p) t u h')) i) :=
    fun i => within_add (r := 1074 + (3 * a + m + d + 2)) ((hu i).mono (by omega))
      (within_mul hb21 (hk1 i) (by omega) (by omega)) (by omega)
  have hk2 : Within (1074 + (9 * a + 4 * m + 4 * d + 11)) (k2 (vanDerPol mu p) t u h' i) :=
    within_mul hh' (within_vanDerPol hp hpoint (by omega) t i) (by omega) (by omega)
  exact not_isNaN (within_sub hk2 ((hk1 i).mono (by omega)) (by omega)).1

/-- a call of RK2 on VanDerPol with moderate numbers is ordinary, whatever the tolerance -/
theorem ordinary_vanDerPol (hp : Moderate m d mu p) (hu : ∀ i, Within (1074 + a) (u i))
    (hsize : 9 * a + 4 * m + 4 * d + 12 < 527) (hh : Within 1074 h) (t tolerance : Float) :
    Ordinary (vanDerPol mu p) tolerance ⟨t, u, h, .RK2⟩ where
  finite := hh.1
  clear := clear_vanDerPol hp hu (by omega) hh t
  tolerance := by
    refine ⟨_, boundedNear_vanDerPol hp hu (by omega) t, Or.inr ?_⟩
    rw [tinyError, boundRK2, if_pos (by omega)]
    exact Nat.zero_le _

end VanDerPol

/-! ## Requests -/

/-- the fuel does not matter to what a step returns -/
theorem stepRK2_unique {fuel fuel' : ℕ} {r r' : Vec n × Float} (hr : stepRK2 pow f tolerance t y fuel h = some r)
    (hr' : stepRK2 pow f tolerance t y fuel' h = some r') : r = r' := by
  induction fuel generalizing fuel' h with
  | zero => cases hr
  | succ fuel ih =>
    cases fuel' with
    | zero => cases hr'
    | succ fuel' =>
      rw [stepRK2] at hr hr'
      split_ifs at hr hr' with he
      · cases hr
        cases hr'
        rfl
      · exact ih hr hr'

/-- `std::pow` where the request below calls it: the cube roots of 0.878..., 1.182... and 27.209... -/
def cubeRoot (x _a : Float) : Float :=
  if (x == 0.0) = true then 0.0
  else if x ≤ 1.0 then 0.9577066427574703
  else if x ≤ 2.0 then 1.0574239928672962
  else 3.0077570022168754

theorem powLaws_cubeRoot : PowLaws cubeRoot where
  zero x a hx _ _ := if_pos hx
  unit x a hx0 hx1 _ _ := by
    rw [cubeRoot]
    split_ifs
    · exact ⟨by decide +kernel, by decide +kernel⟩
    · exact ⟨by decide +kernel, by decide +kernel⟩

theorem moderate_one : Moderate 0 0 1.0 1.0 where
  mu := by decide +kernel
  pos := positive_iff.2 ⟨rfl, by decide +kernel⟩
  divisor := ⟨1074, le_rfl, units_one.ge⟩

/-- the second call of the request below -/
def secondCall : Call 2 :=
  ⟨0.00014765194900186407, ![1.9999999759289504, -0.00031022473910448714], 0.00018 - 0.00014765194900186407, .RK2⟩

/-- the first step needs two attempts, and the second one passes tEnd -/
theorem called_vanDerPol {c : Call 2} (hc : Called cubeRoot (vanDerPol 1.0 1.0) 3e-8 0.00018 (fun _ => .DISPFA)
    (startRK2 0.0 ![2.0, 0.0] 0.00018) c) : c = startRK2 0.0 ![2.0, 0.0] 0.00018 ∨ c = secondCall := by
  have hfirst : stepRK2 cubeRoot (vanDerPol 1.0 1.0) 3e-8 0.0 ![2.0, 0.0] 2 (stdMin initialStep (0.00018 - 0.0)) =
      some (![1.9999999759289504, -0.00031022473910448714], 0.00014765194900186407) := by decide +kernel
  have hsecond : stepRK2 cubeRoot (vanDerPol 1.0 1.0) 3e-8 0.00014765194900186407
      ![1.9999999759289504, -0.00031022473910448714] 1 (0.00018 - 0.00014765194900186407) =
      some (![1.9999999648478752, -0.0003748875969356593], 8.756556920794076e-05) := by decide +kernel
  induction hc with
  | first _ => exact Or.inl rfl
  | next _ hfollows ih =>
    obtain rfl | rfl := ih
    · cases hfollows with
      | RK2 hstep hlt =>
        cases stepRK2_unique hfirst hstep
        have ht : (0.0 : Float) + 0.00014765194900186407 = 0.00014765194900186407 := by decide +kernel
        have hh : stdMin 0.00014765194900186407 (0.00018 - 0.00014765194900186407) =
          0.00018 - 0.00014765194900186407 := if_pos (by decide +kernel)
        rw [secondCall, ht, hh]
        exact Or.inr rfl
    · cases hfollows with
      | RK2 hstep hlt =>
        cases stepRK2_unique hsecond hstep
        exact absurd hlt (by decide +kernel)

/-- a request with a rejected attempt comes to its end -/
theorem vanDerPol_ends : ¬ ∃ c, Called cubeRoot (vanDerPol 1.0 1.0) 3e-8 0.00018 (fun _ => .DISPFA)
    (startRK2 0.0 ![2.0, 0.0] 0.00018) c ∧ ¬ Ends cubeRoot (vanDerPol 1.0 1.0) 3e-8 c := by
  have hproper : ∀ c, Called cubeRoot (vanDerPol 1.0 1.0) 3e-8 0.00018 (fun _ => .DISPFA)
      (startRK2 0.0 ![2.0, 0.0] 0.00018) c → Proper (vanDerPol 1.0 1.0) 3e-8 c := fun c hc => by
    obtain rfl | rfl := called_vanDerPol hc
    · exact ⟨by decide +kernel, by decide +kernel⟩
    · exact ⟨by decide +kernel, by decide +kernel⟩
  rintro ⟨c, hc, hends⟩
  refine hends (((calls_end_iff powLaws_cubeRoot (by decide +kernel) _ _).2 fun c hc _ => ?_).2 hproper c hc)
  obtain rfl | rfl := called_vanDerPol hc
  · exact ordinary_vanDerPol (a := 1) moderate_one (by decide +kernel) (by norm_num) (by decide +kernel) _ _
  · exact ordinary_vanDerPol (a := 1) moderate_one (by decide +kernel) (by norm_num) (by decide +kernel) _ _

/-- no step ends with a tolerance of -1, by whatever formula DISPF goes on, nor a step of RK2 with p = 0 -/
theorem vanDerPol_spins : ¬ ∃ pow switch,
    (∀ c, Called pow (vanDerPol 0.0 1.0) (-1.0) 1.0 switch (startRK2 0.0 ![1.0, 0.0] 1.0) c →
      Ends pow (vanDerPol 0.0 1.0) (-1.0) c) ∨
    (∀ c, Called pow (vanDerPol 0.0 1.0) (toleranceDISPF (-1.0)) 1.0 switch
      (startDISPF 0.0 ![1.0, 0.0] 1.0 .DISPFA) c → Ends pow (vanDerPol 0.0 1.0) (toleranceDISPF (-1.0)) c) ∨
    (∀ c, Called pow (vanDerPol 0.0 0.0) 0.001 1.0 switch (startRK2 0.0 ![1.0, 0.0] 1.0) c →
      Ends pow (vanDerPol 0.0 0.0) 0.001 c) := by
  have hneg : ¬ (0.0 : Float) ≤ -1.0 := by decide +kernel
  have hinfinite : (vanDerPol 0.0 0.0 0.0 ![1.0, 0.0] 1).isFinite = false := by decide +kernel
  have hlt : (0.0 : Float) < 1.0 := by decide +kernel
  rintro ⟨pow, switch, hrk2 | hdispf | hzero⟩
  · exact hneg (proper_of_ends (by decide +kernel) (hrk2 _ (.first hlt))).1
  · have hneg' : ¬ (0.0 : Float) ≤ toleranceDISPF (-1.0) := by decide +kernel
    exact hneg' (proper_of_ends (by decide +kernel) (hdispf _ (.first hlt)))
  · have hfinite := (proper_of_ends (by decide +kernel) (hzero _ (.first hlt))).2 1
    rw [startRK2, hinfinite] at hfinite
    cases hfinite

/-- the condition on overflow is not idle: here (1 - y0^2) overflows in the second stage, and mu is 0 -/
theorem vanDerPol_overflows : Proper (vanDerPol 0.0 1.0) 1.0 (startRK2 0.0 ![1.0, 1e160] 1.0) ∧
    ¬ ∃ pow : Float → Float → Float, (∀ x a, x.isNaN = true → (pow x a).isNaN = true) ∧
      Ends pow (vanDerPol 0.0 1.0) 1.0 (startRK2 0.0 ![1.0, 1e160] 1.0) := by
  refine ⟨⟨by decide +kernel, by decide +kernel⟩, ?_⟩
  rintro ⟨pow, hpow, hends⟩
  exact not_stopsRK2_of_isNaN hpow (by decide +kernel) 0 (by decide +kernel) (stepRK2_ends_iff.1 hends)

/-- a retry that multiplies by 0.9 -/
theorem shrink_eq {e : Float} (hp : (0.9 : Float) ≤ pow (tolerance / e) (1.0 / 5.0)) :
    shrink pow tolerance e = 0.9 := by
  rw [shrink]
  generalize pow (tolerance / e) (1.0 / 5.0) = p at hp ⊢
  have hhalf : NonNeg (0.5 : Float) := trivial
  have hnine : NonNeg (0.9 : Float) := trivial
  have hp0 : NonNeg p := by
    by_contra hneg
    exact not_le_of_negative hnine hneg hp
  have hge := (le_iff_not_lt hnine hp0).1 hp
  have hlt : (0.5 : Float) < p := by
    rw [lt_iff_units hhalf hp0 rfl]
    obtain hpf | hinf := isFinite_or_isInf (not_isNaN_of_nonNeg hp0)
    · rw [lt_iff_units hp0 hnine hpf, not_or, not_lt] at hge
      exact Or.inr (lt_of_lt_of_le (by decide +kernel) hge.2)
    · exact Or.inl hinf
  rw [stdMax, if_pos hlt, stdMin, if_neg hge]

/-- the lower bound of the tolerance is not idle: with a tolerance of 8 units h stays at 3 units, since the fifth root
of 2/3 is above 0.9 -/
theorem vanDerPol_stalls : ¬ ∃ pow : Float → Float → Float, (0.9 : Float) ≤ pow (4e-323 / 6e-323) (1.0 / 5.0) ∧
    Ends pow (vanDerPol 0.0 1.0) 4e-323 ⟨0.0, ![0.0, 3.0], 1.5e-323, .DISPF .DISPFA fun _ => 0.0⟩ := by
  rintro ⟨pow, hp, hends⟩
  have hearly : early (vanDerPol 0.0 1.0) 0.0 ![0.0, 3.0] formulaA 1.5e-323 (fun _ => 0.0) = 6e-323 := by
    decide +kernel
  have hpass : passAB pow (vanDerPol 0.0 1.0) 4e-323 0.0 ![0.0, 3.0] formulaA 1.5e-323 (fun _ => 0.0) =
      .error 6e-323 := by
    rw [passAB, hearly, if_pos (by decide +kernel)]
  have hsame : (1.5e-323 : Float) * 0.9 = 1.5e-323 ∧ (0.0 : Float) * 0.9 = 0.0 :=
    ⟨by decide +kernel, by decide +kernel⟩
  refine not_stops_of_forever (I := fun s => s = (1.5e-323, fun _ => 0.0)) rfl ?_ (retry_ends_iff.1 hends)
  rintro s rfl
  refine ⟨_, ?_, rfl⟩
  rw [nextRetry]
  simp only [hpass, shrink_eq hp, hsame]

end OdeClientServer.Doubles
