/-
The stability intervals of the DISPS variants. On y' = λ y a step multiplies y by the stability function of its tableau
at h λ, a polynomial, and the length gamma stored with a variant says how far this factor stays bounded.

- `stable_iff_stability`: a stability interval is a bound of the polynomial on [-gamma, 0].
- `dispsVariant_stable_iff`: gamma is right for the variants with three and six stages and for no variant with five.
-/
import OdeClientServer.Core.PolyBound
import OdeClientServer.Solvers.Tableaux

namespace OdeClientServer.Stability

open RungeKutta Tableaux DISPSSolver

/-- the right-hand side of y' = λ y in one dimension -/
def linearRhs (lam : ℝ) : Rhs ℝ := ofField fun (_ : ℝ) (y : Fin 1 → ℝ) => lam • y

/-- **Stability interval.** On y' = λ y with λ ≤ 0 a step with h |λ| ≤ gamma enlarges |y| by a tenth at most. -/
def Stable (v : DispsVariant ℝ) : Prop :=
  ∀ lam t y h : ℝ, lam ≤ 0 → 0 < h → h * |lam| ≤ v.gamma →
    ∃ y', (·.1) <$> doOneStep (linearRhs lam) t [y] h v = .ok [y'] ∧ |y'| ≤ 1.1 * |y|

/-! ## The stability functions -/

section Functions

variable {s : ℕ} {T : Tableau s} {v : DispsVariant ℝ}

/-- one step on y' = λ y -/
theorem linear_step (hT : T.Explicit) (hs : Refines (dispsStep v) T) (lam t y h : ℝ) :
    (·.1) <$> doOneStep (linearRhs lam) t [y] h v = .ok [T.stability (h * lam) * y] := by
  obtain ⟨y', hstep, hvalue⟩ := hs (fun _ (y : Fin 1 → ℝ) => lam • y) t (fun _ => y) h
  rw [hvalue.stability hT] at hstep
  simpa [dispsStep, linearRhs] using hstep

/-- the interval is right if and only if the stability function is bounded on it -/
theorem stable_iff_stability (hT : T.Explicit) (hs : Refines (dispsStep v) T) :
    Stable v ↔ ∀ z, -v.gamma ≤ z → z ≤ 0 → |T.stability z| ≤ 1.1 := by
  constructor
  · intro hv z hz hz0
    obtain ⟨y', hy, hle⟩ := hv z 0 1 1 hz0 one_pos (by rw [one_mul, abs_of_nonpos hz0]; linarith)
    rw [linear_step hT hs, Except.ok.injEq, List.cons.injEq] at hy
    rwa [← hy.1, one_mul, mul_one, abs_one, mul_one] at hle
  · intro hbound lam t y h hlam hh hgamma
    refine ⟨_, linear_step hT hs lam t y h, ?_⟩
    rw [abs_mul]
    refine mul_le_mul_of_nonneg_right (hbound _ ?_ (mul_nonpos_of_nonneg_of_nonpos hh.le hlam)) (abs_nonneg y)
    rw [abs_of_nonpos hlam] at hgamma
    linarith

/-- the polynomial with these coefficients, as it runs from z = 0 to z = -L -/
def onInterval (L : ℚ) (p : List ℚ) : List ℚ := PolyBound.substitute 0 (-L) p

/-- a bound of the stability function that evaluation finds -/
theorem stability_bound {L B : ℚ} {p : List ℚ} {N : ℕ} (hL : 0 < L) (hp : ∀ z : ℝ, T.stability z = PolyBound.eval p z)
    (hcheck : PolyBound.within B N (onInterval L p) = true) {z : ℝ} (hz : -(L : ℝ) ≤ z) (hz0 : z ≤ 0) :
    |T.stability z| ≤ B := by
  have hL' : (0 : ℝ) < L := by exact_mod_cast hL
  have h := PolyBound.abs_le_of_within hcheck (x := -z / L) (div_nonneg (neg_nonneg.2 hz0) hL'.le)
    ((div_le_one hL').2 (by linarith))
  rw [onInterval, PolyBound.eval_substitute] at h
  rw [hp]
  have hx : ((0 : ℚ) : ℝ) + ((-L : ℚ) : ℝ) * (-z / L) = z := by
    push_cast
    field_simp
    ring
  rwa [hx] at h

end Functions

/-! ## Three, five and six stages -/

/-- the coefficients of the stability function of `Step3Stage` -/
def poly3 (p0 p1 p2 : ℚ) : List ℚ := [1, p0 + p1 + p2, 2 / 3 * (p1 + p2), 2 / 9 * p2]

theorem stability3 (p0 p1 p2 : ℚ) (z : ℝ) :
    (tableau3 ![(p0 : ℝ), p1, p2]).stability z = PolyBound.eval (poly3 p0 p1 p2) z := by
  simp [Tableau.stability, Tableau.alpha, Tableau.weights, tableau3, Finset.sum_range_succ, Fin.sum_univ_succ, poly3,
    PolyBound.eval]
  ring

theorem rows5 (p : Fin 5 → ℝ) :
    (tableau5 p).rows 1 = ![0, 1 / 3, 1 / 3, 1 / 4, 1] ∧ (tableau5 p).rows 2 = ![0, 0, 1 / 18, 1 / 24, 0] ∧
      (tableau5 p).rows 3 = ![0, 0, 0, 1 / 144, 0] ∧ (tableau5 p).rows 4 = ![0, 0, 0, 0, 1 / 72] := by
  have h1 : (tableau5 p).rows 1 = ![0, 1 / 3, 1 / 3, 1 / 4, 1] := by
    funext i
    fin_cases i <;> norm_num [Tableau.rows, tableau5, Fin.sum_univ_succ]
  have h2 : (tableau5 p).rows 2 = ![0, 0, 1 / 18, 1 / 24, 0] := by
    funext i
    rw [Tableau.rows, h1]
    fin_cases i <;> norm_num [tableau5, Fin.sum_univ_succ]
  have h3 : (tableau5 p).rows 3 = ![0, 0, 0, 1 / 144, 0] := by
    funext i
    rw [Tableau.rows, h2]
    fin_cases i <;> norm_num [tableau5, Fin.sum_univ_succ]
  refine ⟨h1, h2, h3, ?_⟩
  funext i
  rw [Tableau.rows, h3]
  fin_cases i <;> norm_num [tableau5, Fin.sum_univ_succ]

theorem stability5 (p0 p1 p2 p3 p4 z : ℝ) : (tableau5 ![p0, p1, p2, p3, p4]).stability z =
    1 + (p0 + p1 + p2 + p3 + p4) * z + (p1 / 3 + p2 / 3 + p3 / 4 + p4) * z ^ 2 + (p2 / 18 + p3 / 24) * z ^ 3 +
      p3 / 144 * z ^ 4 + p4 / 72 * z ^ 5 := by
  obtain ⟨h1, h2, h3, h4⟩ := rows5 ![p0, p1, p2, p3, p4]
  have h0 : (tableau5 ![p0, p1, p2, p3, p4]).rows 0 = fun _ => 1 := rfl
  have hp : (tableau5 ![p0, p1, p2, p3, p4]).p = ![p0, p1, p2, p3, p4] := rfl
  simp only [Tableau.stability, Tableau.alpha_eq_rows, Finset.sum_range_succ, Finset.sum_range_zero, h0, h1, h2, h3, h4,
    hp]
  simp [Fin.sum_univ_succ]
  ring

/-- the fifth stage of `Step6Stage` has the stage coefficients 0.4978... and 0.0021..., which add up to 1/2 -/
theorem rows6 (p : Fin 6 → ℝ) :
    (tableau6 p).rows 1 = ![0, 1 / 2, 1 / 2, 1 / 2, 1 / 2, 1] ∧
      (tableau6 p).rows 2 = ![0, 0, 1 / 4, 1 / 4, 0.001085862002876472, 1 / 2] ∧
      (tableau6 p).rows 3 = ![0, 0, 0, 1 / 8, 0.000542931001438236, 0.001085862002876472] ∧
      (tableau6 p).rows 4 = ![0, 0, 0, 0, 0.000271465500719118, 0.000542931001438236] ∧
      (tableau6 p).rows 5 = ![0, 0, 0, 0, 0, 0.000271465500719118] := by
  have h1 : (tableau6 p).rows 1 = ![0, 1 / 2, 1 / 2, 1 / 2, 1 / 2, 1] := by
    funext i
    fin_cases i <;> norm_num [Tableau.rows, tableau6, Fin.sum_univ_succ]
  have h2 : (tableau6 p).rows 2 = ![0, 0, 1 / 4, 1 / 4, 0.001085862002876472, 1 / 2] := by
    funext i
    rw [Tableau.rows, h1]
    fin_cases i <;> norm_num [tableau6, Fin.sum_univ_succ]
  have h3 : (tableau6 p).rows 3 = ![0, 0, 0, 1 / 8, 0.000542931001438236, 0.001085862002876472] := by
    funext i
    rw [Tableau.rows, h2]
    fin_cases i <;> norm_num [tableau6, Fin.sum_univ_succ]
  have h4 : (tableau6 p).rows 4 = ![0, 0, 0, 0, 0.000271465500719118, 0.000542931001438236] := by
    funext i
    rw [Tableau.rows, h3]
    fin_cases i <;> norm_num [tableau6, Fin.sum_univ_succ]
  refine ⟨h1, h2, h3, h4, ?_⟩
  funext i
  rw [Tableau.rows, h4]
  fin_cases i <;> norm_num [tableau6, Fin.sum_univ_succ]

/-- the coefficients of the stability function of `Step6Stage` -/
def poly6 (p0 p1 p2 p3 p4 p5 : ℚ) : List ℚ :=
  [1, p0 + p1 + p2 + p3 + p4 + p5, p1 / 2 + p2 / 2 + p3 / 2 + p4 / 2 + p5,
    p2 / 4 + p3 / 4 + p4 * 0.001085862002876472 + p5 / 2,
    p3 / 8 + p4 * 0.000542931001438236 + p5 * 0.001085862002876472,
    p4 * 0.000271465500719118 + p5 * 0.000542931001438236, p5 * 0.000271465500719118]

theorem stability6 (p0 p1 p2 p3 p4 p5 : ℚ) (z : ℝ) :
    (tableau6 ![(p0 : ℝ), p1, p2, p3, p4, p5]).stability z = PolyBound.eval (poly6 p0 p1 p2 p3 p4 p5) z := by
  obtain ⟨h1, h2, h3, h4, h5⟩ := rows6 ![(p0 : ℝ), p1, p2, p3, p4, p5]
  have h0 : (tableau6 ![(p0 : ℝ), p1, p2, p3, p4, p5]).rows 0 = fun _ => 1 := rfl
  have hp : (tableau6 ![(p0 : ℝ), p1, p2, p3, p4, p5]).p = ![(p0 : ℝ), p1, p2, p3, p4, p5] := rfl
  simp only [Tableau.stability, Tableau.alpha_eq_rows, Finset.sum_range_succ, Finset.sum_range_zero, h0, h1, h2, h3, h4,
    h5, hp]
  norm_num [Fin.sum_univ_succ, poly6, PolyBound.eval]
  ring

/-! ## The variants -/

/-- a variant with rational weights, read over the reals -/
noncomputable def ofRat (v : DispsVariant ℚ) : DispsVariant ℝ := ⟨v.stages, v.order, v.p.map (↑), v.gamma⟩

/-- a variant whose stability function passes the check -/
theorem stable_of_check {s : ℕ} {T : Tableau s} {v : DispsVariant ℚ} (hT : T.Explicit)
    (hs : Refines (dispsStep (ofRat v)) T) {p : List ℚ} {N : ℕ} (hL : 0 < v.gamma)
    (hp : ∀ z : ℝ, T.stability z = PolyBound.eval p z)
    (hcheck : PolyBound.within 1.1 N (onInterval v.gamma p) = true) : Stable (ofRat v) := by
  refine (stable_iff_stability hT hs).2 fun z hz hz0 => ?_
  have h := stability_bound hL hp hcheck hz hz0
  norm_num at h ⊢
  exact h

/-- a variant whose stability function is too large at the end of the interval -/
theorem not_stable_of_end {s : ℕ} {T : Tableau s} {v : DispsVariant ℝ} (hT : T.Explicit) (hs : Refines (dispsStep v) T)
    {L : ℝ} (hgamma : v.gamma = L) (hL : 0 ≤ L) (hend : 1.1 < |T.stability (-L)|) : ¬ Stable v := by
  intro hv
  have hle := (stable_iff_stability hT hs).1 hv (-L) (by rw [hgamma]) (neg_nonpos.2 hL)
  exact absurd hle (not_le.2 hend)

theorem disps13_stable : Stable disps13 := by
  have hcast : (disps13 : DispsVariant ℝ) = ofRat disps13 := by norm_num [ofRat, disps13]
  rw [hcast]
  exact stable_of_check (N := 5) (tableau3_explicit _) dispsStep_refines3 (by norm_num [disps13]) (stability3 _ _ _)
    (by decide +kernel)

theorem disps23_stable : Stable disps23 := by
  have hcast : (disps23 : DispsVariant ℝ) = ofRat disps23 := by norm_num [ofRat, disps23]
  rw [hcast]
  exact stable_of_check (N := 5) (tableau3_explicit _) dispsStep_refines3 (by norm_num [disps23]) (stability3 _ _ _)
    (by decide +kernel)

theorem disps36_stable : Stable disps36 := by
  have hcast : (disps36 : DispsVariant ℝ) = ofRat disps36 := by norm_num [ofRat, disps36]
  rw [hcast]
  exact stable_of_check (N := 6) (tableau6_explicit _) dispsStep_refines6 (by norm_num [disps36])
    (stability6 _ _ _ _ _ _) (by decide +kernel)

/-- at h λ = -46.8 the step multiplies y by about -392 -/
theorem disps15_not_stable : ¬ Stable disps15 := by
  refine not_stable_of_end (L := 46.8) (tableau5_explicit _) dispsStep_refines5 rfl (by norm_num) ?_
  norm_num [stability5, lt_abs]

/-- at h λ = -18.8 the step multiplies y by about -347 -/
theorem disps25_not_stable : ¬ Stable disps25 := by
  refine not_stable_of_end (L := 18.8) (tableau5_explicit _) dispsStep_refines5 rfl (by norm_num) ?_
  norm_num [stability5, lt_abs]

/-- at h λ = -10.3 the step multiplies y by about -171 -/
theorem disps35_not_stable : ¬ Stable disps35 := by
  refine not_stable_of_end (L := 10.3) (tableau5_explicit _) dispsStep_refines5 rfl (by norm_num) ?_
  norm_num [stability5, lt_abs]

/-- **Stability intervals of the DISPS variants.** Of the variants that the constructor can enable, those that go
through `Step5Stage` do not have the interval they store, and the others have it. -/
theorem dispsVariant_stable_iff (flags : DispsEnabledFlags) (v : DispsVariant ℝ) (hv : v ∈ variants flags) :
    Stable v ↔ v.stages ≠ 5 := by
  rcases mem_variants hv with rfl | rfl | rfl | rfl | rfl | rfl
  · exact iff_of_true disps13_stable (by decide)
  · exact iff_of_false disps15_not_stable (by decide)
  · exact iff_of_true disps23_stable (by decide)
  · exact iff_of_false disps25_not_stable (by decide)
  · exact iff_of_false disps35_not_stable (by decide)
  · exact iff_of_true disps36_stable (by decide)

theorem dispsVariant_stable_iff_disps36 :
    (disps36 : DispsVariant ℝ) ∈ variants allEnabled ∧ (Stable disps36 ↔ (disps36 : DispsVariant ℝ).stages ≠ 5) :=
  ⟨by simp [variants, allEnabled], dispsVariant_stable_iff allEnabled disps36 (by simp [variants, allEnabled])⟩

/-- **Disps15 blows up.** On y' = -y one step with h = 46.8 = gamma takes y = 1 to less than -390. -/
theorem disps15_blows_up :
    (disps15 : DispsVariant ℝ) ∈ variants allEnabled ∧ ¬ Stable disps15 ∧
      ∃ y', (·.1) <$> doOneStep (linearRhs (-1)) 0 [1] 46.8 disps15 = .ok [y'] ∧ y' < -390 := by
  refine ⟨by simp [variants, allEnabled], disps15_not_stable, _,
    linear_step (tableau5_explicit _) dispsStep_refines5 (-1) 0 1 46.8, ?_⟩
  norm_num [stability5]

end OdeClientServer.Stability
