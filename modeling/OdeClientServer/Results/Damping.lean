/-
The lengths that stability control compares its estimates with: 72 and 28.5 in formulas A and B of DISPF, 18 in DISPD.
On y' = λ y with λ ≤ 0 a step with h |λ| below the length of its formula must not enlarge |y|, up to a tenth for DISPF.

- `stabilityDISPF`, `stabilitySchemeB`: the stability functions. That of scheme B is the Chebyshev polynomial of degree
  3.
- `dispd_step_damped`: what `DISPDSolver::Step` returns with scheme B.
- `lengths_damped`: one attempt with each of the three formulas, and what StepDISPFA and StepDISPFB return after any
  number of retries.
-/
import OdeClientServer.Results.Stability

namespace OdeClientServer.Damping

open RungeKutta Tableaux Stability DISPFSolver

/-- **Damped.** On y' = λ y with λ ≤ 0 a step with h |λ| ≤ L takes y to at most B |y|; `step` is given λ, t, y and h. -/
def Damped (B L : ℝ) (step : ℝ → ℝ → ℝ → ℝ → Except Exn (Vec ℝ)) : Prop :=
  ∀ lam t y h, lam ≤ 0 → 0 < h → h * |lam| ≤ L → ∃ y', step lam t y h = .ok [y'] ∧ |y'| ≤ B * |y|

/-- a step of a tableau is damped where its stability function is bounded -/
theorem damped_of_stability {s : ℕ} {T : Tableau s} {step : Stepper} {B L : ℝ} (hT : T.Explicit) (hs : Refines step T)
    (hbound : ∀ z, -L ≤ z → z ≤ 0 → |T.stability z| ≤ B) :
    Damped B L fun lam t y h => step (fun _ (y : Fin 1 → ℝ) => lam • y) t (fun _ => y) h := by
  intro lam t y h hlam hh hL
  obtain ⟨y', hstep, hvalue⟩ := hs (fun _ (y : Fin 1 → ℝ) => lam • y) t (fun _ => y) h
  rw [hvalue.stability hT] at hstep
  rw [abs_of_nonpos hlam] at hL
  have hfactor : |T.stability (h * lam)| ≤ B :=
    hbound _ (by linarith) (mul_nonpos_of_nonneg_of_nonpos hh.le hlam)
  refine ⟨T.stability (h * lam) * y, by simpa using hstep, ?_⟩
  calc |T.stability (h * lam) * y| = |T.stability (h * lam)| * |y| := abs_mul _ _
    _ ≤ B * |y| := by gcongr

/-! ## The stability functions -/

theorem rowsDISPF_one (p : List ℝ) : (tableauDISPF p).rows 1 = ![0, 1 / 4, 3 / 8, 12 / 13, 1, 1 / 2] := by
  funext i
  simp only [Tableau.rows, tableauDISPF_a, mul_one]
  fin_cases i <;> norm_num [Fin.sum_univ_succ]

theorem rowsDISPF_two (p : List ℝ) : (tableauDISPF p).rows 2 = ![0, 0, 9 / 128, 72 / 169, 1 / 2, 1 / 8] := by
  funext i
  rw [Tableau.rows, rowsDISPF_one, tableauDISPF_a]
  fin_cases i <;> norm_num [Fin.sum_univ_succ]

theorem rowsDISPF_three (p : List ℝ) : (tableauDISPF p).rows 3 = ![0, 0, 0, 513 / 2197, 5 / 12, -1 / 24] := by
  funext i
  rw [Tableau.rows, rowsDISPF_two, tableauDISPF_a]
  fin_cases i <;> norm_num [Fin.sum_univ_succ]

theorem rowsDISPF_four (p : List ℝ) : (tableauDISPF p).rows 4 = ![0, 0, 0, 0, -5 / 104, -11 / 1248] := by
  funext i
  rw [Tableau.rows, rowsDISPF_three, tableauDISPF_a]
  fin_cases i <;> norm_num [Fin.sum_univ_succ]

theorem rowsDISPF_five (p : List ℝ) : (tableauDISPF p).rows 5 = ![0, 0, 0, 0, 0, 11 / 832] := by
  funext i
  rw [Tableau.rows, rowsDISPF_four, tableauDISPF_a]
  fin_cases i <;> norm_num [Fin.sum_univ_succ]

/-- the coefficients of the stability function for the weights p -/
def polyDISPF (p : List ℚ) : List ℚ :=
  let w (j : ℕ) := p.getD j 0
  [1, w 0 + w 1 + w 2 + w 3 + w 4 + w 5, w 1 / 4 + w 2 * (3 / 8) + w 3 * (12 / 13) + w 4 + w 5 / 2,
    w 2 * (9 / 128) + w 3 * (72 / 169) + w 4 / 2 + w 5 / 8, w 3 * (513 / 2197) + w 4 * (5 / 12) - w 5 / 24,
    w 4 * (-5 / 104) + w 5 * (-11 / 1248), w 5 * (11 / 832)]

theorem stabilityDISPF (p : List ℚ) (z : ℝ) :
    (tableauDISPF (p.map (↑))).stability z = PolyBound.eval (polyDISPF p) z := by
  have h0 : (tableauDISPF (p.map (↑))).rows 0 = fun _ => 1 := rfl
  have hp : ∀ j, (tableauDISPF (p.map (↑))).p j = ((p.getD j.val 0 : ℚ) : ℝ) := by
    intro j
    simp only [tableauDISPF, List.getD_eq_getElem?_getD, List.getElem?_map]
    cases p[j.val]? <;> simp
  simp only [Tableau.stability, Tableau.alpha_eq_rows, Finset.sum_range_succ, Finset.sum_range_zero, h0,
    rowsDISPF_one, rowsDISPF_two, rowsDISPF_three, rowsDISPF_four, rowsDISPF_five, hp]
  norm_num [Fin.sum_univ_succ, polyDISPF, PolyBound.eval]
  ring

/-- rational weights whose stability function passes the check -/
theorem stability_le {p : List ℝ} {q : List ℚ} (hpq : p = q.map (↑)) {L : ℚ} (hL : 0 < L) {N : ℕ}
    (hcheck : PolyBound.within 1.1 N (onInterval L (polyDISPF q)) = true) {z : ℝ} (hz : -(L : ℝ) ≤ z)
    (hz0 : z ≤ 0) : |(tableauDISPF p).stability z| ≤ 1.1 := by
  subst hpq
  have h := stability_bound hL (stabilityDISPF q) hcheck hz hz0
  norm_num at h ⊢
  exact h

/-- on [-72, 0] the factor of formula A runs between -1 and 1, up to the digits of its weights -/
theorem stability_P72 {z : ℝ} (hz : -72 ≤ z) (hz0 : z ≤ 0) : |(tableauDISPF P72).stability z| ≤ 1.1 := by
  refine stability_le (q := P72) (L := 72) (N := 6) ?_ (by norm_num) (by decide +kernel) ?_ hz0
  · norm_num [P72]
  · norm_num
    exact hz

theorem stability_P28 {z : ℝ} (hz : -28.5 ≤ z) (hz0 : z ≤ 0) : |(tableauDISPF P28).stability z| ≤ 1.1 := by
  refine stability_le (q := P28) (L := 28.5) (N := 6) ?_ (by norm_num) (by decide +kernel) ?_ hz0
  · norm_num [P28]
  · norm_num at hz ⊢
    exact hz

/-- with x = 1 + z / 9 the factor of scheme B is 4 x³ - 3 x -/
theorem stabilitySchemeB (c : DISPDSolver.SchemeParams ℝ) (z : ℝ) :
    (tableauDISPD (DISPDSolver.switchScheme c true)).stability z = 4 * (1 + z / 9) ^ 3 - 3 * (1 + z / 9) := by
  simp [Tableau.stability, Tableau.alpha, Tableau.weights, tableauDISPD, DISPDSolver.switchScheme,
    Finset.sum_range_succ,
    Fin.sum_univ_succ]
  norm_num
  ring

theorem stabilitySchemeB_le (c : DISPDSolver.SchemeParams ℝ) {z : ℝ} (hz : -18 ≤ z) (hz0 : z ≤ 0) :
    |(tableauDISPD (DISPDSolver.switchScheme c true)).stability z| ≤ 1 := by
  rw [stabilitySchemeB, abs_le]
  have hlo : -1 ≤ 1 + z / 9 := by linarith
  have hhi : 1 + z / 9 ≤ 1 := by linarith
  generalize 1 + z / 9 = x at hlo hhi
  -- 1 ± (4 x³ - 3 x) = (1 ± x) (2 x ∓ 1)²
  have hleft : 0 ≤ (1 + x) * (2 * x - 1) ^ 2 := mul_nonneg (by linarith) (sq_nonneg _)
  have hright : 0 ≤ (1 - x) * (2 * x + 1) ^ 2 := mul_nonneg (by linarith) (sq_nonneg _)
  constructor
  · linarith
  · linarith

/-! ## One attempt -/

/-- an attempt of StepDISPFA or StepDISPFB on y' = λ y, with the first stage h λ y -/
noncomputable def linearTrial (G : Formula ℝ) (lam t y h : ℝ) : Except Exn (Vec ℝ) :=
  (·.1) <$> trial G (linearRhs lam) t [y] h [h * (lam * y)]

/-- an attempt of DISPD with scheme B on y' = λ y, whatever scheme was in use before -/
noncomputable def linearUpdate (c : DISPDSolver.SchemeParams ℝ) (lam t y h : ℝ) : Except Exn (Vec ℝ) :=
  DISPDSolver.update (DISPDSolver.switchScheme c true) (linearRhs lam) t [y] h

theorem linearTrial_damped {p : List ℝ} {G : Formula ℝ} {L : ℝ} (hG : G = formulaA ∨ G = formulaB) (hp : G.p = p)
    (hbound : ∀ z, -L ≤ z → z ≤ 0 → |(tableauDISPF p).stability z| ≤ 1.1) : Damped 1.1 L (linearTrial G) := by
  have h := damped_of_stability (tableauDISPF_explicit p) (trial_refines p hG hp) hbound
  simp only [List.ofFn_succ, List.ofFn_zero, Pi.smul_apply, smul_eq_mul] at h
  exact h

theorem linearTrial_damped_A : Damped 1.1 72 (linearTrial formulaA) :=
  linearTrial_damped (Or.inl rfl) rfl fun _ => stability_P72

theorem linearTrial_damped_B : Damped 1.1 28.5 (linearTrial formulaB) :=
  linearTrial_damped (Or.inr rfl) rfl fun _ => stability_P28

theorem linearUpdate_damped (c : DISPDSolver.SchemeParams ℝ) : Damped 1 18 (linearUpdate c) := by
  have h := damped_of_stability (tableauDISPD_explicit _) (dispd_refines (DISPDSolver.switchScheme c true))
    fun _ => stabilitySchemeB_le c
  simp only [List.ofFn_succ, List.ofFn_zero] at h
  exact h

/-! ## Whole calls

A rejected attempt shrinks h and the first stage by one factor, so that the next attempt is again one with the first
stage h λ y, and closer to 0 than the one before. -/

section Calls

variable {lam t y h : ℝ} {B L : ℝ}

/-- an attempt of a damped formula with a smaller step length -/
theorem Damped.smaller {step : ℝ → ℝ → ℝ → ℝ → Except Exn (Vec ℝ)} (hd : Damped B L step) (hlam : lam ≤ 0)
    (hL : h * |lam| ≤ L) {h1 : ℝ} (hh : 0 < h1) (hle : h1 ≤ h) {y' : Vec ℝ} (hy : step lam t y h1 = .ok y') :
    ∃ z, y' = [z] ∧ |z| ≤ B * |y| := by
  obtain ⟨z, hz, hle'⟩ := hd lam t y h1 hlam hh ((mul_le_mul_of_nonneg_right hle (abs_nonneg lam)).trans hL)
  rw [hy, Except.ok.injEq] at hz
  exact ⟨z, hz, hle'⟩

/-- the attempt behind a returned value has again the first stage h λ y -/
theorem linearTrial_of_abStep {G : Formula ℝ} {method : Method} {tolerance h' : ℝ} {m m' : Members ℝ} {y' : Vec ℝ}
    {g : Attempt ℝ} {a : Accepted ℝ} (hs : ABStep G method (linearRhs lam) tolerance m t [y] h m' y' h' g a)
    (hm : m.k 0 = [h * (lam * y)]) (hh : 0 < h) : 0 < g.h ∧ g.h ≤ h ∧ linearTrial G lam t y g.h = .ok y' := by
  obtain ⟨-, hscaled, htrial, -, -⟩ := hs.returned
  rw [hm] at hscaled
  obtain ⟨hpos, hle⟩ := hscaled.pos hh
  obtain ⟨c, -, -, hfirst, hgh⟩ := hscaled
  have hcol : g.first = [g.h * (lam * y)] := by
    rw [hfirst, hgh, List.map_singleton]
    ring_nf
  refine ⟨hpos, hle, ?_⟩
  rw [hcol] at htrial
  rw [linearTrial, htrial]
  rfl

/-- whatever a routine of DISPF returns on y' = λ y, entered with the first stage h λ y and h |λ| ≤ L -/
def CallDamped (B L : ℝ) (routine : Config ℝ → Rhs ℝ → ℝ → ℕ → Members ℝ → ℝ → Vec ℝ → ℝ →
    StepEnd (Members ℝ) (Attempt ℝ) ℝ) : Prop :=
  ∀ cfg tolerance fuel m m' lam t y h y' h' g, lam ≤ 0 → 0 < h → h * |lam| ≤ L → m.k 0 = [h * (lam * y)] →
    routine cfg (linearRhs lam) tolerance fuel m t [y] h = .returned m' y' h' g → ∃ z, y' = [z] ∧ |z| ≤ B * |y|

theorem stepDISPFA_damped : CallDamped 1.1 72 stepDISPFA := by
  intro cfg tolerance fuel m m' lam t y h y' h' g hlam hh hL hm hs
  obtain ⟨a, -, hstep⟩ := stepDISPFA_returned hs
  obtain ⟨hpos, hle, hy⟩ := linearTrial_of_abStep hstep hm hh
  exact linearTrial_damped_A.smaller hlam hL hpos hle hy

theorem stepDISPFB_damped : CallDamped 1.1 28.5 stepDISPFB := by
  intro cfg tolerance fuel m m' lam t y h y' h' g hlam hh hL hm hs
  obtain ⟨a, -, hstep⟩ := stepDISPFB_returned hs
  obtain ⟨hpos, hle, hy⟩ := linearTrial_of_abStep hstep hm hh
  exact linearTrial_damped_B.smaller hlam hL hpos hle hy

/-- `DISPDSolver::Step` with scheme B and h |λ| at most 18 returns no larger |y| -/
theorem dispd_step_damped {c c' : DISPDSolver.SchemeParams ℝ} {tolerance h' : ℝ} {y' : Vec ℝ}
    {g : DISPDSolver.Attempt ℝ} (hlam : lam ≤ 0) (hh : 0 < h) (htol : 0 < tolerance) (hL : h * |lam| ≤ 18)
    (hs : DISPDSolver.step (linearRhs lam) tolerance (DISPDSolver.switchScheme c true) t [y] h =
      .returned c' y' h' g) : ∃ z, y' = [z] ∧ |z| ≤ |y| := by
  obtain ⟨-, hpos, hle, hy, -⟩ := DISPDSolver.attemptLoop_returned htol hh hs
  obtain ⟨z, hz, hle'⟩ := (linearUpdate_damped c).smaller hlam hL hpos hle hy
  exact ⟨z, hz, by rwa [one_mul] at hle'⟩

end Calls

/-- **Stability lengths of DISPF and DISPD.** On y' = λ y an attempt with P72 or P28 and h |λ| at most 72 or 28.5
enlarges |y| by a tenth at most, and so does a whole call of StepDISPFA or StepDISPFB. An attempt with scheme B and h
|λ| at most 18 does not enlarge |y|. -/
theorem lengths_damped (c : DISPDSolver.SchemeParams ℝ) :
    (Damped 1.1 72 (linearTrial formulaA) ∧ CallDamped 1.1 72 stepDISPFA) ∧
      (Damped 1.1 28.5 (linearTrial formulaB) ∧ CallDamped 1.1 28.5 stepDISPFB) ∧ Damped 1 18 (linearUpdate c) :=
  ⟨⟨linearTrial_damped_A, stepDISPFA_damped⟩, ⟨linearTrial_damped_B, stepDISPFB_damped⟩, linearUpdate_damped c⟩

end OdeClientServer.Damping
