/-
The orders of the schemes, on every linear system y' = A y + b_0 + b_1 t + ... of every dimension.

- `AgreesThrough.taylor`: agreement with the Taylor expansion of the exact solution.
- `dispsVariant_hasOrder_iff`: which DISPS variants have the order they declare.
- `steks_and_dispf_orders`: STEKS has order 4, and the three formulas of DISPF have the orders 1, 2 and 5.
- `nonautonomous_order_iff`: the systems on which RK2, RK23S and scheme A of DISPD reach their orders.
-/
import OdeClientServer.Solvers.Tableaux

namespace OdeClientServer.Order

open RungeKutta Tableaux

/-! ## Order of a step -/

/-- y' = A y + b_0 + b_1 t + ... + b_(m-1) t^(m-1) -/
noncomputable abbrev system {n m : ℕ} (A : Matrix (Fin n) (Fin n) ℝ) (b : Fin m → Fin n → ℝ) :
    ℝ → (Fin n → ℝ) → Fin n → ℝ :=
  linearField A.mulVecLin b

/-- the value of the step, on every system, is the polynomial in h with these coefficients of its elementary terms -/
def ExpandsAs (step : Stepper) (m N : ℕ) (α : ℕ → ℝ) (β : ℕ → ℕ → ℝ) : Prop :=
  ∀ {n : ℕ} (A : Matrix (Fin n) (Fin n) ℝ) (b : Fin m → Fin n → ℝ) (t : ℝ) (y : Fin n → ℝ) (h : ℝ),
    step (system A b) t y h = .ok (List.ofFn (expansion α β N A.mulVecLin b t y h))

/-- **Order m up to ε.** Expanded in h, the value of the step has in every elementary term of order k ≤ m the
coefficient 1/k! of the exact solution (`iteratedDeriv_solution`), up to ε. -/
def HasOrder (step : Stepper) (m : ℕ) (ε : ℝ) : Prop :=
  ∃ N α β, m ≤ N ∧ ExpandsAs step m N α β ∧ (∀ q, q + 1 ≤ m → |α q - 1 / (q + 1).factorial| ≤ ε) ∧
    ∀ q l, q + l + 1 ≤ m → |β q l - 1 / (q + l + 1).factorial| ≤ ε

/-- on this system the value of the step, as a polynomial in h, agrees through h^p with the Taylor expansion of the
exact solution through (t, y) -/
def AgreesThrough (step : Stepper) (p : ℕ) {n m : ℕ} (A : Matrix (Fin n) (Fin n) ℝ) (b : Fin m → Fin n → ℝ) (t : ℝ)
    (y : Fin n → ℝ) : Prop :=
  ∃ (N : ℕ) (c : ℕ → Fin n → ℝ), p < N ∧
    (∀ h : ℝ, step (system A b) t y h = .ok (List.ofFn (∑ k ∈ Finset.range N, h ^ k • c k))) ∧
    ∀ k ≤ p, c k = (1 / (k.factorial : ℝ)) • exactDeriv A.mulVecLin b k t y

variable {step : Stepper} {s m p : ℕ} {T : Tableau s} {ε : ℝ}

theorem expandsAs_of_refines (hT : T.Explicit) (hs : Refines step T) (m : ℕ) : ExpandsAs step m s T.alpha T.beta := by
  intro n A b t y h
  obtain ⟨y', hy, hstep⟩ := hs (system A b) t y h
  rw [hy, hstep.expansion hT]

theorem hasOrder_of_refines (hT : T.Explicit) (hs : Refines step T) (hm : m ≤ s)
    (hβ : ∀ q l, q + l + 1 ≤ m → |T.beta q l - 1 / (q + l + 1).factorial| ≤ ε) : HasOrder step m ε := by
  refine ⟨s, T.alpha, T.beta, hm, expandsAs_of_refines hT hs m, ?_, hβ⟩
  intro q hq
  simpa using hβ q 0 hq

/-- on y' = y the expansion of a step is a scalar polynomial in h -/
theorem expansion_identity (α : ℕ → ℝ) (β : ℕ → ℕ → ℝ) (N m : ℕ) (h : ℝ) :
    expansion α β N (1 : Matrix (Fin 1) (Fin 1) ℝ).mulVecLin (0 : Fin m → Fin 1 → ℝ) 0 (fun _ => 1) h 0 =
      ∑ k ∈ Finset.range (N + 1), h ^ k * if k = 0 then 1 else α (k - 1) := by
  have hpow : ∀ q, (LinearMap.id ^ q : (Fin 1 → ℝ) →ₗ[ℝ] Fin 1 → ℝ) = LinearMap.id := fun q => one_pow q
  have hzero : ∀ l t, forcingDeriv (0 : Fin m → Fin 1 → ℝ) l t = 0 := fun l t => by simp [forcingDeriv]
  simp [expansion, Finset.sum_range_succ', hpow, hzero, add_comm]

/-- the coefficients of A^(q+1) y in the expansion of a step are determined by the step -/
theorem alpha_unique (hT : T.Explicit) (hs : Refines step T) {N : ℕ} {α : ℕ → ℝ} {β : ℕ → ℕ → ℝ}
    (hexp : ExpandsAs step m N α β) {q : ℕ} (hN : q < N) (hq : q < s) : α q = T.alpha q := by
  have hval : ∀ h : ℝ, ∑ k ∈ Finset.range (N + 1), h ^ k * (if k = 0 then 1 else α (k - 1)) =
      ∑ k ∈ Finset.range (s + 1), h ^ k * (if k = 0 then 1 else T.alpha (k - 1)) := by
    intro h
    have h1 := hexp (1 : Matrix (Fin 1) (Fin 1) ℝ) 0 0 (fun _ => 1) h
    rw [expandsAs_of_refines hT hs m (1 : Matrix (Fin 1) (Fin 1) ℝ) 0 0 (fun _ => 1) h, Except.ok.injEq,
      List.ofFn_inj] at h1
    rw [← expansion_identity α β N m h, ← expansion_identity T.alpha T.beta s m h, h1]
  have hk := poly_coeff_unique hval (q + 1)
  rwa [if_pos (show q + 1 < N + 1 by omega), if_pos (show q + 1 < s + 1 by omega), if_neg (Nat.succ_ne_zero q),
    if_neg (Nat.succ_ne_zero q), Nat.add_sub_cancel] at hk

/-- a tableau with a wrong coefficient does not have the order -/
theorem not_hasOrder_of_refines (hT : T.Explicit) (hs : Refines step T) {q : ℕ} (hq : q + 1 ≤ m) (hqs : q < s)
    (hwrong : ε < |T.alpha q - 1 / (q + 1).factorial|) : ¬ HasOrder step m ε := by
  rintro ⟨N, α, β, hN, hexp, hα, -⟩
  have h := hα q hq
  rw [alpha_unique hT hs hexp (by omega) hqs] at h
  exact absurd h (not_le.2 hwrong)

/-- **Exact order.** A tableau whose coefficients are exactly 1/k! agrees with the exact solution on every system. -/
theorem agreesThrough_of_refines (hT : T.Explicit) (hs : Refines step T) (hm : m ≤ s)
    (hβ : ∀ q l, q + l + 1 ≤ m → T.beta q l = 1 / (q + l + 1).factorial) {n : ℕ} (A : Matrix (Fin n) (Fin n) ℝ)
    (b : Fin m → Fin n → ℝ) (t : ℝ) (y : Fin n → ℝ) : AgreesThrough step m A b t y := by
  have hα : ∀ q, q + 1 ≤ m → T.alpha q = 1 / (q + 1).factorial := by
    intro q hq
    simpa using hβ q 0 hq
  refine ⟨s + m + 1, coeff T.alpha T.beta s A.mulVecLin b t y, by omega, ?_, ?_⟩
  · intro h
    exact (expandsAs_of_refines hT hs m A b t y h).trans (by rw [expansion_eq_sum])
  · intro k hk
    exact coeff_eq_exactDeriv b hm hα hβ k hk

/-- the agreement on one system, coefficient by coefficient -/
theorem agreesThrough_iff (hT : T.Explicit) (hs : Refines step T) (hp : p ≤ s + m) {n : ℕ}
    (A : Matrix (Fin n) (Fin n) ℝ) (b : Fin m → Fin n → ℝ) (t : ℝ) (y : Fin n → ℝ) :
    AgreesThrough step p A b t y ↔
      ∀ k ≤ p, coeff T.alpha T.beta s A.mulVecLin b t y k =
        (1 / (k.factorial : ℝ)) • exactDeriv A.mulVecLin b k t y := by
  have hexp : ∀ h : ℝ, step (system A b) t y h =
      .ok (List.ofFn (∑ k ∈ Finset.range (s + m + 1), h ^ k • coeff T.alpha T.beta s A.mulVecLin b t y k)) := by
    exact fun h => (expandsAs_of_refines hT hs m A b t y h).trans (by rw [expansion_eq_sum])
  constructor
  · rintro ⟨N, c, hN, hc, hagree⟩ k hk
    rw [← hagree k hk]
    refine vec_coeff_unique (fun h => ?_) (by omega : k < s + m + 1) (by omega : k < N)
    have hh := (hexp h).symm.trans (hc h)
    rwa [Except.ok.injEq, List.ofFn_inj] at hh
  · exact fun h => ⟨s + m + 1, _, by omega, hexp, h⟩

/-- the coefficients through h^p are those of the Taylor expansion of every exact solution through (t, y) -/
theorem AgreesThrough.taylor {n : ℕ} {A : Matrix (Fin n) (Fin n) ℝ} {b : Fin m → Fin n → ℝ} {t : ℝ} {y : Fin n → ℝ}
    (h : AgreesThrough step p A b t y) {u : ℝ → Fin n → ℝ} (hu : ∀ τ, HasDerivAt u (system A b τ (u τ)) τ)
    (h0 : u t = y) :
    ∃ (N : ℕ) (c : ℕ → Fin n → ℝ), p < N ∧
      (∀ h : ℝ, step (system A b) t y h = .ok (List.ofFn (∑ k ∈ Finset.range N, h ^ k • c k))) ∧
      ∀ k ≤ p, c k = (1 / (k.factorial : ℝ)) • iteratedDeriv k u t := by
  obtain ⟨N, c, hN, hstep, hc⟩ := h
  refine ⟨N, c, hN, hstep, fun k hk => ?_⟩
  rw [hc k hk, iteratedDeriv_solution hu k, ← h0]

/-! ## STEKS and DISPF -/

section SteksDispf

theorem steks_weights :
    tableauSTEKS.weights 0 = ![1 / 6, 0, 0, 2 / 3, 1 / 6] ∧ tableauSTEKS.weights 1 = ![1 / 6, 0, 0, 1 / 3, 0] ∧
      tableauSTEKS.weights 2 = ![1 / 24, 0, 1 / 8, 0, 0] ∧ tableauSTEKS.weights 3 = ![1 / 48, 1 / 48, 0, 0, 0] := by
  have h0 : tableauSTEKS.weights 0 = ![1 / 6, 0, 0, 2 / 3, 1 / 6] := rfl
  have h1 : tableauSTEKS.weights 1 = ![1 / 6, 0, 0, 1 / 3, 0] := by
    funext j
    rw [Tableau.weights, h0]
    fin_cases j <;> norm_num [tableauSTEKS, Fin.sum_univ_succ]
  have h2 : tableauSTEKS.weights 2 = ![1 / 24, 0, 1 / 8, 0, 0] := by
    funext j
    rw [Tableau.weights, h1]
    fin_cases j <;> norm_num [tableauSTEKS, Fin.sum_univ_succ]
  refine ⟨h0, h1, h2, ?_⟩
  funext j
  rw [Tableau.weights, h2]
  fin_cases j <;> norm_num [tableauSTEKS, Fin.sum_univ_succ]

theorem tableauDISPF_c (p : List ℝ) : (tableauDISPF p).c = ![0, 1 / 4, 3 / 8, 12 / 13, 1, 1 / 2] := by
  funext i
  fin_cases i <;> norm_num [tableauDISPF, DISPFSolver.aCoef]

theorem p36_weights :
    (tableauDISPF DISPFSolver.P36).weights 0 =
        ![16 / 135, 0, 6656 / 12825, 28561 / 56430, -9 / 50, 2 / 55] ∧
      (tableauDISPF DISPFSolver.P36).weights 1 =
        ![253 / 2160, 0, 4352 / 12825, 2197 / 41040, -1 / 100, 0] ∧
      (tableauDISPF DISPFSolver.P36).weights 2 = ![253 / 4320, 0, 272 / 2565, 169 / 82080, 0, 0] ∧
      (tableauDISPF DISPFSolver.P36).weights 3 = ![11 / 936, 3 / 130, 4 / 585, 0, 0, 0] ∧
      (tableauDISPF DISPFSolver.P36).weights 4 = ![1 / 156, 1 / 520, 0, 0, 0, 0] := by
  have h0 : (tableauDISPF DISPFSolver.P36).weights 0 =
      ![16 / 135, 0, 6656 / 12825, 28561 / 56430, -9 / 50, 2 / 55] := by
    funext j
    fin_cases j <;> norm_num [Tableau.weights, tableauDISPF, DISPFSolver.P36]
  have h1 : (tableauDISPF DISPFSolver.P36).weights 1 =
      ![253 / 2160, 0, 4352 / 12825, 2197 / 41040, -1 / 100, 0] := by
    funext j
    rw [Tableau.weights, h0, tableauDISPF_a]
    fin_cases j <;> norm_num [Fin.sum_univ_succ]
  have h2 : (tableauDISPF DISPFSolver.P36).weights 2 = ![253 / 4320, 0, 272 / 2565, 169 / 82080, 0, 0] := by
    funext j
    rw [Tableau.weights, h1, tableauDISPF_a]
    fin_cases j <;> norm_num [Fin.sum_univ_succ]
  have h3 : (tableauDISPF DISPFSolver.P36).weights 3 = ![11 / 936, 3 / 130, 4 / 585, 0, 0, 0] := by
    funext j
    rw [Tableau.weights, h2, tableauDISPF_a]
    fin_cases j <;> norm_num [Fin.sum_univ_succ]
  refine ⟨h0, h1, h2, h3, ?_⟩
  funext j
  rw [Tableau.weights, h3, tableauDISPF_a]
  fin_cases j <;> norm_num [Fin.sum_univ_succ]

theorem steks_beta (q l : ℕ) (hq : q + l + 1 ≤ 4) : tableauSTEKS.beta q l = 1 / (q + l + 1).factorial := by
  obtain ⟨h0, h1, h2, h3⟩ := steks_weights
  have hc : tableauSTEKS.c = ![0, 1 / 3, 1 / 3, 1 / 2, 1] := rfl
  have hq3 : q ≤ 3 := by omega
  rw [Tableau.beta, hc]
  interval_cases q
  · have hl : l ≤ 3 := by omega
    interval_cases l <;> norm_num [h0, Fin.sum_univ_succ, Nat.factorial]
  · have hl : l ≤ 2 := by omega
    interval_cases l <;> norm_num [h1, Fin.sum_univ_succ, Nat.factorial]
  · have hl : l ≤ 1 := by omega
    interval_cases l <;> norm_num [h2, Fin.sum_univ_succ, Nat.factorial]
  · have hl : l = 0 := by omega
    subst hl
    norm_num [h3, Fin.sum_univ_succ, Nat.factorial]

theorem p36_beta (q l : ℕ) (hq : q + l + 1 ≤ 5) :
    (tableauDISPF DISPFSolver.P36).beta q l = 1 / (q + l + 1).factorial := by
  obtain ⟨h0, h1, h2, h3, h4⟩ := p36_weights
  have hq4 : q ≤ 4 := by omega
  rw [Tableau.beta, tableauDISPF_c]
  interval_cases q
  · have hl : l ≤ 4 := by omega
    interval_cases l <;> norm_num [h0, Fin.sum_univ_succ, Nat.factorial]
  · have hl : l ≤ 3 := by omega
    interval_cases l <;> norm_num [h1, Fin.sum_univ_succ, Nat.factorial]
  · have hl : l ≤ 2 := by omega
    interval_cases l <;> norm_num [h2, Fin.sum_univ_succ, Nat.factorial]
  · have hl : l ≤ 1 := by omega
    interval_cases l <;> norm_num [h3, Fin.sum_univ_succ, Nat.factorial]
  · have hl : l = 0 := by omega
    subst hl
    norm_num [h4, Fin.sum_univ_succ, Nat.factorial]

/-- the steps of the four formulas: the trial value with first stage h f(t, y) for DISPF -/
noncomputable def steksStep : Stepper := fun F t y h => STEKSSolver.update (ofField F) t (List.ofFn y) h

noncomputable def dispfAStep : Stepper := fun F t y h =>
  (·.1) <$> DISPFSolver.trial DISPFSolver.formulaA (ofField F) t (List.ofFn y) h (List.ofFn (h • F t y))

noncomputable def dispfBStep : Stepper := fun F t y h =>
  (·.1) <$> DISPFSolver.trial DISPFSolver.formulaB (ofField F) t (List.ofFn y) h (List.ofFn (h • F t y))

noncomputable def dispfCStep : Stepper := fun F t y h =>
  (·.1) <$> DISPFSolver.trialC (ofField F) t (List.ofFn y) h (List.ofFn (h • F t y))

/-- order 1 needs the sum of the weights only -/
theorem hasOrder_one {s : ℕ} {T : Tableau (s + 1)} (hT : T.Explicit) (hs : Refines step T)
    (hp : |∑ j, T.p j - 1| ≤ 1e-9) : HasOrder step 1 1e-9 := by
  apply hasOrder_of_refines hT hs (by omega)
  intro q l hq
  obtain ⟨rfl, rfl⟩ : q = 0 ∧ l = 0 := by omega
  simpa [Tableau.alpha, Tableau.weights] using hp

theorem dispfA_hasOrder : HasOrder dispfAStep 1 1e-9 := by
  apply hasOrder_one (tableauDISPF_explicit _) dispfA_refines
  norm_num [tableauDISPF, DISPFSolver.P72, Fin.sum_univ_succ, abs_le]

theorem p28_weights :
    (tableauDISPF DISPFSolver.P28).weights 0 =
    ![-0.38402741318519, 0.28983442536296, 1.0619636598535, 0.036673230572343,
        -0.0046504806400000, 0.00020657863636364] ∧
      ∑ j, (tableauDISPF DISPFSolver.P28).weights 1 j =
        ∑ i, (tableauDISPF DISPFSolver.P28).weights 0 i * (tableauDISPF DISPFSolver.P28).c i := by
  have h0 : (tableauDISPF DISPFSolver.P28).weights 0 = ![-0.38402741318519, 0.28983442536296, 1.0619636598535,
      0.036673230572343, -0.0046504806400000, 0.00020657863636364] := by
    funext j
    fin_cases j <;> rfl
  refine ⟨h0, ?_⟩
  -- the stage times are the row sums of the stage coefficients
  have hrow : ∀ i, ∑ j, (tableauDISPF DISPFSolver.P28).a i j = (tableauDISPF DISPFSolver.P28).c i := by
    intro i
    rw [tableauDISPF_a, tableauDISPF_c]
    fin_cases i <;> norm_num [Fin.sum_univ_succ]
  simp only [Tableau.weights]
  rw [Finset.sum_comm]
  refine Finset.sum_congr rfl fun i _ => ?_
  rw [← Finset.mul_sum, hrow]

theorem dispfB_hasOrder : HasOrder dispfBStep 2 1e-9 := by
  obtain ⟨h0, h1⟩ := p28_weights
  apply hasOrder_of_refines (tableauDISPF_explicit _) dispfB_refines (by norm_num)
  intro q l hq
  have hq1 : q ≤ 1 := by omega
  interval_cases q
  · have hl : l ≤ 1 := by omega
    rw [Tableau.beta, h0, tableauDISPF_c]
    interval_cases l <;> norm_num [Fin.sum_univ_succ, abs_le]
  · have hl : l = 0 := by omega
    subst hl
    rw [Tableau.beta_zero, Tableau.alpha, h1, h0, tableauDISPF_c]
    norm_num [Fin.sum_univ_succ, abs_le]

/-- **Orders of STEKS and DISPF.** STEKS agrees with the exact solution through h^4 and the formula of DISPF with
weights P36 through h^5, on every system; the formulas with the printed weights P72 and P28 have the orders 1 and 2 up
to 1e-9 in every coefficient. -/
theorem steks_and_dispf_orders :
    (∀ (n : ℕ) (A : Matrix (Fin n) (Fin n) ℝ) (b : Fin 4 → Fin n → ℝ) (t : ℝ) (y : Fin n → ℝ),
        AgreesThrough steksStep 4 A b t y) ∧
      (∀ (n : ℕ) (A : Matrix (Fin n) (Fin n) ℝ) (b : Fin 5 → Fin n → ℝ) (t : ℝ) (y : Fin n → ℝ),
        AgreesThrough dispfCStep 5 A b t y) ∧
      HasOrder dispfAStep 1 1e-9 ∧ HasOrder dispfBStep 2 1e-9 := by
  refine ⟨fun n A b t y => ?_, fun n A b t y => ?_, dispfA_hasOrder, dispfB_hasOrder⟩
  · exact agreesThrough_of_refines tableauSTEKS_explicit steks_refines (by norm_num) steks_beta A b t y
  · exact agreesThrough_of_refines (tableauDISPF_explicit _) dispfC_refines (by norm_num) p36_beta A b t y

end SteksDispf

/-! ## DISPS -/

section Disps

open DISPSSolver

theorem disps13_hasOrder : HasOrder (dispsStep disps13) 1 1e-9 := by
  refine hasOrder_one (tableau3_explicit _) dispsStep_refines3 ?_
  norm_num [tableau3, Fin.sum_univ_succ, abs_le]

theorem disps15_hasOrder : HasOrder (dispsStep disps15) 1 1e-9 := by
  refine hasOrder_one (tableau5_explicit _) dispsStep_refines5 ?_
  norm_num [tableau5, Fin.sum_univ_succ, abs_le]

/-- the weights of the variant with three stages and order 2 do not add up to 1 -/
theorem disps23_not_hasOrder : ¬ HasOrder (dispsStep disps23) 2 1e-9 := by
  refine not_hasOrder_of_refines (tableau3_explicit _) dispsStep_refines3 (q := 0) (by norm_num) (by norm_num) ?_
  norm_num [Tableau.alpha, Tableau.weights, tableau3, Fin.sum_univ_succ, lt_abs]

/-- the coefficient of A^2 y is about 0.252 instead of 1/2 -/
theorem disps25_not_hasOrder : ¬ HasOrder (dispsStep disps25) 2 1e-9 := by
  refine not_hasOrder_of_refines (tableau5_explicit _) dispsStep_refines5 (q := 1) (by norm_num) (by norm_num) ?_
  norm_num [Tableau.alpha, Tableau.weights, tableau5, Fin.sum_univ_succ, lt_abs]

/-- the coefficient of A^2 y is about 0.126 instead of 1/2 -/
theorem disps35_not_hasOrder : ¬ HasOrder (dispsStep disps35) 3 1e-9 := by
  refine not_hasOrder_of_refines (tableau5_explicit _) dispsStep_refines5 (q := 1) (by norm_num) (by norm_num) ?_
  norm_num [Tableau.alpha, Tableau.weights, tableau5, Fin.sum_univ_succ, lt_abs]

/-- the weights of the variant with six stages, and their first two products with the stage coefficients -/
theorem disps36_weights {p : Fin 6 → ℝ} (hp : p = ![1 / 6, -6.0414736520435, 0.12355552068869, 0.18196838110013,
      6.4026164169214, 1 / 6]) :
    (tableau6 p).weights 0 = p ∧
      (tableau6 p).weights 1 = ![-3.0207368260217500 + 0.497828275994247056 * 6.4026164169214, 0.061777760344345,
        0.090984190550065, 0.002171724005752944 * 6.4026164169214, 1 / 6, 0] ∧
      (tableau6 p).weights 2 = ![0.0308888801721725 + 0.497828275994247056 / 6, 0.0454920952750325,
        0.001085862002876472 * 6.4026164169214, 0.002171724005752944 / 6, 0, 0] := by
  have h0 : (tableau6 p).weights 0 = p := rfl
  have h1 : (tableau6 p).weights 1 = ![-3.0207368260217500 + 0.497828275994247056 * 6.4026164169214, 0.061777760344345,
      0.090984190550065, 0.002171724005752944 * 6.4026164169214, 1 / 6, 0] := by
    funext j
    rw [Tableau.weights, h0, hp]
    fin_cases j <;> norm_num [tableau6, Fin.sum_univ_succ]
  refine ⟨h0, h1, ?_⟩
  funext j
  rw [Tableau.weights, h1]
  fin_cases j <;> norm_num [tableau6, Fin.sum_univ_succ]

/-- the variant with six stages has all coefficients through h^3, up to the rounding of its weights -/
theorem disps36_hasOrder : HasOrder (dispsStep disps36) 3 1e-9 := by
  refine hasOrder_of_refines (tableau6_explicit _) dispsStep_refines6 (by norm_num) fun q l hq => ?_
  obtain ⟨h0, h1, h2⟩ := disps36_weights (p := ![1.0 / 6.0, -6.0414736520435, 0.12355552068869, 0.18196838110013,
    6.4026164169214, 1.0 / 6.0]) (by norm_num)
  have hc : ∀ p, (tableau6 p).c = ![0, 1 / 2, 1 / 2, 1 / 2, 1 / 2, 1] := fun _ => rfl
  have hq2 : q ≤ 2 := by omega
  rw [Tableau.beta, hc]
  interval_cases q
  · have hl : l ≤ 2 := by omega
    rw [h0]
    interval_cases l <;> norm_num [Fin.sum_univ_succ, Nat.factorial, abs_le]
  · have hl : l ≤ 1 := by omega
    rw [h1]
    interval_cases l <;> norm_num [Fin.sum_univ_succ, Nat.factorial, abs_le]
  · have hl : l = 0 := by omega
    subst hl
    rw [h2]
    norm_num [Fin.sum_univ_succ, Nat.factorial, abs_le]

/-- two variants with different orders are different -/
theorem ne_of_order {v w : DispsVariant ℝ} (h : v.order ≠ w.order) : v ≠ w := fun e => h (congrArg _ e)

theorem ne_of_stages {v w : DispsVariant ℝ} (h : v.stages ≠ w.stages) : v ≠ w := fun e => h (congrArg _ e)

/-- **Orders of the DISPS variants.** Of the variants that the constructor can enable, the two of order 1 and the one
with six stages have the order they declare, and no other has. -/
theorem dispsVariant_hasOrder_iff (flags : DispsEnabledFlags) (v : DispsVariant ℝ) (hv : v ∈ variants flags) :
    HasOrder (dispsStep v) v.order 1e-9 ↔ v = disps13 ∨ v = disps15 ∨ v = disps36 := by
  rcases mem_variants hv with rfl | rfl | rfl | rfl | rfl | rfl
  · exact iff_of_true disps13_hasOrder (Or.inl rfl)
  · exact iff_of_true disps15_hasOrder (Or.inr (Or.inl rfl))
  · refine iff_of_false disps23_not_hasOrder (not_or.2 ⟨ne_of_order ?_, not_or.2 ⟨ne_of_order ?_, ne_of_order ?_⟩⟩) <;>
      decide
  · refine iff_of_false disps25_not_hasOrder (not_or.2 ⟨ne_of_order ?_, not_or.2 ⟨ne_of_order ?_, ne_of_order ?_⟩⟩) <;>
      decide
  · refine iff_of_false disps35_not_hasOrder (not_or.2 ⟨ne_of_order ?_, not_or.2 ⟨ne_of_order ?_, ne_of_stages ?_⟩⟩) <;>
      decide
  · exact iff_of_true disps36_hasOrder (Or.inr (Or.inr rfl))

theorem dispsVariant_hasOrder_iff_disps13 :
    (disps13 : DispsVariant ℝ) ∈ variants allEnabled ∧
      (HasOrder (dispsStep disps13) (disps13 : DispsVariant ℝ).order 1e-9 ↔
        (disps13 : DispsVariant ℝ) = disps13 ∨ (disps13 : DispsVariant ℝ) = disps15 ∨
          (disps13 : DispsVariant ℝ) = disps36) :=
  ⟨by simp [variants, allEnabled], dispsVariant_hasOrder_iff allEnabled disps13 (by simp [variants, allEnabled])⟩

/-- **Disps25 does not have order 2.** -/
theorem disps25_not_of_declared_order :
    (disps25 : DispsVariant ℝ) ∈ variants allEnabled ∧
      ¬ HasOrder (dispsStep disps25) (disps25 : DispsVariant ℝ).order 1e-9 :=
  ⟨by simp [variants, allEnabled], disps25_not_hasOrder⟩

end Disps

/-! ## Systems with a time-dependent forcing -/

section Nonautonomous

noncomputable def rk2Step : Stepper := fun F t y h => RK2Solver.update (ofField F) t (List.ofFn y) h

noncomputable def rk23sStep : Stepper := fun F t y h => RK23SSolver.update (ofField F) t (List.ofFn y) h

/-- scheme A of DISPD; the weights depend on the scheme c that is there when `Solve` starts -/
noncomputable def dispdAStep (c : DISPDSolver.SchemeParams ℝ) : Stepper := fun F t y h =>
  DISPDSolver.update (DISPDSolver.switchScheme c false) (ofField F) t (List.ofFn y) h

variable {n : ℕ} {A : Matrix (Fin n) (Fin n) ℝ} {t : ℝ} {y : Fin n → ℝ}

/-- the linear forcing has the constant derivative b_1 -/
theorem forcingDeriv_one (b : Fin 2 → Fin n → ℝ) : forcingDeriv b 1 t = b 1 := by
  simp [forcingDeriv, Fin.sum_univ_succ]

/-- a difference by a multiple of v is no difference only if v is zero -/
theorem sub_smul_eq_self {u v : Fin n → ℝ} {c : ℝ} (hc : c ≠ 0) : u - c • v = u ↔ v = 0 := by
  rw [sub_eq_self, smul_eq_zero, or_iff_right hc]

theorem coeff_one (hα0 : T.alpha 0 = 1) (hs : 1 ≤ s) (hm : 1 ≤ m) (b : Fin m → Fin n → ℝ) :
    coeff T.alpha T.beta s A.mulVecLin b t y 1 = exactDeriv A.mulVecLin b 1 t y := by
  rw [coeff_succ b hs hm]
  simp [exactDeriv, hα0]

/-- a tableau that has order 2 on autonomous systems, with all its stages at the time t, misses the derivative of the
forcing -/
theorem agreesThrough_two_iff (hT : T.Explicit) (hs : Refines step T) (hsize : 2 ≤ s) (hα0 : T.alpha 0 = 1)
    (hα1 : T.alpha 1 = 1 / 2) (hc : T.c = 0) (b : Fin 2 → Fin n → ℝ) : AgreesThrough step 2 A b t y ↔ b 1 = 0 := by
  have hβ1 : T.beta 0 1 = 0 := by simp [Tableau.beta, hc]
  have h2 : coeff T.alpha T.beta s A.mulVecLin b t y 2 =
      (1 / 2 : ℝ) • exactDeriv A.mulVecLin b 2 t y - (1 / 2 : ℝ) • b 1 := by
    rw [coeff_succ b (by omega) (by omega)]
    simp [exactDeriv, Finset.sum_range_succ, hα1, hβ1, forcingDeriv_one, smul_add, ← add_assoc]
    abel
  rw [agreesThrough_iff hT hs (by omega), ← sub_smul_eq_self (by norm_num : (1 / 2 : ℝ) ≠ 0), ← h2]
  constructor
  · intro h
    simpa using h 2 le_rfl
  · intro h k hk
    interval_cases k
    · simp [coeff, exactDeriv]
    · simpa using coeff_one hα0 (by omega) (by omega) b
    · simpa using h

theorem rk2_agrees_iff (b : Fin 2 → Fin n → ℝ) : AgreesThrough rk2Step 2 A b t y ↔ b 1 = 0 := by
  refine agreesThrough_two_iff tableauRK2_explicit rk2_refines le_rfl ?_ ?_ ?_ b
  · norm_num [Tableau.alpha, Tableau.weights, tableauRK2, Fin.sum_univ_succ]
  · norm_num [Tableau.alpha, Tableau.weights, tableauRK2, Fin.sum_univ_succ]
  · funext i
    fin_cases i <;> rfl

theorem dispdA_agrees_iff (c : DISPDSolver.SchemeParams ℝ) (b : Fin 2 → Fin n → ℝ) :
    AgreesThrough (dispdAStep c) 2 A b t y ↔ b 1 = 0 := by
  refine agreesThrough_two_iff (tableauDISPD_explicit _) (dispd_refines _) (by norm_num) ?_ ?_ ?_ b
  · norm_num [Tableau.alpha, Tableau.weights, tableauDISPD, DISPDSolver.switchScheme, Fin.sum_univ_succ]
    ring
  · norm_num [Tableau.alpha, Tableau.weights, tableauDISPD, DISPDSolver.switchScheme, Fin.sum_univ_succ]
    ring
  · funext i
    fin_cases i <;> rfl

theorem rk23s_weights : tableauRK23S.weights 0 = ![1 / 4, 15 / 32, 9 / 32] ∧
    tableauRK23S.weights 1 = ![13 / 32, 3 / 32, 0] ∧ tableauRK23S.weights 2 = ![1 / 16, 0, 0] := by
  have h0 : tableauRK23S.weights 0 = ![1 / 4, 15 / 32, 9 / 32] := rfl
  have h1 : tableauRK23S.weights 1 = ![13 / 32, 3 / 32, 0] := by
    funext j
    rw [Tableau.weights, h0]
    fin_cases j <;> norm_num [tableauRK23S, Fin.sum_univ_succ]
  refine ⟨h0, h1, ?_⟩
  funext j
  rw [Tableau.weights, h1]
  fin_cases j <;> norm_num [tableauRK23S, Fin.sum_univ_succ]

/-- the third derivative of the solution without the second derivative of the forcing -/
theorem exactDeriv_three (b : Fin m → Fin n → ℝ) :
    exactDeriv A.mulVecLin b 3 t y =
      A.mulVec (A.mulVec (A.mulVec y + forcing b t) + forcingDeriv b 1 t) + forcingDeriv b 2 t := by
  simp [exactDeriv, Finset.sum_range_succ, pow_succ, forcingDeriv_zero, Matrix.mulVec_add]
  abel

/-- RK23S has 1/16 in place of 1/6 in two of the three elementary terms of order 3 -/
theorem rk23s_agrees_iff (b : Fin 3 → Fin n → ℝ) :
    AgreesThrough rk23sStep 3 A b t y ↔
      A.mulVec (A.mulVec (A.mulVec y + forcing b t) + forcingDeriv b 1 t) = 0 := by
  obtain ⟨h0, h1, h2⟩ := rk23s_weights
  have hα0 : tableauRK23S.alpha 0 = 1 := by norm_num [Tableau.alpha, h0, Fin.sum_univ_succ]
  have hα1 : tableauRK23S.alpha 1 = 1 / 2 := by norm_num [Tableau.alpha, h1, Fin.sum_univ_succ]
  have hα2 : tableauRK23S.alpha 2 = 1 / 16 := by norm_num [Tableau.alpha, h2, Fin.sum_univ_succ]
  have hc : tableauRK23S.c = ![0, 2 / 3, 2 / 3] := rfl
  have hβ01 : tableauRK23S.beta 0 1 = 1 / 2 := by norm_num [Tableau.beta, h0, hc, Fin.sum_univ_succ]
  have hβ11 : tableauRK23S.beta 1 1 = 1 / 16 := by norm_num [Tableau.beta, h1, hc, Fin.sum_univ_succ]
  have hβ02 : tableauRK23S.beta 0 2 = 1 / 6 := by norm_num [Tableau.beta, h0, hc, Fin.sum_univ_succ, Nat.factorial]
  have hc2 : coeff tableauRK23S.alpha tableauRK23S.beta 3 A.mulVecLin b t y 2 =
      (1 / 2 : ℝ) • exactDeriv A.mulVecLin b 2 t y := by
    rw [coeff_succ b (by norm_num) (by norm_num)]
    simp [exactDeriv, Finset.sum_range_succ, hα1, hβ01, smul_add]
  have hc3 : coeff tableauRK23S.alpha tableauRK23S.beta 3 A.mulVecLin b t y 3 =
      (1 / 6 : ℝ) • exactDeriv A.mulVecLin b 3 t y -
        (5 / 48 : ℝ) • A.mulVec (A.mulVec (A.mulVec y + forcing b t) + forcingDeriv b 1 t) := by
    rw [coeff_succ b (by norm_num) (by norm_num), exactDeriv_three]
    simp [Finset.sum_range_succ, hα2, hβ11, hβ02, pow_succ, forcingDeriv_zero, Matrix.mulVec_add]
    module
  have hs : Refines rk23sStep tableauRK23S := rk23s_refines
  rw [agreesThrough_iff tableauRK23S_explicit hs (by norm_num),
    ← sub_smul_eq_self (by norm_num : (5 / 48 : ℝ) ≠ 0), ← hc3]
  constructor
  · intro h
    simpa [Nat.factorial] using h 3 le_rfl
  · intro h k hk
    interval_cases k
    · simp [coeff, exactDeriv]
    · simpa using coeff_one hα0 (by norm_num) (by norm_num) b
    · simpa using hc2
    · simpa [Nat.factorial] using h

/-- **Orders on systems with forcing.** RK2 and scheme A of DISPD evaluate every stage at the time t: they reach order 2
exactly when the forcing is constant. RK23S reaches order 3 exactly when the terms of order 3 other than the second
derivative of the forcing cancel. -/
theorem nonautonomous_order_iff (n : ℕ) (A : Matrix (Fin n) (Fin n) ℝ) (b : Fin 2 → Fin n → ℝ) (b' : Fin 3 → Fin n → ℝ)
    (t : ℝ) (y : Fin n → ℝ) (c : DISPDSolver.SchemeParams ℝ) :
    (AgreesThrough rk2Step 2 A b t y ↔ b 1 = 0) ∧
      (AgreesThrough rk23sStep 3 A b' t y ↔
        A.mulVec (A.mulVec (A.mulVec y + forcing b' t) + forcingDeriv b' 1 t) = 0) ∧
      (AgreesThrough (dispdAStep c) 2 A b t y ↔ b 1 = 0) :=
  ⟨rk2_agrees_iff b, rk23s_agrees_iff b', dispdA_agrees_iff c b⟩

/-- on y' = t RK2 and DISPD do not reach order 2, and on y' = y RK23S does not reach order 3 -/
theorem timeForce_order_missed :
    ¬ AgreesThrough rk2Step 2 (0 : Matrix (Fin 1) (Fin 1) ℝ) ![0, 1] 0 0 ∧
      ¬ AgreesThrough (dispdAStep ⟨0, 0, 0, 0⟩) 2 (0 : Matrix (Fin 1) (Fin 1) ℝ) ![0, 1] 0 0 ∧
      ¬ AgreesThrough rk23sStep 3 (1 : Matrix (Fin 1) (Fin 1) ℝ) (0 : Fin 3 → Fin 1 → ℝ) 0 1 := by
  rw [rk2_agrees_iff, dispdA_agrees_iff, rk23s_agrees_iff]
  simp [forcing, forcingDeriv]

end Nonautonomous

end OdeClientServer.Order
