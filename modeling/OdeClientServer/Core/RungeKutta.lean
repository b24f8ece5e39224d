/-
Explicit Runge-Kutta steps on linear systems y' = A y + g(t) with a polynomial forcing g. Such a step is a polynomial in
the step length h, and its elementary terms are A^(q+1) y and A^q g^(l)(t), of order q + 1 and q + l + 1.

- `IsStep.expansion`: the value of a step, with the coefficients `alpha` and `beta` that the tableau gives its terms.
- `expansion_eq_sum`, `coeff_eq_exactDeriv`: the same polynomial by powers of h, and when its coefficients are those of
  the exact solution.
- `iteratedDeriv_solution`: the derivatives of an exact solution; in its Taylor expansion every elementary term of order
  k has the coefficient 1/k!.
- `poly_coeff_unique`: the coefficients of a polynomial expansion in h are determined by its values.
-/
import OdeClientServer.Core.Numerals
import Mathlib.Tactic
import Mathlib.Analysis.Calculus.IteratedDeriv.Lemmas
import Mathlib.Analysis.Calculus.Deriv.Pow
import Mathlib.Topology.Algebra.Module.FiniteDimension
import Mathlib.Algebra.Polynomial.Roots

namespace OdeClientServer.RungeKutta

open Finset

variable {s m : ℕ}

/-- stage coefficients, stage times and weights -/
structure Tableau (s : ℕ) where
  a : Fin s → Fin s → ℝ
  c : Fin s → ℝ
  p : Fin s → ℝ

namespace Tableau

/-- each stage uses the stages before it only -/
def Explicit (T : Tableau s) : Prop := ∀ i j, i ≤ j → T.a i j = 0

/-- the weights of the stages in the term of A^q: p, p a, p a^2, ... -/
def weights (T : Tableau s) : ℕ → Fin s → ℝ
  | 0 => T.p
  | q + 1 => fun j => ∑ i, T.weights q i * T.a i j

/-- the coefficient of h^(q+1) A^(q+1) y -/
def alpha (T : Tableau s) (q : ℕ) : ℝ := ∑ j, T.weights q j

/-- the coefficient of h^(q+l+1) A^q g^(l) -/
noncomputable def beta (T : Tableau s) (q l : ℕ) : ℝ := (∑ j, T.weights q j * T.c j ^ l) / l.factorial

/-- a constant forcing has the coefficients of A y -/
@[simp] theorem beta_zero (T : Tableau s) (q : ℕ) : T.beta q 0 = T.alpha q := by simp [beta, alpha]

/-- after s applications of the stage coefficients nothing is left -/
theorem weights_eq_zero {T : Tableau s} (hT : T.Explicit) {q : ℕ} {j : Fin s} (hq : s ≤ q + j) :
    T.weights q j = 0 := by
  induction q generalizing j with
  | zero => have := j.isLt; omega
  | succ q ih =>
    refine sum_eq_zero fun i _ => ?_
    rcases le_or_gt i j with hij | hij
    · rw [hT i j hij, mul_zero]
    · rw [ih (by have : (j : ℕ) < i := hij; omega), zero_mul]

/-- the row sums of the powers of the stage coefficients -/
def rows (T : Tableau s) : ℕ → Fin s → ℝ
  | 0 => fun _ => 1
  | q + 1 => fun i => ∑ j, T.a i j * T.rows q j

/-- the coefficients from the rows: p (a^q 1) instead of (p a^q) 1 -/
theorem alpha_eq_rows (T : Tableau s) (q : ℕ) : T.alpha q = ∑ i, T.p i * T.rows q i := by
  have key : ∀ q r, ∑ j, T.weights q j * T.rows r j = ∑ j, T.p j * T.rows (q + r) j := by
    intro q
    induction q with
    | zero => intro r; rw [Nat.zero_add]; rfl
    | succ q ih =>
      intro r
      rw [Nat.add_right_comm q 1 r, Nat.add_assoc, ← ih (r + 1)]
      simp only [weights, rows, sum_mul, mul_sum, mul_assoc]
      exact sum_comm
  rw [← Nat.add_zero q, ← key q 0]
  simp only [rows, mul_one, alpha, Nat.add_zero]

end Tableau

/-! ## Steps -/

section Module

variable {V : Type*} [AddCommGroup V] [Module ℝ V]

/-- y' is the value of one step of the tableau from (t, y) with step length h -/
def Tableau.IsStep (T : Tableau s) (F : ℝ → V → V) (t : ℝ) (y : V) (h : ℝ) (y' : V) : Prop :=
  ∃ k : Fin s → V, (∀ i, k i = h • F (t + T.c i * h) (y + ∑ j, T.a i j • k j)) ∧ y' = y + ∑ i, T.p i • k i

/-- the polynomial forcing with coefficients b -/
def forcing (b : Fin m → V) (t : ℝ) : V := ∑ j : Fin m, t ^ (j : ℕ) • b j

/-- its l-th derivative -/
def forcingDeriv (b : Fin m → V) (l : ℕ) (t : ℝ) : V :=
  ∑ j : Fin m, (((j : ℕ).descFactorial l : ℝ) * t ^ ((j : ℕ) - l)) • b j

/-- the linear system with matrix A and forcing b -/
def linearField (A : V →ₗ[ℝ] V) (b : Fin m → V) (t : ℝ) (y : V) : V := A y + forcing b t

/-- the polynomial in h with the given coefficients of the elementary terms up to A^N -/
def expansion (α : ℕ → ℝ) (β : ℕ → ℕ → ℝ) (N : ℕ) (A : V →ₗ[ℝ] V) (b : Fin m → V) (t : ℝ) (y : V) (h : ℝ) : V :=
  y + ∑ q ∈ range N,
    h ^ (q + 1) • (α q • (A ^ (q + 1)) y + ∑ l ∈ range m, (h ^ l * β q l) • (A ^ q) (forcingDeriv b l t))

/-- the k-th derivative at t of the exact solution through (t, y): each elementary term of order k once -/
def exactDeriv (A : V →ₗ[ℝ] V) (b : Fin m → V) (k : ℕ) (t : ℝ) (y : V) : V :=
  (A ^ k) y + ∑ q ∈ range k, (A ^ q) (forcingDeriv b (k - 1 - q) t)

theorem forcingDeriv_zero (b : Fin m → V) (t : ℝ) : forcingDeriv b 0 t = forcing b t := by
  simp [forcingDeriv, forcing]

/-- the Taylor expansion of the forcing -/
theorem forcing_add (b : Fin m → V) (t τ : ℝ) :
    forcing b (t + τ) = ∑ l ∈ range m, (τ ^ l / l.factorial) • forcingDeriv b l t := by
  have hpow : ∀ j : Fin m, (t + τ) ^ (j : ℕ) =
      ∑ l ∈ range m, τ ^ l / l.factorial * (((j : ℕ).descFactorial l : ℝ) * t ^ ((j : ℕ) - l)) := by
    intro j
    rw [add_comm t τ, add_pow]
    refine (sum_subset (range_mono j.isLt) fun l _ hl => ?_).trans (sum_congr rfl fun l _ => ?_)
    · rw [Nat.choose_eq_zero_of_lt (by rw [mem_range] at hl; omega), Nat.cast_zero, mul_zero]
    · rw [Nat.descFactorial_eq_factorial_mul_choose]
      push_cast
      field_simp
  simp only [forcing, forcingDeriv, smul_sum, smul_smul, hpow, sum_smul]
  rw [sum_comm]

/-! ## The expansion of a step -/

variable {A : V →ₗ[ℝ] V} {g : ℝ → V} {t h : ℝ} {y : V} {k : Fin s → V} {T : Tableau s}

/-- a weighted sum of the stages, with the stages put in once -/
theorem sum_stages (hk : ∀ i, k i = h • (A (y + ∑ j, T.a i j • k j) + g (t + T.c i * h))) (w : Fin s → ℝ) :
    ∑ i, w i • k i =
      h • ∑ i, w i • (A y + g (t + T.c i * h)) + h • A (∑ j, (∑ i, w i * T.a i j) • k j) := by
  have hinner : ∑ j, (∑ i, w i * T.a i j) • k j = ∑ i, w i • ∑ j, T.a i j • k j := by
    simp only [sum_smul, smul_sum, smul_smul]
    exact sum_comm
  rw [hinner, map_sum, smul_sum, smul_sum, ← sum_add_distrib]
  refine sum_congr rfl fun i _ => ?_
  rw [hk i, map_smul, map_add]
  simp only [smul_add, smul_smul, mul_comm (w i) h]
  abel

/-- the weighted sum of the stages after r such steps -/
theorem sum_stages_iterate (hk : ∀ i, k i = h • (A (y + ∑ j, T.a i j • k j) + g (t + T.c i * h))) (r : ℕ) :
    ∑ i, T.p i • k i =
      ∑ q ∈ range r, h ^ (q + 1) • (A ^ q) (∑ j, T.weights q j • (A y + g (t + T.c j * h))) +
        h ^ r • (A ^ r) (∑ j, T.weights r j • k j) := by
  induction r with
  | zero => simp [Tableau.weights]
  | succ r ih =>
    rw [ih, sum_stages hk (T.weights r), sum_range_succ, add_assoc]
    congr 1
    rw [map_add, map_smul, map_smul, smul_add, smul_smul, smul_smul, ← pow_succ, pow_succ A, Module.End.mul_apply]
    rfl

/-- **Expansion of a step.** On a linear system with polynomial forcing the value of a step is the polynomial in h whose
coefficients the tableau gives. -/
theorem Tableau.IsStep.expansion {b : Fin m → V} {y' : V} (hT : T.Explicit)
    (hs : T.IsStep (linearField A b) t y h y') : y' = expansion T.alpha T.beta s A b t y h := by
  obtain ⟨k, hk, rfl⟩ := hs
  rw [sum_stages_iterate hk s]
  have hrest : ∑ j, T.weights s j • k j = 0 := sum_eq_zero fun j _ => by
    rw [weights_eq_zero hT (Nat.le_add_right s j), zero_smul]
  rw [hrest, map_zero, smul_zero, add_zero, RungeKutta.expansion]
  congr 1
  refine sum_congr rfl fun q _ => ?_
  congr 1
  have hforce : ∀ j, forcing b (t + T.c j * h) =
      ∑ l ∈ range m, (h ^ l * (T.c j ^ l / l.factorial)) • forcingDeriv b l t := by
    intro j
    rw [forcing_add]
    refine sum_congr rfl fun l _ => ?_
    rw [mul_pow]
    congr 1
    ring
  simp only [smul_add, sum_add_distrib, ← sum_smul, map_add, map_smul, hforce]
  congr 1
  simp only [smul_sum, smul_smul, map_sum, map_smul]
  rw [sum_comm]
  refine sum_congr rfl fun l _ => ?_
  rw [← sum_smul]
  congr 1
  rw [Tableau.beta, sum_div, mul_sum]
  exact sum_congr rfl fun j _ => by ring

/-- the stability function: the factor of y in one step on y' = λ y, at z = h λ -/
def Tableau.stability (T : Tableau s) (z : ℝ) : ℝ := 1 + ∑ q ∈ range s, T.alpha q * z ^ (q + 1)

/-- **Stability function.** -/
theorem Tableau.IsStep.stability {lam : ℝ} {y' : V} (hT : T.Explicit) (hs : T.IsStep (fun _ y => lam • y) t y h y') :
    y' = T.stability (h * lam) • y := by
  have hF : (fun _ y => lam • y : ℝ → V → V) = linearField (lam • LinearMap.id) (fun j : Fin 0 => j.elim0) := by
    funext t y
    simp [linearField, forcing]
  have hpow : ∀ q, ((lam • LinearMap.id : V →ₗ[ℝ] V) ^ q) y = lam ^ q • y := by
    intro q
    rw [smul_pow, LinearMap.smul_apply]
    congr 1
    exact congrFun (congrArg DFunLike.coe (one_pow q)) y
  rw [hF] at hs
  rw [hs.expansion hT, RungeKutta.expansion, Tableau.stability, add_smul, one_smul, sum_smul]
  congr 1
  refine sum_congr rfl fun q _ => ?_
  rw [range_zero, sum_empty, add_zero, hpow, smul_smul, smul_smul, mul_pow]
  congr 1
  ring

/-! ## The coefficients of a step -/

/-- the coefficient of h^k in `expansion` -/
def coeff (α : ℕ → ℝ) (β : ℕ → ℕ → ℝ) (N : ℕ) (A : V →ₗ[ℝ] V) (b : Fin m → V) (t : ℝ) (y : V) : ℕ → V
  | 0 => y
  | k + 1 => (if k < N then α k • (A ^ (k + 1)) y else 0) +
      ∑ q ∈ range N, if q ≤ k ∧ k < q + m then β q (k - q) • (A ^ q) (forcingDeriv b (k - q) t) else 0

/-- a sum over l < m, moved to the powers q + 1, ..., q + m -/
theorem sum_shift {q M : ℕ} (hq : q + m ≤ M) (h : ℝ) (f : ℕ → V) :
    ∑ l ∈ range m, h ^ (q + 1 + l) • f l =
      ∑ k ∈ range M, h ^ (k + 1) • (if q ≤ k ∧ k < q + m then f (k - q) else 0) := by
  have hsub : Ico q (q + m) ⊆ range M := fun k hk => by rw [mem_Ico] at hk; rw [mem_range]; omega
  rw [← sum_subset hsub fun k _ hk => ?_]
  · rw [sum_Ico_eq_sum_range, Nat.add_sub_cancel_left]
    refine sum_congr rfl fun l hl => ?_
    rw [if_pos ⟨Nat.le_add_right q l, by rw [mem_range] at hl; omega⟩, Nat.add_sub_cancel_left, Nat.add_right_comm]
  · rw [if_neg fun hk' => hk (mem_Ico.2 hk'), smul_zero]

/-- **Polynomial in h.** The expansion, ordered by the powers of h. -/
theorem expansion_eq_sum (α : ℕ → ℝ) (β : ℕ → ℕ → ℝ) (N : ℕ) (A : V →ₗ[ℝ] V) (b : Fin m → V) (t : ℝ) (y : V) (h : ℝ) :
    expansion α β N A b t y h = ∑ k ∈ range (N + m + 1), h ^ k • coeff α β N A b t y k := by
  have hstate : ∑ q ∈ range N, h ^ (q + 1) • α q • (A ^ (q + 1)) y =
      ∑ k ∈ range (N + m), h ^ (k + 1) • (if k < N then α k • (A ^ (k + 1)) y else 0) := by
    rw [← sum_subset (range_mono (Nat.le_add_right N m)) fun k _ hk => ?_]
    · exact sum_congr rfl fun q hq => by rw [if_pos (mem_range.1 hq)]
    · rw [if_neg fun hk' => hk (mem_range.2 hk'), smul_zero]
  have hforce : ∑ q ∈ range N, h ^ (q + 1) • ∑ l ∈ range m, (h ^ l * β q l) • (A ^ q) (forcingDeriv b l t) =
      ∑ k ∈ range (N + m), h ^ (k + 1) •
        ∑ q ∈ range N, if q ≤ k ∧ k < q + m then β q (k - q) • (A ^ q) (forcingDeriv b (k - q) t) else 0 := by
    simp only [smul_sum]
    rw [sum_comm (s := range (N + m))]
    refine sum_congr rfl fun q hq => ?_
    rw [← sum_shift (by rw [mem_range] at hq; omega) h fun l => β q l • (A ^ q) (forcingDeriv b l t)]
    refine sum_congr rfl fun l _ => ?_
    rw [smul_smul, smul_smul, ← mul_assoc, ← pow_add]
  rw [expansion, sum_range_succ', pow_zero, one_smul, add_comm]
  simp only [coeff, smul_add, sum_add_distrib]
  rw [hstate, hforce]

/-- the elementary terms of order k + 1, each with its coefficient -/
theorem coeff_succ {α : ℕ → ℝ} {β : ℕ → ℕ → ℝ} {N : ℕ} (b : Fin m → V) {k : ℕ} (hN : k < N) (hk : k < m) :
    coeff α β N A b t y (k + 1) =
      α k • (A ^ (k + 1)) y + ∑ q ∈ range (k + 1), β q (k - q) • (A ^ q) (forcingDeriv b (k - q) t) := by
  rw [coeff, if_pos hN, ← sum_subset (range_mono (Nat.succ_le_of_lt hN)) fun q _ hq => ?_]
  · congr 1
    refine sum_congr rfl fun q hq => ?_
    rw [mem_range] at hq
    exact if_pos ⟨by omega, by omega⟩
  · rw [if_neg fun h => hq (mem_range.2 (by omega))]

/-- coefficients 1/k! of all elementary terms of order k make the coefficient of h^k the one of the exact solution -/
theorem coeff_eq_exactDeriv {α : ℕ → ℝ} {β : ℕ → ℕ → ℝ} {N : ℕ} (b : Fin m → V) (hm : m ≤ N)
    (hα : ∀ q, q + 1 ≤ m → α q = 1 / (q + 1).factorial)
    (hβ : ∀ q l, q + l + 1 ≤ m → β q l = 1 / (q + l + 1).factorial) (k : ℕ) (hk : k ≤ m) :
    coeff α β N A b t y k = (1 / (k.factorial : ℝ)) • exactDeriv A b k t y := by
  cases k with
  | zero => simp [coeff, exactDeriv]
  | succ k =>
    rw [coeff_succ b (by omega) hk, hα k hk, exactDeriv, smul_add, smul_sum, Nat.add_sub_cancel]
    congr 1
    refine sum_congr rfl fun q hq => ?_
    rw [mem_range] at hq
    rw [hβ q (k - q) (by omega), show q + (k - q) + 1 = k + 1 by omega]

end Module

/-! ## The exact solution -/

section Normed

variable {V : Type*} [NormedAddCommGroup V] [NormedSpace ℝ V]

theorem hasDerivAt_forcingDeriv (b : Fin m → V) (l : ℕ) (t : ℝ) :
    HasDerivAt (forcingDeriv b l) (forcingDeriv b (l + 1) t) t := by
  unfold forcingDeriv
  refine HasDerivAt.fun_sum fun j _ => ?_
  have hp : HasDerivAt (fun t : ℝ => ((j : ℕ).descFactorial l : ℝ) * t ^ ((j : ℕ) - l))
      (((j : ℕ).descFactorial (l + 1) : ℝ) * t ^ ((j : ℕ) - (l + 1))) t := by
    refine ((hasDerivAt_pow ((j : ℕ) - l) t).const_mul _).congr_deriv ?_
    rw [Nat.descFactorial_succ, show (j : ℕ) - (l + 1) = (j : ℕ) - l - 1 by omega]
    push_cast
    ring
  exact hp.smul_const (b j)

variable [FiniteDimensional ℝ V] {A : V →ₗ[ℝ] V} {b : Fin m → V} {u : ℝ → V}

/-- along an exact solution the k-th expression is the derivative of the one before -/
theorem hasDerivAt_exactDeriv (hu : ∀ t, HasDerivAt u (linearField A b t (u t)) t) (k : ℕ) (t : ℝ) :
    HasDerivAt (fun t => exactDeriv A b k t (u t)) (exactDeriv A b (k + 1) t (u t)) t := by
  have hlin : ∀ (q : ℕ) {v : ℝ → V} {v' : V}, HasDerivAt v v' t → HasDerivAt (fun t => (A ^ q) (v t)) ((A ^ q) v') t :=
    fun q _ _ hv => (LinearMap.toContinuousLinearMap (A ^ q)).hasFDerivAt.comp_hasDerivAt t hv
  have hsum : HasDerivAt (fun t => ∑ q ∈ range k, (A ^ q) (forcingDeriv b (k - 1 - q) t))
      (∑ q ∈ range k, (A ^ q) (forcingDeriv b (k - q) t)) t := by
    refine HasDerivAt.fun_sum fun q hq => ?_
    have hkq : k - 1 - q + 1 = k - q := by rw [mem_range] at hq; omega
    exact hkq ▸ hlin q (hasDerivAt_forcingDeriv b (k - 1 - q) t)
  refine ((hlin k (hu t)).add hsum).congr_deriv ?_
  rw [exactDeriv, sum_range_succ, linearField, map_add, pow_succ, Module.End.mul_apply, Nat.add_sub_cancel,
    Nat.sub_self, forcingDeriv_zero]
  abel

/-- **Derivatives of the exact solution.** In the k-th derivative of a solution every elementary term of order k has
coefficient 1, so in its Taylor expansion it has coefficient 1/k!. -/
theorem iteratedDeriv_solution (hu : ∀ t, HasDerivAt u (linearField A b t (u t)) t) (k : ℕ) :
    iteratedDeriv k u = fun t => exactDeriv A b k t (u t) := by
  induction k with
  | zero => funext t; simp [exactDeriv]
  | succ k ih =>
    rw [iteratedDeriv_succ, ih]
    funext t
    exact (hasDerivAt_exactDeriv hu k t).deriv

end Normed

/-! ## Coefficients -/

/-- **Unique coefficients.** Two polynomial expansions with the same values have the same coefficients. -/
theorem poly_coeff_unique {N M : ℕ} {c d : ℕ → ℝ} (h : ∀ x : ℝ, ∑ k ∈ range N, x ^ k * c k = ∑ k ∈ range M, x ^ k * d k)
    (k : ℕ) : (if k < N then c k else 0) = if k < M then d k else 0 := by
  have key : ∑ k ∈ range N, Polynomial.X ^ k * Polynomial.C (c k) =
      ∑ k ∈ range M, Polynomial.X ^ k * Polynomial.C (d k) := by
    refine Polynomial.funext fun x => ?_
    simp only [Polynomial.eval_finsetSum, Polynomial.eval_mul, Polynomial.eval_pow, Polynomial.eval_X,
      Polynomial.eval_C]
    exact h x
  have hcoeff := congrArg (fun P => Polynomial.coeff P k) key
  simpa [Polynomial.finsetSum_coeff, Polynomial.coeff_X_pow] using hcoeff

/-- the same for polynomials with vector coefficients -/
theorem vec_coeff_unique {ι : Type*} {N M : ℕ} {c d : ℕ → ι → ℝ}
    (h : ∀ x : ℝ, ∑ k ∈ range N, x ^ k • c k = ∑ k ∈ range M, x ^ k • d k) {k : ℕ} (hN : k < N) (hM : k < M) :
    c k = d k := by
  funext i
  have hi : ∀ x : ℝ, ∑ k ∈ range N, x ^ k * c k i = ∑ k ∈ range M, x ^ k * d k i := by
    intro x
    simpa only [Finset.sum_apply, Pi.smul_apply, smul_eq_mul] using congrFun (h x) i
  have hk := poly_coeff_unique hi k
  rwa [if_pos hN, if_pos hM] at hk

/-! ## Small stages -/

section Normed

variable {W : Type*} [NormedAddCommGroup W] [NormedSpace ℝ W]

theorem norm_sum_smul_le {w : Fin s → ℝ} {K : Fin s → W} {b : ℝ} (hK : ∀ j, w j = 0 ∨ ‖K j‖ ≤ b) :
    ‖∑ j, w j • K j‖ ≤ (∑ j, |w j|) * b := by
  rw [sum_mul]
  refine norm_sum_le_of_le _ fun j _ => ?_
  rw [norm_smul, Real.norm_eq_abs]
  rcases hK j with hj | hj
  · simp [hj]
  · exact mul_le_mul_of_nonneg_left hj (abs_nonneg _)

/-- **Small stages.** Where F is bounded by M around (t, y), stages that are computed or given small are at most b, when
h M is. -/
theorem stages_le {T : Tableau s} (hT : T.Explicit) {F : ℝ → W → W} {K : Fin s → W} {t h r M b : ℝ} {y : W}
    (hF : ∀ τ u, |τ - t| ≤ r → ‖u - y‖ ≤ r → ‖F τ u‖ ≤ M) (hh : 0 ≤ h) (ht : (∑ i, |T.c i|) * h ≤ r)
    (hy : (∑ i, ∑ j, |T.a i j|) * b ≤ r) (hb : 0 ≤ b) (hM : h * M ≤ b)
    (hK : ∀ i, ‖K i‖ ≤ b ∨ K i = h • F (t + T.c i * h) (y + ∑ j, T.a i j • K j)) (i : Fin s) : ‖K i‖ ≤ b := by
  induction i using WellFoundedLT.induction with
  | ind i ih =>
    rcases hK i with h1 | h1
    · exact h1
    · have hsum : ‖∑ j, T.a i j • K j‖ ≤ (∑ i, ∑ j, |T.a i j|) * b := by
        refine (norm_sum_smul_le fun j => ?_).trans (mul_le_mul_of_nonneg_right ?_ hb)
        · rcases lt_or_ge j i with hj | hj
          · exact Or.inr (ih j hj)
          · exact Or.inl (hT i j hj)
        · exact single_le_sum (f := fun i => ∑ j, |T.a i j|) (fun i _ => sum_nonneg fun j _ => abs_nonneg _)
            (mem_univ i)
      have htime : |t + T.c i * h - t| ≤ r := by
        have hc : |T.c i * h| ≤ (∑ i, |T.c i|) * h := by
          rw [abs_mul, abs_of_nonneg hh]
          exact mul_le_mul_of_nonneg_right
            (single_le_sum (f := fun i => |T.c i|) (fun i _ => abs_nonneg _) (mem_univ i)) hh
        rw [add_sub_cancel_left]
        exact hc.trans ht
      have hpoint : ‖y + ∑ j, T.a i j • K j - y‖ ≤ r := by
        rw [add_sub_cancel_left]
        exact hsum.trans hy
      rw [h1, norm_smul, Real.norm_eq_abs, abs_of_nonneg hh]
      exact (mul_le_mul_of_nonneg_left (hF _ _ htime hpoint) hh).trans hM

/-- **Growing stages.** Where F grows at most linearly, stages that are computed or given small grow with their number.
-/
theorem stages_growth {T : Tableau s} (hT : T.Explicit) {F : ℝ → W → W} {K : Fin s → W} {t h L A b : ℝ} {y : W}
    (hF : ∀ τ u, ‖F τ u‖ ≤ L * (1 + ‖u‖)) (hL : 0 ≤ L) (hh : 0 ≤ h) (hA : ∀ i, ∑ j, |T.a i j| ≤ A)
    (hb : L * h * (1 + ‖y‖) ≤ b)
    (hK : ∀ i, ‖K i‖ ≤ b ∨ K i = h • F (t + T.c i * h) (y + ∑ j, T.a i j • K j)) (i : Fin s) :
    ‖K i‖ ≤ b * (1 + L * h * A) ^ i.val := by
  have hLh : 0 ≤ L * h := mul_nonneg hL hh
  have hb0 : 0 ≤ b := le_trans (by positivity) hb
  have hA0 : 0 ≤ A := (sum_nonneg fun j _ => abs_nonneg (T.a i j)).trans (hA i)
  have hbase : 1 ≤ 1 + L * h * A := le_add_of_nonneg_right (mul_nonneg hLh hA0)
  have hpow : ∀ k : ℕ, b ≤ b * (1 + L * h * A) ^ k := fun k => le_mul_of_one_le_right hb0 (one_le_pow₀ hbase)
  induction i using WellFoundedLT.induction with
  | ind i ih =>
    rcases hK i with h1 | h1
    · exact h1.trans (hpow i)
    · have hstage : ‖K i‖ ≤ b + L * h * ‖∑ j, T.a i j • K j‖ := by
        rw [h1, norm_smul, Real.norm_eq_abs, abs_of_nonneg hh]
        calc h * ‖F (t + T.c i * h) (y + ∑ j, T.a i j • K j)‖ ≤ h * (L * (1 + (‖y‖ + ‖∑ j, T.a i j • K j‖))) :=
              mul_le_mul_of_nonneg_left ((hF _ _).trans
                (mul_le_mul_of_nonneg_left (add_le_add_right (norm_add_le _ _) _) hL)) hh
          _ = L * h * (1 + ‖y‖) + L * h * ‖∑ j, T.a i j • K j‖ := by ring
          _ ≤ b + L * h * ‖∑ j, T.a i j • K j‖ := add_le_add_left hb _
      rcases Nat.eq_zero_or_pos i.val with hi | hi
      · -- the first stage uses no other
        have hzero : ∑ j, T.a i j • K j = 0 := by
          refine sum_eq_zero fun j _ => ?_
          rw [hT i j (Fin.le_def.2 (hi ▸ Nat.zero_le _)), zero_smul]
        rw [hzero, norm_zero, mul_zero, add_zero] at hstage
        exact hstage.trans (hpow i)
      · obtain ⟨k, hk⟩ := Nat.exists_eq_add_of_le' hi
        have hsum : ‖∑ j, T.a i j • K j‖ ≤ A * (b * (1 + L * h * A) ^ k) := by
          refine (norm_sum_smul_le fun j => ?_).trans
            (mul_le_mul_of_nonneg_right (hA i) (hb0.trans (hpow k)))
          rcases lt_or_ge j i with hj | hj
          · have hjk : j.val ≤ k := by
              have : j.val < i.val := hj
              omega
            exact Or.inr ((ih j hj).trans (mul_le_mul_of_nonneg_left (pow_le_pow_right₀ hbase hjk) hb0))
          · exact Or.inl (hT i j hj)
        calc ‖K i‖ ≤ b + L * h * (A * (b * (1 + L * h * A) ^ k)) :=
              hstage.trans (add_le_add_right (mul_le_mul_of_nonneg_left hsum hLh) _)
          _ ≤ b * (1 + L * h * A) ^ k + L * h * (A * (b * (1 + L * h * A) ^ k)) := add_le_add_left (hpow k) _
          _ = b * (1 + L * h * A) ^ i.val := by rw [hk, pow_succ]; ring

end Normed

end OdeClientServer.RungeKutta
