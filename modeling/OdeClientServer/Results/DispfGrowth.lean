/-
DISPF on right-hand sides that grow at most linearly. Its first stage is left over from the step before, so the state of
a run is the pair of y and this first stage.

- `approach_reaches`, `approachC_reaches`: an accepted attempt is the end of a search, and a search does not go below
  half of what needs no retry.
- `step_moves`: an accepted step of any of the three routines, on a field.
- `dispf_paced`: the loop is paced.
-/
import Mathlib.Analysis.Complex.ExponentialBounds
import OdeClientServer.Results.LinearGrowth
import OdeClientServer.Results.Settling

namespace OdeClientServer.DispfGrowth

open Loop DISPFSolver Retries Retry Settling Tableaux OdeClientServer.LinearGrowth

variable {n : ℕ} {F : ℝ → (Fin n → ℝ) → Fin n → ℝ} {f : Rhs ℝ} {tolerance t h : ℝ} {u v : Fin n → ℝ}

/-! ## Searches -/

section Search

variable {G : Formula ℝ} {k : Stages ℝ} {y : Vec ℝ}

/-- the loop 1a-2a goes through retries of the search -/
theorem predictor_reaches (hG : G.Valid) {fuel : ℕ} {k' : Stages ℝ} {h' : ℝ}
    (hp : predictor G f tolerance t y fuel k h = some (.ok (k', h'))) :
    Reaches (nextAB G f tolerance t y) (k 0, h) (k' 0, h') := by
  induction fuel generalizing k h with
  | zero => cases hp
  | succ fuel ih =>
    cases he : early G f t y (k 0, h) with
    | error e =>
      obtain ⟨r, hr⟩ := early_error hG tolerance he fuel
      rw [hr] at hp
      cases hp
    | ok an =>
      obtain ⟨hgt, hle⟩ := early_ok hG tolerance he
      by_cases ha : an > tolerance
      · obtain ⟨k1, hk1, hnext⟩ := hgt ha
        rw [hnext fuel] at hp
        refine .head ?_ (ih hp)
        simp only [nextAB, he, if_pos ha, scale, hk1]
      · obtain ⟨k1, hk1, -, hend⟩ := hle ha
        rw [hend fuel] at hp
        cases hp
        rw [hk1]
        exact .refl

/-- **Accepted attempts.** What a call of StepDISPFA or StepDISPFB accepts is reached by retries, late rejections and
recursive calls included. -/
theorem approach_reaches (hG : G.Valid) {fuel : ℕ} {m : Members ℝ} {a : Accepted ℝ}
    (ha : approach G f tolerance t y fuel m h = .accepted a) :
    Reaches (nextAB G f tolerance t y) (m.k 0, h) (a.mem.k 0, a.h) := by
  induction fuel generalizing m h with
  | zero => cases ha
  | succ fuel ih =>
    unfold approach at ha
    dsimp only at ha
    split at ha
    · cases ha
    · cases ha
    · rename_i k1 h1 hp
      have hloop : Reaches (nextAB G f tolerance t y) (m.k 0, h) (k1 0, h1) := predictor_reaches hG hp
      obtain ⟨-, hsecond⟩ := predictor_ok hG hp
      obtain ⟨an, hearly, hwithin⟩ := predictor_within hG hp
      split at ha
      · cases ha
      · rename_i k2 hs
        have hfirst : k2 0 = k1 0 := stageLoop_before (m := 2) (r := 4) hs (by decide)
        split at ha
        · cases ha
        · rename_i y0 fEnd an1 hend
          split_ifs at ha with hlate
          · -- the late rejection is a retry as well
            have htrial := (late_iff hG hsecond).2 ⟨k2, hs, hfirst, hend⟩
            have hnext := next_late hearly (not_lt.2 hwithin)
            rw [htrial] at hnext
            dsimp only at hnext
            rw [if_pos hlate] at hnext
            refine (hloop.tail hnext).trans ?_
            have hrest := ih ha
            simp only [scaleFirst_zero, hfirst] at hrest
            exact hrest
          · cases ha
            dsimp only
            rw [hfirst]
            exact hloop

/-- the loop of StepDISPFC goes through retries of its search -/
theorem approachC_reaches {fuel : ℕ} {k' : Stages ℝ} {h' : ℝ}
    (hp : approachC f tolerance t y fuel k h = some (.ok (k', h'))) :
    Reaches (nextC f tolerance t y) (k 0, h) (k' 0, h') := by
  induction fuel generalizing k h with
  | zero => cases hp
  | succ fuel ih =>
    cases he : errorC f t y (k 0, h) with
    | error e =>
      obtain ⟨r, hr⟩ := errorC_error tolerance he fuel
      rw [hr] at hp
      cases hp
    | ok cn1 =>
      obtain ⟨k1, hk1, hnext⟩ := errorC_ok tolerance he
      rw [hnext fuel] at hp
      split_ifs at hp with ha
      · refine .head ?_ (ih hp)
        simp only [nextC, he, if_pos ha, scale, scaleFirst_zero, hk1]
      · cases hp
        rw [hk1]
        exact .refl

theorem half_le_retryFactor (tolerance error : ℝ) : 0.5 ≤ retryFactor tolerance error :=
  le_min (by norm_num) (le_max_left _ _)

/-- **Floor of a search.** A search from (v, h) makes no retry, or it ends above half of a multiple below which no
attempt needs a retry. -/
theorem reaches_floor {next : Vec ℝ × ℝ → Option (Vec ℝ × ℝ)}
    (hnext : ∀ s s', next s = some s' → ∃ e, s' = scale s (retryFactor tolerance e)) {s' : Vec ℝ × ℝ}
    (hs : Reaches next (List.ofFn v, h) s') : ∃ c, 0 < c ∧ c ≤ 1 ∧ s' = (List.ofFn (c • v), c * h) ∧
      ∀ β, (∀ c', 0 < c' → c' ≤ β → next (List.ofFn (c' • v), c' * h) = none) → c = 1 ∨ β < 1 ∧ β / 2 ≤ c := by
  induction hs with
  | refl => exact ⟨1, one_pos, le_rfl, by rw [one_smul, one_mul], fun _ _ => Or.inl rfl⟩
  | tail _ hstep ih =>
    obtain ⟨c, hc0, hc1, rfl, -⟩ := ih
    obtain ⟨e, rfl⟩ := hnext _ _ hstep
    have hpos := retryFactor_pos tolerance e
    have hhalf := half_le_retryFactor tolerance e
    refine ⟨retryFactor tolerance e * c, mul_pos hpos hc0, mul_le_one₀ (retryFactor_le_one _ _) hc0.le hc1, ?_,
      fun β hβ => Or.inr ?_⟩
    · rw [scale_ofFn, smul_smul, mul_assoc]
    · have hlarge : β < c := by
        by_contra hle
        rw [hβ c hc0 (not_lt.1 hle)] at hstep
        cases hstep
      exact ⟨hlarge.trans_le hc1, by nlinarith⟩

end Search

/-! ## Accepted steps on a field -/

/-- no search retries the attempt with step g whose stages are K -/
structure Passes (F : ℝ → (Fin n → ℝ) → Fin n → ℝ) (tolerance t : ℝ) (u : Fin n → ℝ) (g : ℝ) (p : List ℝ)
    (K : Fin 6 → Fin n → ℝ) : Prop where
  early : ‖K 1 - K 0‖ * 2 ≤ tolerance
  late : ‖g • F (t + g) (u + ∑ j, (tableauDISPF p).p j • K j) - K 0‖ * 2 ≤ tolerance
  embedded : ‖∑ j, embedded j • K j‖ ≤ tolerance

/-- the weights of the three formulas -/
noncomputable def weights : List (List ℝ) := [P72, P28, P36]

/-- the step from (t, u) that was attempted with h and first stage V, was accepted with c h and stages K, and leaves u',
the step h' and the first stage v' -/
structure Moves (F : ℝ → (Fin n → ℝ) → Fin n → ℝ) (tolerance t : ℝ) (u V : Fin n → ℝ) (h c : ℝ) (p : List ℝ)
    (K : Fin 6 → Fin n → ℝ) (coef : ℝ) (u' v' : Fin n → ℝ) (h' : ℝ) : Prop where
  factor : 0 < c ∧ c ≤ 1
  first : K 0 = c • V
  stages : IsStages F t u (c * h) K
  formula : p ∈ weights
  value : u' = u + ∑ j, (tableauDISPF p).p j • K j
  coefficient : 0 ≤ coef ∧ coef ≤ 2
  length : h' = c * h * growthFactor tolerance (‖(c * h) • F (t + c * h) u' - K 0‖ * coef)
  left : v' = h' • F (t + c * h) u' ∨ V = h • F t u ∧ v' = K 0
  floor : ∀ β, (∀ c' K', 0 < c' → c' ≤ β → K' 0 = c' • V → IsStages F t u (c' * h) K' →
    Passes F tolerance t u (c' * h) p K') → c = 1 ∨ β < 1 ∧ β / 2 ≤ c

section Moves

variable {cfg : Config ℝ} {m m' : Members ℝ} {y' : Vec ℝ} {h' : ℝ} {g : Attempt ℝ} {fuel : ℕ}

theorem coef_le (G : Formula ℝ) (hG : G = formulaA ∨ G = formulaB) : 0 ≤ G.coef ∧ G.coef ≤ 2 ∧ G.p ∈ weights := by
  rcases hG with rfl | rfl
  · exact ⟨by norm_num [formulaA, CA1A], by norm_num [formulaA, CA1A], List.mem_cons_self⟩
  · exact ⟨by norm_num [formulaB, CA1B, dCoef], by norm_num [formulaB, CA1B, dCoef],
      List.mem_cons_of_mem _ List.mem_cons_self⟩

/-- an attempt that passes is not retried by the search of StepDISPFA or StepDISPFB -/
theorem nextAB_of_passes (hf : Computes F f) {G : Formula ℝ} (hG : G = formulaA ∨ G = formulaB) (V : Fin n → ℝ) (h : ℝ)
    (hpass : ∀ K, K 0 = V → IsStages F t u h K → Passes F tolerance t u h G.p K) :
    nextAB G f tolerance t (List.ofFn u) (List.ofFn V, h) = none := by
  obtain ⟨hcoef0, hcoef, -⟩ := coef_le G hG
  obtain ⟨K, hK0, hK, hearly, y0, fEnd, htrial⟩ := estimatesAB hf hG t u V h
  have hp := hpass K hK0 hK
  have han : ¬ ‖K 1 - K 0‖ * G.coef > tolerance :=
    not_lt.2 ((mul_le_mul_of_nonneg_left hcoef (norm_nonneg _)).trans hp.early)
  have han1 : ¬ ‖h • F (t + h) (u + ∑ j, (tableauDISPF G.p).p j • K j) - K 0‖ * G.coef > tolerance :=
    not_lt.2 ((mul_le_mul_of_nonneg_left hcoef (norm_nonneg _)).trans hp.late)
  simp only [nextAB, hearly, if_neg han, htrial, if_neg han1]

theorem nextC_of_passes (hf : Computes F f) {p : List ℝ} (V : Fin n → ℝ) (h : ℝ)
    (hpass : ∀ K, K 0 = V → IsStages F t u h K → Passes F tolerance t u h p K) :
    nextC f tolerance t (List.ofFn u) (List.ofFn V, h) = none := by
  obtain ⟨K, hK0, hK, herror⟩ := errorC_ofFn hf t u V h
  have hcn1 : ¬ ‖∑ j, embedded j • K j‖ * (17.0 / 24.0) > tolerance :=
    not_lt.2 ((mul_le_of_le_one_right (norm_nonneg _) (by norm_num)).trans (hpass K hK0 hK).embedded)
  simp only [nextC, herror, if_neg hcn1]

/-- the accepted step of StepDISPFA or StepDISPFB -/
theorem ab_moves (hf : Computes F f) {G : Formula ℝ} (hG : G = formulaA ∨ G = formulaB) (hV : G.Valid) {method : Method}
    {a : Accepted ℝ} (hm : m.k 0 = List.ofFn v)
    (ha : approach G f tolerance t (List.ofFn u) fuel m h = .accepted a)
    (hstep : ABStep G method f tolerance m t (List.ofFn u) h m' y' h' g a) :
    ∃ c K u' v', y' = List.ofFn u' ∧ m'.k 0 = List.ofFn v' ∧ Moves F tolerance t u v h c G.p K G.coef u' v' h' := by
  obtain ⟨hcoef0, hcoef, hp⟩ := coef_le G hG
  obtain ⟨hacc, rfl, rfl, -, hfirst⟩ := hstep
  have hreach := approach_reaches hV ha
  rw [hm] at hreach
  obtain ⟨c, hc0, hc1, heq, hfloor⟩ := reaches_floor (fun s s' hs => nextAB_scale hs) hreach
  obtain ⟨hk, hg⟩ := Prod.mk.inj heq
  obtain ⟨K, hK0, hK, htrial⟩ := trial_ofFn (t := t) (y := u) (h := c * h) hf hG (c • v)
  have hspec := hacc.trial_eq
  rw [hk, hg, htrial, Except.ok.injEq, Prod.mk.injEq, Prod.mk.injEq] at hspec
  obtain ⟨hy, hend, han1⟩ := hspec
  rw [← hend, List.length_ofFn, column_ofFn, Except.ok.injEq] at hfirst
  refine ⟨c, K, _, _, hy.symm, hfirst.symm, ⟨hc0, hc1⟩, hK0, hK, hp, rfl, ⟨hcoef0, hcoef⟩, ?_, Or.inl rfl,
    fun β hβ => hfloor β fun c' hc' hle => nextAB_of_passes hf hG _ _ fun K' hK0' hK' => hβ c' K' hc' hle hK0' hK'⟩
  rw [hg, ← han1, hK0]

/-- the accepted step of StepDISPFC -/
theorem c_moves (hf : Computes F f)
    (hs : stepDISPFC cfg f tolerance fuel m t (List.ofFn u) h = .returned m' y' h' g) :
    ∃ c K u' v', y' = List.ofFn u' ∧ m'.k 0 = List.ofFn v' ∧
      Moves F tolerance t u (h • F t u) h c P36 K (CA1B * dCoef) u' v' h' := by
  obtain ⟨first, k, m1, method, an1, vn, hfirst, hk, hy, he, hh, -, hm1, -, rfl⟩ := stepDISPFC_cases hs
  have hcol := firstColumn hf t h u
  rw [hfirst, Except.ok.injEq] at hcol
  obtain rfl := hcol
  have hreach := approachC_reaches hk
  rw [show setStage m.k 0 (List.ofFn (h • F t u)) 0 = List.ofFn (h • F t u) from setStage_same m.k 0 _] at hreach
  obtain ⟨c, hc0, hc1, heq, hfloor⟩ := reaches_floor (fun s s' hs => nextC_scale hs) hreach
  obtain ⟨hk0, hg⟩ := Prod.mk.inj heq
  obtain ⟨-, hloop⟩ := approachC_ok hk
  have hbase : ∀ j : Fin 6, j.val < 1 → setStage (fun _ => []) 0 (k 0) j = List.ofFn (c • h • F t u) := by
    intro j hj
    rw [show j = 0 from Fin.ext (Nat.lt_one_iff.1 hj), ← hk0]
    exact setStage_same (fun _ => []) 0 (k 0)
  obtain ⟨k', K, hloop', hold, hnew, hcols⟩ := stageLoop_ofFn (t := t) (y := u) (h := c * h)
    (K := fun _ => c • h • F t u) hf P36 (m := 1) (r := 5) le_rfl (by norm_num) hbase
  rw [show List.range' 1 5 = [1, 2, 3, 4, 5] from rfl, ← hg, hloop, Except.ok.injEq] at hloop'
  obtain rfl := hloop'
  have hall : ∀ j, k j = List.ofFn (K j) := fun j => hcols j j.isLt
  have hK0 : K 0 = c • h • F t u := hold 0 (by decide)
  rw [newPoint_ofFn P36 hall, Except.ok.injEq] at hy
  obtain rfl := hy
  have han1 : an1 = ‖(c * h) • F (t + c * h) (u + ∑ j, (tableauDISPF P36).p j • K j) - K 0‖ * (CA1B * dCoef) := by
    obtain ⟨vn', hvn⟩ := calcVn_ofFn hall
    rw [hg, endPointC, hf, ok_bind, List.length_ofFn, hall 0, endDifference_ofFn, ok_bind, hvn, ok_bind, except_pure,
      Except.ok.injEq, Prod.mk.injEq] at he
    exact he.1.symm
  obtain ⟨hmk, -, -⟩ := stabilityBlock_ok hm1
  refine ⟨c, K, _, K 0, rfl, ?_, ⟨hc0, hc1⟩, hK0, fun j hj => hnew j hj j.isLt,
    List.mem_cons_of_mem _ (List.mem_cons_of_mem _ List.mem_cons_self), rfl, by norm_num [CA1B, dCoef], ?_,
    Or.inr ⟨rfl, rfl⟩,
    fun β hβ => hfloor β fun c' hc' hle => nextC_of_passes hf _ _ fun K' hK0' hK' => hβ c' K' hc' hle hK0' hK'⟩
  · dsimp only
    rw [hmk]
    exact hall 0
  · rw [hh, hg, han1]

/-- **Accepted steps.** Whatever routine makes it, an accepted step on a field starts from the first stage that is left
over, or from h F(t, u), and moves along one of the three formulas. -/
theorem step_moves (hf : Computes F f) (hm : m.k 0 = List.ofFn v)
    (hs : step cfg f tolerance fuel m t (List.ofFn u) h = .returned m' y' h' g) :
    ∃ V c p K coef u' v', (V = v ∨ V = h • F t u) ∧ y' = List.ofFn u' ∧ m'.k 0 = List.ofFn v' ∧
      Moves F tolerance t u V h c p K coef u' v' h' := by
  unfold step at hs
  split at hs
  · obtain ⟨a, ha, hstep⟩ := stepDISPFA_returned hs
    obtain ⟨c, K, u', v', hmoves⟩ := ab_moves hf (Or.inl rfl) formulaA_valid hm ha hstep
    exact ⟨v, c, _, K, _, u', v', Or.inl rfl, hmoves⟩
  · obtain ⟨a, ha, hstep⟩ := stepDISPFB_returned hs
    obtain ⟨c, K, u', v', hmoves⟩ := ab_moves hf (Or.inr rfl) formulaB_valid hm ha hstep
    exact ⟨v, c, _, K, _, u', v', Or.inl rfl, hmoves⟩
  · obtain ⟨c, K, u', v', hmoves⟩ := c_moves hf hs
    exact ⟨_, c, _, K, _, u', v', Or.inr rfl, hmoves⟩

end Moves

/-! ## Growth of one step -/

section Growth

variable {L b c ha h' coef : ℝ} {p : List ℝ} {K : Fin 6 → Fin n → ℝ} {V u' v' : Fin n → ℝ}

/-- the sum of the stage coefficients -/
noncomputable def stageSum : ℝ := ∑ i, ∑ j, |(tableauDISPF []).a i j|

/-- the sum of all weights -/
noncomputable def weightSum : ℝ := (weights.map fun p => ∑ j, |(tableauDISPF p).p j|).sum + ∑ j, |embedded j|

/-- the first stage that is left over is at most this part of the step and the state -/
noncomputable def lead (L : ℝ) : ℝ := 2 * (L + 1)

/-- the state grows at most with this rate -/
noncomputable def rate (L : ℝ) : ℝ := weightSum * lead L + 6 * L * stageSum

theorem stageSum_nonneg : 0 ≤ stageSum := Finset.sum_nonneg fun _ _ => Finset.sum_nonneg fun _ _ => abs_nonneg _

theorem weight_le : (∀ p ∈ weights, ∑ j, |(tableauDISPF p).p j| ≤ weightSum) ∧ ∑ j, |embedded j| ≤ weightSum := by
  have hp : ∀ p : List ℝ, 0 ≤ ∑ j, |(tableauDISPF p).p j| := fun p => Finset.sum_nonneg fun _ _ => abs_nonneg _
  have he : 0 ≤ ∑ j, |embedded j| := Finset.sum_nonneg fun _ _ => abs_nonneg _
  have hsum : weightSum = ∑ j, |(tableauDISPF P72).p j| + ∑ j, |(tableauDISPF P28).p j| +
      ∑ j, |(tableauDISPF P36).p j| + ∑ j, |embedded j| := by
    simp [weightSum, weights, add_assoc]
  have h72 := hp P72
  have h28 := hp P28
  have h36 := hp P36
  constructor
  · intro p hmem
    simp only [weights, List.mem_cons, List.not_mem_nil, or_false] at hmem
    rcases hmem with rfl | rfl | rfl <;> linarith
  · linarith

theorem weightSum_nonneg : 0 ≤ weightSum := le_trans (Finset.sum_nonneg fun _ _ => abs_nonneg _) weight_le.2

theorem rate_nonneg (hL : 0 < L) : 0 ≤ rate L :=
  add_nonneg (mul_nonneg weightSum_nonneg (by rw [lead]; linarith)) (mul_nonneg (by linarith) stageSum_nonneg)

theorem one_add_mul_exp_le (z : ℝ) {w : ℝ} (hw : 0 ≤ w) : 1 + z * Real.exp w ≤ Real.exp (z + w) := by
  have hone : 1 ≤ Real.exp w := Real.one_le_exp hw
  have hstep := mul_le_mul_of_nonneg_right (Real.add_one_le_exp z) (Real.exp_pos w).le
  rw [Real.exp_add]
  linarith

/-- the stages of an attempt grow at most exponentially in its step -/
theorem stages_bound (hF : GrowsLinearly F L) {g N : ℝ} (hg : 0 ≤ g) (hK : IsStages F t u g K)
    (hN : L * g * (1 + ‖u‖) ≤ N) (h0 : ‖K 0‖ ≤ N) (j : Fin 6) : ‖K j‖ ≤ N * Real.exp (6 * (L * g * stageSum)) := by
  have hz : 0 ≤ L * g * stageSum := mul_nonneg (mul_nonneg hF.pos.le hg) stageSum_nonneg
  have hrow : ∀ i, ∑ l, |(tableauDISPF []).a i l| ≤ stageSum := fun i =>
    Finset.single_le_sum (f := fun i => ∑ l, |(tableauDISPF []).a i l|)
      (fun i _ => Finset.sum_nonneg fun l _ => abs_nonneg _) (Finset.mem_univ i)
  have hgrow := RungeKutta.stages_growth (t := t) (tableauDISPF_explicit []) hF.bound hF.pos.le hg hrow hN (K := K)
    (fun i => by
      rcases Nat.eq_zero_or_pos i.val with hi | hi
      · rw [show i = 0 from Fin.ext hi]
        exact Or.inl h0
      · exact Or.inr (hK i hi)) j
  refine hgrow.trans (mul_le_mul_of_nonneg_left ?_ ((norm_nonneg _).trans h0))
  calc (1 + L * g * stageSum) ^ j.val ≤ (1 + L * g * stageSum) ^ 6 :=
        pow_le_pow_right₀ (by linarith) (by omega)
    _ ≤ Real.exp (L * g * stageSum) ^ 6 :=
        pow_le_pow_left₀ (by linarith) (by linarith [Real.add_one_le_exp (L * g * stageSum)]) 6
    _ = Real.exp (6 * (L * g * stageSum)) := by rw [← Real.exp_nat_mul]; norm_num

/-- b bounds the state, and with the step h the first stage that is left over -/
structure Carried (L h b : ℝ) (u v : Fin n → ℝ) : Prop where
  state : 1 + ‖u‖ ≤ b
  first : ‖v‖ ≤ lead L * h * b

/-- the first stage of an attempt that is cut off to ha -/
theorem Carried.attempt (hF : GrowsLinearly F L) (hc : Carried L h b u v) (h0 : 0 ≤ ha) (hle : ha ≤ h)
    (hV : V = v ∨ V = ha • F t u) : ‖V‖ ≤ lead L * h * b := by
  rcases hV with rfl | rfl
  · exact hc.first
  · have hL := hF.pos
    have hb : 0 ≤ b := le_trans (by positivity) hc.state
    calc ‖ha • F t u‖ ≤ L * ha * (1 + ‖u‖) := hF.smul_le h0 t u
      _ ≤ L * h * b := mul_le_mul (mul_le_mul_of_nonneg_left hle hL.le) hc.state (by positivity)
          (mul_nonneg hL.le (h0.trans hle))
      _ ≤ lead L * h * b := by
        refine mul_le_mul_of_nonneg_right (mul_le_mul_of_nonneg_right ?_ (h0.trans hle)) hb
        rw [lead]
        linarith

/-- all stages of an attempt with the part c of step and first stage -/
theorem attempt_stages (hF : GrowsLinearly F L) (hc : Carried L h b u v) (h0 : 0 < ha) (hle : ha ≤ h)
    (hV : V = v ∨ V = ha • F t u) (hpos : 0 < c) (hK0 : K 0 = c • V) (hK : IsStages F t u (c * ha) K) (j : Fin 6) :
    ‖K j‖ ≤ lead L * (c * h) * b * Real.exp (6 * (L * (c * h) * stageSum)) := by
  have hL := hF.pos
  have hb : 0 ≤ b := le_trans (by positivity) hc.state
  have hch : c * ha ≤ c * h := mul_le_mul_of_nonneg_left hle hpos.le
  have hch0 : 0 ≤ c * ha := (mul_pos hpos h0).le
  have hlead : L ≤ lead L := by rw [lead]; linarith
  have hfirst : ‖K 0‖ ≤ lead L * (c * h) * b := by
    rw [hK0, norm_smul_of_nonneg hpos.le]
    calc c * ‖V‖ ≤ c * (lead L * h * b) := mul_le_mul_of_nonneg_left (hc.attempt hF h0.le hle hV) hpos.le
      _ = lead L * (c * h) * b := by ring
  have hN : L * (c * ha) * (1 + ‖u‖) ≤ lead L * (c * h) * b :=
    mul_le_mul (mul_le_mul hlead hch hch0 (hL.le.trans hlead)) hc.state (by positivity)
      (mul_nonneg (hL.le.trans hlead) (hch0.trans hch))
  refine (stages_bound hF hch0 hK hN hfirst j).trans ?_
  refine mul_le_mul_of_nonneg_left (Real.exp_le_exp.2 ?_) ((norm_nonneg _).trans hfirst)
  have := mul_le_mul_of_nonneg_right (mul_le_mul_of_nonneg_left hch hL.le) stageSum_nonneg
  linarith

/-- the new state grows at most exponentially in the part c of the step -/
theorem attempt_value (hF : GrowsLinearly F L) (hc : Carried L h b u v) (h0 : 0 < ha) (hle : ha ≤ h)
    (hV : V = v ∨ V = ha • F t u) (hpos : 0 < c) (hK0 : K 0 = c • V) (hK : IsStages F t u (c * ha) K)
    (hp : p ∈ weights) : 1 + ‖u + ∑ j, (tableauDISPF p).p j • K j‖ ≤ b * Real.exp (rate L * (c * h)) := by
  have hL := hF.pos
  have hb : 0 ≤ b := le_trans (by positivity) hc.state
  have hw : 0 ≤ c * h := mul_nonneg hpos.le (h0.le.trans hle)
  have hstage := attempt_stages hF hc h0 hle hV hpos hK0 hK
  have hsum : ‖∑ j, (tableauDISPF p).p j • K j‖ ≤
      weightSum * (lead L * (c * h) * b * Real.exp (6 * (L * (c * h) * stageSum))) :=
    (RungeKutta.norm_sum_smul_le fun j => Or.inr (hstage j)).trans
      (mul_le_mul_of_nonneg_right (weight_le.1 p hp) ((norm_nonneg _).trans (hstage 0)))
  calc 1 + ‖u + ∑ j, (tableauDISPF p).p j • K j‖
      ≤ b + weightSum * (lead L * (c * h) * b * Real.exp (6 * (L * (c * h) * stageSum))) := by
        linarith [norm_add_le u (∑ j, (tableauDISPF p).p j • K j), hc.state]
    _ = b * (1 + weightSum * lead L * (c * h) * Real.exp (6 * (L * (c * h) * stageSum))) := by ring
    _ ≤ b * Real.exp (weightSum * lead L * (c * h) + 6 * (L * (c * h) * stageSum)) := by
        refine mul_le_mul_of_nonneg_left (one_add_mul_exp_le _ ?_) hb
        exact mul_nonneg (by norm_num) (mul_nonneg (mul_nonneg hL.le hw) stageSum_nonneg)
    _ = b * Real.exp (rate L * (c * h)) := by rw [rate]; ring_nf

/-- the steps whose attempts pass, for states up to b -/
structure Short (L tolerance b w : ℝ) : Prop where
  rate : rate L * w ≤ 1
  estimates : 3 * lead L * w * b * (4 + weightSum) ≤ tolerance

/-- a short attempt passes -/
theorem attempt_passes (hF : GrowsLinearly F L) (hc : Carried L h b u v) (h0 : 0 < ha) (hle : ha ≤ h)
    (hV : V = v ∨ V = ha • F t u) (hpos : 0 < c) (hK0 : K 0 = c • V) (hK : IsStages F t u (c * ha) K)
    (hp : p ∈ weights) (hs : Short L tolerance b (c * h)) : Passes F tolerance t u (c * ha) p K := by
  have hL := hF.pos
  have hb : 0 ≤ b := le_trans (by positivity) hc.state
  have hw : 0 ≤ c * h := mul_nonneg hpos.le (h0.le.trans hle)
  have hlead : 0 ≤ lead L := by rw [lead]; linarith
  have hq0 : 0 ≤ lead L * (c * h) * b := mul_nonneg (mul_nonneg hlead hw) hb
  have hexp : Real.exp (rate L * (c * h)) ≤ 3 := (Real.exp_le_exp.2 hs.rate).trans Real.exp_one_lt_three.le
  have hexpStages : Real.exp (6 * (L * (c * h) * stageSum)) ≤ 3 := by
    refine (Real.exp_le_exp.2 ?_).trans hexp
    have hweights : 0 ≤ weightSum * lead L * (c * h) := mul_nonneg (mul_nonneg weightSum_nonneg hlead) hw
    rw [rate]
    linarith
  -- the bound of all stages
  let q := 3 * (lead L * (c * h) * b)
  have hstage : ∀ j, ‖K j‖ ≤ q := fun j =>
    (attempt_stages hF hc h0 hle hV hpos hK0 hK j).trans (by
      rw [mul_comm]
      exact mul_le_mul_of_nonneg_right hexpStages hq0)
  have hend : ‖(c * ha) • F (t + c * ha) (u + ∑ j, (tableauDISPF p).p j • K j)‖ ≤ q := by
    have hvalue := (attempt_value hF hc h0 hle hV hpos hK0 hK hp).trans (mul_le_mul_of_nonneg_left hexp hb)
    calc ‖(c * ha) • F (t + c * ha) (u + ∑ j, (tableauDISPF p).p j • K j)‖
        ≤ L * (c * ha) * (1 + ‖u + ∑ j, (tableauDISPF p).p j • K j‖) := hF.smul_le (mul_pos hpos h0).le _ _
      _ ≤ lead L * (c * h) * (b * 3) := by
        refine mul_le_mul (mul_le_mul ?_ (mul_le_mul_of_nonneg_left hle hpos.le) (mul_pos hpos h0).le hlead) hvalue
          (by positivity) (mul_nonneg hlead hw)
        rw [lead]
        linarith
      _ = q := by ring
  have hq4 : 4 * q ≤ tolerance := by
    have := mul_nonneg hq0 weightSum_nonneg
    have := hs.estimates
    simp only [q]
    linarith
  have hqw : weightSum * q ≤ tolerance := by
    have := hs.estimates
    simp only [q]
    linarith
  have hdiff : ∀ x y : Fin n → ℝ, ‖x‖ ≤ q → ‖y‖ ≤ q → ‖x - y‖ * 2 ≤ tolerance := by
    intro x y hx hy
    linarith [norm_sub_le x y]
  refine ⟨hdiff _ _ (hstage 1) (hstage 0), hdiff _ _ hend (hstage 0), ?_⟩
  refine (RungeKutta.norm_sum_smul_le fun j => Or.inr (hstage j)).trans (le_trans ?_ hqw)
  exact mul_le_mul_of_nonneg_right weight_le.2 ((norm_nonneg _).trans (hstage 0))

/-- the growth factor is between 0.9 and 2, and at least 1 when An1 is within the tolerance -/
theorem growthFactor_bounds {e : ℝ} (htol : 0 < tolerance) (he : 0 ≤ e) : 0.9 ≤ growthFactor tolerance e ∧
    growthFactor tolerance e ≤ 2 ∧ (e ≤ tolerance → 1 ≤ growthFactor tolerance e) := by
  refine ⟨le_clampTop (by norm_num), (clampTop_le _ _).trans (by norm_num), fun hle => ?_⟩
  have hone : 1 ≤ clampTop 0.9 2.0 (mulTop 1 (powTop (quot tolerance e) (1.0 / 5.0))) :=
    one_le_clampTop_ratio (k := 5) one_pos htol he (by norm_num) (by norm_num) (by norm_num) (by rwa [one_pow, one_mul])
  rwa [mulTop_one] at hone

/-- **One step.** An accepted step leaves a positive step and a bound of the new state. -/
theorem moves_step (hF : GrowsLinearly F L) (htol : 0 < tolerance) (hc : Carried L h b u v) (h0 : 0 < ha) (hle : ha ≤ h)
    (hV : V = v ∨ V = ha • F t u) (hm : Moves F tolerance t u V ha c p K coef u' v' h') :
    0 < h' ∧ h' ≤ 2 * ha ∧ Carried L h' (b * Real.exp (rate L * h)) u' v' := by
  obtain ⟨hc0, hc1⟩ := hm.factor
  have hL := hF.pos
  have hb : 0 ≤ b := le_trans (by positivity) hc.state
  have hg : 0 < c * ha := mul_pos hc0 h0
  have hga : c * ha ≤ ha := mul_le_of_le_one_left h0.le hc1
  obtain ⟨hlow, hhigh, -⟩ := growthFactor_bounds htol
    (mul_nonneg (norm_nonneg ((c * ha) • F (t + c * ha) u' - K 0)) hm.coefficient.1)
  have hlength := hm.length
  generalize growthFactor tolerance (‖(c * ha) • F (t + c * ha) u' - K 0‖ * coef) = factor at hlow hhigh hlength
  subst hlength
  have hh' : 0 < c * ha * factor := mul_pos hg (by linarith)
  have hwhole : 1 ≤ Real.exp (rate L * h) := Real.one_le_exp (mul_nonneg (rate_nonneg hL) (h0.le.trans hle))
  have hstate : 1 + ‖u'‖ ≤ b * Real.exp (rate L * h) := by
    have hvalue := attempt_value hF hc h0 hle hV hc0 hm.first hm.stages hm.formula
    rw [← hm.value] at hvalue
    refine hvalue.trans (mul_le_mul_of_nonneg_left (Real.exp_le_exp.2 ?_) hb)
    exact mul_le_mul_of_nonneg_left (mul_le_of_le_one_left (h0.le.trans hle) hc1) (rate_nonneg hL)
  refine ⟨hh', by nlinarith, hstate, ?_⟩
  rcases hm.left with hv' | ⟨rfl, hv'⟩
  · rw [hv']
    refine (hF.smul_le hh'.le _ _).trans (mul_le_mul (mul_le_mul_of_nonneg_right ?_ hh'.le) hstate (by positivity) ?_)
    · rw [lead]
      linarith
    · exact mul_nonneg (by rw [lead]; linarith) hh'.le
  · rw [hv', hm.first, smul_smul]
    calc ‖(c * ha) • F t u‖ ≤ L * (c * ha) * (1 + ‖u‖) := hF.smul_le hg.le t u
      _ ≤ lead L * (c * ha * factor) * b := by
        refine mul_le_mul ?_ hc.state (by positivity) (mul_nonneg (by rw [lead]; linarith) hh'.le)
        have hpart : c * ha ≤ 2 * (c * ha * factor) := by nlinarith
        rw [lead]
        nlinarith
      _ ≤ lead L * (c * ha * factor) * (b * Real.exp (rate L * h)) :=
        mul_le_mul_of_nonneg_left (le_mul_of_one_le_right hb hwhole) (mul_nonneg (by rw [lead]; linarith) hh'.le)

theorem Short.mono {η w : ℝ} (hL : 0 < L) (hs : Short L tolerance b η) (hb : 0 ≤ b) (hle : w ≤ η) :
    Short L tolerance b w where
  rate := (mul_le_mul_of_nonneg_left hle (rate_nonneg hL)).trans hs.rate
  estimates := by
    refine le_trans ?_ hs.estimates
    have hlead : 0 ≤ 3 * lead L := by rw [lead]; linarith
    exact mul_le_mul_of_nonneg_right (mul_le_mul_of_nonneg_right (mul_le_mul_of_nonneg_left hle hlead) hb)
      (by linarith [weightSum_nonneg])

/-- **Floor of a step.** A short base step is not lowered, and from a longer one the search does not go below a fixed
part of the attempt. -/
theorem moves_floor (hF : GrowsLinearly F L) (htol : 0 < tolerance) (hc : Carried L h b u v) (h0 : 0 < ha)
    (hle : ha ≤ h) (hV : V = v ∨ V = ha • F t u) (hm : Moves F tolerance t u V ha c p K coef u' v' h') {η : ℝ}
    (hs : Short L tolerance b η) :
    (h ≤ η → ha ≤ h') ∧ (0.9 * ha ≤ h' ∨ 0.9 * (η / (2 * h)) * ha ≤ h') := by
  have hh : 0 < h := h0.trans_le hle
  have hb : 0 ≤ b := le_trans (by positivity) hc.state
  obtain ⟨hc0, -⟩ := hm.factor
  have hpass : ∀ c' K', 0 < c' → c' ≤ η / h → K' 0 = c' • V → IsStages F t u (c' * ha) K' →
      Passes F tolerance t u (c' * ha) p K' := fun c' K' hpos hc' hK0' hK' =>
    attempt_passes hF hc h0 hle hV hpos hK0' hK' hm.formula (hs.mono hF.pos hb ((le_div_iff₀ hh).1 hc'))
  obtain ⟨hlow, -, hone⟩ := growthFactor_bounds htol
    (mul_nonneg (norm_nonneg ((c * ha) • F (t + c * ha) u' - K 0)) hm.coefficient.1)
  have hsearch := hm.floor (η / h) hpass
  constructor
  · intro hshort
    have hc1 : c = 1 := hsearch.resolve_right fun hβ => absurd hβ.1 (not_lt.2 ((one_le_div hh).2 hshort))
    have hlate := (hpass c K hc0 (by rw [hc1]; exact (one_le_div hh).2 hshort) hm.first hm.stages).late
    rw [← hm.value] at hlate
    have hgrow := hone ((mul_le_mul_of_nonneg_left hm.coefficient.2 (norm_nonneg _)).trans hlate)
    rw [hm.length, hc1, one_mul]
    rw [hc1, one_mul] at hgrow
    exact le_mul_of_one_le_right h0.le hgrow
  · have hkept : c * ha * 0.9 ≤ h' := by
      rw [hm.length]
      exact mul_le_mul_of_nonneg_left hlow (mul_pos hc0 h0).le
    rcases hsearch with rfl | ⟨-, hpart⟩
    · exact Or.inl (by linarith)
    · refine Or.inr (le_trans ?_ hkept)
      have hhalf : η / (2 * h) = η / h / 2 := by rw [div_div, mul_comm]
      rw [hhalf]
      nlinarith

end Growth

/-! ## The loop of Solve -/

section Solve

variable {L t0 tEnd H : ℝ} {cfg : Config ℝ}

/-- a state of dimension n with its first stage, and a positive step up to H -/
structure StateOf (n : ℕ) (t0 H : ℝ) (s : RunState (Members ℝ) (Attempt ℝ) ℝ) : Prop where
  step : 0 < s.h
  bound : s.h ≤ H
  time : t0 ≤ s.t
  dim : ∃ u v : Fin n → ℝ, s.y = List.ofFn u ∧ s.mem.k 0 = List.ofFn v

/-- the bound of state and first stage -/
noncomputable def carried (L : ℝ) (n : ℕ) (s : RunState (Members ℝ) (Attempt ℝ) ℝ) : ℝ :=
  max (1 + ‖coords n s.y‖) (‖coords n (s.mem.k 0)‖ / (lead L * s.h))

/-- the growth that the next step may make is taken before it is made -/
noncomputable def size (L : ℝ) (n : ℕ) (s : RunState (Members ℝ) (Attempt ℝ) ℝ) : ℝ :=
  carried L n s * Real.exp (rate L * s.h)

theorem lead_pos (hL : 0 < L) : 0 < lead L := by rw [lead]; linarith

theorem carried_nonneg (s : RunState (Members ℝ) (Attempt ℝ) ℝ) : 0 ≤ carried L n s :=
  le_max_of_le_left (by positivity)

theorem carried_spec (hL : 0 < L) {s : RunState (Members ℝ) (Attempt ℝ) ℝ} (hh : 0 < s.h) (hy : s.y = List.ofFn u)
    (hk : s.mem.k 0 = List.ofFn v) : Carried L s.h (carried L n s) u v := by
  have hpos : 0 < lead L * s.h := mul_pos (lead_pos hL) hh
  constructor
  · simpa only [carried, hy, coords_ofFn] using le_max_left _ _
  · have hright : ‖v‖ / (lead L * s.h) ≤ carried L n s := by
      simpa only [carried, hk, coords_ofFn] using le_max_right _ _
    rw [div_le_iff₀ hpos] at hright
    rwa [mul_comm]

/-- the size bounds what is carried -/
theorem carried_le_size (hL : 0 < L) {s : RunState (Members ℝ) (Attempt ℝ) ℝ} (hh : 0 < s.h) :
    carried L n s ≤ size L n s :=
  le_mul_of_one_le_right (carried_nonneg s) (Real.one_le_exp (mul_nonneg (rate_nonneg hL) hh.le))

/-- a pass of the loop, as one accepted step on the field -/
theorem pass_moves (hf : Computes F f) {s s' : RunState (Members ℝ) (Attempt ℝ) ℝ} (hs : StateOf n t0 H s)
    (hb : limit (fun fuel => (driver cfg f tolerance fuel).body tEnd) s = .next s') :
    s.t < tEnd ∧ s'.t = s.t + s'.h ∧ ∃ (u v V : Fin n → ℝ) (c : ℝ) (p : List ℝ) (K : Fin 6 → Fin n → ℝ) (coef : ℝ)
      (u' v' : Fin n → ℝ), s.y = List.ofFn u ∧ s.mem.k 0 = List.ofFn v ∧ s'.y = List.ofFn u' ∧
      s'.mem.k 0 = List.ofFn v' ∧ (V = v ∨ V = min s.h (tEnd - s.t) • F s.t u) ∧
      Moves F tolerance s.t u V (min s.h (tEnd - s.t)) c p K coef u' v' s'.h := by
  obtain ⟨u, v, hy, hk⟩ := hs.dim
  obtain ⟨ht, fuel, ⟨m, y, h, g, hstep, rfl⟩ | ⟨e, m, y, h, -, hc, -⟩⟩ := limit_cases hb
  · rw [(driver_sound fuel).clip_eq, hy] at hstep
    obtain ⟨V, c, p, K, coef, u', v', hV, hy', hk', hm⟩ := step_moves hf hk hstep
    exact ⟨ht, rfl, u, v, V, c, p, K, coef, u', v', hy, hk, hy', hk', hV, hm⟩
  · cases hc

theorem dispf_paced (hf : Computes F f) (hF : GrowsLinearly F L) (htol : 0 < tolerance) (cfg : Config ℝ) (hH : 0 < H)
    (hend : 2 * (tEnd - t0) ≤ H) :
    Paced (limit fun fuel => (driver cfg f tolerance fuel).body tEnd) (StateOf n t0 H) RunState.t RunState.h (size L n)
      tEnd (rate L) := by
  have hL := hF.pos
  -- one pass, without the floor
  have hstep : ∀ s s', StateOf n t0 H s →
      limit (fun fuel => (driver cfg f tolerance fuel).body tEnd) s = .next s' →
      s.t < tEnd ∧ StateOf n t0 H s' ∧ Advances RunState.t RunState.h (size L n) (rate L) s s' := by
    intro s s' hs hb
    obtain ⟨ht, hclock, u, v, V, c, p, K, coef, u', v', hy, hk, hy', hk', hV, hm⟩ := pass_moves hf hs hb
    have hattempt : 0 < min s.h (tEnd - s.t) := lt_min hs.step (sub_pos.2 ht)
    obtain ⟨hpos, hdouble, hcarried⟩ :=
      moves_step hF htol (carried_spec hL hs.step hy hk) hattempt (min_le_left _ _) hV hm
    have hrest : min s.h (tEnd - s.t) ≤ tEnd - t0 := (min_le_right _ _).trans (by linarith [hs.time])
    refine ⟨ht, ⟨hpos, by linarith, by linarith [hs.time], u', v', hy', hk'⟩, hclock, hpos, ?_⟩
    refine mul_le_mul_of_nonneg_right (max_le ?_ ?_) (Real.exp_pos _).le
    · rw [hy', coords_ofFn]
      exact hcarried.state
    · rw [hk', coords_ofFn, div_le_iff₀ (mul_pos (lead_pos hL) hpos), mul_comm]
      exact hcarried.first
  refine ⟨fun s => mul_nonneg (carried_nonneg s) (Real.exp_pos _).le, fun s hs => hs.step, fun s s' hs hb => ?_,
    fun R => ?_⟩
  · obtain ⟨ht, hs', ha⟩ := hstep s s' hs hb
    exact ⟨ht, hs', Or.inl ha⟩
  · have hrate := rate_nonneg hL
    have hweight := weightSum_nonneg
    have hlead := lead_pos hL
    have hC : 0 < 3 * lead L * (|R| + 1) * (4 + weightSum) := by positivity
    let η := min (1 / (rate L + 1)) (tolerance / (3 * lead L * (|R| + 1) * (4 + weightSum)))
    have hη : 0 < η := by positivity
    refine ⟨η, hη, min (0.9 * η) (0.9 * (η / (2 * H)) * η), by positivity, fun s s' hs hsize hb => ?_⟩
    obtain ⟨ht, hclock, u, v, V, c, p, K, coef, u', v', hy, hk, -, -, hV, hm⟩ := pass_moves hf hs hb
    have hattempt : 0 < min s.h (tEnd - s.t) := lt_min hs.step (sub_pos.2 ht)
    have hshort : Short L tolerance (carried L n s) η := by
      constructor
      · have hle : η ≤ 1 / (rate L + 1) := min_le_left _ _
        rw [le_div_iff₀ (by linarith)] at hle
        linarith
      · have hle : η ≤ tolerance / (3 * lead L * (|R| + 1) * (4 + weightSum)) := min_le_right _ _
        rw [le_div_iff₀ hC] at hle
        have hR : carried L n s ≤ |R| + 1 := by linarith [carried_le_size (n := n) hL hs.step, le_abs_self R]
        calc 3 * lead L * η * carried L n s * (4 + weightSum) ≤ 3 * lead L * η * (|R| + 1) * (4 + weightSum) := by
              gcongr
          _ = η * (3 * lead L * (|R| + 1) * (4 + weightSum)) := by ring
          _ ≤ tolerance := hle
    obtain ⟨hkept, hpart⟩ :=
      moves_floor hF htol (carried_spec hL hs.step hy hk) hattempt (min_le_left _ _) hV hm hshort
    refine ⟨fun h1 => ⟨(hstep s s' hs hb).2.2, hkept h1⟩, fun h1 h2 => ?_⟩
    have hlong : η ≤ min s.h (tEnd - s.t) := le_min h1.le h2.le
    rcases hpart with hkeep | hkeep
    · exact (min_le_left _ _).trans (le_trans (by linarith) hkeep)
    · refine (min_le_right _ _).trans (le_trans ?_ hkeep)
      have hpart : η / (2 * H) ≤ η / (2 * s.h) :=
        div_le_div_of_nonneg_left hη.le (by linarith [hs.step]) (by linarith [hs.bound])
      have hpos : 0 ≤ η / (2 * H) := by positivity
      nlinarith

/-! ## Fuel -/

/-- more fuel does not change the search of StepDISPFA or StepDISPFB that has enough -/
theorem predictor_stable {G : Formula ℝ} {y : Vec ℝ} {k : Stages ℝ} {fuel0 : ℕ}
    {r : Except (Exn × Stages ℝ × ℝ) (Stages ℝ × ℝ)}
    (hp : predictor G f tolerance t y fuel0 k h = some r) {fuel : ℕ} (hfuel : fuel ≥ fuel0) :
    predictor G f tolerance t y fuel k h = some r := by
  induction fuel, hfuel using Nat.le_induction with
  | base => exact hp
  | succ fuel _ ih => exact predictor_mono ih

theorem approach_stable {G : Formula ℝ} {y : Vec ℝ} {fuel0 : ℕ} {m : Members ℝ}
    (hfed : ∀ m', approach G f tolerance t y fuel0 m h ≠ .starved m') {fuel : ℕ} (hfuel : fuel ≥ fuel0) :
    approach G f tolerance t y fuel m h = approach G f tolerance t y fuel0 m h := by
  induction fuel0 generalizing m h fuel with
  | zero => exact absurd rfl (hfed m)
  | succ fuel0 ih =>
    obtain ⟨fuel, rfl⟩ := Nat.exists_eq_add_of_le' (show 1 ≤ fuel by omega)
    unfold approach at hfed ⊢
    dsimp only at hfed ⊢
    cases hp : predictor G f tolerance t y (fuel0 + 1) (m.enter t y h).k h with
    | none => exact absurd (by rw [hp]) (hfed (m.enter t y h))
    | some r =>
      rw [predictor_stable hp hfuel]
      rw [hp] at hfed
      cases r with
      | error r => rfl
      | ok r =>
        obtain ⟨k1, h1⟩ := r
        dsimp only at hfed ⊢
        split
        · rfl
        · rename_i k2 hloop
          rw [hloop] at hfed
          dsimp only at hfed
          split
          · rfl
          · rename_i y0 fEnd an1 hend
            rw [hend] at hfed
            dsimp only at hfed
            split_ifs at hfed ⊢
            · exact ih hfed (by omega)
            · rfl

theorem approachC_stable {y : Vec ℝ} {k : Stages ℝ} {fuel0 : ℕ} (hfed : approachC f tolerance t y fuel0 k h ≠ none)
    {fuel : ℕ} (hfuel : fuel ≥ fuel0) : approachC f tolerance t y fuel k h = approachC f tolerance t y fuel0 k h := by
  induction fuel0 generalizing k h fuel with
  | zero => exact absurd rfl hfed
  | succ fuel0 ih =>
    obtain ⟨fuel, rfl⟩ := Nat.exists_eq_add_of_le' (show 1 ≤ fuel by omega)
    unfold approachC at hfed ⊢
    split
    · rfl
    · rename_i k1 hloop
      rw [hloop] at hfed
      dsimp only at hfed
      split
      · rfl
      · rename_i d hd
        rw [hd] at hfed
        dsimp only at hfed ⊢
        split_ifs at hfed ⊢
        · exact ih hfed (by omega)
        · rfl

theorem step_stable {y : Vec ℝ} {fuel0 : ℕ} {m : Members ℝ}
    (hfed : ∀ m', step cfg f tolerance fuel0 m t y h ≠ .starved m')
    {fuel : ℕ} (hfuel : fuel ≥ fuel0) : step cfg f tolerance fuel m t y h = step cfg f tolerance fuel0 m t y h := by
  unfold step at hfed ⊢
  cases hmethod : m.currentMethod with
  | DISPFA =>
    rw [hmethod] at hfed
    simp only [stepDISPFA] at hfed ⊢
    rw [approach_stable (fun m' hm' => hfed m' (by rw [hm'])) hfuel]
  | DISPFB =>
    rw [hmethod] at hfed
    simp only [stepDISPFB] at hfed ⊢
    rw [approach_stable (fun m' hm' => hfed m' (by rw [hm'])) hfuel]
  | DISPFC =>
    rw [hmethod] at hfed
    simp only [stepDISPFC] at hfed ⊢
    cases hcol : (do column y.length (← f t y) h) with
    | error e => rfl
    | ok first =>
      rw [hcol] at hfed
      dsimp only at hfed ⊢
      rw [approachC_stable (fun hnone => hfed m (by rw [hnone])) hfuel]

theorem dispf_stable : StepStable (driver cfg f tolerance) where
  clip _ _ := rfl
  tiny _ _ := rfl
  stops _ _ := rfl
  catches _ _ := rfl
  rejected _ _ := rfl
  step _ _ _ _ _ hfed _ hfuel := step_stable hfed hfuel

/-- on a field that grows linearly every call of `Step` returns with enough fuel -/
theorem step_fed (hf : Computes F f) (hF : GrowsLinearly F L) (htol : 0 < tolerance) (hh : 0 < h) (cfg : Config ℝ)
    {m : Members ℝ} (hm : m.k 0 = List.ofFn v) :
    ∃ fuel, ∀ m', step cfg f tolerance fuel m t (List.ofFn u) h ≠ .starved m' := by
  have hnear := hF.boundedNear t u
  have hreturns : ∃ fuel m' y' h' g, step cfg f tolerance fuel m t (List.ofFn u) h = .returned m' y' h' g := by
    unfold step
    cases hmethod : m.currentMethod with
    | DISPFA =>
      exact (ab_settles hnear hf htol hh hm (Or.inl rfl) formulaA_valid (acceptA cfg f tolerance t (List.ofFn u))
        (fun fuel a ha => by simp only [stepDISPFA, ha]) (fun a K z w hk hz hw => acceptA_field hf hk hz hw)
        fun fuel m' y' h' g hs => stepDISPFA_returned hs).returns
    | DISPFB =>
      exact (ab_settles hnear hf htol hh hm (Or.inr rfl) formulaB_valid (acceptB cfg f tolerance t (List.ofFn u))
        (fun fuel a ha => by simp only [stepDISPFB, ha]) (fun a K z w hk hz hw => acceptB_field hf hk hz hw)
        fun fuel m' y' h' g hs => stepDISPFB_returned hs).returns
    | DISPFC => exact (dispfC_settles hnear hf htol hh cfg m).returns
  obtain ⟨fuel, m', y', h', g, hr⟩ := hreturns
  refine ⟨fuel, fun m1 h1 => ?_⟩
  rw [hr] at h1
  cases h1

end Solve

end OdeClientServer.DispfGrowth
