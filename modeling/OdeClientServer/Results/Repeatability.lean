/-
A solver that is used again. `DISPFSolver::Solve` resets its counters but neither the current method nor the columns of
the stage matrix (`k.resize` keeps the rows that are there), and StepDISPFA and StepDISPFB start from the first column.
`DISPSSolver::Solve` resets neither the step size nor the index of the current variant.

- `step_like`: a step of DISPF reads the current method, the counters and the first column only, and of these not the
  first column with the fixed order 5.
- `repeatable_iff`: what earlier calls leave is harmless exactly when DISPF is left with the method of its constructor
  and a first column of zeros (or has the fixed order 5), and DISPS with its first step size and variant.
- `second_solve_differs`: a DISPF and a DISPS solver whose second call records other rows than the first.
-/
import OdeClientServer.Solvers.Levels
import OdeClientServer.Solvers.Tableaux
import OdeClientServer.Results.StabilityControl

namespace OdeClientServer.Repeatability

open Loop

/-! ## What a step of DISPF reads -/

section Step

open DISPFSolver

variable {cfg : Config ℝ} {F : Formula ℝ} {f : Rhs ℝ} {tolerance t h : ℝ} {y : Vec ℝ} {k k' : Stages ℝ}

/-- the same first c columns -/
def SameBefore (c : ℕ) (k k' : Stages ℝ) : Prop := ∀ j : Fin 6, j.val < c → k j = k' j

theorem sameBefore_one : SameBefore 1 k k' ↔ k 0 = k' 0 :=
  ⟨fun h => h 0 zero_lt_one, fun h j hj => by rwa [show j = 0 from Fin.ext (Nat.lt_one_iff.1 hj)]⟩

theorem SameBefore.setStage {m : ℕ} (hk : SameBefore m k k') (col : Vec ℝ) :
    SameBefore (m + 1) (setStage k m col) (setStage k' m col) := by
  intro j hj
  rcases Nat.lt_succ_iff_lt_or_eq.1 hj with hlt | rfl
  · rw [setStage_of_ne k hlt.ne, setStage_of_ne k' hlt.ne, hk j hlt]
  · rw [setStage_same, setStage_same]

theorem SameBefore.scaleFirst {c : ℕ} (hk : SameBefore c k k') (hc : 0 < c) (a : ℝ) :
    SameBefore c (scaleFirst k a) (scaleFirst k' a) := by
  intro j hj
  unfold DISPFSolver.scaleFirst
  by_cases h0 : j.val = 0
  · rw [show j = 0 from Fin.ext h0]
    change DISPFSolver.setStage k (0 : Fin 6) _ 0 = DISPFSolver.setStage k' (0 : Fin 6) _ 0
    rw [setStage_same, setStage_same, hk 0 hc]
  · rw [setStage_of_ne k h0, setStage_of_ne k' h0, hk j hj]

theorem stageLoop_rel {m : ℕ} (r : ℕ) (hm : 0 < m) (hk : SameBefore m k k') :
    EndsRel (fun p q => p.1 = q.1 ∧ p.2 0 = q.2 0) (SameBefore (m + r)) (stageLoop f t y h (List.range' m r) k)
      (stageLoop f t y h (List.range' m r) k') := by
  induction r generalizing m k k' with
  | zero => exact .ok hk
  | succ r ih =>
    simp only [List.range'_succ, stageLoop]
    rw [← stagePoint_congr hk]
    split
    · exact .error ⟨rfl, hk 0 hm⟩
    · rename_i col _
      have hnext := ih (Nat.succ_pos m) (hk.setStage col)
      rwa [show m + 1 + r = m + (r + 1) by omega] at hnext

/-- an end of one of the retry loops: an exception, the columns and h, or the columns and h -/
abbrev LoopEnd := Except (Exn × Stages ℝ × ℝ) (Stages ℝ × ℝ)

/-- two such ends with the same first column, and the same first c columns when they return -/
def LoopRel (c : ℕ) : LoopEnd → LoopEnd → Prop :=
  EndsRel (fun p q => p.1 = q.1 ∧ p.2.1 0 = q.2.1 0 ∧ p.2.2 = q.2.2) (fun p q => SameBefore c p.1 q.1 ∧ p.2 = q.2)

theorem predictor_rel (hF : F.Valid) (fuel : ℕ) (h : ℝ) (hk : SameBefore 1 k k') :
    Option.Rel (LoopRel 2) (predictor F f tolerance t y fuel k h) (predictor F f tolerance t y fuel k' h) := by
  induction fuel generalizing k k' h with
  | zero => exact .none
  | succ fuel ih =>
    have h0 := sameBefore_one.1 hk
    unfold predictor
    rw [← secondStage_congr hF h0, ← h0]
    cases secondStage F f t y h k with
    | error e => exact .some (EndsRel.error ⟨rfl, h0, rfl⟩)
    | ok col =>
      have hset : SameBefore 2 (setStage k 1 col) (setStage k' 1 col) := hk.setStage col
      dsimp only
      generalize (maxOver y.length fun i => do return |(← read col i) - (← read (k 0) i)|) = d
      cases d with
      | error e => exact .some (EndsRel.error ⟨rfl, hset 0 (by decide), rfl⟩)
      | ok d =>
        dsimp only
        split_ifs
        · exact ih _ (sameBefore_one.2 (hset.scaleFirst (by decide) _ 0 (by decide)))
        · exact .some (EndsRel.ok ⟨hset, rfl⟩)

/-- the same method, counters and first c columns; only the record of the calls may differ -/
structure SameMembers (c : ℕ) (m m' : Members ℝ) : Prop where
  method : m.currentMethod = m'.currentMethod
  count : m.vnBreakCount = m'.vnBreakCount
  jump : m.jumpToRadau5 = m'.jumpToRadau5
  columns : SameBefore c m.k m'.k

theorem SameMembers.mono {c c' : ℕ} {m m' : Members ℝ} (hm : SameMembers c m m') (hc : c' ≤ c) : SameMembers c' m m' :=
  { hm with columns := fun j hj => hm.columns j (hj.trans_le hc) }

theorem SameMembers.with_k {c c' : ℕ} {m m' : Members ℝ} (hm : SameMembers c m m') (hk : SameBefore c' k k') :
    SameMembers c' { m with k := k } { m' with k := k' } :=
  ⟨hm.method, hm.count, hm.jump, hk⟩

/-- two searches for an accepted attempt end the same way -/
inductive ApproachRel : Approach ℝ → Approach ℝ → Prop
  | accepted {m m' y0 fEnd an1 h} : SameMembers 6 m m' →
      ApproachRel (.accepted ⟨m, y0, fEnd, an1, h⟩) (.accepted ⟨m', y0, fEnd, an1, h⟩)
  | threw {e m m' h} : SameMembers 1 m m' → ApproachRel (.threw e m h) (.threw e m' h)
  | starved {m m'} : SameMembers 1 m m' → ApproachRel (.starved m) (.starved m')

theorem SameBefore.eq (hk : SameBefore 6 k k') : k = k' := funext fun j => hk j j.isLt

theorem approach_rel (hF : F.Valid) (fuel : ℕ) {m m' : Members ℝ} (h : ℝ) (hm : SameMembers 1 m m') :
    ApproachRel (approach F f tolerance t y fuel m h) (approach F f tolerance t y fuel m' h) := by
  induction fuel generalizing m m' h with
  | zero => exact .starved hm
  | succ fuel ih =>
    have henter : SameMembers 1 (m.enter t y h) (m'.enter t y h) := ⟨hm.method, hm.count, hm.jump, hm.columns⟩
    have hp : Option.Rel (LoopRel 2) (predictor F f tolerance t y (fuel + 1) (m.enter t y h).k h)
        (predictor F f tolerance t y (fuel + 1) (m'.enter t y h).k h) := predictor_rel hF (fuel + 1) h hm.columns
    unfold approach
    dsimp only
    generalize predictor F f tolerance t y (fuel + 1) (m.enter t y h).k h = p at hp
    generalize predictor F f tolerance t y (fuel + 1) (m'.enter t y h).k h = p' at hp
    cases hp with
    | none => exact .starved henter
    | some hp =>
      cases hp with
      | error he =>
        rename_i r r'
        obtain ⟨e, k1, h1⟩ := r
        obtain ⟨e', k1', h1'⟩ := r'
        obtain ⟨rfl, hk0, rfl⟩ := he
        exact .threw (henter.with_k (sameBefore_one.2 hk0))
      | ok he =>
        rename_i r r'
        obtain ⟨k1, h1⟩ := r
        obtain ⟨k1', h1'⟩ := r'
        obtain ⟨hk1, rfl⟩ := he
        have hloop : EndsRel _ (SameBefore 6) (stageLoop f t y h1 [2, 3, 4, 5] k1)
          (stageLoop f t y h1 [2, 3, 4, 5] k1') :=
          stageLoop_rel 4 (by decide) hk1
        dsimp only
        generalize stageLoop f t y h1 [2, 3, 4, 5] k1 = l at hloop
        generalize stageLoop f t y h1 [2, 3, 4, 5] k1' = l' at hloop
        cases hloop with
        | error he =>
          rename_i r r'
          obtain ⟨e, k2⟩ := r
          obtain ⟨e', k2'⟩ := r'
          obtain ⟨rfl, hk0⟩ := he
          exact .threw (henter.with_k (sameBefore_one.2 hk0))
        | ok hk2 =>
          rename_i k2 k2'
          cases hk2.eq
          dsimp only
          cases endPoint F f t y h1 k2 with
          | error e => exact .threw (henter.with_k fun _ _ => rfl)
          | ok r =>
            obtain ⟨y0, fEnd, an1⟩ := r
            dsimp only
            split_ifs
            · exact ih _ (henter.with_k fun _ _ => rfl)
            · exact .accepted (henter.with_k fun _ _ => rfl)

theorem stabilityBlock_rel {c : ℕ} {m m' : Members ℝ} (length : ℝ) (jump : ℕ → Bool) (hm : SameMembers c m m') :
    EndsRel Eq (SameMembers c) (stabilityBlock cfg f t y h length jump m)
      (stabilityBlock cfg f t y h length jump m') := by
  unfold stabilityBlock
  by_cases hc : cfg.stabilityControlEnabled = true
  · rw [if_pos hc, if_pos hc]
    cases estimateJacobianEigenvalue f cfg.jacobianMethod t y with
    | error e => exact .error rfl
    | ok lambda =>
      rw [ok_bind, ok_bind, ← hm.count, ← hm.jump]
      by_cases hb : lambda ≠ 0 ∧ (h * lambda) / length < cfg.gamma
      · rw [if_pos hb, if_pos hb]
        exact .ok ⟨hm.method, rfl, rfl, hm.columns⟩
      · rw [if_neg hb, if_neg hb]
        exact .ok ⟨hm.method, rfl, rfl, hm.columns⟩
  · rw [if_neg hc, if_neg hc]
    exact .ok hm

theorem SameMembers.with_method {c : ℕ} {m m' : Members ℝ} (hm : SameMembers c m m') (method : Method) :
    SameMembers c { m with currentMethod := method } { m' with currentMethod := method } :=
  ⟨rfl, hm.count, hm.jump, hm.columns⟩

/-- the choice of a method keeps the relation -/
theorem SameMembers.choose {c : ℕ} {m m' : Members ℝ} (hm : SameMembers c m m') (p : Prop) [Decidable p]
    (method : Method) :
    SameMembers c (if p then { m with currentMethod := method } else m)
      (if p then { m' with currentMethod := method } else m') := by
  split_ifs
  · exact hm.with_method method
  · exact hm

/-- the choice of StepDISPFB -/
theorem SameMembers.chooseB {c : ℕ} {m m' : Members ℝ} (hm : SameMembers c m m') (v : Bool) (p q : Prop) [Decidable p]
    [Decidable q] :
    SameMembers c
      (if v = true then if p then { m with currentMethod := .DISPFA }
        else if q then { m with currentMethod := .DISPFC } else m else m)
      (if v = true then if p then { m' with currentMethod := .DISPFA }
        else if q then { m' with currentMethod := .DISPFC } else m' else m') := by
  split_ifs
  · exact hm.with_method .DISPFA
  · exact hm.with_method .DISPFC
  · exact hm
  · exact hm

theorem acceptA_rel {m m' : Members ℝ} (hm : SameMembers 6 m m') (y0 fEnd : Vec ℝ) (an1 h : ℝ) :
    (acceptA cfg f tolerance t y ⟨m, y0, fEnd, an1, h⟩).Rel (SameMembers 1)
      (acceptA cfg f tolerance t y ⟨m', y0, fEnd, an1, h⟩) := by
  have hk : m'.k = m.k := hm.columns.eq.symm
  unfold acceptA
  dsimp only
  rw [hk]
  generalize (do return (← calcVn m.k, ← column y.length fEnd (h * growthFactor tolerance an1))) = r
  cases r with
  | error e => exact .threw (hm.mono (by decide))
  | ok r =>
    obtain ⟨vn1, first⟩ := r
    have hm1 : SameMembers 6 { m with k := setStage m.k 0 first } { m' with k := setStage m.k 0 first } :=
      hm.with_k fun _ _ => rfl
    dsimp only
    rcases (@stabilityBlock_rel cfg f (t + h) (h * growthFactor tolerance an1) y0 6 _ _ 72.0
      (fun count => decide (count > 40)) hm1).ends with ⟨e, e', h1, h2, he⟩ | ⟨m2, m2', h1, h2, hm2⟩
    · rw [h1, h2, ← he]
      exact .threw (hm1.mono (by decide))
    · rw [h1, h2]
      exact .returned ((hm2.choose _ _).mono (by decide))

theorem acceptB_rel {m m' : Members ℝ} (hm : SameMembers 6 m m') (y0 fEnd : Vec ℝ) (an1 h : ℝ) :
    (acceptB cfg f tolerance t y ⟨m, y0, fEnd, an1, h⟩).Rel (SameMembers 1)
      (acceptB cfg f tolerance t y ⟨m', y0, fEnd, an1, h⟩) := by
  have hk : m'.k = m.k := hm.columns.eq.symm
  unfold acceptB
  dsimp only
  rw [hk]
  generalize (do return (← embeddedDifference y.length m.k, ← calcVn m.k,
    ← column y.length fEnd (h * growthFactor tolerance an1))) = r
  cases r with
  | error e => exact .threw (hm.mono (by decide))
  | ok r =>
    obtain ⟨d, vn1, first⟩ := r
    have hm1 : SameMembers 6 { m with k := setStage m.k 0 first } { m' with k := setStage m.k 0 first } :=
      hm.with_k fun _ _ => rfl
    dsimp only
    rcases (@stabilityBlock_rel cfg f (t + h) (h * growthFactor tolerance an1) y0 6 _ _ 28.5
      (fun count => decide (count > 40)) hm1).ends with ⟨e, e', h1, h2, he⟩ | ⟨m2, m2', h1, h2, hm2⟩
    · rw [h1, h2, ← he]
      exact .threw (hm1.mono (by decide))
    · rw [h1, h2]
      dsimp only
      -- the second stability block, after the choice of the method
      have hm3 := hm2.chooseB cfg.variableOrder
        (CMath.pow q (logQuot 0.5 tolerance an1) * vn1 > 28.5 ∧
          CMath.pow (CMath.pow q (min (logQuot 0.5 tolerance an1) (logQuot 1 28.5 vn1))) 2.0 * an1 ≤ tolerance)
        (CMath.pow q (logQuot 0.5 tolerance an1) ≤ 3.6 ∧
          CMath.pow (CMath.pow q (min (logQuot 0.5 tolerance an1) (logQuot 1 28.5 vn1))) 6.0 * (d * (17.0 / 24.0)) ≤
            tolerance)
      rcases (@stabilityBlock_rel cfg f (t + h) (h * growthFactor tolerance an1) y0 6 _ _ 28.5
        (fun count => decide (count > 40)) hm3).ends with ⟨e, e', h1, h2, he⟩ | ⟨m4, m4', h1, h2, hm4⟩
      · rw [h1, h2, ← he]
        exact .threw (hm3.mono (by decide))
      · rw [h1, h2]
        exact .returned (hm4.mono (by decide))

/-! ### StepDISPFC computes its own first column -/

theorem approachC_rel (fuel : ℕ) (h : ℝ) (hk : SameBefore 1 k k') :
    Option.Rel (LoopRel 6) (approachC f tolerance t y fuel k h) (approachC f tolerance t y fuel k' h) := by
  induction fuel generalizing k k' h with
  | zero => exact .none
  | succ fuel ih =>
    have hloop : EndsRel _ (SameBefore 6) (stageLoop f t y h [1, 2, 3, 4, 5] k)
      (stageLoop f t y h [1, 2, 3, 4, 5] k') :=
      stageLoop_rel 5 (by decide) hk
    unfold approachC
    rcases hloop.ends with ⟨r, r', h1, h2, he, hk0⟩ | ⟨k1, k1', h1, h2, hk1⟩
    · rw [h1, h2]
      exact .some (EndsRel.error ⟨he, hk0, rfl⟩)
    · rw [h1, h2, hk1.eq]
      dsimp only
      cases embeddedDifference y.length k1' with
      | error e => exact .some (EndsRel.error ⟨rfl, rfl, rfl⟩)
      | ok d =>
        dsimp only
        split_ifs
        · exact ih _ fun _ _ => rfl
        · exact .some (EndsRel.ok ⟨fun _ _ => rfl, rfl⟩)

/-- members that a step cannot tell apart -/
structure Like (cfg : Config ℝ) (m m' : Members ℝ) : Prop where
  method : m.currentMethod = m'.currentMethod
  count : m.vnBreakCount = m'.vnBreakCount
  jump : m.jumpToRadau5 = m'.jumpToRadau5
  first : m.k 0 = m'.k 0 ∨ cfg.variableOrder = false ∧ m.currentMethod = .DISPFC

theorem SameMembers.like {m m' : Members ℝ} (hm : SameMembers 1 m m') : Like cfg m m' :=
  ⟨hm.method, hm.count, hm.jump, Or.inl (sameBefore_one.1 hm.columns)⟩

theorem stepDISPFC_rel (fuel : ℕ) {m m' : Members ℝ} (hm : Like cfg m m') :
    (stepDISPFC cfg f tolerance fuel m t y h).Rel (Like cfg) (stepDISPFC cfg f tolerance fuel m' t y h) := by
  unfold stepDISPFC
  cases (do column y.length (← f t y) h : Except Exn (Vec ℝ)) with
  | error e => exact .threw hm
  | ok first =>
    have hk : SameBefore 1 (setStage m.k 0 first) (setStage m'.k 0 first) := by
      rw [sameBefore_one]
      change setStage m.k (0 : Fin 6) first 0 = setStage m'.k (0 : Fin 6) first 0
      rw [setStage_same, setStage_same]
    have hmem : ∀ {k k' : Stages ℝ}, SameBefore 1 k k' → SameMembers 1 { m with k := k } { m' with k := k' } :=
      fun hk => ⟨hm.method, hm.count, hm.jump, hk⟩
    have hp : Option.Rel (LoopRel 6) (approachC f tolerance t y fuel (setStage m.k 0 first) h)
        (approachC f tolerance t y fuel (setStage m'.k 0 first) h) := approachC_rel fuel h hk
    dsimp only
    generalize approachC f tolerance t y fuel (setStage m.k 0 first) h = p at hp
    generalize approachC f tolerance t y fuel (setStage m'.k 0 first) h = p' at hp
    cases hp with
    | none => exact .starved hm
    | some hp =>
      rcases hp.ends with ⟨⟨e, k1, h1⟩, ⟨e', k1', h1'⟩, rfl, rfl, rfl, hk0, rfl⟩ |
        ⟨⟨k1, h1⟩, ⟨k1', h1'⟩, rfl, rfl, hk1, rfl⟩
      · exact .threw (hmem (sameBefore_one.2 hk0)).like
      · cases hk1.eq
        have hm1 : SameMembers 1 { m with k := k1 } { m' with k := k1 } := hmem fun _ _ => rfl
        dsimp only
        cases newPoint y k1 P36 with
        | error e => exact .threw hm1.like
        | ok y0 =>
          dsimp only
          cases endPointC f t y0 h1 k1 with
          | error e => exact .threw hm1.like
          | ok r =>
            obtain ⟨an1, vn⟩ := r
            dsimp only
            rcases (@stabilityBlock_rel cfg f (t + h1) h1 y0 1 _ _ 72.0
              (fun count => decide (count ≥ 35)) hm1).ends with
              ⟨e, e', h2, h3, he⟩ | ⟨m2, m2', h2, h3, hm2⟩
            · rw [h2, h3, ← he]
              exact .threw hm1.like
            · rw [h2, h3]
              exact .returned (hm2.choose _ _).like

theorem stepDISPFA_rel (fuel : ℕ) {m m' : Members ℝ} (hm : SameMembers 1 m m') :
    (stepDISPFA cfg f tolerance fuel m t y h).Rel (SameMembers 1) (stepDISPFA cfg f tolerance fuel m' t y h) := by
  have ha : ApproachRel (approach formulaA f tolerance t y fuel m h) (approach formulaA f tolerance t y fuel m' h) :=
    approach_rel formulaA_valid fuel h hm
  unfold stepDISPFA
  generalize approach formulaA f tolerance t y fuel m h = a at ha
  generalize approach formulaA f tolerance t y fuel m' h = a' at ha
  cases ha with
  | accepted hm => exact acceptA_rel hm _ _ _ _
  | threw hm => exact .threw hm
  | starved hm => exact .starved hm

theorem stepDISPFB_rel (fuel : ℕ) {m m' : Members ℝ} (hm : SameMembers 1 m m') :
    (stepDISPFB cfg f tolerance fuel m t y h).Rel (SameMembers 1) (stepDISPFB cfg f tolerance fuel m' t y h) := by
  have ha : ApproachRel (approach formulaB f tolerance t y fuel m h) (approach formulaB f tolerance t y fuel m' h) :=
    approach_rel formulaB_valid fuel h hm
  unfold stepDISPFB
  generalize approach formulaB f tolerance t y fuel m h = a at ha
  generalize approach formulaB f tolerance t y fuel m' h = a' at ha
  cases ha with
  | accepted hm => exact acceptB_rel hm _ _ _ _
  | threw hm => exact .threw hm
  | starved hm => exact .starved hm

/-- a method that starts from the first column finds the same one -/
theorem Like.same {m m' : Members ℝ} (hm : Like cfg m m') (hne : m.currentMethod ≠ .DISPFC) : SameMembers 1 m m' :=
  ⟨hm.method, hm.count, hm.jump, sameBefore_one.2 (hm.first.resolve_right fun hc => hne hc.2)⟩

/-- **What a step reads.** A step cannot tell members apart that agree in the method, the counters and the first column,
nor in the first column with the fixed order 5. -/
theorem step_like (fuel : ℕ) {m m' : Members ℝ} (t : ℝ) (y : Vec ℝ) (h : ℝ) (hm : Like cfg m m') :
    (step cfg f tolerance fuel m t y h).Rel (Like cfg) (step cfg f tolerance fuel m' t y h) := by
  unfold step
  rw [← hm.method]
  cases hmethod : m.currentMethod with
  | DISPFA => exact (stepDISPFA_rel fuel (hm.same (by rw [hmethod]; nofun))).imp fun _ _ => SameMembers.like
  | DISPFB => exact (stepDISPFB_rel fuel (hm.same (by rw [hmethod]; nofun))).imp fun _ _ => SameMembers.like
  | DISPFC => exact stepDISPFC_rel fuel hm

end Step

/-! ## The first row of y' = c -/

section Constant

open DISPFSolver Tableaux

/-- the right-hand side with the constant value w -/
noncomputable def constant {n : ℕ} (w : Fin n → ℝ) : Rhs ℝ := ofField fun _ _ => w

theorem constant_computes {n : ℕ} (w : Fin n → ℝ) : Computes (fun _ _ => w) (constant w) := ofField_ofFn _

variable {cfg : Config ℝ} {n : ℕ} {t h : ℝ} {y u : Fin n → ℝ}

theorem stabilityBlock_first {f : Rhs ℝ} {v : Vec ℝ} (hf : IsSystem n f) (hv : v.length = n) (length : ℝ)
    {jump : ℕ → Bool} {m : Members ℝ} (hj : jump (m.vnBreakCount + 1) = false) :
    ∃ m', stabilityBlock cfg f t v h length jump m = .ok m' ∧ m'.jumpToRadau5 = m.jumpToRadau5 ∧
      m'.vnBreakCount ≤ m.vnBreakCount + 1 := by
  unfold stabilityBlock
  by_cases hc : cfg.stabilityControlEnabled = true
  · obtain ⟨lambda, he, -⟩ := StabilityControl.estimate_ok hf cfg.jacobianMethod t hv
    rw [if_pos hc, he, ok_bind]
    split_ifs with hb hj'
    · rw [hj] at hj'; cases hj'
    · exact ⟨_, rfl, rfl, le_rfl⟩
    · exact ⟨_, rfl, rfl, Nat.zero_le _⟩
  · rw [if_neg hc]
    exact ⟨m, rfl, rfl, Nat.le_succ _⟩

/-- the columns of an attempt from the first column u: every other stage is h c -/
structure Columns (k : Stages ℝ) (K : Fin 6 → Fin n → ℝ) (u : Fin n → ℝ) (v : Fin n → ℝ) : Prop where
  all : ∀ j, k j = List.ofFn (K j)
  first : K 0 = u
  later : ∀ j : Fin 6, 1 ≤ j.val → K j = v

/-- the new point: the weight of the first column and the sum of the other weights -/
theorem Columns.newPoint {k : Stages ℝ} {K : Fin 6 → Fin n → ℝ} {u v : Fin n → ℝ} (hk : Columns k K u v)
    (p : List ℝ) (y : Fin n → ℝ) :
    newPoint (List.ofFn y) k p =
      .ok (List.ofFn (y + (p.getD 0 0 • u + (∑ j : Fin 5, p.getD (j.val + 1) 0) • v))) := by
  have hsum : ∑ j, (tableauDISPF p).p j • K j = p.getD 0 0 • u + (∑ j : Fin 5, p.getD (j.val + 1) 0) • v := by
    rw [Fin.sum_univ_succ, hk.first, Finset.sum_smul]
    refine congrArg _ (Finset.sum_congr rfl fun j _ => ?_)
    rw [hk.later j.succ (by simp)]
    rfl
  rw [newPoint_ofFn p hk.all, hsum]

/-- a call of StepDISPFA or StepDISPFB with a large tolerance accepts its first attempt -/
theorem approach_constant {G : Formula ℝ} (hG : G = formulaA ∨ G = formulaB) (w : Fin n → ℝ) (t h : ℝ) (y : Fin n → ℝ)
    {m : Members ℝ} (hm : m.k 0 = List.ofFn u) :
    ∃ (k : Stages ℝ) (K : Fin 6 → Fin n → ℝ) (an1 T : ℝ), Columns k K u (h • w) ∧ ∀ tolerance, T ≤ tolerance →
      approach G (constant w) tolerance t (List.ofFn y) 1 m h =
        .accepted ⟨{ m.enter t (List.ofFn y) h with k := k },
          List.ofFn (y + (G.p.getD 0 0 • u + (∑ j : Fin 5, G.p.getD (j.val + 1) 0) • h • w)), List.ofFn w, an1, h⟩ := by
  let K0 : Fin 6 → Fin n → ℝ := fun _ => u
  have hsecond : secondStage G (constant w) t (List.ofFn y) h m.k = .ok (List.ofFn (h • w)) :=
    secondStage_ofFn (K := K0) (constant_computes w) G.p hG hm
  have hk1 : ∀ j : Fin 6, j.val < 2 →
      setStage m.k 1 (List.ofFn (h • w)) j = List.ofFn (Function.update K0 1 (h • w) j) := by
    intro j hj
    rcases Nat.lt_succ_iff_lt_or_eq.1 hj with hlt | heq
    · have hj0 : j = 0 := Fin.ext (Nat.lt_one_iff.1 hlt)
      rw [hj0, Function.update_of_ne (by decide), setStage_of_ne m.k (by decide), hm]
    · rw [show j = 1 from Fin.ext heq, Function.update_self]
      exact setStage_same m.k 1 _
  obtain ⟨k, K, hloop, hold, hnew, hcols⟩ :=
    stageLoop_ofFn (t := t) (y := y) (h := h) (constant_computes w) G.p (m := 2) (r := 4) (by norm_num) (by norm_num)
      hk1
  have hcolumns : Columns k K u (h • w) := by
    refine ⟨fun j => hcols j j.isLt, ?_, fun j hj => ?_⟩
    · rw [hold 0 (by decide), Function.update_of_ne (by decide)]
    · rcases Nat.eq_or_lt_of_le hj with heq | hlt
      · rw [show j = 1 from Fin.ext heq.symm, hold 1 (by decide), Function.update_self]
      · exact hnew j hlt j.isLt
  obtain ⟨d, hd⟩ : ∃ d, (maxOver n fun i => do return |(← read (List.ofFn (h • w)) i) - (← read (m.k 0) i)|) = .ok d :=
    maxOver_ok fun i => ⟨_, by rw [hm, read_ofFn, ok_bind, read_ofFn, ok_bind, except_pure]⟩
  obtain ⟨d1, hd1⟩ : ∃ d1, endDifference n (List.ofFn w) h (List.ofFn u) = .ok d1 := ⟨_, endDifference_ofFn w u h⟩
  refine ⟨k, K, d1 * G.coef, max (d * G.coef) (d1 * G.coef), hcolumns, fun tolerance htol => ?_⟩
  have hpredictor : predictor G (constant w) tolerance t (List.ofFn y) 1 m.k h =
      some (.ok (setStage m.k 1 (List.ofFn (h • w)), h)) := by
    simp only [predictor, hsecond, List.length_ofFn, hd]
    rw [if_neg (not_lt.2 ((le_max_left _ _).trans htol))]
  have hend : endPoint G (constant w) t (List.ofFn y) h k =
      .ok (List.ofFn (y + (G.p.getD 0 0 • u + (∑ j : Fin 5, G.p.getD (j.val + 1) 0) • h • w)), List.ofFn w,
        d1 * G.coef) := by
    rw [endPoint, hcolumns.newPoint, ok_bind, constant_computes w, ok_bind, List.length_ofFn, hcolumns.all 0,
      hcolumns.first, hd1, ok_bind, except_pure]
  rw [show List.range' 2 4 = [2, 3, 4, 5] from rfl] at hloop
  simp only [approach, Members.enter]
  rw [hpredictor]
  dsimp only
  rw [hloop]
  dsimp only
  rw [hend]
  dsimp only
  rw [if_neg (not_lt.2 ((le_max_right _ _).trans htol))]

theorem acceptA_constant {k : Stages ℝ} {K : Fin 6 → Fin n → ℝ} (hk : ∀ j, k j = List.ofFn (K j)) (w y1 : Fin n → ℝ)
    {m : Members ℝ} (hm : m.k = k) (hcount : m.vnBreakCount = 0) (tolerance an1 : ℝ) :
    ∃ m' h' g, acceptA cfg (constant w) tolerance t (List.ofFn y) ⟨m, List.ofFn y1, List.ofFn w, an1, h⟩ =
      .returned m' (List.ofFn y1) h' g ∧ m'.jumpToRadau5 = m.jumpToRadau5 := by
  obtain ⟨vn1, hvn⟩ := calcVn_ofFn hk
  unfold acceptA
  dsimp only
  rw [hm, hvn, List.length_ofFn, column_ofFn]
  dsimp only [ok_bind, except_pure]
  obtain ⟨m', hb, hjump, -⟩ := @stabilityBlock_first cfg n (t + h) (h * growthFactor tolerance an1) (constant w)
    (List.ofFn y1) (ofField_isSystem _) List.length_ofFn 72.0 (fun count => decide (count > 40))
    { m with k := setStage k 0 (List.ofFn ((h * growthFactor tolerance an1) • w)) } (by simp [hcount])
  rw [hb]
  refine ⟨_, _, _, rfl, ?_⟩
  split_ifs <;> exact hjump

theorem acceptB_constant {k : Stages ℝ} {K : Fin 6 → Fin n → ℝ} (hk : ∀ j, k j = List.ofFn (K j)) (w y1 : Fin n → ℝ)
    {m : Members ℝ} (hm : m.k = k) (hcount : m.vnBreakCount = 0) (tolerance an1 : ℝ) :
    ∃ m' h' g, acceptB cfg (constant w) tolerance t (List.ofFn y) ⟨m, List.ofFn y1, List.ofFn w, an1, h⟩ =
      .returned m' (List.ofFn y1) h' g ∧ m'.jumpToRadau5 = m.jumpToRadau5 := by
  obtain ⟨vn1, hvn⟩ := calcVn_ofFn hk
  obtain ⟨d, hd⟩ : ∃ d, embeddedDifference n k = .ok d := ⟨_, embeddedDifference_ofFn hk⟩
  have hblock := @stabilityBlock_first cfg n (t + h) (h * growthFactor tolerance an1) (constant w) (List.ofFn y1)
    (ofField_isSystem _) List.length_ofFn 28.5 (fun count => decide (count > 40))
  unfold acceptB
  dsimp only
  rw [hm, hvn, List.length_ofFn, hd, column_ofFn]
  dsimp only [ok_bind, except_pure]
  obtain ⟨m1, hb1, hjump1, hcount1⟩ := @hblock
    { m with k := setStage k 0 (List.ofFn ((h * growthFactor tolerance an1) • w)) } (by simp [hcount])
  rw [hb1]
  dsimp only at hcount1 ⊢
  -- both blocks together count two at most
  have hsecond : ∀ m2 : Members ℝ, m2.vnBreakCount = m1.vnBreakCount → m2.jumpToRadau5 = m1.jumpToRadau5 →
      ∃ m3, stabilityBlock cfg (constant w) (t + h) (List.ofFn y1) (h * growthFactor tolerance an1) 28.5
        (fun count => decide (count > 40)) m2 = .ok m3 ∧ m3.jumpToRadau5 = m.jumpToRadau5 := by
    intro m2 h1 h2
    obtain ⟨m3, hb, hj, -⟩ := @hblock m2 (decide_eq_false (by omega))
    exact ⟨m3, hb, hj.trans (h2.trans hjump1)⟩
  split_ifs
  · obtain ⟨m3, hb, hj⟩ := hsecond { m1 with currentMethod := .DISPFA } rfl rfl
    rw [hb]
    exact ⟨_, _, _, rfl, hj⟩
  · obtain ⟨m3, hb, hj⟩ := hsecond { m1 with currentMethod := .DISPFC } rfl rfl
    rw [hb]
    exact ⟨_, _, _, rfl, hj⟩
  · obtain ⟨m3, hb, hj⟩ := hsecond m1 rfl rfl
    rw [hb]
    exact ⟨_, _, _, rfl, hj⟩
  · obtain ⟨m3, hb, hj⟩ := hsecond m1 rfl rfl
    rw [hb]
    exact ⟨_, _, _, rfl, hj⟩

/-- the weight of the first column that a step finds -/
noncomputable def firstWeight : Method → ℝ
  | .DISPFA => P72.getD 0 0
  | .DISPFB => P28.getD 0 0
  | .DISPFC => 0

/-- the weights of the columns that a step computes itself -/
noncomputable def ownWeight : Method → ℝ
  | .DISPFA => ∑ j : Fin 5, P72.getD (j.val + 1) 0
  | .DISPFB => ∑ j : Fin 5, P28.getD (j.val + 1) 0
  | .DISPFC => 1

theorem stepDISPFC_constant (w : Fin n → ℝ) (t h : ℝ) (y : Fin n → ℝ) {m : Members ℝ} (hcount : m.vnBreakCount = 0) :
    ∃ T, ∀ tolerance, T ≤ tolerance → ∃ m' h' g,
      stepDISPFC cfg (constant w) tolerance 1 m t (List.ofFn y) h =
        .returned m' (List.ofFn (y + h • w)) h' g ∧ m'.jumpToRadau5 = m.jumpToRadau5 := by
  let K0 : Fin 6 → Fin n → ℝ := fun _ => h • w
  have hk1 : ∀ j : Fin 6, j.val < 1 → setStage m.k 0 (List.ofFn (h • w)) j = List.ofFn (K0 j) := by
    intro j hj
    rw [show j = 0 from Fin.ext (Nat.lt_one_iff.1 hj)]
    exact setStage_same m.k 0 _
  obtain ⟨k, K, hloop, hold, hnew, hcols⟩ :=
    stageLoop_ofFn (t := t) (y := y) (h := h) (constant_computes w) P36 (m := 1) (r := 5) (by norm_num)
      (by norm_num) hk1
  have hcolumns : Columns k K (h • w) (h • w) :=
    ⟨fun j => hcols j j.isLt, hold 0 (by decide), fun j hj => hnew j hj j.isLt⟩
  have hpoint : newPoint (List.ofFn y) k P36 = .ok (List.ofFn (y + h • w)) := by
    rw [hcolumns.newPoint, ← add_smul]
    have hone : P36.getD 0 0 + ∑ j : Fin 5, P36.getD (j.val + 1) 0 = (1 : ℝ) := by
      norm_num [P36, Fin.sum_univ_succ]
    rw [hone, one_smul]
  obtain ⟨d, hd⟩ : ∃ d, embeddedDifference n k = .ok d := ⟨_, embeddedDifference_ofFn hcolumns.all⟩
  obtain ⟨d1, hd1⟩ : ∃ d1, endDifference n (List.ofFn w) h (List.ofFn (h • w)) = .ok d1 :=
    ⟨_, endDifference_ofFn w (h • w) h⟩
  obtain ⟨vn, hvn⟩ := calcVn_ofFn hcolumns.all
  refine ⟨d * (17.0 / 24.0), fun tolerance htol => ?_⟩
  rw [show List.range' 1 5 = [1, 2, 3, 4, 5] from rfl] at hloop
  have happroach : approachC (constant w) tolerance t (List.ofFn y) 1 (setStage m.k 0 (List.ofFn (h • w))) h =
      some (.ok (k, h)) := by
    simp only [approachC, hloop, List.length_ofFn, hd]
    rw [if_neg (not_lt.2 htol)]
  have hend : endPointC (constant w) t (List.ofFn (y + h • w)) h k = .ok (d1 * (CA1B * dCoef), vn) := by
    rw [endPointC, constant_computes w, ok_bind, List.length_ofFn, hcolumns.all 0, hcolumns.first, hd1, ok_bind, hvn,
      ok_bind, except_pure]
  obtain ⟨m1, hb, hjump, -⟩ := @stabilityBlock_first cfg n (t + h) h (constant w) (List.ofFn (y + h • w))
    (ofField_isSystem _) List.length_ofFn 72.0 (fun count => decide (count ≥ 35)) { m with k := k } (by simp [hcount])
  have hfirst : (do column (List.ofFn y).length (← constant w t (List.ofFn y)) h) = .ok (List.ofFn (h • w)) := by
    rw [constant, ofField_ofFn, ok_bind, List.length_ofFn, column_ofFn]
  simp only [stepDISPFC, hfirst, happroach, hpoint, hend, hb]
  refine ⟨_, _, _, rfl, ?_⟩
  split_ifs <;> exact hjump

/-- **First step of y' = w.** With a large tolerance the first attempt is accepted, and its value is a sum of the first
column and of h w with the weights of the method. -/
theorem step_constant (w : Fin n → ℝ) (t h : ℝ) (y : Fin n → ℝ) {m : Members ℝ} (hm : m.k 0 = List.ofFn u)
    (hcount : m.vnBreakCount = 0) :
    ∃ T, ∀ tolerance, T ≤ tolerance → ∃ m' h' g, step cfg (constant w) tolerance 1 m t (List.ofFn y) h =
      .returned m' (List.ofFn (y + (firstWeight m.currentMethod • u + ownWeight m.currentMethod • h • w))) h' g ∧
        m'.jumpToRadau5 = m.jumpToRadau5 := by
  cases hmethod : m.currentMethod with
  | DISPFA =>
    obtain ⟨k, K, an1, T, hk, ha⟩ := approach_constant (Or.inl rfl) w t h y hm
    refine ⟨T, fun tolerance htol => ?_⟩
    simp only [step, hmethod, stepDISPFA, ha tolerance htol]
    exact acceptA_constant (m := { m.enter t (List.ofFn y) h with k := k }) hk.all w _ rfl hcount tolerance an1
  | DISPFB =>
    obtain ⟨k, K, an1, T, hk, ha⟩ := approach_constant (Or.inr rfl) w t h y hm
    refine ⟨T, fun tolerance htol => ?_⟩
    simp only [step, hmethod, stepDISPFB, ha tolerance htol]
    exact acceptB_constant (m := { m.enter t (List.ofFn y) h with k := k }) hk.all w _ rfl hcount tolerance an1
  | DISPFC =>
    obtain ⟨T, hs⟩ := @stepDISPFC_constant cfg n w t h y m hcount
    refine ⟨T, fun tolerance htol => ?_⟩
    simp only [step, hmethod, firstWeight, ownWeight, zero_smul, zero_add, one_smul]
    exact hs tolerance htol

end Constant

/-! ## A used DISPF solver -/

section Dispf

open DISPFSolver

/-- a call of `Solve`, with a bound on its inner loops and the number of its passes -/
structure Problem where
  t0 : ℝ
  y0 : Vec ℝ
  tEnd : ℝ
  tolerance : ℝ
  fuel : ℕ
  passes : ℕ

/-- the configuration that the constructor takes -/
structure Options where
  gamma : ℝ
  I : ℤ
  J : ℤ
  K : ℤ
  stepSize : ℝ

noncomputable def Options.solve (o : Options) (f : Rhs ℝ) (m : Members ℝ) (p : Problem) :
    RunState (Members ℝ) (Attempt ℝ) ℝ :=
  (DISPFSolver.solve (config o.gamma o.I o.J o.K) m f o.stepSize p.t0 p.y0 p.tEnd p.tolerance p.fuel p.passes).state

/-- the members after a sequence of calls on a new solver -/
noncomputable def Options.used (o : Options) (f : Rhs ℝ) (history : List Problem) : Members ℝ :=
  history.foldl (fun m p => (o.solve f m p).mem) (construct o.I)

/-- no further call can tell the members m from those of a new solver -/
def Options.Harmless (o : Options) (m : Members ℝ) : Prop :=
  ∀ (f : Rhs ℝ) (p : Problem), (o.solve f m p).storage = (o.solve f (construct o.I) p).storage

/-- the method of the constructor, and a first column of zeros or the fixed order 5 -/
def Options.AsNew (o : Options) (m : Members ℝ) : Prop :=
  m.currentMethod = (construct o.I : Members ℝ).currentMethod ∧ (o.I = 5 ∨ ∀ x ∈ m.k 0, x = 0)

variable {o : Options} {m : Members ℝ}

theorem construct_method (I : ℤ) : (construct I : Members ℝ).currentMethod = .DISPFC ↔ I = 5 := by
  unfold construct
  dsimp only
  split_ifs with h1 h2 h5
  · simp [h1]
  · simp [h2]
  · simp [h5]
  · simp [h5]

theorem reset_column (m : Members ℝ) (n : ℕ) :
    (m.reset n).k 0 = (m.k 0).take n ++ List.replicate (n - (m.k 0).length) 0 :=
  rfl

theorem reset_like (hm : o.AsNew m) (n : ℕ) :
    Like (config o.gamma o.I o.J o.K) (m.reset n) ((construct o.I).reset n) := by
  refine ⟨hm.1, rfl, rfl, ?_⟩
  rcases hm.2 with h5 | hzero
  · refine Or.inr ⟨by simp [config, h5], ?_⟩
    exact hm.1.trans ((construct_method o.I).2 h5)
  · refine Or.inl ?_
    have hall : ∀ x ∈ (m.reset n).k 0, x = 0 := by
      intro x hx
      rw [reset_column, List.mem_append] at hx
      rcases hx with hx | hx
      · exact hzero x (List.mem_of_mem_take hx)
      · exact List.eq_of_mem_replicate hx
    have hlen : ((m.reset n).k 0).length = n := by
      rw [reset_column, List.length_append, List.length_take, List.length_replicate]
      omega
    rw [List.eq_replicate_of_mem hall, hlen]
    simp [construct, Members.reset]

/-- a solver that is as new solves every problem like a new one -/
theorem harmless_of_asNew (hm : o.AsNew m) : o.Harmless m := by
  intro f p
  have hstart : RunState.Rel (Like (config o.gamma o.I o.J o.K)) (start (m.reset p.y0.length) p.t0 p.y0 o.stepSize :
      RunState (Members ℝ) (Attempt ℝ) ℝ) (start ((construct o.I).reset p.y0.length) p.t0 p.y0 o.stepSize) :=
    ⟨reset_like hm p.y0.length, rfl⟩
  have hpass : ∀ s s', RunState.Rel (Like (config o.gamma o.I o.J o.K)) s s' →
      PassRel (RunState.Rel (Like (config o.gamma o.I o.J o.K)))
        ((driver (config o.gamma o.I o.J o.K) f p.tolerance p.fuel).body p.tEnd s)
        ((driver (config o.gamma o.I o.J o.K) f p.tolerance p.fuel).body p.tEnd s') := fun s s' hs =>
    body_rel (fun t y h hm => step_like p.fuel t y h hm) (fun rest h hm => by simp only [driver, hm.jump])
      (fun _ => rfl) hs
  rw [Options.solve, Options.solve, DISPFSolver.solve, DISPFSolver.solve,
    (run_rel hpass p.passes _ _ hstart).state.rest]

/-- the rows of one pass over an interval that the step does not leave -/
theorem first_row {n : ℕ} {u : Fin n → ℝ} (hstep : 0 < o.stepSize) (hm : (m.reset n).k 0 = List.ofFn u)
    (w : Fin n → ℝ) :
    ∃ T, ∀ tolerance, T ≤ tolerance → ∃ t1, (o.solve (constant w) m
      ⟨0, List.ofFn (0 : Fin n → ℝ), o.stepSize, tolerance, 1, 1⟩).storage =
        [(0, List.ofFn (0 : Fin n → ℝ)), (t1, List.ofFn (firstWeight m.currentMethod • u +
          ownWeight m.currentMethod • o.stepSize • w))] := by
  obtain ⟨T, hT⟩ := @step_constant (config o.gamma o.I o.J o.K) n u w 0 o.stepSize 0 (m.reset n) hm rfl
  refine ⟨T, fun tolerance htol => ?_⟩
  obtain ⟨m', h', g, hs, hjump⟩ := hT tolerance htol
  have hclip : ¬ 0 + o.stepSize > o.stepSize := by rw [zero_add]; exact lt_irrefl _
  have hj : m'.jumpToRadau5 = false := hjump
  refine ⟨0 + h', ?_⟩
  rw [zero_add] at hs
  simp only [Options.solve, DISPFSolver.solve, List.length_ofFn, run, Driver.body, start, driver, if_pos hstep,
    if_neg hclip, hs, hj]
  rfl

theorem construct_column (I : ℤ) (n : ℕ) : ((construct I).reset n : Members ℝ).k 0 = List.ofFn (0 : Fin n → ℝ) := by
  rw [reset_column]
  simp only [construct, List.take_nil, List.nil_append, List.length_nil, Nat.sub_zero]
  exact (List.ofFn_const n (0 : ℝ)).symm

/-- a harmless solver takes the same first step as a new one, for every column that it finds -/
theorem harmless_values (hstep : 0 < o.stepSize) (hm : o.Harmless m) {n : ℕ} {u : Fin n → ℝ}
    (hu : (m.reset n).k 0 = List.ofFn u) (w : Fin n → ℝ) :
    firstWeight m.currentMethod • u + ownWeight m.currentMethod • o.stepSize • w =
      ownWeight (construct o.I : Members ℝ).currentMethod • o.stepSize • w := by
  obtain ⟨T1, h1⟩ := first_row hstep hu w
  obtain ⟨T2, h2⟩ := first_row hstep (construct_column o.I n) w
  obtain ⟨t1, hr1⟩ := h1 (max T1 T2) (le_max_left _ _)
  obtain ⟨t2, hr2⟩ := h2 (max T1 T2) (le_max_right _ _)
  have hrows := hm (constant w) ⟨0, List.ofFn (0 : Fin n → ℝ), o.stepSize, max T1 T2, 1, 1⟩
  rw [hr1, hr2, smul_zero, zero_add] at hrows
  simp only [List.cons.injEq, Prod.mk.injEq, true_and, and_true] at hrows
  exact List.ofFn_injective hrows.2

theorem firstWeight_eq_zero {method : Method} : firstWeight method = 0 ↔ method = .DISPFC := by
  cases method with
  | DISPFA => exact iff_of_false (by norm_num [firstWeight, P72]) nofun
  | DISPFB => exact iff_of_false (by norm_num [firstWeight, P28]) nofun
  | DISPFC => exact iff_of_true rfl rfl

theorem ownWeight_injective {a b : Method} (h : ownWeight a = ownWeight b) : a = b := by
  cases a <;> cases b <;> first | rfl | norm_num [ownWeight, P72, P28, Fin.sum_univ_succ] at h

/-- a solver that is not as new is told from a new one by y' = 0 or by y' = 1 -/
theorem asNew_of_harmless (hstep : 0 < o.stepSize) (hm : o.Harmless m) : o.AsNew m := by
  -- whatever column is found, its weight or its content is 0
  have hcolumn : ∀ {n : ℕ} {u : Fin n → ℝ}, (m.reset n).k 0 = List.ofFn u → firstWeight m.currentMethod • u = 0 := by
    intro n u hu
    have h := harmless_values hstep hm hu 0
    rwa [smul_zero, smul_zero, smul_zero, add_zero] at h
  have hmethod : m.currentMethod = (construct o.I : Members ℝ).currentMethod := by
    have hlen : ((m.reset 1).k 0).length = 1 := by
      rw [reset_column, List.length_append, List.length_take, List.length_replicate]
      omega
    have hu : (m.reset 1).k 0 = List.ofFn fun i : Fin 1 => ((m.reset 1).k 0).get (i.cast hlen.symm) := by
      rw [List.ofFn_congr hlen.symm]
      exact (List.ofFn_get _).symm
    have h := congrFun (harmless_values hstep hm hu 1) 0
    rw [hcolumn hu, zero_add] at h
    simp only [Pi.smul_apply, Pi.one_apply, smul_eq_mul, mul_one] at h
    exact ownWeight_injective (mul_right_cancel₀ hstep.ne' h)
  refine ⟨hmethod, ?_⟩
  by_cases h5 : o.I = 5
  · exact Or.inl h5
  · right
    have hne : firstWeight m.currentMethod ≠ 0 := by
      rw [Ne, firstWeight_eq_zero, hmethod, construct_method]
      exact h5
    have hu : (m.reset (m.k 0).length).k 0 = List.ofFn (m.k 0).get := by
      rw [reset_column, List.take_length, Nat.sub_self, List.replicate_zero, List.append_nil, List.ofFn_get]
    have hzero := (smul_eq_zero.1 (hcolumn hu)).resolve_left hne
    intro x hx
    obtain ⟨i, rfl⟩ := List.mem_iff_get.1 hx
    exact congrFun hzero i

end Dispf

/-! ## A used DISPS solver -/

section Disps

open DISPSSolver

/-- a call of `Solve` on a solver with the given step size and current index -/
noncomputable def dispsSolve (flags : DispsEnabledFlags) (f : Rhs ℝ) (c : ℝ × ℕ) (p : Problem) : State ℝ :=
  (DISPSSolver.solve f (variants flags) c.1 c.2 p.t0 p.y0 p.tEnd p.tolerance p.passes).state

/-- the step size and the current index after a sequence of calls on a new solver -/
noncomputable def dispsUsed (flags : DispsEnabledFlags) (f : Rhs ℝ) (initialStep : ℝ)
    (history : List Problem) : ℝ × ℕ :=
  history.foldl (fun c p => ((dispsSolve flags f c p).stepSize, (dispsSolve flags f c p).currentIndex)) (initialStep, 0)

/-- no further call can tell the step size and the current index c from those of a new solver -/
def DispsHarmless (flags : DispsEnabledFlags) (initialStep : ℝ) (c : ℝ × ℕ) : Prop :=
  ∀ (f : Rhs ℝ) (p : Problem), (dispsSolve flags f c p).results = (dispsSolve flags f (initialStep, 0) p).results

/-- y' = 1 -/
def one : Rhs ℝ := fun _ _ => .ok [1]

/-- on y' = 1 a step adds up its weights -/
theorem one_step {flags : DispsEnabledFlags} {v : DispsVariant ℝ} (hv : v ∈ variants flags) (h : ℝ) :
    doOneStep one 0 [0] h v = .ok ([v.p.sum * h], List.replicate v.stages [h]) := by
  have hone : ∀ t y, one t y = .ok [1] := fun _ _ => rfl
  have hmul : ∀ a b : ℝ, mul a [b] = [a * b] := fun _ _ => rfl
  have hadd : ∀ a b : ℝ, add [a] [b] = .ok [a + b] := fun _ _ => rfl
  have h3 : ∀ a b c : ℝ, step3Stage 0 [0] h one [a, b, c] = .ok ([[a, b, c].sum * h], List.replicate 3 [h]) := by
    intro a b c
    simp only [step3Stage, hone, hmul, hadd, ok_bind, Tableaux.read_zero, Tableaux.read_succ, except_pure, mul_one,
      List.sum_cons, List.sum_nil, List.replicate]
    ring_nf
  have h5 : ∀ a b c d e : ℝ,
      step5Stage 0 [0] h one [a, b, c, d, e] = .ok ([[a, b, c, d, e].sum * h], List.replicate 5 [h]) := by
    intro a b c d e
    simp only [step5Stage, hone, hmul, hadd, ok_bind, Tableaux.read_zero, Tableaux.read_succ, except_pure, mul_one,
      List.sum_cons, List.sum_nil, List.replicate]
    ring_nf
  have h6 : ∀ a b c d e g : ℝ,
      step6Stage 0 [0] h one [a, b, c, d, e, g] = .ok ([[a, b, c, d, e, g].sum * h], List.replicate 6 [h]) := by
    intro a b c d e g
    simp only [step6Stage, hone, hmul, hadd, ok_bind, Tableaux.read_zero, Tableaux.read_succ, except_pure, mul_one,
      List.sum_cons, List.sum_nil, List.replicate]
    ring_nf
  rcases Tableaux.mem_variants hv with rfl | rfl | rfl | rfl | rfl | rfl
  · exact h3 _ _ _
  · exact h5 _ _ _ _ _
  · exact h3 _ _ _
  · exact h5 _ _ _ _ _
  · exact h5 _ _ _ _ _
  · exact h6 _ _ _ _ _ _

/-- stages that are all the same have the estimate 0 -/
theorem one_control {flags : DispsEnabledFlags} {v : DispsVariant ℝ} (hv : v ∈ variants flags) (h : ℝ) :
    ∃ c, DISPSSolver.control v (List.replicate v.stages [h]) h 1 = .ok c ∧ c.ok = true := by
  obtain ⟨hstages, -, hcontrol⟩ := Levels.variants_wellFormed hv
  have hread : ∀ {i}, i < v.stages → OdeClientServer.read (List.replicate v.stages [h]) i = .ok [h] := by
    intro i hi
    rw [OdeClientServer.read, List.getElem?_replicate, if_pos hi]
  have h0 := hread (i := 0) (by omega)
  have h1 := hread (i := 1) (by omega)
  have h2 := hread (i := 2) (by omega)
  have hdiff : subtract [h] [h] = .ok [0] := by simp [subtract]
  have hestimate : ∀ delta : ℝ, delta * norm [0] ≤ 1 := by
    intro delta
    rw [show norm [(0 : ℝ)] = 0 by simp [norm], mul_zero]
    exact zero_le_one
  unfold DISPSSolver.control
  split_ifs with horder1 horder2
  · simp only [control1stOrder, h0, h1, ok_bind, hdiff, except_pure]
    exact ⟨_, rfl, verdict_ok.2 (hestimate _)⟩
  · simp only [control2ndOrder, h0, h1, h2, ok_bind, hdiff, except_pure]
    exact ⟨_, rfl, verdict_ok.2 (hestimate _)⟩
  · have h3 := hread (i := 3) (by omega)
    simp only [control3rdOrder, h0, h1, h2, h3, ok_bind, hdiff, except_pure]
    exact ⟨_, rfl, verdict_ok.2 (hestimate _)⟩

/-- the weights of no two variants have the same sum -/
theorem sums_nodup : ((variants Tableaux.allEnabled : List (DispsVariant ℝ)).map fun v => v.p.sum).Nodup := by
  norm_num [variants, Tableaux.allEnabled, disps13, disps15, disps23, disps25, disps35, disps36]

theorem sum_injective {flags : DispsEnabledFlags} {v w : DispsVariant ℝ} (hv : v ∈ variants flags)
    (hw : w ∈ variants flags) (h : v.p.sum = w.p.sum) : v = w := by
  have hall : ∀ u ∈ (variants flags : List (DispsVariant ℝ)), u ∈ variants Tableaux.allEnabled := by
    intro u hu
    simpa [variants, Tableaux.allEnabled] using Tableaux.mem_variants hu
  exact List.inj_on_of_nodup_map sums_nodup (hall v hv) (hall w hw) h

/-- the rows of one pass over y' = 1 -/
theorem one_rows {flags : DispsEnabledFlags} {stepSize tEnd : ℝ} {i : ℕ} {v : DispsVariant ℝ}
    (hv : (variants flags)[i]? = some v) (hstep : 1e-14 ≤ stepSize) (hend : stepSize ≤ tEnd) :
    (dispsSolve flags one (stepSize, i) ⟨0, [0], tEnd, 1, 0, 1⟩).results =
      [(0, [0]), (stepSize, [v.p.sum * stepSize])] := by
  have hread : OdeClientServer.read (variants flags) i = .ok v := by rw [OdeClientServer.read, hv]
  have hmin : min stepSize (tEnd - 0) = stepSize := by rw [sub_zero]; exact min_eq_left hend
  have hpos : 0 < tEnd := lt_of_lt_of_le (by norm_num) (hstep.trans hend)
  have hmem := List.mem_of_getElem? hv
  obtain ⟨c, hc, hok⟩ := one_control hmem stepSize
  have htry : tryLoop one v 1 0 [0] 30 stepSize = .ok (.accepted stepSize [v.p.sum * stepSize] c.newH c.needSwitch) :=
    tryLoop_accepted (one_step hmem stepSize) hc hok
  simp only [dispsSolve, DISPSSolver.solve, run, body, if_pos hpos, hmin, if_neg (not_lt.2 hstep), hread, ok_bind, htry,
    Pass.state_next, zero_add, List.cons_append, List.nil_append]

/-- a step size below the threshold makes no step -/
theorem one_rows_tiny {flags : DispsEnabledFlags} {stepSize tEnd : ℝ} (i : ℕ) (hstep : stepSize < 1e-14) :
    (dispsSolve flags one (stepSize, i) ⟨0, [0], tEnd, 1, 0, 1⟩).results = [(0, [0])] := by
  simp only [dispsSolve, DISPSSolver.solve, run, body]
  split_ifs with h1 h2
  · rfl
  · exact absurd (min_lt_of_left_lt hstep) h2
  · rfl

theorem variants_nodup (flags : DispsEnabledFlags) : (variants flags : List (DispsVariant ℝ)).Nodup := by
  have hkeys : ((variants Tableaux.allEnabled : List (DispsVariant ℝ)).map fun v => (v.stages, v.order)).Nodup := by
    decide
  have hpart : ∀ (b : Bool) (v : DispsVariant ℝ), (if b then [v] else []).Sublist [v] := by
    intro b v
    cases b
    · exact List.nil_sublist _
    · exact List.Sublist.refl _
  refine (hkeys.of_map _).sublist ?_
  unfold variants
  exact (((((hpart _ _).append (hpart _ _)).append (hpart _ _)).append (hpart _ _)).append (hpart _ _)).append
    (hpart _ _)

/-- y' = 1 tells every other step size and every other variant from those of a new solver -/
theorem disps_eq_of_harmless {flags : DispsEnabledFlags} {initialStep : ℝ} {c : ℝ × ℕ} (hstep : 1e-14 ≤ initialStep)
    (hc : c.2 < (variants flags : List (DispsVariant ℝ)).length) (hm : DispsHarmless flags initialStep c) :
    c = (initialStep, 0) := by
  obtain ⟨stepSize, i⟩ := c
  have hrows := hm one ⟨0, [0], max stepSize initialStep, 1, 0, 1⟩
  have h0 := List.getElem?_eq_getElem (Nat.zero_lt_of_lt hc)
  have hi := List.getElem?_eq_getElem hc
  rw [one_rows h0 hstep (le_max_right _ _)] at hrows
  rcases lt_or_ge stepSize 1e-14 with htiny | hlarge
  · rw [one_rows_tiny i htiny] at hrows
    cases hrows
  · rw [one_rows hi hlarge (le_max_left _ _)] at hrows
    simp only [List.cons.injEq, Prod.mk.injEq, true_and, and_true] at hrows
    obtain ⟨rfl, hvalue⟩ := hrows
    have hpos : 0 < stepSize := lt_of_lt_of_le (by norm_num) hstep
    have hsum := mul_right_cancel₀ hpos.ne' hvalue
    have heq := sum_injective (List.getElem_mem hc) (List.getElem_mem (Nat.zero_lt_of_lt hc)) hsum
    rw [(variants_nodup flags).getElem_inj_iff] at heq
    exact Prod.ext rfl heq

/-- what a call leaves: the index of an enabled variant, and the first content when the step is below the threshold -/
structure DispsLeft (flags : DispsEnabledFlags) (initialStep : ℝ) (c : ℝ × ℕ) : Prop where
  index : c.2 < (variants flags : List (DispsVariant ℝ)).length
  tiny : initialStep < 1e-14 → c = (initialStep, 0)

theorem body_left {flags : DispsEnabledFlags} {f : Rhs ℝ} {initialStep tEnd tolerance : ℝ} {s : State ℝ}
    (hs : DispsLeft flags initialStep (s.stepSize, s.currentIndex)) :
    DispsLeft flags initialStep ((body f (variants flags) tEnd tolerance s).state.stepSize,
      (body f (variants flags) tEnd tolerance s).state.currentIndex) := by
  have hswitch := switchScheme_lt hs.index
  unfold body
  by_cases ht : s.t < tEnd
  · rw [if_pos ht]
    dsimp only
    by_cases htiny : min s.stepSize (tEnd - s.t) < 1e-14
    · rw [if_pos htiny]; exact hs
    · rw [if_neg htiny]
      -- a pass that makes a try has a step above the threshold
      have hlarge : ¬ initialStep < 1e-14 := by
        intro hsmall
        have hstep : s.stepSize = initialStep := congrArg Prod.fst (hs.tiny hsmall)
        exact htiny (min_lt_of_left_lt (hstep ▸ hsmall))
      split
      · exact hs
      · refine ⟨?_, fun hsmall => absurd hsmall hlarge⟩
        dsimp only [Pass.state_next]
        split_ifs
        · exact hswitch
        · exact hs.index
      · exact ⟨hs.index, fun hsmall => absurd hsmall hlarge⟩
      · exact ⟨hswitch, fun hsmall => absurd hsmall hlarge⟩
  · rw [if_neg ht]; exact hs

theorem dispsSolve_left {flags : DispsEnabledFlags} {f : Rhs ℝ} {initialStep : ℝ} {c : ℝ × ℕ}
    (hc : DispsLeft flags initialStep c) (p : Problem) :
    DispsLeft flags initialStep ((dispsSolve flags f c p).stepSize, (dispsSolve flags f c p).currentIndex) :=
  run_invariant (I := fun s : State ℝ => DispsLeft flags initialStep (s.stepSize, s.currentIndex))
    (fun _ hs => body_left hs)
    p.passes _ hc

theorem dispsUsed_left {flags : DispsEnabledFlags} (hne : (variants flags : List (DispsVariant ℝ)) ≠ []) (f : Rhs ℝ)
    (initialStep : ℝ) (history : List Problem) :
    DispsLeft flags initialStep (dispsUsed flags f initialStep history) := by
  have hfirst : DispsLeft flags initialStep (initialStep, 0) := ⟨List.length_pos_iff.2 hne, fun _ => rfl⟩
  unfold dispsUsed
  generalize (initialStep, 0) = c at hfirst
  induction history generalizing c with
  | nil => exact hfirst
  | cons p history ih => exact ih _ (dispsSolve_left hfirst p)

end Disps

/-! ## Both solvers -/

/-- **Repeatability.** After any sequence of calls, no further call on any problem can tell a DISPF solver from a new
one exactly when it holds the method of its constructor and a first column of zeros, or has the fixed order 5; and a
DISPS solver exactly when it holds its first step size and its first variant. -/
theorem repeatable_iff (f : Rhs ℝ) (history : List Problem) :
    (∀ o : Options, 0 < o.stepSize → (o.Harmless (o.used f history) ↔ o.AsNew (o.used f history))) ∧
      ∀ (flags : DISPSSolver.DispsEnabledFlags) (initialStep : ℝ),
        (DISPSSolver.variants flags : List (DISPSSolver.DispsVariant ℝ)) ≠ [] →
          (DispsHarmless flags initialStep (dispsUsed flags f initialStep history) ↔
            dispsUsed flags f initialStep history = (initialStep, 0)) := by
  refine ⟨fun o hstep => ⟨asNew_of_harmless hstep, harmless_of_asNew⟩, fun flags initialStep hne => ?_⟩
  have hleft := dispsUsed_left hne f initialStep history
  constructor
  · intro hm
    rcases lt_or_ge initialStep 1e-14 with hsmall | hlarge
    · exact hleft.tiny hsmall
    · exact disps_eq_of_harmless hlarge hleft.index hm
  · intro heq f' p
    rw [heq]

/-! ## A second call -/

open DISPSSolver in
/-- Disps13 alone -/
def onlyDisps13 : DispsEnabledFlags := ⟨true, false, false, false, false, false⟩

/-- y' = 1 from 0 over [0, 1] -/
def unitProblem : Problem := ⟨0, [0], 1, 1, 0, 2⟩

section Second

open DISPSSolver

theorem unit_pass : body one (variants onlyDisps13) 1 1 ⟨0, [0], 1, 0, [(0, [0])]⟩ =
    .next ⟨1, [(disps13 : DispsVariant ℝ).p.sum], 1.2, 0, [(0, [0]), (1, [(disps13 : DispsVariant ℝ).p.sum])]⟩ := by
  have hmem : (disps13 : DispsVariant ℝ) ∈ variants onlyDisps13 := by simp [variants, onlyDisps13]
  have hstep := one_step hmem 1
  have hcontrol : DISPSSolver.control disps13 (List.replicate 3 [1]) (1 : ℝ) 1 = .ok ⟨true, 1.2, false⟩ := by
    have hzero : ¬ (1 : ℝ) < 0 := not_lt.2 zero_le_one
    have hgamma : ¬ (17.0 : ℝ) < 0 := by norm_num
    simp [DISPSSolver.control, control1stOrder, disps13, OdeClientServer.read, subtract, norm, verdict, List.replicate,
      hzero, vnTest, hgamma]
  have hread : OdeClientServer.read (variants onlyDisps13) 0 = .ok (disps13 : DispsVariant ℝ) := rfl
  have htry : tryLoop one disps13 1 0 [0] 30 1 = .ok (.accepted 1 [(disps13 : DispsVariant ℝ).p.sum] 1.2 false) := by
    rw [mul_one] at hstep
    exact tryLoop_accepted hstep hcontrol rfl
  have hmin : min (1 : ℝ) (1 - 0) = 1 := by norm_num
  simp only [body, hmin, hread, ok_bind, htry]
  norm_num

/-- the first call ends at t = 1 with the step size 1.2 -/
theorem unit_run : DISPSSolver.solve one (variants onlyDisps13) 1 0 0 [0] 1 1 2 =
    .exit ⟨1, [(disps13 : DispsVariant ℝ).p.sum], 1.2, 0, [(0, [0]), (1, [(disps13 : DispsVariant ℝ).p.sum])]⟩ := by
  rw [DISPSSolver.solve, run_succ_next unit_pass]
  exact run_succ_exit (by simp [body]) 0

theorem unit_used : dispsUsed onlyDisps13 one 1 [unitProblem] = (1.2, 0) := by
  simp only [dispsUsed, List.foldl_cons, List.foldl_nil, dispsSolve, unitProblem, unit_run, Pass.state_exit]

/-- the options of a DISPF request with I = J = K = 0 -/
noncomputable def serverOptions : Options := ⟨0, 0, 0, 0, 0.001⟩

/-- the same call as an instance of `repeatable_iff`, for both solvers -/
theorem repeatable_iff_unit :
    (serverOptions.Harmless (serverOptions.used one [unitProblem]) ↔
        serverOptions.AsNew (serverOptions.used one [unitProblem])) ∧
      ¬ DispsHarmless onlyDisps13 1 (dispsUsed onlyDisps13 one 1 [unitProblem]) := by
  obtain ⟨hdispf, hdisps⟩ := repeatable_iff one [unitProblem]
  refine ⟨hdispf serverOptions (by norm_num [serverOptions]), fun hm => ?_⟩
  have heq := (hdisps onlyDisps13 1 (by simp [variants, onlyDisps13])).1 hm
  rw [unit_used] at heq
  norm_num at heq

/-- **A second call.** A DISPS solver with Disps13 and the step 1 that has solved y' = 1 over [0, 1] records its next
row at 1.2 where a new one records it at 1. -/
theorem second_solve_differs :
    (∃ s, DISPSSolver.solve one (variants onlyDisps13) 1 0 0 [0] 1 1 2 = .exit s) ∧
      (dispsSolve onlyDisps13 one (dispsUsed onlyDisps13 one 1 [unitProblem]) ⟨0, [0], 2, 1, 0, 1⟩).results ≠
        (dispsSolve onlyDisps13 one (1, 0) ⟨0, [0], 2, 1, 0, 1⟩).results := by
  refine ⟨⟨_, unit_run⟩, ?_⟩
  rw [unit_used, one_rows (v := disps13) rfl (by norm_num) (by norm_num),
    one_rows (v := disps13) rfl (by norm_num) (by norm_num)]
  norm_num

end Second

end OdeClientServer.Repeatability
