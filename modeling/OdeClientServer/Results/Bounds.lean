/-
Vector accesses of a request. Nothing compares the number of initial conditions with the dimension of the system, and
the right-hand sides, `StepDISPFA`, `StepDISPFB` and `StepDISPFC` index their vectors without a check. The other
routines add h f(t, y) to y through a size-checked helper before they index anything.

- `rows_length`: every row of every request has the length of y0.
- `first_stage`: what a solver other than DISPF does when f(t, y) cannot be added to y.
- `in_bounds_iff`: the exact condition on a request under which no access is out of range.
- `vanDerPol_wrong_count`: requests with one and with three initial conditions for a system of dimension 2.
-/
import OdeClientServer.Results.Conservation
import OdeClientServer.Results.Coverage

namespace OdeClientServer.Bounds

open Loop Levels Routers TaskManager

/-- no run of the request ends with an access out of range, and its rows have the length of y0 -/
def InBounds (req : SolveRequest ℝ) : Prop :=
  ∀ (currentScheme : DISPDSolver.SchemeParams ℝ) (fuel passes : ℕ),
    (∀ rows, Routers.solve req currentScheme fuel passes ≠ .raise .badIndex rows) ∧
      ∀ r ∈ (Routers.solve req currentScheme fuel passes).state, r.2.length = req.y0.length

/-- the methods of the handler -/
def methods : List String := ["ExplicitEuler", "RungeKutta2", "RK23S", "STEKS", "DISPD", "DISPF", "DISPS"]

/-- the request names a method, for DISPS with an enabled variant, and its interval is long enough for a first step -/
structure Attempts (req : SolveRequest ℝ) : Prop where
  method : req.method ∈ methods
  variants : req.method = "DISPS" → (DISPSSolver.variants req.flags : List (DISPSSolver.DispsVariant ℝ)) ≠ []
  interval : req.t0 < req.tEnd
  threshold : Coverage.threshold req.method ≤ req.tEnd - req.t0

/-! ## Rows, and systems of the right dimension -/

theorem dot_zero (n : ℕ) (v : Vec ℝ) : dot (fun _ => 0) n v = 0 := Finset.sum_eq_zero fun _ _ => zero_mul _

/-- **Rows.** Every row of every request has the length of y0. -/
theorem rows_length (req : SolveRequest ℝ) (currentScheme : DISPDSolver.SchemeParams ℝ) (fuel passes : ℕ) :
    ∀ r ∈ (Routers.solve req currentScheme fuel passes).state, r.2.length = req.y0.length := by
  have hf : FlatRhs False (fun _ => 0) req.y0.length req.odeFunction := by
    intro t y _
    cases req.odeFunction t y with
    | error e => exact False.elim
    | ok v => exact ⟨dot_zero _ v, False.elim⟩
  exact fun r hr => ((Conservation.solve_keeps hf ⟨rfl, dot_zero _ _⟩ currentScheme fuel passes).1 r hr).1

/-- on states of its dimension f returns vectors of their length -/
theorem flatRhs_of_indexes {n : ℕ} {f : Rhs ℝ} (hf : Indexes n f) : FlatRhs True (fun _ => 0) n f := by
  intro t y hy
  obtain ⟨v, hv, hlen⟩ := hf.ok t y hy.ge
  rw [hv]
  exact ⟨dot_zero _ v, fun _ => hlen⟩

/-- with as many initial conditions as the system has components no access is out of range -/
theorem inBounds_of_dimension {req : SolveRequest ℝ} (hf : Indexes req.y0.length req.odeFunction) : InBounds req := by
  refine fun currentScheme fuel passes => ⟨fun rows hr => ?_, rows_length req currentScheme fuel passes⟩
  have hregular := (Conservation.solve_keeps (flatRhs_of_indexes hf) ⟨rfl, dot_zero _ _⟩ currentScheme fuel passes).2
  exact hregular _ _ hr trivial rfl

/-! ## A first stage that cannot be used -/

/-- f throws e at (t, y), or its value does not have the length of y and e is what a size check throws -/
def Fails (mismatch : Exn) (f : Rhs ℝ) (t : ℝ) (y : Vec ℝ) (e : Exn) : Prop :=
  f t y = .error e ∨ ∃ v, f t y = .ok v ∧ y.length ≠ v.length ∧ e = mismatch

/-- the exception of `AddVectors` -/
def sizes : Exn := .invalidArgument "Vectors must be of the same size"

/-- the exception of `DISPSSolver::Add` -/
def dispsSizes : Exn := .runtimeError "Add: размеры векторов не совпадают"

section FirstStage

variable {f : Rhs ℝ} {tolerance t h : ℝ} {y : Vec ℝ} {e : Exn}

/-- the sum of y and a multiple of f(t, y) -/
theorem first_sum (hx : Fails sizes f t y e) (a b : ℝ) {α : Type} (g : Vec ℝ → Vec ℝ → Except Exn α) :
    (do
      let v ← f t y
      let y2 ← addVectors y (multiplyScalarByVector a (multiplyScalarByVector b v))
      g v y2) = .error e := by
  rcases hx with hv | ⟨v, hv, hlen, rfl⟩
  · rw [hv]; rfl
  · have hadd : addVectors y (multiplyScalarByVector a (multiplyScalarByVector b v)) = .error sizes :=
      if_pos (by simpa only [multiplyScalarByVector, List.length_map] using hlen)
    rw [hv, ok_bind, hadd]
    rfl

theorem disps_first_sum (hx : Fails dispsSizes f t y e) (a b : ℝ) {α : Type} (g : Vec ℝ → Vec ℝ → Except Exn α) :
    (do
      let v ← f t y
      let y2 ← DISPSSolver.add y (DISPSSolver.mul a (DISPSSolver.mul b v))
      g v y2) = .error e := by
  rcases hx with hv | ⟨v, hv, hlen, rfl⟩
  · rw [hv]; rfl
  · have hadd : DISPSSolver.add y (DISPSSolver.mul a (DISPSSolver.mul b v)) = .error dispsSizes :=
      if_pos (by simpa only [DISPSSolver.mul, multiplyScalarByVector, List.length_map] using hlen)
    rw [hv, ok_bind, hadd]
    rfl

theorem euler_first (hx : Fails sizes f t y e) : EulerSolver.step f tolerance t y h = .threw e () y h := by
  have hu : EulerSolver.update f t y h = .error e := by
    rcases hx with hv | ⟨v, hv, hlen, rfl⟩
    · rw [EulerSolver.update, hv]; rfl
    · rw [EulerSolver.update, hv]
      exact if_pos (by rwa [multiplyScalarByVector, List.length_map])
  simp only [EulerSolver.step, EulerSolver.attempt, hu, error_bind]

theorem rk2_first (hx : Fails sizes f t y e) (fuel : ℕ) :
    RK2Solver.step f tolerance t y (fuel + 1) h = .threw e () y h := by
  have hs : RK2Solver.stages f t y h = .error e := first_sum hx _ h _
  simp only [RK2Solver.step, RK2Solver.attempt, hs, error_bind]

theorem rk23s_first (hx : Fails sizes f t y e) : RK23SSolver.step f tolerance t y h = .threw e () y h := by
  have hs : RK23SSolver.stages f t y h = .error e := first_sum hx _ h _
  simp only [RK23SSolver.step, hs, error_bind]

theorem steks_first (hx : Fails sizes f t y e) : STEKSSolver.step f tolerance t y h = .threw e () y h := by
  have hs : STEKSSolver.stages f t y h = .error e := first_sum hx _ h _
  simp only [STEKSSolver.step, hs, error_bind]

theorem dispd_first (hx : Fails sizes f t y e) (c : DISPDSolver.SchemeParams ℝ) :
    DISPDSolver.step f tolerance c t y h = .threw e c y h := by
  have hs : DISPDSolver.computeKTerms f t y h = .error e := first_sum hx _ h _
  simp only [DISPDSolver.step, DISPDSolver.attemptLoop, DISPDSolver.tryStep, hs, error_bind]

theorem disps_first (hx : Fails dispsSizes f t y e) {v : DISPSSolver.DispsVariant ℝ} (hv : WellFormed v) (left : ℕ) :
    DISPSSolver.tryLoop f v tolerance t y (left + 1) h = .error e := by
  have hs : DISPSSolver.doOneStep f t y h v = .error e := by
    rcases hv.stages with h3 | h5 | h6
    · rw [DISPSSolver.doOneStep, if_pos h3]
      exact disps_first_sum hx _ h _
    · rw [DISPSSolver.doOneStep, if_neg (by omega), if_pos h5]
      exact disps_first_sum hx _ h _
    · rw [DISPSSolver.doOneStep, if_neg (by omega), if_neg (by omega), if_pos h6]
      exact disps_first_sum hx _ h _
  simp only [DISPSSolver.tryLoop, hs, error_bind]

end FirstStage

/-! ## DISPF indexes first -/

section DISPF

open DISPFSolver

variable {d : ℕ} {f : Rhs ℝ} {tolerance t h : ℝ} {y : Vec ℝ}

/-- a loop over more entries than v has -/
theorem column_short {n : ℕ} {v : Vec ℝ} (hv : v.length < n) : column n v h = .error .badIndex := by
  have hends : Ends (fun _ => True) (· = .badIndex) (column n v h) := by
    refine (Ends.mapM (R := fun _ _ => True) fun i _ => ?_).imp fun _ _ => trivial
    unfold OdeClientServer.read
    cases v[i]? with
    | some x => trivial
    | none => rfl
  cases hc : column n v h with
  | error e => exact congrArg _ (hends.error hc)
  | ok w =>
    refine absurd (length_of_tabulate (v := v) hc fun i b hb => ?_) (not_le.2 hv)
    obtain ⟨x, hx, -⟩ := bind_eq_ok.1 hb
    exact ⟨x, hx⟩

/-- the column of a stage, for a state that does not have the dimension of f -/
theorem stage_column (hf : Indexes d f) {p : Vec ℝ} (hp : p.length = y.length) (hd : y.length ≠ d) :
    (do column y.length (← f t p) h) = .error .badIndex := by
  rcases Nat.lt_or_gt_of_ne hd with hlt | hgt
  · rw [hf.short t p (hp ▸ hlt)]; rfl
  · obtain ⟨v, hv, hlen⟩ := hf.ok t p (hp ▸ hgt.le)
    rw [hv]
    exact column_short (hlen ▸ hgt)

/-- the point of the second stage exists when the first column has the length of y -/
def HasSecond (F : Formula ℝ) : Prop := ∀ y k, (k 0).length = y.length → ∃ p, F.second y k = .ok p ∧ p.length = y.length

theorem hasSecond_of_entries {F : Formula ℝ} {g : Vec ℝ → Stages ℝ → ℕ → Except Exn ℝ}
    (hF : ∀ y k, F.second y k = tabulate y.length (g y k))
    (hg : ∀ y k i a b, read y i = .ok a → read (k 0) i = .ok b → ∃ x, g y k i = .ok x) : HasSecond F := by
  intro y k hk
  have hentries : ∀ i < y.length, ∃ x, g y k i = .ok x := by
    intro i hi
    obtain ⟨a, ha⟩ := read_ok hi
    obtain ⟨b, hb⟩ := read_ok (hk ▸ hi)
    exact hg y k i a b ha hb
  obtain ⟨p, hp⟩ := tabulate_ok hentries
  exact ⟨p, hF y k ▸ hp, tabulate_length hp⟩

theorem formulaA_second : HasSecond formulaA := by
  refine hasSecond_of_entries (fun _ _ => rfl) fun y k i a b ha hb => ?_
  refine ⟨a + (0 + 1.0 / 4.0 * b), ?_⟩
  have hsum : stadScalar k i 1 = .ok (0 + 1.0 / 4.0 * b) := by
    simp [stadScalar, weightedSum, B, List.ofFn_succ, hb]
  rw [ha, hsum]
  rfl

theorem formulaB_second : HasSecond formulaB := by
  refine hasSecond_of_entries (fun _ _ => rfl) fun y k i a b ha hb => ⟨a + 1.0 / 4.0 * b, ?_⟩
  simp only [ha, hb, ok_bind, except_pure]

theorem approach_first (tolerance t h : ℝ) (hf : Indexes d f) {F : Formula ℝ} (hF : HasSecond F) {m : Members ℝ}
    (hk : (m.k 0).length = y.length) (hd : y.length ≠ d) (fuel : ℕ) :
    ∃ m', approach F f tolerance t y (fuel + 1) m h = .threw .badIndex m' h := by
  obtain ⟨p, hp, hlen⟩ := hF y m.k hk
  have hstage : secondStage F f t y h m.k = .error .badIndex := by
    rw [secondStage, hp]
    exact stage_column hf hlen hd
  refine ⟨{ m.enter t y h with k := m.k }, ?_⟩
  simp only [approach, predictor, Members.enter, hstage]

theorem dispf_first (cfg : Config ℝ) (hf : Indexes d f) {m : Members ℝ} (hk : (m.k 0).length = y.length)
    (hd : y.length ≠ d) (fuel : ℕ) :
    ∃ m', step cfg f tolerance (fuel + 1) m t y h = .threw .badIndex m' y h := by
  cases hm : m.currentMethod with
  | DISPFA =>
    obtain ⟨m', ha⟩ := approach_first tolerance t h hf formulaA_second hk hd fuel
    exact ⟨m', by simp only [step, hm, stepDISPFA, ha]⟩
  | DISPFB =>
    obtain ⟨m', ha⟩ := approach_first tolerance t h hf formulaB_second hk hd fuel
    exact ⟨m', by simp only [step, hm, stepDISPFB, ha]⟩
  | DISPFC =>
    have hcol : (do column y.length (← f t y) h) = .error .badIndex := stage_column hf rfl hd
    exact ⟨m, by simp only [step, hm, stepDISPFC, hcol]⟩

theorem reset_first_length (I : ℤ) (n : ℕ) : ((((construct I).reset n : Members ℝ)).k 0).length = n := by
  simp [construct, Members.reset]

end DISPF

/-! ## Requests -/

section Requests

variable {req : SolveRequest ℝ}

theorem tiny_of_short {threshold d : ℝ} (hd : d < threshold) : decide (min initialStep d < threshold) = true :=
  decide_eq_true (min_lt_of_right_lt hd)

theorem not_tiny {threshold d : ℝ} (h0 : threshold ≤ initialStep) (hd : threshold ≤ d) :
    decide (min initialStep d < threshold) = false :=
  decide_eq_false (not_lt.2 (le_min h0 hd))

/-- a request without a first step makes no access -/
theorem inBounds_of_idle (h : ¬ Attempts req) : InBounds req := by
  refine fun currentScheme fuel passes => ⟨fun rows hr => ?_, rows_length req currentScheme fuel passes⟩
  have hidle : ∀ {method}, req.method = method → method ∈ methods →
      (method = "DISPS" → (DISPSSolver.variants req.flags : List (DISPSSolver.DispsVariant ℝ)) ≠ []) →
        req.tEnd ≤ req.t0 ∨ req.tEnd - req.t0 < Coverage.threshold method := by
    rintro method rfl h1 h2
    by_contra hc
    rw [not_or, not_le, not_lt] at hc
    exact h ⟨h1, h2, hc.1, hc.2⟩
  -- a method with the threshold 0 is idle at the end of its interval only
  have hzero : ∀ {method}, req.method = method → method ∈ methods → method ≠ "DISPS" → Coverage.threshold method = 0 →
      req.tEnd ≤ req.t0 := by
    intro method hm h1 h2 h3
    rcases hidle hm h1 fun h4 => absurd h4 h2 with hle | hlt
    · exact hle
    · rw [h3] at hlt
      exact (sub_neg.1 hlt).le
  unfold Routers.solve at hr
  split_ifs at hr with h1 h2 h3 h4 h5 h6 h7
  · obtain ⟨s, hs, -⟩ := Pass.map_eq_raise hr
    have hend := hzero h1 (by decide) (by decide) (by simp [Coverage.threshold])
    exact run_ne_raise (body_idle (Or.inl hend)) _ _ hs
  · obtain ⟨s, hs, -⟩ := Pass.map_eq_raise hr
    have hend := hzero h2 (by decide) (by decide) (by simp [Coverage.threshold])
    exact run_ne_raise (body_idle (Or.inl hend)) _ _ hs
  · obtain ⟨s, hs, -⟩ := Pass.map_eq_raise hr
    have hi := hidle h3 (by decide) fun hd => absurd hd (by decide)
    simp only [Coverage.threshold, true_or, if_true] at hi
    exact run_ne_raise (body_idle (hi.imp_right tiny_of_short)) _ _ hs
  · obtain ⟨s, hs, -⟩ := Pass.map_eq_raise hr
    have hi := hidle h4 (by decide) fun hd => absurd hd (by decide)
    simp only [Coverage.threshold, true_or, or_true, if_true] at hi
    exact run_ne_raise (body_idle (hi.imp_right tiny_of_short)) _ _ hs
  · obtain ⟨s, hs, -⟩ := Pass.map_eq_raise hr
    have hi := hidle h5 (by decide) fun hd => absurd hd (by decide)
    simp only [Coverage.threshold, or_true, if_true] at hi
    exact run_ne_raise (body_idle (hi.imp_right tiny_of_short)) _ _ hs
  · obtain ⟨s, hs, -⟩ := Pass.map_eq_raise hr
    have hend := hzero h6 (by decide) (by decide) (by simp [Coverage.threshold])
    exact run_ne_raise (body_idle (Or.inl hend)) _ _ hs
  · rcases DISPSSolver.construct_cases req.flags with ⟨-, hconstruct⟩ | ⟨hne, hconstruct⟩
    · rw [hconstruct] at hr
      cases hr
    · rw [hconstruct] at hr
      obtain ⟨s, hs, -⟩ := Pass.map_eq_raise hr
      have hi := hidle h7 (by decide) fun _ => hne
      simp only [Coverage.threshold, String.reduceEq, or_self, if_true, if_false] at hi
      exact run_ne_raise ((Coverage.disps_body_exit_iff _ _).2 ⟨rfl, hi.imp_right min_lt_of_right_lt⟩) _ _ hs
  · cases hr

/-- a solver whose first step throws e, which it does not catch, ends with no other exception -/
theorem run_ne_raise_of_first {M G : Type} {D : Driver M G ℝ} {m : M} {t0 h0 tEnd : ℝ} {y0 : Vec ℝ} {e e' : Exn}
    (hstep : ∀ h, (∃ m' y h', D.step m t0 y0 h = .threw e m' y h') ∨ ∃ m', D.step m t0 y0 h = .starved m')
    (hc : D.catches e = false) (he : e ≠ e') (n : ℕ) (s : RunState M G ℝ) :
    run (D.body tEnd) n (start m t0 y0 h0) ≠ .raise e' s := by
  intro hr
  have hnext : ∀ s1, D.body tEnd (start m t0 y0 h0) ≠ .next s1 := by
    intro s1 hb
    rcases hstep (D.clip t0 h0 tEnd) with ⟨m', y, h', hs⟩ | ⟨m', hs⟩ <;>
      obtain ⟨-, ⟨_, _, _, _, hs', -⟩ | ⟨_, _, _, _, hs', hc', -⟩⟩ := body_next_cases hb <;>
      cases hs.symm.trans hs'
    rw [hc] at hc'
    cases hc'
  obtain ⟨-, _, _, _, hs'⟩ := body_raise (run_raise_first hnext hr)
  rcases hstep (D.clip t0 h0 tEnd) with ⟨m', y, h', hs⟩ | ⟨m', hs⟩
  · cases hs.symm.trans hs'
    exact he rfl
  · cases hs.symm.trans hs'

/-- the variant that a constructed DISPS solver starts with -/
theorem construct_head {flags : DISPSSolver.DispsEnabledFlags}
    (hne : (DISPSSolver.variants flags : List (DISPSSolver.DispsVariant ℝ)) ≠ []) :
    ∃ v : DISPSSolver.DispsVariant ℝ, OdeClientServer.read (DISPSSolver.variants flags) 0 = .ok v ∧ WellFormed v := by
  obtain ⟨v, rest, hlist⟩ := List.exists_cons_of_ne_nil hne
  have hmem : v ∈ DISPSSolver.variants flags := hlist ▸ List.mem_cons_self
  exact ⟨v, by rw [hlist]; rfl, variants_wellFormed hmem⟩

theorem disps_body_first {f : Rhs ℝ} {variants : List (DISPSSolver.DispsVariant ℝ)} {tEnd tolerance : ℝ}
    {s : DISPSSolver.State ℝ} {v : DISPSSolver.DispsVariant ℝ} {e : Exn} (hx : Fails dispsSizes f s.t s.y e)
    (hread : OdeClientServer.read variants s.currentIndex = .ok v) (hv : WellFormed v) :
    DISPSSolver.body f variants tEnd tolerance s =
      if s.t < tEnd ∧ 1e-14 ≤ min s.stepSize (tEnd - s.t) then .raise e s else .exit s := by
  unfold DISPSSolver.body
  by_cases ht : s.t < tEnd
  · rw [if_pos ht]
    dsimp only
    by_cases htiny : min s.stepSize (tEnd - s.t) < 1e-14
    · rw [if_pos htiny, if_neg fun h => absurd htiny (not_lt.2 h.2)]
    · rw [if_neg htiny, if_pos ⟨ht, not_lt.1 htiny⟩, hread, ok_bind, disps_first hx hv]
  · rw [if_neg ht, if_neg fun h => ht h.1]

/-- the size-checked helpers stop a request with more initial conditions than components -/
theorem inBounds_of_more {d : ℕ} (hf : Indexes d req.odeFunction) (hd : d < req.y0.length) (hm : req.method ≠ "DISPF") :
    InBounds req := by
  refine fun currentScheme fuel passes => ⟨fun rows hr => ?_, rows_length req currentScheme fuel passes⟩
  have hfails : ∀ mismatch, Fails mismatch req.odeFunction req.t0 req.y0 mismatch := by
    intro mismatch
    obtain ⟨v, hv, hlen⟩ := hf.ok req.t0 req.y0 hd.le
    exact Or.inr ⟨v, hv, by rw [hlen]; exact hd.ne', rfl⟩
  have hx := hfails sizes
  have he : sizes ≠ .badIndex := nofun
  unfold Routers.solve at hr
  split_ifs at hr
  · obtain ⟨s, hs, -⟩ := Pass.map_eq_raise hr
    exact run_ne_raise_of_first (fun _ => Or.inl ⟨_, _, _, euler_first hx⟩) rfl he _ s hs
  · obtain ⟨s, hs, -⟩ := Pass.map_eq_raise hr
    refine run_ne_raise_of_first (fun h => ?_) rfl he _ s hs
    cases fuel with
    | zero => exact Or.inr ⟨_, rfl⟩
    | succ fuel => exact Or.inl ⟨_, _, _, rk2_first hx fuel⟩
  · obtain ⟨s, hs, -⟩ := Pass.map_eq_raise hr
    exact run_ne_raise_of_first (fun _ => Or.inl ⟨_, _, _, rk23s_first hx⟩) rfl he _ s hs
  · obtain ⟨s, hs, -⟩ := Pass.map_eq_raise hr
    exact run_ne_raise_of_first (fun _ => Or.inl ⟨_, _, _, steks_first hx⟩) rfl he _ s hs
  · obtain ⟨s, hs, -⟩ := Pass.map_eq_raise hr
    exact run_ne_raise_of_first (fun _ => Or.inl ⟨_, _, _, dispd_first hx _⟩) rfl he _ s hs
  · rcases DISPSSolver.construct_cases req.flags with ⟨-, hconstruct⟩ | ⟨hne, hconstruct⟩
    · rw [hconstruct] at hr
      cases hr
    · rw [hconstruct] at hr
      obtain ⟨v, hread, hwf⟩ := construct_head hne
      obtain ⟨s, hs, -⟩ := Pass.map_eq_raise hr
      have hb : DISPSSolver.body req.odeFunction (DISPSSolver.variants req.flags) req.tEnd req.tolerance
          ⟨req.t0, req.y0, initialStep, 0, [(req.t0, req.y0)]⟩ = _ := disps_body_first (hfails dispsSizes) hread hwf
      have hraise := run_raise_first (fun s1 h1 => by rw [hb] at h1; split_ifs at h1) hs
      rw [hb] at hraise
      split_ifs at hraise
      cases hraise
  · cases hr

theorem first_raises {M G : Type} {D : Driver M G ℝ} {m m' : M} {t0 h0 tEnd h' : ℝ} {y0 y' : Vec ℝ} {e : Exn}
    (ht : t0 < tEnd) (htiny : D.tiny (D.clip t0 h0 tEnd) = false) (hc : D.catches e = false)
    (hstep : D.step m t0 y0 (D.clip t0 h0 tEnd) = .threw e m' y' h') :
    ∃ rows, (run (D.body tEnd) 1 (start m t0 y0 h0)).map RunState.storage = .raise e rows :=
  ⟨_, by rw [run_one_raise (body_threw ht htiny hc hstep)]; rfl⟩

/-- **Out of range.** A request that attempts a step with too few initial conditions, or with DISPF and a number other
than the dimension, ends with an access out of range at once. -/
theorem raises_badIndex {d : ℕ} (hf : Indexes d req.odeFunction) (ha : Attempts req) (hd : req.y0.length ≠ d)
    (hm : req.y0.length < d ∨ req.method = "DISPF") (currentScheme : DISPDSolver.SchemeParams ℝ) :
    ∃ rows, Routers.solve req currentScheme 1 1 = .raise .badIndex rows := by
  have hx : req.method ≠ "DISPF" → ∀ mismatch, Fails mismatch req.odeFunction req.t0 req.y0 .badIndex :=
    fun hF _ => Or.inl (hf.short _ _ (hm.resolve_right hF))
  have hthr := ha.threshold
  unfold Coverage.threshold at hthr
  unfold Routers.solve
  split_ifs with h1 h2 h3 h4 h5 h6 h7
  · exact first_raises ha.interval (decide_eq_false
      (not_le.2 (lt_min Coverage.initialStep_pos (sub_pos.2 ha.interval))))
      rfl (euler_first (hx (by rw [h1]; decide) sizes))
  · exact first_raises ha.interval rfl rfl (rk2_first (hx (by rw [h2]; decide) sizes) 0)
  · simp only [h3, true_or, if_true] at hthr
    exact first_raises ha.interval (not_tiny (by norm_num [initialStep]) hthr) rfl
      (rk23s_first (hx (by rw [h3]; decide) sizes))
  · simp only [h4, true_or, or_true, if_true] at hthr
    exact first_raises ha.interval (not_tiny (by norm_num [initialStep]) hthr) rfl
      (steks_first (hx (by rw [h4]; decide) sizes))
  · simp only [h5, or_true, if_true] at hthr
    exact first_raises ha.interval (not_tiny (by norm_num [initialStep]) hthr) rfl
      (dispd_first (hx (by rw [h5]; decide) sizes) _)
  · obtain ⟨m', hstep⟩ := dispf_first (DISPFSolver.config 0 req.I req.J req.K) hf
      (reset_first_length req.I req.y0.length) hd 0
    exact first_raises ha.interval rfl rfl hstep
  · rcases DISPSSolver.construct_cases req.flags with ⟨hnil, -⟩ | ⟨hne, hconstruct⟩
    · exact absurd hnil (ha.variants h7)
    · rw [hconstruct]
      obtain ⟨v, hread, hwf⟩ := construct_head hne
      simp only [h7, String.reduceEq, or_self, if_true, if_false] at hthr
      have hb : DISPSSolver.body req.odeFunction (DISPSSolver.variants req.flags) req.tEnd req.tolerance
          ⟨req.t0, req.y0, initialStep, 0, [(req.t0, req.y0)]⟩ = _ :=
        disps_body_first (hx (by rw [h7]; decide) dispsSizes) hread hwf
      rw [if_pos ⟨ha.interval, le_min (by norm_num [initialStep]) hthr⟩] at hb
      dsimp only
      exact ⟨_, by rw [DISPSSolver.solve, run_one_raise hb]; rfl⟩
  · have hmem := ha.method
    simp only [methods, List.mem_cons, List.not_mem_nil, or_false] at hmem
    tauto

/-- **Exactly when no access is out of range.** The request attempts no step, or it has as many initial conditions as
the system has components, or it has more and its method is not DISPF. -/
theorem in_bounds_iff {parameters : String → ℝ} {taskName : String} (req : SolveRequest ℝ)
    (hf : getTask parameters taskName = .ok req.odeFunction) :
    InBounds req ↔ (Attempts req → req.y0.length = dimension taskName ∨
      dimension taskName < req.y0.length ∧ req.method ≠ "DISPF") := by
  have hdim := getTask_indexes hf
  constructor
  · intro hin ha
    by_contra hc
    obtain ⟨hne, hmore⟩ := not_or.1 hc
    have hm : req.y0.length < dimension taskName ∨ req.method = "DISPF" := by
      rcases Nat.lt_or_gt_of_ne hne with hlt | hgt
      · exact Or.inl hlt
      · exact Or.inr (not_not.1 fun hF => hmore ⟨hgt, hF⟩)
    obtain ⟨rows, hrows⟩ := raises_badIndex hdim ha hne hm ⟨0, 0, 0, 0⟩
    exact (hin ⟨0, 0, 0, 0⟩ 1 1).1 rows hrows
  · intro hcond
    by_cases ha : Attempts req
    · rcases hcond ha with heq | ⟨hlt, hF⟩
      · exact inBounds_of_dimension (heq ▸ hdim)
      · exact inBounds_of_more hdim hlt hF
    · exact inBounds_of_idle ha

end Requests

/-! ## VanDerPol with the wrong number of initial conditions -/

/-- the harmonic oscillator over [0, 1] -/
noncomputable def oscillator (method : String) (y0 : Vec ℝ) : SolveRequest ℝ where
  method := method
  odeFunction := vanDerPol Coverage.harmonic
  t0 := 0
  tEnd := 1
  tolerance := 0.001
  y0 := y0
  I := 0
  J := 0
  K := 0
  flags := ⟨false, false, false, false, false, false⟩

/-- three initial conditions and RK23S, as an instance of `in_bounds_iff` -/
theorem in_bounds_iff_three : InBounds (oscillator "RK23S" [1, 0, 5]) := by
  have hf : getTask Coverage.harmonic "VanDerPol" = .ok (oscillator "RK23S" [1, 0, 5]).odeFunction := rfl
  exact (in_bounds_iff (oscillator "RK23S" [1, 0, 5]) hf).2 fun _ => Or.inr ⟨by decide, by decide⟩

theorem oscillator_attempts (y0 : Vec ℝ) {method : String} (hm : method = "ExplicitEuler" ∨ method = "DISPF") :
    Attempts (oscillator method y0) where
  method := by
    change method ∈ methods
    rcases hm with rfl | rfl <;> decide
  variants := by
    intro hd
    change method = "DISPS" at hd
    rcases hm with rfl | rfl <;> exact absurd hd (by decide)
  interval := zero_lt_one
  threshold := by
    change Coverage.threshold method ≤ 1 - 0
    rcases hm with rfl | rfl <;> simp [Coverage.threshold]

/-- **Accesses out of range.** One initial condition with Euler, and three with DISPF. -/
theorem vanDerPol_wrong_count :
    ¬ InBounds (oscillator "ExplicitEuler" [1]) ∧ ¬ InBounds (oscillator "DISPF" [1, 0, 5]) := by
  have hf : Indexes 2 (vanDerPol Coverage.harmonic) := vanDerPol_indexes _
  constructor
  · intro hin
    obtain ⟨rows, hrows⟩ := raises_badIndex hf (oscillator_attempts [1] (Or.inl rfl)) (by decide)
      (Or.inl (by decide)) ⟨0, 0, 0, 0⟩
    exact (hin _ _ _).1 rows hrows
  · intro hin
    obtain ⟨rows, hrows⟩ := raises_badIndex hf (oscillator_attempts [1, 0, 5] (Or.inr rfl)) (by decide)
      (Or.inr rfl) ⟨0, 0, 0, 0⟩
    exact (hin _ _ _).1 rows hrows

end OdeClientServer.Bounds
