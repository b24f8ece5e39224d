/-
Requests for the forced oscillator. Its right-hand side grows at most linearly with the state, so the loops of Euler,
RK2 and DISPF are left, whatever the interval and the initial values are.

- `forcedOscillator_linear`: the growth of the right-hand side.
- `solve_ends`: `Solve` of every method except DISPS returns or throws, with enough fuel and passes.
- `linear_requests_answered`: every accepted request for the forced oscillator that names no DISPS gets one response.
-/
import OdeClientServer.Results.Bounds
import OdeClientServer.Results.DispfGrowth

namespace OdeClientServer.LinearRequests

open Loop Routers Answered OdeClientServer.LinearGrowth Bounds TaskManager

/-! ## The oscillator -/

/-- f computes a field of dimension n that grows at most linearly -/
def IsLinear (n : ℕ) (f : Rhs ℝ) : Prop := ∃ F L, Computes F f ∧ GrowsLinearly (n := n) F L

/-- the second component of the oscillator -/
theorem oscillator_le (w g A c : ℝ) (hc : |c| ≤ 1) (u : Fin 2 → ℝ) :
    |-w * w * u 0 - g * u 1 + A * c| ≤ (w * w + |g| + |A|) * (1 + ‖u‖) := by
  have h0 : |u 0| ≤ ‖u‖ := norm_le_pi_norm u 0
  have h1 : |u 1| ≤ ‖u‖ := norm_le_pi_norm u 1
  have hw : 0 ≤ w * w := mul_self_nonneg w
  have hg := abs_nonneg g
  have hA := abs_nonneg A
  have hforce : |A * c| ≤ |A| := by
    rw [abs_mul]
    exact mul_le_of_le_one_right hA hc
  have hspring : |-w * w * u 0| ≤ w * w * ‖u‖ := by
    rw [abs_mul, neg_mul, abs_neg, abs_of_nonneg hw]
    exact mul_le_mul_of_nonneg_left h0 hw
  have hfriction : |g * u 1| ≤ |g| * ‖u‖ := by
    rw [abs_mul]
    exact mul_le_mul_of_nonneg_left h1 hg
  calc |-w * w * u 0 - g * u 1 + A * c| ≤ |-w * w * u 0| + |g * u 1| + |A * c| :=
        (abs_add_le _ _).trans (add_le_add_left (abs_sub _ _) _)
    _ ≤ w * w * ‖u‖ + |g| * ‖u‖ + |A| := add_le_add (add_le_add hspring hfriction) hforce
    _ ≤ (w * w + |g| + |A|) * (1 + ‖u‖) := by nlinarith [mul_nonneg hA (norm_nonneg u)]

/-- **Growth of the oscillator.** Whatever the parameters are, the right-hand side grows at most linearly. -/
theorem forcedOscillator_linear (parameters : String → ℝ) : IsLinear 2 (forcedOscillator parameters) := by
  let w := parameters "omega"
  let g := parameters "gamma"
  let A := parameters "F"
  let d := parameters "omega_k"
  have hL : 0 ≤ w * w + |g| + |A| := by
    have hw := mul_self_nonneg w
    positivity
  refine ⟨fun t u => ![u 1, -w * w * u 0 - g * u 1 + A * Real.cos (d * t)], 1 + (w * w + |g| + |A|),
    fun t u => ?_, by linarith, fun t u => ?_⟩
  · simp [forcedOscillator, w, g, A, d, List.ofFn_succ, read, bind, Except.bind, pure, Except.pure]
  · have hu := norm_nonneg u
    refine (pi_norm_le_iff_of_nonneg (by positivity)).2 fun i => ?_
    fin_cases i
    · have h1 : |u 1| ≤ ‖u‖ := norm_le_pi_norm u 1
      change |u 1| ≤ _
      nlinarith
    · have h2 := oscillator_le w g A (Real.cos (d * t)) (Real.abs_cos_le_one _) u
      change |-w * w * u 0 - g * u 1 + A * Real.cos (d * t)| ≤ _
      linarith

/-! ## Solvers -/

/-- from some amount of fuel and number of passes on a computation ends in p, which is neither cut off nor waiting for
more passes -/
def Ends {ε β : Type} (p : Pass ε β) (compute : ℕ → ℕ → Pass ε β) : Prop :=
  (∀ b, p ≠ .next b) ∧ (∀ b, p ≠ .starved b) ∧ ∃ N, ∀ n ≥ N, ∀ fuel ≥ N, compute fuel n = p

theorem SettlesIn.ends {ε β : Type} {p : Pass ε β} {compute : ℕ → ℕ → Pass ε β} (hp : SettlesIn p compute) :
    Ends p compute := by
  obtain ⟨hnext, hstarved, N, hN⟩ := hp
  exact ⟨hnext, hstarved, N, fun n hn fuel _ => hN n hn fuel⟩

/-- the rows of a computation that ends -/
theorem Ends.map {ε β γ : Type} {p : Pass ε β} {compute : ℕ → ℕ → Pass ε β} (hp : Ends p compute) (g : β → γ) :
    Ends (p.map g) fun fuel n => (compute fuel n).map g := by
  obtain ⟨hnext, hstarved, N, hN⟩ := hp
  refine ⟨fun b hb => ?_, fun b hb => ?_, N, fun n hn fuel hfuel => congrArg (Pass.map g) (hN n hn fuel hfuel)⟩
  · cases p with
    | next s => exact hnext s rfl
    | exit s => cases hb
    | raise e s => cases hb
    | starved s => cases hb
  · cases p with
    | next s => cases hb
    | exit s => cases hb
    | raise e s => cases hb
    | starved s => exact hstarved s rfl

section Families

variable {M G : Type} {D : ℕ → Driver M G ℝ} {I : RunState M G ℝ → Prop} {s0 : RunState M G ℝ} {tEnd : ℝ}

/-- a loop that is left, whose calls of `Step` return with enough fuel -/
theorem ends_of_terminates (hD : StepStable D)
    (hI : ∀ s s', I s → limit (fun fuel => (D fuel).body tEnd) s = .next s' → I s')
    (hstep : ∀ s, I s → s.t < tEnd →
      ∃ fuel, ∀ m, (D fuel).step s.mem s.t s.y ((D fuel).clip s.t s.h tEnd) ≠ .starved m)
    (h0 : I s0) (hterm : Terminates (limit fun fuel => (D fuel).body tEnd) s0) :
    ∃ p, Ends p fun fuel n => (run ((D fuel).body tEnd) n s0).map RunState.storage := by
  have hfed : ∀ s, I s → ∃ fuel, Fed (fun fuel => (D fuel).body tEnd) fuel s := by
    intro s hs
    by_cases ht : s.t < tEnd
    · obtain ⟨fuel, hfuel⟩ := hstep s hs ht
      exact ⟨fuel, fed_of_step fun _ => hfuel⟩
    · exact ⟨0, fed_of_step fun h => absurd h ht⟩
  obtain ⟨p, hp⟩ := fuelled_settles (hD.body tEnd) hI hfed h0 hterm
  exact ⟨p.map RunState.storage, Ends.map hp RunState.storage⟩

/-- a solver whose first call of `Step` throws an exception that it does not catch -/
theorem ends_of_first (hD : StepStable D) {e : Exn} (hc : (D 0).catches e = false)
    (hstep : ∀ fuel h, ∃ m y h', (D (fuel + 1)).step s0.mem s0.t s0.y h = .threw e m y h') :
    ∃ p, Ends p fun fuel n => (run ((D fuel).body tEnd) n s0).map RunState.storage := by
  by_cases hidle : tEnd ≤ s0.t ∨ (D 0).tiny ((D 0).clip s0.t s0.h tEnd) = true
  · refine ⟨.exit s0.storage, (fun _ h => by cases h), (fun _ h => by cases h), 1, fun n hn fuel _ => ?_⟩
    obtain ⟨k, rfl⟩ := Nat.exists_eq_add_of_le' hn
    have hexit : (D fuel).body tEnd s0 = .exit s0 := by
      apply body_idle
      rw [hD.tiny 0 fuel, hD.clip 0 fuel]
      exact hidle
    exact congrArg (Pass.map RunState.storage) (run_succ_exit hexit k)
  · rw [not_or, not_le, Bool.not_eq_true] at hidle
    obtain ⟨ht, htiny⟩ := hidle
    refine ⟨.raise e s0.storage, (fun _ h => by cases h), (fun _ h => by cases h), 1, fun n hn fuel hfuel => ?_⟩
    obtain ⟨k, rfl⟩ := Nat.exists_eq_add_of_le' hn
    obtain ⟨fuel, rfl⟩ := Nat.exists_eq_add_of_le' hfuel
    obtain ⟨m, y, h, hs⟩ := hstep fuel ((D (fuel + 1)).clip s0.t s0.h tEnd)
    have hraise : (D (fuel + 1)).body tEnd s0 = .raise e { s0 with mem := m } := by
      refine body_threw ht ?_ ?_ hs
      · rw [hD.tiny 0, hD.clip 0]
        exact htiny
      · rw [hD.catches 0]
        exact hc
    simp only [run, hraise, Pass.map]

end Families

section Solvers

variable {n : ℕ} {f : Rhs ℝ} {tolerance t0 tEnd h0 : ℝ} {y0 : Vec ℝ}

theorem initialStep_pos : (0 : ℝ) < initialStep := by norm_num [initialStep]

/-- the exception of a first stage that cannot be used is not one of those that Euler catches -/
theorem fails_uncaught (hf : Indexes n f) (hy : y0.length ≠ n) :
    ∃ e, Fails sizes f t0 y0 e ∧ Exn.isRuntimeError e = false := by
  rcases Nat.lt_or_gt_of_ne hy with hlt | hgt
  · exact ⟨.badIndex, Or.inl (hf.short t0 y0 hlt), rfl⟩
  · obtain ⟨v, hv, hlen⟩ := hf.ok t0 y0 hgt.le
    exact ⟨sizes, Or.inr ⟨v, hv, hlen ▸ hy, rfl⟩, rfl⟩

theorem euler_ends (hfield : IsLinear n f) (hf : Indexes n f) (htol : 1e-12 < 0.81 * tolerance) (y0 : Vec ℝ)
    (t0 tEnd : ℝ) :
    ∃ p, Ends p fun _ passes =>
      (EulerSolver.solve f initialStep t0 y0 tEnd tolerance passes).map RunState.storage := by
  by_cases hy : y0.length = n
  · obtain ⟨F, L, hcomp, hF⟩ := hfield
    obtain ⟨u, rfl⟩ := exists_ofFn hy
    have hpaced := (euler_controls hcomp hF htol).paced tEnd
    have h0 : Positive n (start () t0 (List.ofFn u) initialStep : RunState Unit ℝ ℝ) :=
      ⟨initialStep_pos, u, rfl⟩
    refine ends_of_terminates euler_stable (fun s s' hs hb => (hpaced.pass s s' hs hb).2.1) (fun s _ _ => ?_) h0
      (terminates_of_paced hpaced (by linarith [hF.pos]) h0)
    refine ⟨0, fun m hm => ?_⟩
    simp only [EulerSolver.driver, EulerSolver.step] at hm
    split at hm
    · cases hm
    · split_ifs at hm
  · obtain ⟨e, he, hc⟩ := fails_uncaught hf hy
    exact ends_of_first euler_stable hc fun _ h => ⟨(), y0, h, euler_first he⟩

theorem rk2_ends (hfield : IsLinear n f) (hf : Indexes n f) (htol : 0 < tolerance) (y0 : Vec ℝ) (t0 tEnd : ℝ) :
    ∃ p, Ends p fun fuel passes =>
      (RK2Solver.solve f initialStep t0 y0 tEnd tolerance fuel passes).map RunState.storage := by
  by_cases hy : y0.length = n
  · obtain ⟨F, L, hcomp, hF⟩ := hfield
    obtain ⟨u, rfl⟩ := exists_ofFn hy
    have hpaced := (rk2_controls hcomp hF htol).paced tEnd
    have h0 : Positive n (start () t0 (List.ofFn u) initialStep : RunState Unit ℝ ℝ) :=
      ⟨initialStep_pos, u, rfl⟩
    refine ends_of_terminates rk2_stable (fun s s' hs hb => (hpaced.pass s s' hs hb).2.1) (fun s hs ht => ?_) h0
      (terminates_of_paced hpaced (by linarith [hF.pos]) h0)
    obtain ⟨v, hv⟩ := hs.dim
    have hstops := Retries.rk2_stops (hF.boundedNear s.t v) hcomp htol (lt_min hs.step (sub_pos.2 ht))
    obtain ⟨fuel, hfuel⟩ := Retries.rk2_ends_iff.2 hstops
    exact ⟨fuel, fun m => by rw [hv]; exact hfuel m⟩
  · obtain ⟨e, he, -⟩ := fails_uncaught hf hy
    exact ends_of_first rk2_stable rfl fun fuel h => ⟨(), y0, h, rk2_first he fuel⟩

theorem dispf_ends (cfg : DISPFSolver.Config ℝ) (I : ℤ) (hfield : IsLinear n f) (hf : Indexes n f)
    (htol : 0 < tolerance) (y0 : Vec ℝ) (t0 tEnd : ℝ) :
    ∃ p, Ends p fun fuel passes => (DISPFSolver.solve cfg (DISPFSolver.construct I) f initialStep t0 y0 tEnd
      tolerance fuel passes).map RunState.storage := by
  by_cases hy : y0.length = n
  · obtain ⟨F, L, hcomp, hF⟩ := hfield
    obtain ⟨u, rfl⟩ := exists_ofFn hy
    let H := max initialStep (2 * (tEnd - t0))
    have hH : 0 < H := lt_max_of_lt_left initialStep_pos
    have hpaced := DispfGrowth.dispf_paced hcomp hF htol cfg hH (le_max_right initialStep (2 * (tEnd - t0)))
    have hzero : ((DISPFSolver.construct I).reset (List.ofFn u).length : DISPFSolver.Members ℝ).k 0 =
        List.ofFn (0 : Fin n → ℝ) := by
      simp only [DISPFSolver.construct, DISPFSolver.Members.reset, hy, List.take_nil, List.nil_append, List.length_nil,
        Nat.sub_zero]
      exact (List.ofFn_const n 0).symm
    have h0 : DispfGrowth.StateOf n t0 H
        (start ((DISPFSolver.construct I).reset (List.ofFn u).length) t0 (List.ofFn u) initialStep) :=
      ⟨initialStep_pos, le_max_left _ _, le_rfl, u, 0, rfl, hzero⟩
    refine ends_of_terminates DispfGrowth.dispf_stable (fun s s' hs hb => (hpaced.pass s s' hs hb).2.1)
      (fun s hs ht => ?_) h0 (terminates_of_paced hpaced (DispfGrowth.rate_nonneg hF.pos) h0)
    obtain ⟨v, w, hv, hw⟩ := hs.dim
    have hattempt : 0 < min s.h (tEnd - s.t) := lt_min hs.step (sub_pos.2 ht)
    obtain ⟨fuel, hfuel⟩ := DispfGrowth.step_fed hcomp hF htol hattempt cfg hw
    refine ⟨fuel, fun m => ?_⟩
    rw [hv, (DISPFSolver.driver_sound fuel).clip_eq]
    exact hfuel m
  · have hlen := reset_first_length I y0.length
    refine ends_of_first (e := .badIndex) DispfGrowth.dispf_stable rfl fun fuel h => ?_
    obtain ⟨m, hm⟩ := dispf_first cfg hf hlen hy fuel
    exact ⟨m, y0, h, hm⟩

end Solvers

/-! ## Requests -/

/-- the tolerances under which the loops are left, and the methods for which they are -/
structure Answerable (method : String) (tolerance : ℝ) : Prop where
  pos : 0 < tolerance
  euler : method = "ExplicitEuler" → 1e-12 < 0.81 * tolerance
  disps : method ≠ "DISPS"

/-- `Solve` returns or throws with enough fuel and passes -/
theorem solve_ends {req : SolveRequest ℝ} {n : ℕ} (hfield : IsLinear n req.odeFunction) (hf : Indexes n req.odeFunction)
    (hreq : Answerable req.method req.tolerance) (currentScheme : DISPDSolver.SchemeParams ℝ) :
    ∃ p, Ends p fun fuel passes => solve req currentScheme fuel passes := by
  by_cases h1 : req.method = "ExplicitEuler"
  · simp only [solve, h1]
    exact euler_ends hfield hf (hreq.euler h1) req.y0 req.t0 req.tEnd
  by_cases h2 : req.method = "RungeKutta2"
  · simp only [solve, h2]
    exact rk2_ends hfield hf hreq.pos req.y0 req.t0 req.tEnd
  by_cases h6 : req.method = "DISPF"
  · simp only [solve, h6]
    have hc : (0 : ℝ) < c := by norm_num [c]
    exact dispf_ends _ req.I hfield hf (mul_pos hreq.pos hc) req.y0 req.t0 req.tEnd
  by_cases hadaptive : Adaptive req.method req.tolerance
  · obtain ⟨p, hp⟩ := solve_settles hadaptive currentScheme
    exact ⟨p, SettlesIn.ends hp⟩
  · -- no solver has the name of the method
    have h3 : req.method ≠ "RK23S" := fun h => hadaptive (Or.inl ⟨h, hreq.pos⟩)
    have h4 : req.method ≠ "STEKS" := fun h => hadaptive (Or.inr (Or.inl h))
    have h5 : req.method ≠ "DISPD" := fun h => hadaptive (Or.inr (Or.inr h))
    refine ⟨.raise (.runtimeError ("Unknown method: " ++ req.method)) [], (fun _ h => by cases h),
      (fun _ h => by cases h), 0, fun passes _ fuel _ => ?_⟩
    simp only [solve, h1, h2, h3, h4, h5, h6, hreq.disps, if_false]

theorem readMethod_keeps {req req' : SolveRequest ℝ} {parameters : Json ℝ} (h : readMethod req parameters = .ok req') :
    req'.odeFunction = req.odeFunction := by
  unfold readMethod at h
  split_ifs at h
  · obtain ⟨I, -, h⟩ := bind_eq_ok.1 h
    obtain ⟨J, -, h⟩ := bind_eq_ok.1 h
    obtain ⟨K, -, h⟩ := bind_eq_ok.1 h
    cases h
    rfl
  · obtain ⟨flags, -, h⟩ := bind_eq_ok.1 h
    cases h
    rfl
  · cases h
    rfl

/-- the right-hand side of a request is the task that its body names -/
theorem readRequest_task {rt : Runtime ℝ} {taskName method : String} {parameters : Json ℝ} {req : SolveRequest ℝ}
    (h : readRequest rt taskName method parameters = .ok req) :
    ∃ values, getTask values taskName = .ok req.odeFunction := by
  obtain ⟨t0, -, h⟩ := bind_eq_ok.1 h
  obtain ⟨tEnd, -, h⟩ := bind_eq_ok.1 h
  obtain ⟨tolerance, -, h⟩ := bind_eq_ok.1 h
  obtain ⟨entries, -, h⟩ := bind_eq_ok.1 h
  obtain ⟨y0, -, h⟩ := bind_eq_ok.1 h
  obtain ⟨odeFunction, htask, h⟩ := bind_eq_ok.1 h
  refine ⟨fun name => (entries.lookup name).getD 0, ?_⟩
  rw [readMethod_keeps h]
  exact lift_eq_ok.1 htask

/-- **Requests for the oscillator are answered.** Every accepted body that names the forced oscillator, a positive
tolerance and no DISPS gets one response, and not the one of a handler that is still computing: with enough fuel and
passes the handler returns it, whatever parameters, interval and number of initial values the request has. For Euler the
tolerance is above 1e-12 / 0.81. -/
theorem linear_requests_answered (rt : Runtime ℝ) {body parameters : Json ℝ} {method : String}
    (haccept : accept body = .ok ("ForcedOscillator", method, parameters))
    (hmethod : ∀ tolerance, doubleAt parameters "tolerance" = .ok tolerance → Answerable method tolerance) :
    ∃ response N, response ≠ .unfinished ∧ ∀ n ≥ N, ∀ fuel ≥ N, solveHandler rt (.ok body) fuel n = response := by
  have hcaught : ∀ e, (caught e : Response ℝ) ≠ .unfinished := by
    intro e
    unfold caught
    cases e.what <;> exact fun h => by cases h
  simp only [solveHandler_accept haccept, solveThread]
  cases hread : readRequest rt "ForcedOscillator" method parameters with
  | error stop =>
    cases stop with
    | threw e => exact ⟨caught e, 0, hcaught e, fun _ _ _ _ => rfl⟩
    | aborted key => exact ⟨.processDown key, 0, (fun h => by cases h), fun _ _ _ _ => rfl⟩
  | ok req =>
    obtain ⟨hm, htol⟩ := readRequest_reads hread
    obtain ⟨values, htask⟩ := readRequest_task hread
    have hrhs : forcedOscillator values = req.odeFunction := Except.ok.inj htask
    obtain ⟨p, hnext, hstarved, N, hp⟩ := solve_ends (hrhs ▸ forcedOscillator_linear values)
      (hrhs ▸ forcedOscillator_indexes values) (hm ▸ hmethod _ htol) rt.currentScheme
    cases p with
    | next rows => exact absurd rfl (hnext rows)
    | starved rows => exact absurd rfl (hstarved rows)
    | exit rows => exact ⟨.success rows, N, (fun h => by cases h), fun n hn fuel hf => by simp only [hp n hn fuel hf]⟩
    | raise e rows => exact ⟨caught e, N, hcaught e, fun n hn fuel hf => by simp only [hp n hn fuel hf]⟩

/-- a driven oscillator with friction, solved with DISPF -/
theorem linear_requests_answered_dispf :
    ∃ response N, response ≠ .unfinished ∧ ∀ n ≥ N, ∀ fuel ≥ N, solveHandler (R := ℝ) standard
      (.ok (.object [("Equation", .string "ForcedOscillator"), ("Method", .string "DISPF"), ("Parameters", .object
        [("F", .numberUnsigned 1), ("I", .numberUnsigned 1), ("J", .numberUnsigned 0), ("K", .numberUnsigned 10),
          ("gamma", .numberUnsigned 2), ("omega", .numberUnsigned 3), ("omega_k", .numberUnsigned 1),
          ("t0", .numberUnsigned 0), ("t1", .numberUnsigned 1), ("tolerance", .numberUnsigned 1),
          ("y0_init", .numberUnsigned 1), ("y1_init", .numberUnsigned 0)])])) fuel n = response := by
  refine linear_requests_answered standard rfl fun tolerance htol => ?_
  have hone : tolerance = 1 := by
    cases htol
    norm_num
  rw [hone]
  exact ⟨one_pos, fun h => absurd h (by decide), by decide⟩

end OdeClientServer.LinearRequests
