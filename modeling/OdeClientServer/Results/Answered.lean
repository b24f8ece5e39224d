/-
Requests that are answered: `Solve` returns or throws after a number of passes, whatever the right-hand side is.

- `adaptive_requests_answered`: every request for RK23S, STEKS or DISPD. Their loops halve the step after a rejection
  and give up below 1e-12.
-/
import OdeClientServer.Server.Handler

namespace OdeClientServer.Answered

open Loop Routers

/-! ## Loops that give up below a threshold -/

section Driver

variable {M G : Type} {D : Driver M G ℝ} {tEnd low : ℝ}

/-- neither the base step nor the rest of the interval is below the threshold -/
def Active (tEnd low : ℝ) (s : RunState M G ℝ) : Prop := low ≤ s.h ∧ low ≤ tEnd - s.t

/-- **Drivers.** The loop of a solver terminates when it gives up on attempts below a threshold and a caught exception
at least halves the base step. -/
theorem driver_terminates (hclip : ∀ t h tEnd, D.clip t h tEnd = min h (tEnd - t))
    (htiny : ∀ h, D.tiny h = false → low ≤ h) (hlow : 0 < low)
    (hhalf : ∀ {s : RunState M G ℝ} {h e m y h'}, 0 < h → h ≤ s.h → D.step s.mem s.t s.y h = .threw e m y h' →
      (D.rejected s y h').t = s.t ∧ (D.rejected s y h').h ≤ s.h / 2) (s0 : RunState M G ℝ) :
    Terminates (D.body tEnd) s0 := by
  have hlive : ∀ s : RunState M G ℝ, Active tEnd low s → s.t ≤ tEnd := fun s hs => by linarith [hs.2]
  refine terminates_of_control (I := fun _ => True) (t := RunState.t) (h := RunState.h) hlow hlive trivial
    fun s s' _ hb => ⟨trivial, ?_⟩
  have hlarge : D.tiny (D.clip s.t s.h tEnd) = false := by
    by_contra htrue
    rw [body_idle (Or.inr (Bool.not_eq_false _ ▸ htrue))] at hb
    cases hb
  have hattempt := htiny _ hlarge
  rw [hclip] at hattempt
  refine ⟨⟨hattempt.trans (min_le_left _ _), hattempt.trans (min_le_right _ _)⟩, fun hl' => ?_⟩
  obtain ⟨-, ⟨m, y, h, g, -, rfl⟩ | ⟨e, m, y, h, hs, -, rfl⟩⟩ := body_next_cases hb
  · exact Or.inl (add_le_add_right hl'.1 _)
  · rw [hclip] at hs
    obtain ⟨ht, hle⟩ := hhalf (hlow.trans_le hattempt) (min_le_left _ _) hs
    exact Or.inr ⟨ht, hl'.1, hle⟩

/-- a driver whose `Step` is never cut off is never starved -/
theorem body_ne_starved (hstep : ∀ m t y h m', D.step m t y h ≠ .starved m') (s s' : RunState M G ℝ) :
    D.body tEnd s ≠ .starved s' := by
  unfold Driver.body
  intro hb
  split_ifs at hb
  dsimp only at hb
  split_ifs at hb
  cases hs : D.step s.mem s.t s.y (D.clip s.t s.h tEnd) with
  | returned m y h g => rw [hs] at hb; dsimp only at hb; split_ifs at hb
  | threw e m y h => rw [hs] at hb; dsimp only at hb; split_ifs at hb
  | starved m => exact hstep _ _ _ _ _ hs

end Driver

theorem not_tiny {h low : ℝ} (ht : decide (h < low) = false) : low ≤ h := not_lt.1 (of_decide_eq_false ht)

section Solvers

variable (f : Rhs ℝ) {tolerance : ℝ} (tEnd : ℝ)

theorem rk23s_terminates (htol : 0 < tolerance) (s0 : RunState Unit ℝ ℝ) :
    Terminates ((RK23SSolver.driver f tolerance).body tEnd) s0 := by
  refine driver_terminates (fun _ _ _ => rfl) (fun _ => not_tiny) (by norm_num) (fun hh hle hs => ⟨rfl, ?_⟩) s0
  have hshrunk := RK23SSolver.step_threw_le htol hh hs
  simp only [RK23SSolver.driver]
  linarith

theorem steks_terminates (tolerance : ℝ) (s0 : RunState Unit ℝ ℝ) :
    Terminates ((STEKSSolver.driver f tolerance).body tEnd) s0 := by
  refine driver_terminates (fun _ _ _ => rfl) (fun _ => not_tiny) (by norm_num) (fun _ _ _ => ⟨rfl, ?_⟩) s0
  simp only [STEKSSolver.driver]
  linarith

theorem dispd_terminates (tolerance : ℝ)
    (s0 : RunState (DISPDSolver.SchemeParams ℝ) (DISPDSolver.Attempt ℝ) ℝ) :
    Terminates ((DISPDSolver.driver f tolerance).body tEnd) s0 := by
  refine driver_terminates (fun _ _ _ => rfl) (fun _ => not_tiny) (by norm_num) (fun _ _ _ => ⟨rfl, ?_⟩) s0
  simp only [DISPDSolver.driver]
  linarith

variable {f}

theorem rk23s_ne_starved (m : Unit) (t : ℝ) (y : Vec ℝ) (h : ℝ) (m' : Unit) :
    (RK23SSolver.driver f tolerance).step m t y h ≠ .starved m' := by
  intro hs
  simp only [RK23SSolver.driver, RK23SSolver.step] at hs
  split at hs
  · cases hs
  · split_ifs at hs
    split at hs <;> cases hs

theorem steks_ne_starved (m : Unit) (t : ℝ) (y : Vec ℝ) (h : ℝ) (m' : Unit) :
    (STEKSSolver.driver f tolerance).step m t y h ≠ .starved m' := by
  intro hs
  simp only [STEKSSolver.driver, STEKSSolver.step] at hs
  split at hs
  · cases hs
  · split_ifs at hs
    split at hs <;> cases hs

theorem attemptLoop_ne_starved (c : DISPDSolver.SchemeParams ℝ) (t : ℝ) (y : Vec ℝ) (left attempts : ℕ) (h : ℝ)
    (c' : DISPDSolver.SchemeParams ℝ) :
    DISPDSolver.attemptLoop c f tolerance t y left attempts h ≠ .starved c' := by
  induction left generalizing attempts h with
  | zero => exact fun hs => by cases hs
  | succ left ih =>
    intro hs
    unfold DISPDSolver.attemptLoop at hs
    split at hs
    · cases hs
    · exact ih _ _ hs
    · cases hs

end Solvers

/-! ## Requests -/

/-- from some number of passes on a computation ends in p, which is neither cut off nor waiting for more passes -/
def SettlesIn {ε β : Type} (p : Pass ε β) (compute : ℕ → ℕ → Pass ε β) : Prop :=
  (∀ b, p ≠ .next b) ∧ (∀ b, p ≠ .starved b) ∧ ∃ N, ∀ n ≥ N, ∀ fuel, compute fuel n = p

theorem settlesIn_of_terminates {ε σ β : Type} {body : σ → Pass ε σ} {s0 : σ} (hterm : Terminates body s0)
    (hfed : ∀ s s', body s ≠ .starved s') (g : σ → β) :
    ∃ p, SettlesIn p fun _ n => (run body n s0).map g := by
  obtain ⟨N, hend, hsettled⟩ := hterm.settles
  refine ⟨(run body N s0).map g, fun b hb => ?_, fun b hb => ?_, N, fun n hn _ => ?_⟩
  · cases hp : run body N s0 with
    | next s => exact hend s hp
    | exit s => rw [hp] at hb; cases hb
    | raise e s => rw [hp] at hb; cases hb
    | starved s => rw [hp] at hb; cases hb
  · cases hp : run body N s0 with
    | next s => rw [hp] at hb; cases hb
    | exit s => rw [hp] at hb; cases hb
    | raise e s => rw [hp] at hb; cases hb
    | starved s => exact run_ne_starved hfed N s0 s hp
  · obtain ⟨k, rfl⟩ := Nat.exists_eq_add_of_le hn
    exact congrArg (Pass.map g) (hsettled k)

/-- the methods whose loops give up below a threshold, under the tolerances with which they shrink a rejected step -/
def Adaptive (method : String) (tolerance : ℝ) : Prop :=
  method = "RK23S" ∧ 0 < tolerance ∨ method = "STEKS" ∨ method = "DISPD"

theorem solve_settles {req : SolveRequest ℝ} (hreq : Adaptive req.method req.tolerance)
    (currentScheme : DISPDSolver.SchemeParams ℝ) : ∃ p, SettlesIn p fun fuel n => solve req currentScheme fuel n := by
  rcases hreq with ⟨hm, htol⟩ | hm | hm
  · obtain ⟨p, hp⟩ := settlesIn_of_terminates (rk23s_terminates req.odeFunction req.tEnd htol
      (start () req.t0 req.y0 initialStep)) (body_ne_starved rk23s_ne_starved) RunState.storage
    refine ⟨p, ?_⟩
    simp only [solve, hm, RK23SSolver.solve]
    exact hp
  · obtain ⟨p, hp⟩ := settlesIn_of_terminates (steks_terminates req.odeFunction req.tEnd req.tolerance
      (start () req.t0 req.y0 initialStep)) (body_ne_starved steks_ne_starved)
      RunState.storage
    refine ⟨p, ?_⟩
    simp only [solve, hm, STEKSSolver.solve]
    exact hp
  · obtain ⟨p, hp⟩ := settlesIn_of_terminates (dispd_terminates req.odeFunction req.tEnd req.tolerance
      (start (DISPDSolver.switchScheme currentScheme false) req.t0 req.y0 initialStep))
      (body_ne_starved fun m t y h => attemptLoop_ne_starved m t y 10 0 h) RunState.storage
    refine ⟨p, ?_⟩
    simp only [solve, hm, DISPDSolver.solve]
    exact hp

theorem readMethod_reads {req req' : SolveRequest ℝ} {parameters : Json ℝ} (h : readMethod req parameters = .ok req') :
    req'.method = req.method ∧ req'.tolerance = req.tolerance := by
  unfold readMethod at h
  split_ifs at h
  · obtain ⟨I, -, h⟩ := bind_eq_ok.1 h
    obtain ⟨J, -, h⟩ := bind_eq_ok.1 h
    obtain ⟨K, -, h⟩ := bind_eq_ok.1 h
    cases h
    exact ⟨rfl, rfl⟩
  · obtain ⟨flags, -, h⟩ := bind_eq_ok.1 h
    cases h
    exact ⟨rfl, rfl⟩
  · cases h
    exact ⟨rfl, rfl⟩

/-- the method and the tolerance of a request are the ones in its body -/
theorem readRequest_reads {rt : Runtime ℝ} {taskName method : String} {parameters : Json ℝ} {req : SolveRequest ℝ}
    (h : readRequest rt taskName method parameters = .ok req) :
    req.method = method ∧ doubleAt parameters "tolerance" = .ok req.tolerance := by
  obtain ⟨t0, -, h⟩ := bind_eq_ok.1 h
  obtain ⟨tEnd, -, h⟩ := bind_eq_ok.1 h
  obtain ⟨tolerance, htol, h⟩ := bind_eq_ok.1 h
  obtain ⟨entries, -, h⟩ := bind_eq_ok.1 h
  obtain ⟨y0, -, h⟩ := bind_eq_ok.1 h
  obtain ⟨odeFunction, -, h⟩ := bind_eq_ok.1 h
  obtain ⟨hm, ht⟩ := readMethod_reads h
  exact ⟨hm, by rw [ht]; exact htol⟩

/-- **Adaptive methods answer.** Every accepted body that names RK23S (with a positive tolerance), STEKS or DISPD gets
one response, and not the one of a handler that is still computing: from some number of passes on the handler returns
it, whatever system, interval and initial values the request has. -/
theorem adaptive_requests_answered (rt : Runtime ℝ) {body parameters : Json ℝ} {taskName method : String}
    (haccept : accept body = .ok (taskName, method, parameters))
    (hmethod : ∀ tolerance, doubleAt parameters "tolerance" = .ok tolerance → Adaptive method tolerance) :
    ∃ response N, response ≠ .unfinished ∧ ∀ n ≥ N, ∀ fuel, solveHandler rt (.ok body) fuel n = response := by
  have hcaught : ∀ e, (caught e : Response ℝ) ≠ .unfinished := by
    intro e
    unfold caught
    cases e.what <;> exact fun h => by cases h
  simp only [solveHandler_accept haccept, solveThread]
  cases hread : readRequest rt taskName method parameters with
  | error stop =>
    cases stop with
    | threw e => exact ⟨caught e, 0, hcaught e, fun _ _ _ => rfl⟩
    | aborted key => exact ⟨.processDown key, 0, (fun h => by cases h), fun _ _ _ => rfl⟩
  | ok req =>
    obtain ⟨hm, htol⟩ := readRequest_reads hread
    obtain ⟨p, hnext, hstarved, N, hp⟩ := solve_settles (hm ▸ hmethod _ htol) rt.currentScheme
    cases p with
    | next rows => exact absurd rfl (hnext rows)
    | starved rows => exact absurd rfl (hstarved rows)
    | exit rows => exact ⟨.success rows, N, (fun h => by cases h), fun n hn fuel => by simp only [hp n hn fuel]⟩
    | raise e rows => exact ⟨caught e, N, hcaught e, fun n hn fuel => by simp only [hp n hn fuel]⟩

/-- the oscillator with RK23S -/
theorem adaptive_requests_answered_rk23s :
    ∃ response N, response ≠ .unfinished ∧ ∀ n ≥ N, ∀ fuel, solveHandler (R := ℝ) standard
      (.ok (.object [("Equation", .string "VanDerPol"), ("Method", .string "RK23S"), ("Parameters", .object
        [("mu", .numberUnsigned 0), ("p", .numberUnsigned 1), ("t0", .numberUnsigned 0), ("t1", .numberUnsigned 1),
          ("tolerance", .numberUnsigned 1), ("y0_init", .numberUnsigned 1), ("y1_init", .numberUnsigned 0)])]))
      fuel n = response := by
  refine adaptive_requests_answered standard rfl fun tolerance htol => Or.inl ⟨rfl, ?_⟩
  have hone : tolerance = 1 := by
    cases htol
    norm_num
  rw [hone]
  exact one_pos

end OdeClientServer.Answered
