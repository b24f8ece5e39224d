/-
How DISPF counts unstable steps. Each of its step routines ends in a stability block that raises vnBreakCount or resets
it, and sets jumpToRadau5 when the count has become large; StepDISPFB has the block twice.

- `step_counter`: an accepted step runs the block of its routine as often as it stands there.
- `acceptedSteps_chained`: each accepted step of a run starts from the members that the one before it has left.
- `counts_one_by_one_iff`: in every run with J = 0, the count goes up one by one and the flag is set after as many
  unstable steps as the routine asks for, if and only if no accepted step of StepDISPFB is unstable.
- `twice_counted`: a first step of StepDISPFB that leaves the count 2.
-/
import OdeClientServer.Results.StabilityControl

namespace OdeClientServer.BreakCount

open Loop DISPFSolver StabilityControl

/-! ## Accepted steps -/

/-- an accepted step of a run: the members and the time before it, and what `Step` has left -/
structure AcceptedStep (R : Type) where
  before : Members R
  t : R
  after : Members R
  y : Vec R
  h : R
  attempt : Attempt R

section Model

variable {R : Type} [Field R] [LinearOrder R]

/-- the step of a pass, if it is accepted -/
def acceptedStep (D : Driver (Members R) (Attempt R) R) (tEnd : R) (s : RunState (Members R) (Attempt R) R) :
    Option (AcceptedStep R) :=
  if s.t < tEnd then
    match D.step s.mem s.t s.y (D.clip s.t s.h tEnd) with
    | .returned m y h g => some ⟨s.mem, s.t, m, y, h, g⟩
    | _ => none
  else none

/-- the accepted steps of at most n passes, with the one that the loop is left after -/
def acceptedSteps (D : Driver (Members R) (Attempt R) R) (tEnd : R) :
    ℕ → RunState (Members R) (Attempt R) R → List (AcceptedStep R)
  | 0, _ => []
  | n + 1, s =>
    (acceptedStep D tEnd s).toList ++
      match D.body tEnd s with
      | .next s' => acceptedSteps D tEnd n s'
      | _ => []

/-- the test of a stability block -/
def unstableAt (cfg : Config R) (f : Rhs R) (t : R) (y : Vec R) (h length : R) : Bool :=
  match estimateJacobianEigenvalue f cfg.jacobianMethod t y with
  | .ok lambdaEst => lambdaEst ≠ 0 ∧ (h * lambdaEst) / length < cfg.gamma
  | .error _ => false

/-- the test of an accepted step, at its new point: with the h it was made with in StepDISPFC, with the new h elsewhere
-/
def AcceptedStep.unstable (cfg : Config R) (f : Rhs R) (a : AcceptedStep R) : Bool :=
  match a.attempt.method with
  | .DISPFA => unstableAt cfg f (a.t + a.attempt.h) a.y a.h 72.0
  | .DISPFB => unstableAt cfg f (a.t + a.attempt.h) a.y a.h 28.5
  | .DISPFC => unstableAt cfg f (a.t + a.attempt.h) a.y a.attempt.h 72.0

/-- the accepted steps of at most n passes of `Solve`, on a solver with members m -/
def solveSteps [CMath R] (cfg : Config R) (m : Members R) (f : Rhs R) (stepSize t0 : R) (y0 : Vec R)
    (tEnd tolerance : R) (fuel n : ℕ) : List (AcceptedStep R) :=
  acceptedSteps (driver cfg f tolerance fuel) tEnd n (start (m.reset y0.length) t0 y0 stepSize)

end Model

/-- the count that sets the flag -/
def jumps : Method → ℕ → Bool
  | .DISPFC => fun count => count ≥ 35
  | _ => fun count => count > 40

/-- how often the stability block stands in a routine -/
def blocks : Method → ℕ
  | .DISPFB => 2
  | _ => 1

/-! ## What a step does to the counter -/

/-- vnBreakCount and jumpToRadau5 -/
def counter (m : Members ℝ) : ℕ × Bool := (m.vnBreakCount, m.jumpToRadau5)

/-- what a stability block does to them -/
def bump (unstable : Bool) (jump : ℕ → Bool) (c : ℕ × Bool) : ℕ × Bool :=
  if unstable then (c.1 + 1, if jump (c.1 + 1) then true else c.2) else (0, c.2)

section Steps

variable {cfg : Config ℝ} {f : Rhs ℝ} {tolerance t h : ℝ} {y : Vec ℝ}

theorem stabilityBlock_counter {length : ℝ} {jump : ℕ → Bool} {m m' : Members ℝ}
    (hcfg : cfg.stabilityControlEnabled = true) (hs : stabilityBlock cfg f t y h length jump m = .ok m') :
    counter m' = bump (unstableAt cfg f t y h length) jump (counter m) := by
  rw [stabilityBlock, if_pos hcfg] at hs
  obtain ⟨lambda, hlambda, hs⟩ := bind_eq_ok.1 hs
  have htest : unstableAt cfg f t y h length = decide (lambda ≠ 0 ∧ (h * lambda) / length < cfg.gamma) := by
    rw [unstableAt, hlambda]
  by_cases hunstable : lambda ≠ 0 ∧ (h * lambda) / length < cfg.gamma
  · rw [if_pos hunstable] at hs
    cases hs
    rw [htest, decide_eq_true hunstable]
    rfl
  · rw [if_neg hunstable] at hs
    cases hs
    rw [htest, decide_eq_false hunstable]
    rfl

/-- the search for an accepted attempt does not count -/
theorem approach_counter (F : Formula ℝ) (fuel : ℕ) (m : Members ℝ) (h : ℝ) :
    counter (approach F f tolerance t y fuel m h).mem = counter m := by
  obtain ⟨k, calls, hmem⟩ := approach_mem F fuel m h
  rw [hmem]
  rfl

theorem acceptA_counter {a : Accepted ℝ} {m' : Members ℝ} {y' : Vec ℝ} {h' : ℝ} {g : Attempt ℝ}
    (hcfg : cfg.stabilityControlEnabled = true) (hs : acceptA cfg f tolerance t y a = .returned m' y' h' g) :
    counter m' = bump (unstableAt cfg f (t + g.h) y' h' 72.0) (jumps .DISPFA) (counter a.mem) := by
  obtain ⟨rfl, rfl, rfl, first, m1, method, -, hm, -, rfl⟩ := acceptA_cases hs
  have hcount := stabilityBlock_counter hcfg hm
  exact hcount

theorem acceptB_counter {a : Accepted ℝ} {m' : Members ℝ} {y' : Vec ℝ} {h' : ℝ} {g : Attempt ℝ}
    (hcfg : cfg.stabilityControlEnabled = true) (hs : acceptB cfg f tolerance t y a = .returned m' y' h' g) :
    counter m' = bump (unstableAt cfg f (t + g.h) y' h' 28.5) (jumps .DISPFB)
      (bump (unstableAt cfg f (t + g.h) y' h' 28.5) (jumps .DISPFB) (counter a.mem)) := by
  obtain ⟨rfl, rfl, rfl, first, m1, method, -, hm, hm2⟩ := acceptB_cases hs
  have hfirst := stabilityBlock_counter hcfg hm
  have hsecond := stabilityBlock_counter hcfg hm2
  -- the choice of the method in between leaves the counter
  exact hsecond.trans (congrArg _ hfirst)

theorem stepDISPFC_counter {fuel : ℕ} {m m' : Members ℝ} {y' : Vec ℝ} {h' : ℝ} {g : Attempt ℝ}
    (hcfg : cfg.stabilityControlEnabled = true) (hs : stepDISPFC cfg f tolerance fuel m t y h = .returned m' y' h' g) :
    counter m' = bump (unstableAt cfg f (t + g.h) y' g.h 72.0) (jumps .DISPFC) (counter m) := by
  obtain ⟨first, k, m1, method, an1, vn, -, -, -, -, -, -, hm, -, rfl⟩ := stepDISPFC_cases hs
  have hcount := stabilityBlock_counter hcfg hm
  exact hcount

/-- **Counter of a step.** With stability control an accepted step runs the stability block once, and in StepDISPFB
twice. -/
theorem step_counter {fuel : ℕ} {a : AcceptedStep ℝ} (hcfg : cfg.stabilityControlEnabled = true)
    (hs : step cfg f tolerance fuel a.before a.t y h = .returned a.after a.y a.h a.attempt) :
    counter a.after =
      (bump (a.unstable cfg f) (jumps a.attempt.method))^[blocks a.attempt.method] (counter a.before) := by
  unfold step at hs
  split at hs
  · obtain ⟨acc, hacc, hreturned⟩ := stepDISPFA_returned hs
    have hmethod : a.attempt.method = .DISPFA := hreturned.returned.1
    have hmem : counter (approach formulaA f tolerance a.t y fuel a.before h).mem = counter a.before :=
      approach_counter formulaA fuel a.before h
    rw [stepDISPFA, hacc] at hs
    rw [hacc] at hmem
    simp only [AcceptedStep.unstable, hmethod, blocks, Function.iterate_one]
    rw [acceptA_counter hcfg hs]
    exact congrArg _ hmem
  · obtain ⟨acc, hacc, hreturned⟩ := stepDISPFB_returned hs
    have hmethod : a.attempt.method = .DISPFB := hreturned.returned.1
    have hmem : counter (approach formulaB f tolerance a.t y fuel a.before h).mem = counter a.before :=
      approach_counter formulaB fuel a.before h
    rw [stepDISPFB, hacc] at hs
    rw [hacc] at hmem
    simp only [AcceptedStep.unstable, hmethod, blocks, Function.iterate_succ_apply, Function.iterate_zero_apply]
    rw [acceptB_counter hcfg hs]
    exact congrArg _ (congrArg _ hmem)
  · have hmethod : a.attempt.method = .DISPFC := (stepDISPFC_returned hs).1
    simp only [AcceptedStep.unstable, hmethod, blocks, Function.iterate_one]
    exact stepDISPFC_counter hcfg hs

/-- the routine of a step is the current method -/
theorem step_method {fuel : ℕ} {m m' : Members ℝ} {y' : Vec ℝ} {h' : ℝ} {g : Attempt ℝ}
    (hs : step cfg f tolerance fuel m t y h = .returned m' y' h' g) : g.method = m.currentMethod := by
  unfold step at hs
  split at hs
  · rename_i hm
    obtain ⟨acc, -, hreturned⟩ := stepDISPFA_returned hs
    exact hreturned.returned.1.trans hm.symm
  · rename_i hm
    obtain ⟨acc, -, hreturned⟩ := stepDISPFB_returned hs
    exact hreturned.returned.1.trans hm.symm
  · rename_i hm
    exact (stepDISPFC_returned hs).1.trans hm.symm

theorem acceptA_method {a : Accepted ℝ} {m' : Members ℝ} {y' : Vec ℝ} {h' : ℝ} {g : Attempt ℝ}
    (hfixed : cfg.variableOrder = false) (hs : acceptA cfg f tolerance t y a = .returned m' y' h' g) :
    m'.currentMethod = a.mem.currentMethod := by
  obtain ⟨-, -, -, first, m1, method, -, hm, hvariable, rfl⟩ := acceptA_cases hs
  obtain ⟨-, hmethod, -⟩ := stabilityBlock_ok hm
  exact (hvariable hfixed).trans hmethod

/-- with a fixed order StepDISPFA and StepDISPFC keep the method -/
theorem step_keeps_method {fuel : ℕ} {m m' : Members ℝ} {y' : Vec ℝ} {h' : ℝ} {g : Attempt ℝ}
    (hfixed : cfg.variableOrder = false) (hne : m.currentMethod ≠ .DISPFB)
    (hs : step cfg f tolerance fuel m t y h = .returned m' y' h' g) : m'.currentMethod = m.currentMethod := by
  unfold step at hs
  split at hs
  · obtain ⟨acc, hacc, -⟩ := stepDISPFA_returned hs
    have hmem : (approach formulaA f tolerance t y fuel m h).mem.currentMethod = m.currentMethod := by
      obtain ⟨k, calls, hmem⟩ := approach_mem formulaA fuel m h
      rw [hmem]
    rw [stepDISPFA, hacc] at hs
    rw [hacc] at hmem
    exact (acceptA_method hfixed hs).trans hmem
  · rename_i hm
    exact absurd hm hne
  · exact (stepDISPFC_returned hs).2.2.1 hfixed

theorem bump_unstable (jump : ℕ → Bool) (c : ℕ × Bool) :
    bump true jump c = (c.1 + 1, if jump (c.1 + 1) then true else c.2) := rfl

/-- a stable step resets the count, also when the block stands twice -/
theorem counter_of_stable {a : AcceptedStep ℝ} {unstable : Bool} {jump : ℕ → Bool}
    (hcount : counter a.after = (bump unstable jump)^[blocks a.attempt.method] (counter a.before))
    (hstable : unstable = false) : counter a.after = (0, a.before.jumpToRadau5) := by
  rw [hcount, hstable]
  cases a.attempt.method <;> rfl

end Steps

/-! ## Streaks -/

/-- the last `count` entries of the list satisfy p -/
def Streak {α : Type} (p : α → Bool) (l : List α) (count : ℕ) : Prop :=
  ∃ earlier streak, l = earlier ++ streak ∧ streak.length = count ∧ ∀ a ∈ streak, p a = true

theorem Streak.zero {α : Type} (p : α → Bool) (l : List α) : Streak p l 0 :=
  ⟨l, [], (List.append_nil l).symm, rfl, nofun⟩

theorem Streak.snoc {α : Type} {p : α → Bool} {l : List α} {count : ℕ} (h : Streak p l count) {a : α}
    (ha : p a = true) :
    Streak p (l ++ [a]) (count + 1) := by
  obtain ⟨earlier, streak, rfl, rfl, hall⟩ := h
  refine ⟨earlier, streak ++ [a], List.append_assoc _ _ _, List.length_append, fun b hb => ?_⟩
  rcases List.mem_append.1 hb with hb | hb
  · exact hall b hb
  · rw [List.mem_singleton.1 hb]
    exact ha

/-! ## Runs -/

section Runs

variable {cfg : Config ℝ} {f : Rhs ℝ} {tolerance tEnd : ℝ} {fuel : ℕ}

/-- a call of `Step` has returned it -/
def AcceptedStep.Returned (cfg : Config ℝ) (f : Rhs ℝ) (tolerance : ℝ) (fuel : ℕ) (a : AcceptedStep ℝ) : Prop :=
  ∃ y h, step cfg f tolerance fuel a.before a.t y h = .returned a.after a.y a.h a.attempt

/-- each step starts from the members that the one before it has left, the first one from m -/
def Chained (cfg : Config ℝ) (f : Rhs ℝ) (tolerance : ℝ) (fuel : ℕ) : Members ℝ → List (AcceptedStep ℝ) → Prop
  | _, [] => True
  | m, a :: steps => a.before = m ∧ a.Returned cfg f tolerance fuel ∧ Chained cfg f tolerance fuel a.after steps

theorem acceptedStep_spec {s : RunState (Members ℝ) (Attempt ℝ) ℝ} {a : AcceptedStep ℝ}
    (ha : acceptedStep (driver cfg f tolerance fuel) tEnd s = some a) :
    a.before = s.mem ∧ a.Returned cfg f tolerance fuel := by
  unfold acceptedStep at ha
  split_ifs at ha
  split at ha
  · rename_i hstep
    cases ha
    exact ⟨rfl, _, _, hstep⟩
  · cases ha

theorem acceptedStep_pos {s : RunState (Members ℝ) (Attempt ℝ) ℝ} (hh : 0 < s.h) {a : AcceptedStep ℝ}
    (ha : acceptedStep (driver cfg f tolerance fuel) tEnd s = some a) : 0 < a.h := by
  unfold acceptedStep at ha
  split_ifs at ha with ht
  split at ha
  · rename_i hstep
    cases ha
    have hD : (driver cfg f tolerance fuel).Sound fun _ => True := driver_sound fuel
    rw [hD.clip_eq] at hstep
    exact (hD.returned trivial (lt_min hh (sub_pos.2 ht)) hstep).2
  · cases ha

/-- a pass back to the loop head has an accepted step, and records it -/
theorem acceptedStep_of_next {s s' : RunState (Members ℝ) (Attempt ℝ) ℝ}
    (hb : (driver cfg f tolerance fuel).body tEnd s = .next s') :
    ∃ a, acceptedStep (driver cfg f tolerance fuel) tEnd s = some a ∧ s' = s.record a.after a.y a.h a.attempt := by
  obtain ⟨ht, ⟨m, y, h, g, hstep, rfl⟩ | ⟨e, m, y, h, -, hc, -⟩⟩ := body_next_cases hb
  · exact ⟨⟨s.mem, s.t, m, y, h, g⟩, by rw [acceptedStep, if_pos ht, hstep], rfl⟩
  · exact absurd hc Bool.false_ne_true

theorem acceptedSteps_chained (n : ℕ) (s : RunState (Members ℝ) (Attempt ℝ) ℝ) :
    Chained cfg f tolerance fuel s.mem (acceptedSteps (driver cfg f tolerance fuel) tEnd n s) := by
  induction n generalizing s with
  | zero => trivial
  | succ n ih =>
    unfold acceptedSteps
    cases hb : (driver cfg f tolerance fuel).body tEnd s with
    | next s' =>
      obtain ⟨a, ha, rfl⟩ := acceptedStep_of_next hb
      obtain ⟨hbefore, hreturned⟩ := acceptedStep_spec ha
      rw [ha]
      exact ⟨hbefore, hreturned, ih (s.record a.after a.y a.h a.attempt)⟩
    | _ =>
      cases ha : acceptedStep (driver cfg f tolerance fuel) tEnd s with
      | none => trivial
      | some a =>
        obtain ⟨hbefore, hreturned⟩ := acceptedStep_spec ha
        exact ⟨hbefore, hreturned, trivial⟩

/-- **Recorded steps.** The attempts that a run records are those of its accepted steps, but for a last one that the
loop is left after. -/
theorem run_attempts (n : ℕ) (s : RunState (Members ℝ) (Attempt ℝ) ℝ) :
    ∃ last, s.attempts ++ (acceptedSteps (driver cfg f tolerance fuel) tEnd n s).map (·.attempt) =
      (run ((driver cfg f tolerance fuel).body tEnd) n s).state.attempts ++ last ∧ last.length ≤ 1 := by
  induction n generalizing s with
  | zero => exact ⟨[], rfl, Nat.zero_le 1⟩
  | succ n ih =>
    unfold acceptedSteps
    cases hb : (driver cfg f tolerance fuel).body tEnd s with
    | next s' =>
      obtain ⟨a, ha, rfl⟩ := acceptedStep_of_next hb
      obtain ⟨last, hlast, hle⟩ := ih (s.record a.after a.y a.h a.attempt)
      refine ⟨last, ?_, hle⟩
      rw [run_succ_next hb, ← hlast, ha]
      exact (List.append_assoc s.attempts [a.attempt] _).symm
    | _ =>
      obtain ⟨s', hs'⟩ | ⟨-, hattempts⟩ := body_storage (driver cfg f tolerance fuel) tEnd s
      · rw [hb] at hs'
        cases hs'
      · rw [hb] at hattempts
        simp only [run, hb, List.append_nil]
        refine ⟨_, congrArg (· ++ _) hattempts.symm, ?_⟩
        cases acceptedStep (driver cfg f tolerance fuel) tEnd s with
        | none => exact Nat.zero_le 1
        | some a => exact le_rfl

/-- an accepted step is made from a loop head -/
theorem head_of_mem {n : ℕ} {s : RunState (Members ℝ) (Attempt ℝ) ℝ} {a : AcceptedStep ℝ}
    (ha : a ∈ acceptedSteps (driver cfg f tolerance fuel) tEnd n s) :
    ∃ s1, Head ((driver cfg f tolerance fuel).body tEnd) s s1 ∧
      acceptedStep (driver cfg f tolerance fuel) tEnd s1 = some a := by
  induction n generalizing s with
  | zero => cases ha
  | succ n ih =>
    unfold acceptedSteps at ha
    rcases List.mem_append.1 ha with hfirst | hlater
    · exact ⟨s, .start, Option.mem_toList.1 hfirst⟩
    · split at hlater
      · rename_i s' hb
        obtain ⟨s1, hhead, hs1⟩ := ih hlater
        exact ⟨s1, (Head.pass .start hb).trans hhead, hs1⟩
      · cases hlater

/-- the step a after the steps `earlier` counts one by one: the count is 0 or goes up by one, and a flag that the step
sets comes after as many unstable steps in a row as its routine asks for -/
structure CountsAt (cfg : Config ℝ) (f : Rhs ℝ) (earlier : List (AcceptedStep ℝ)) (a : AcceptedStep ℝ) : Prop where
  count : a.after.vnBreakCount = 0 ∨ a.after.vnBreakCount = a.before.vnBreakCount + 1
  jump : a.before.jumpToRadau5 = false → a.after.jumpToRadau5 = true →
    ∃ count, jumps a.attempt.method count = true ∧ Streak (AcceptedStep.unstable cfg f) (earlier ++ [a]) count

/-- every step counts one by one -/
def CountsOneByOne (cfg : Config ℝ) (f : Rhs ℝ) (steps : List (AcceptedStep ℝ)) : Prop :=
  ∀ earlier a later, steps = earlier ++ a :: later → CountsAt cfg f earlier a

/-- a step that is no unstable step of StepDISPFB counts right, and keeps the count the length of a streak -/
theorem returned_countsAt {a : AcceptedStep ℝ} {earlier : List (AcceptedStep ℝ)}
    (hcfg : cfg.stabilityControlEnabled = true) (ha : a.Returned cfg f tolerance fuel)
    (hB : a.attempt.method = .DISPFB → a.unstable cfg f = false)
    (hstreak : Streak (AcceptedStep.unstable cfg f) earlier a.before.vnBreakCount) :
    CountsAt cfg f earlier a ∧ Streak (AcceptedStep.unstable cfg f) (earlier ++ [a]) a.after.vnBreakCount := by
  obtain ⟨y, h, hstep⟩ := ha
  have hcounter := step_counter hcfg hstep
  by_cases hunstable : a.unstable cfg f = true
  · have hone : blocks a.attempt.method = 1 := by
      cases hmethod : a.attempt.method with
      | DISPFB => exact absurd (hB hmethod) (by rw [hunstable]; decide)
      | DISPFA => rfl
      | DISPFC => rfl
    rw [hone, Function.iterate_one, hunstable, bump_unstable, counter, Prod.mk.injEq] at hcounter
    obtain ⟨hcount, hflag⟩ := hcounter
    have hnext : Streak (AcceptedStep.unstable cfg f) (earlier ++ [a]) a.after.vnBreakCount := by
      rw [hcount]
      exact hstreak.snoc hunstable
    refine ⟨⟨Or.inr hcount, fun hbefore hafter => ⟨_, ?_, hnext⟩⟩, hnext⟩
    by_contra hjump
    rw [hcount] at hjump
    rw [hflag, if_neg hjump] at hafter
    exact Bool.false_ne_true (hbefore.symm.trans hafter)
  · have hzero := counter_of_stable hcounter (Bool.eq_false_of_not_eq_true hunstable)
    rw [counter, Prod.mk.injEq] at hzero
    obtain ⟨hcount, hflag⟩ := hzero
    refine ⟨⟨Or.inl hcount, fun hbefore hafter => ?_⟩, by rw [hcount]; exact Streak.zero _ _⟩
    rw [hflag, hbefore] at hafter
    cases hafter

/-- **Counting.** From members whose count is the length of a streak, steps without an unstable one of StepDISPFB count
one by one. -/
theorem Chained.counts (hcfg : cfg.stabilityControlEnabled = true) {m : Members ℝ}
    {steps earlier : List (AcceptedStep ℝ)}
    (hchain : Chained cfg f tolerance fuel m steps)
    (hstreak : Streak (AcceptedStep.unstable cfg f) earlier m.vnBreakCount)
    (hB : ∀ a ∈ steps, a.attempt.method = .DISPFB → a.unstable cfg f = false) {mid later : List (AcceptedStep ℝ)}
    {a : AcceptedStep ℝ} (hsteps : steps = mid ++ a :: later) : CountsAt cfg f (earlier ++ mid) a := by
  induction mid generalizing m steps earlier with
  | nil =>
    subst hsteps
    obtain ⟨hbefore, ha, -⟩ := hchain
    rw [← hbefore] at hstreak
    rw [List.append_nil]
    exact (returned_countsAt hcfg ha (hB a (by simp)) hstreak).1
  | cons b mid ih =>
    subst hsteps
    obtain ⟨hbefore, hb, hrest⟩ := hchain
    rw [← hbefore] at hstreak
    have hnext := (returned_countsAt hcfg hb (hB b (by simp)) hstreak).2
    rw [← List.singleton_append, ← List.append_assoc]
    exact ih hrest hnext (fun c hc => hB c (List.mem_cons_of_mem b hc)) rfl

/-- an unstable step of StepDISPFB adds two -/
theorem returned_twice {a : AcceptedStep ℝ} (hcfg : cfg.stabilityControlEnabled = true)
    (ha : a.Returned cfg f tolerance fuel) (hmethod : a.attempt.method = .DISPFB)
    (hunstable : a.unstable cfg f = true) :
    a.after.vnBreakCount = a.before.vnBreakCount + 2 := by
  obtain ⟨y, h, hstep⟩ := ha
  have hcounter := step_counter hcfg hstep
  rw [hmethod, hunstable] at hcounter
  exact congrArg Prod.fst hcounter

/-! ## Runs that count right -/

/-- a run without an unstable step of StepDISPFB -/
theorem counts_of_stable (hcfg : cfg.stabilityControlEnabled = true) {m : Members ℝ} {stepSize t0 : ℝ} {y0 : Vec ℝ}
    {n : ℕ} (hB : ∀ a ∈ solveSteps cfg m f stepSize t0 y0 tEnd tolerance fuel n,
      a.attempt.method = .DISPFB → a.unstable cfg f = false) :
    CountsOneByOne cfg f (solveSteps cfg m f stepSize t0 y0 tEnd tolerance fuel n) := by
  have hchain : Chained cfg f tolerance fuel (m.reset y0.length)
      (solveSteps cfg m f stepSize t0 y0 tEnd tolerance fuel n) :=
    acceptedSteps_chained n (start (m.reset y0.length) t0 y0 stepSize)
  exact fun earlier a later hsteps => hchain.counts hcfg (Streak.zero _ []) hB hsteps

theorem unstableAt_of_nonpos {t h length : ℝ} {y : Vec ℝ} (hgamma : cfg.gamma ≤ 0) (hh : 0 < h) (hlength : 0 < length) :
    unstableAt cfg f t y h length = false := by
  unfold unstableAt
  split
  · rename_i lambda hlambda
    have hquot : 0 ≤ (h * lambda) / length := div_nonneg (mul_nonneg hh.le (estimate_nonneg hlambda)) hlength.le
    exact decide_eq_false fun htest => absurd (htest.2.trans_le hgamma) (not_lt.2 hquot)
  · rfl

/-- **gamma at most 0.** No step is unstable, so that every run with a positive step counts one by one. -/
theorem counts_of_gamma_nonpos {gamma : ℝ} (hgamma : gamma ≤ 0) (I K : ℤ) (m : Members ℝ) {stepSize : ℝ}
    (hh : 0 < stepSize) (t0 : ℝ) (y0 : Vec ℝ) (n : ℕ) :
    CountsOneByOne (config gamma I 0 K) f
      (solveSteps (config gamma I 0 K) m f stepSize t0 y0 tEnd tolerance fuel n) := by
  refine counts_of_stable rfl fun a ha hmethod => ?_
  obtain ⟨s, hhead, hs⟩ := head_of_mem ha
  have hpos : 0 < s.h := (head_inv (driver_sound fuel) trivial hh hhead).pos
  have hstep := acceptedStep_pos hpos hs
  simp only [AcceptedStep.unstable, hmethod]
  exact unstableAt_of_nonpos hgamma hstep (by norm_num)

/-- **Fixed order.** A solver that is constructed for DISPFA or DISPFC alone never enters StepDISPFB. -/
theorem counts_of_fixed_order (gamma : ℝ) {I : ℤ} (hvariable : I ≠ 0) (hB : I ≠ 2) (K : ℤ) (stepSize t0 : ℝ)
    (y0 : Vec ℝ) (n : ℕ) :
    CountsOneByOne (config gamma I 0 K) f
      (solveSteps (config gamma I 0 K) (construct I) f stepSize t0 y0 tEnd tolerance fuel n) := by
  have hfixed : (config gamma I 0 K).variableOrder = false := decide_eq_false hvariable
  have hfirst : ((construct I).reset y0.length : Members ℝ).currentMethod ≠ .DISPFB := by
    simp only [construct, Members.reset]
    split_ifs <;> simp
  refine counts_of_stable rfl fun a ha hmethod => ?_
  obtain ⟨s, hhead, hs⟩ := head_of_mem ha
  have hkeeps : s.mem.currentMethod ≠ .DISPFB := by
    refine head_invariant (I := fun s => s.mem.currentMethod ≠ .DISPFB) hfirst (fun s1 s2 h1 hb => ?_) hhead
    obtain ⟨b, hs1, rfl⟩ := acceptedStep_of_next hb
    obtain ⟨hbefore, y, h, hstep⟩ := acceptedStep_spec hs1
    rw [← hbefore] at h1
    exact (step_keeps_method hfixed h1 hstep).trans_ne h1
  obtain ⟨hbefore, y, h, hstep⟩ := acceptedStep_spec hs
  rw [← hbefore, ← step_method hstep] at hkeeps
  exact absurd hmethod hkeeps

end Runs

/-- **One by one.** In every run with J = 0, each accepted step leaves the count 0 or one more than before, and the flag
is set only after that many unstable steps in a row, if and only if no accepted step of StepDISPFB is unstable. -/
theorem counts_one_by_one_iff (gamma : ℝ) (I K : ℤ) (m : Members ℝ) (f : Rhs ℝ) (stepSize t0 : ℝ) (y0 : Vec ℝ)
    (tEnd tolerance : ℝ) (fuel n : ℕ) :
    CountsOneByOne (config gamma I 0 K) f (solveSteps (config gamma I 0 K) m f stepSize t0 y0 tEnd tolerance fuel n) ↔
      ∀ a ∈ solveSteps (config gamma I 0 K) m f stepSize t0 y0 tEnd tolerance fuel n,
        a.attempt.method = .DISPFB → a.unstable (config gamma I 0 K) f = false := by
  have hcfg : (config gamma I 0 K).stabilityControlEnabled = true := rfl
  constructor
  · intro hcounts a ha hmethod
    by_contra hunstable
    obtain ⟨s, -, hs⟩ := head_of_mem ha
    have htwice := returned_twice hcfg (acceptedStep_spec hs).2 hmethod (Bool.eq_true_of_not_eq_false hunstable)
    obtain ⟨earlier, later, hsteps⟩ := List.append_of_mem ha
    rcases (hcounts earlier a later hsteps).count with hzero | hone
    · omega
    · omega
  · exact counts_of_stable hcfg

/-! ## A first step that counts twice -/

/-- y' = y -/
def growing : Rhs ℝ := fun _ y => .ok y

/-- the members after the first step of StepDISPFB from y = 0: its two blocks have counted -/
def countedTwice : Members ℝ := ⟨fun _ => [0], .DISPFB, 2, false, [⟨0, [0], 1, [0]⟩]⟩

theorem setStage_constant (v : Vec ℝ) (m : ℕ) : setStage (fun _ => v) m v = fun _ => v := by
  funext j
  exact ite_self v

theorem approach_growing : approach formulaB growing 1 0 [0] 1 ((construct 2).reset 1) 1 =
    .accepted ⟨((construct 2).reset 1).enter 0 [0] 1, [0], [0], 0, 1⟩ := by
  simp -implicitDefEqProofs [approach, predictor, secondStage, formulaB, growing, construct, Members.reset,
    Members.enter,
    tabulate, read, column, maxOver, stageLoop, stagePoint, stadScalar, weightedSum, B, setStage_constant, endPoint,
    newPoint, endDifference, P28, not_lt.2 zero_le_one]

theorem estimate_growing (t : ℝ) : estimateJacobianEigenvalue growing 2 t [0] = .ok 1 := by
  norm_num [estimateJacobianEigenvalue, growing, tabulate, read]

theorem step_growing : stepDISPFB (config 1 2 0 2) growing 1 1 ((construct 2).reset 1) 0 [0] 1 =
    .returned countedTwice [0] 2 ⟨.DISPFB, 1, [0]⟩ := by
  have hgrowth : growthFactor (1 : ℝ) 0 = 2 := by norm_num [growthFactor, quot_zero]
  have hunstable : (2 : ℝ) / 28.5 < 1 := by norm_num
  rw [stepDISPFB, approach_growing]
  simp -implicitDefEqProofs [acceptB, calcVn, embeddedDifference, maxOver, read, weightedSum, column, tabulate,
    construct,
    Members.reset, Members.enter, stabilityBlock, config, estimate_growing, hgrowth, setStage_constant, P36, P4,
    countedTwice, hunstable]

/-- **Counted twice.** The first accepted step of y' = y from y = 0 with I = 2, J = 0, K = 2 and gamma = 1 takes the
count from 0 to 2. -/
theorem twice_counted :
    ¬ CountsOneByOne (config 1 2 0 2) growing (solveSteps (config 1 2 0 2) (construct 2) growing 1 0 [0] 10 1 1 1) := by
  have hclip : (driver (config 1 2 0 2) growing 1 1).clip 0 1 10 = 1 := if_neg (by norm_num)
  have hstep : acceptedStep (driver (config 1 2 0 2) growing 1 1) 10 (start ((construct 2).reset 1) 0 [0] 1) =
      some ⟨(construct 2).reset 1, 0, countedTwice, [0], 2, ⟨.DISPFB, 1, [0]⟩⟩ := by
    have hreturned : (driver (config 1 2 0 2) growing 1 1).step ((construct 2).reset 1) 0 [0] 1 =
        .returned countedTwice [0] 2 ⟨.DISPFB, 1, [0]⟩ := step_growing
    simp only [acceptedStep, start, hclip, hreturned]
    rw [if_pos (by norm_num)]
  obtain ⟨later, hsteps⟩ : ∃ later, solveSteps (config 1 2 0 2) (construct 2) growing 1 0 [0] 10 1 1 1 =
      ⟨(construct 2).reset 1, 0, countedTwice, [0], 2, ⟨.DISPFB, 1, [0]⟩⟩ :: later :=
    ⟨_, congrArg (fun a : Option (AcceptedStep ℝ) => a.toList ++ _) hstep⟩
  intro hcounts
  rcases (hcounts [] _ later hsteps).count with hzero | hone
  · cases hzero
  · cases hone

end OdeClientServer.BreakCount
