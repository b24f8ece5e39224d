/-
What the steps of every solver carry from one state to the next. For weights w, `dot w n v` is the weighted sum of the
first n components. A state of dimension n is on a level of it; a stage is flat when its weighted sum is 0. If f is flat
on states of dimension n then so is every stage, however it is scaled, added up or kept for later, and a step stays on
the level of its state.

With `strict` flat vectors have length n too, and then no vector access of a step is out of range. So each solver is
walked through once, for both results.
-/
import OdeClientServer.Core.Ends
import OdeClientServer.Solvers.EulerSolver
import OdeClientServer.Solvers.RK2Solver
import OdeClientServer.Solvers.RK23SSolver
import OdeClientServer.Solvers.STEKSSolver
import OdeClientServer.Solvers.DISPDSolver
import OdeClientServer.Solvers.DISPFSolver
import OdeClientServer.Solvers.DISPSSolver

namespace OdeClientServer.Levels

open Loop

/-! ## Weighted sums -/

/-- the weighted sum of the first n components -/
noncomputable def dot (w : ℕ → ℝ) (n : ℕ) (v : Vec ℝ) : ℝ := ∑ i ∈ Finset.range n, w i * v.getD i 0

section Dot

variable (w : ℕ → ℝ) (n : ℕ)

theorem dot_scale (c : ℝ) (v : Vec ℝ) : dot w n (multiplyScalarByVector c v) = c * dot w n v := by
  rw [dot, dot, Finset.mul_sum]
  refine Finset.sum_congr rfl fun i _ => ?_
  have hi : (multiplyScalarByVector c v).getD i 0 = c * v.getD i 0 := by
    simp only [multiplyScalarByVector, List.getD_eq_getElem?_getD, List.getElem?_map]
    cases v[i]? <;> simp
  rw [hi]
  ring

theorem dot_add {u v : Vec ℝ} (h : u.length = v.length) :
    dot w n (List.zipWith (· + ·) u v) = dot w n u + dot w n v := by
  rw [dot, dot, dot, ← Finset.sum_add_distrib]
  refine Finset.sum_congr rfl fun i _ => ?_
  have hi : (List.zipWith (· + ·) u v).getD i 0 = u.getD i 0 + v.getD i 0 := by
    rcases Nat.lt_or_ge i u.length with hlt | hge
    · simp [List.getD_eq_getElem?_getD, List.getElem?_zipWith, List.getElem?_eq_getElem hlt,
        List.getElem?_eq_getElem (h ▸ hlt)]
    · simp [List.getD_eq_getElem?_getD, List.getElem?_zipWith, List.getElem?_eq_none hge,
        List.getElem?_eq_none (h ▸ hge)]
  rw [hi]
  ring

theorem dot_replicate (m : ℕ) : dot w n (List.replicate m 0) = 0 :=
  Finset.sum_eq_zero fun i _ => by
    rw [List.getD_eq_getElem?_getD, List.getElem?_replicate]
    split_ifs <;> simp

end Dot

/-! ## States and stages -/

variable {w : ℕ → ℝ} {n : ℕ} {c : ℝ} {strict : Prop} {f : Rhs ℝ} {tolerance t h : ℝ} {y : Vec ℝ}

/-- y has dimension n and is on the level c -/
def Level (w : ℕ → ℝ) (n : ℕ) (c : ℝ) (y : Vec ℝ) : Prop := y.length = n ∧ dot w n y = c

/-- the weighted sum of k is 0; with `strict` k has dimension n as well -/
def Flat (strict : Prop) (w : ℕ → ℝ) (n : ℕ) (k : Vec ℝ) : Prop := dot w n k = 0 ∧ (strict → k.length = n)

/-- with `strict` no access is out of range -/
def Regular (strict : Prop) (e : Exn) : Prop := strict → e ≠ .badIndex

/-- f is flat on states of dimension n -/
def FlatRhs (strict : Prop) (w : ℕ → ℝ) (n : ℕ) (f : Rhs ℝ) : Prop :=
  ∀ t y, y.length = n → Ends (Flat strict w n) (Regular strict) (f t y)

theorem regular_invalidArgument (what : String) : Regular strict (.invalidArgument what) := fun _ h => by cases h

theorem regular_runtimeError (what : String) : Regular strict (.runtimeError what) := fun _ h => by cases h

theorem Flat.scale {k : Vec ℝ} (hk : Flat strict w n k) (a : ℝ) : Flat strict w n (multiplyScalarByVector a k) :=
  ⟨by rw [dot_scale, hk.1, mul_zero], fun hs => by rw [multiplyScalarByVector, List.length_map, hk.2 hs]⟩

theorem Flat.zipWith {a b : Vec ℝ} (ha : Flat strict w n a) (hb : Flat strict w n b) (hab : a.length = b.length) :
    Flat strict w n (List.zipWith (· + ·) a b) :=
  ⟨by rw [dot_add w n hab, ha.1, hb.1, add_zero],
    fun hs => by rw [List.length_zipWith, ha.2 hs, hb.2 hs, min_self]⟩

theorem Level.zipWith {k : Vec ℝ} (hy : Level w n c y) (hk : Flat strict w n k) (hyk : y.length = k.length) :
    Level w n c (List.zipWith (· + ·) y k) :=
  ⟨by rw [List.length_zipWith, ← hyk, min_self, hy.1], by rw [dot_add w n hyk, hy.2, hk.1, add_zero]⟩

theorem Flat.add {a b : Vec ℝ} (ha : Flat strict w n a) (hb : Flat strict w n b) :
    Ends (Flat strict w n) (Regular strict) (addVectors a b) := by
  unfold addVectors
  split_ifs with hab
  · exact regular_invalidArgument _
  · exact ha.zipWith hb (not_not.1 hab)

theorem Level.add {k : Vec ℝ} (hy : Level w n c y) (hk : Flat strict w n k) :
    Ends (Level w n c) (Regular strict) (addVectors y k) := by
  unfold addVectors
  split_ifs with hyk
  · exact regular_invalidArgument _
  · exact hy.zipWith hk (not_not.1 hyk)

theorem subtract_ends (a b : Vec ℝ) : Ends (fun _ => True) (Regular strict) (subtractVectors a b) := by
  unfold subtractVectors
  split_ifs
  · exact regular_invalidArgument _
  · trivial

/-- a component below the dimension exists -/
theorem Flat.read {k : Vec ℝ} {i : ℕ} (hk : Flat strict w n k) (hi : strict → i < n) :
    Ends (fun x => x = k.getD i 0) (Regular strict) (read k i) := by
  rw [OdeClientServer.read, List.getD_eq_getElem?_getD]
  rcases Nat.lt_or_ge i k.length with hlt | hge
  · rw [List.getElem?_eq_getElem hlt]
    rfl
  · rw [List.getElem?_eq_none hge]
    intro hs
    rw [hk.2 hs] at hge
    exact absurd (hi hs) (not_lt.2 hge)

/-- a maximum over components that exist -/
theorem maxOver_ends {m : ℕ} {g : ℕ → Except Exn ℝ} (hg : ∀ i < m, Ends (fun _ => True) (Regular strict) (g i)) :
    Ends (fun _ => True) (Regular strict) (maxOver m g) :=
  Ends.foldlM trivial fun _ _ i hi => (hg i (List.mem_range.1 hi)).bind fun _ _ => trivial

/-! ## EulerSolver -/

theorem euler_update (hf : FlatRhs strict w n f) (hy : Level w n c y) :
    Ends (Level w n c) (Regular strict) (EulerSolver.update f t y h) :=
  (hf t y hy.1).bind fun _ hv => hy.add (hv.scale h)

theorem euler_attempt (hf : FlatRhs strict w n f) (hy : Level w n c y) :
    Ends (fun r => Level w n c r.1) (Regular strict) (EulerSolver.attempt f t y h) := by
  unfold EulerSolver.attempt
  refine (euler_update hf hy).bind fun yTemp hTemp => ?_
  refine (hf t y hy.1).bind fun fCurr hCurr => ?_
  refine (hf (t + h) yTemp hTemp.1).bind fun fNext hNext => ?_
  refine (maxOver_ends fun i hi => ?_).bind fun e _ => hTemp
  have hi' : strict → i < n := fun _ => hy.1 ▸ hi
  exact (hNext.read hi').bind fun _ _ => (hCurr.read hi').bind fun _ _ => trivial

theorem euler_keeps (hf : FlatRhs strict w n f) :
    (EulerSolver.driver f tolerance).Keeps (fun _ => True) (Level w n c) (Regular strict) where
  step := by
    intro m t y h _ hy
    have ha := euler_attempt (t := t) (h := h) hf hy
    simp only [EulerSolver.driver, EulerSolver.step]
    cases hr : EulerSolver.attempt f t y h with
    | error e => exact ⟨ha.error hr, trivial⟩
    | ok r =>
      dsimp only
      split_ifs
      · exact ⟨regular_runtimeError _, trivial⟩
      · exact ⟨trivial, ha.ok hr⟩
  caught _ _ := ⟨rfl, rfl⟩

/-! ## RK2Solver -/

theorem rk2_stages (hf : FlatRhs strict w n f) (hy : Level w n c y) :
    Ends (fun k => Flat strict w n k.1 ∧ Flat strict w n k.2) (Regular strict) (RK2Solver.stages f t y h) := by
  unfold RK2Solver.stages
  refine (hf t y hy.1).bind fun v1 h1 => ?_
  refine (hy.add ((h1.scale h).scale _)).bind fun y2 hy2 => ?_
  exact (hf t y2 hy2.1).bind fun v2 h2 => ⟨h1.scale h, h2.scale h⟩

theorem rk2_attempt (hf : FlatRhs strict w n f) (hy : Level w n c y) :
    Ends (fun r => Level w n c r.1) (Regular strict) (RK2Solver.attempt f t y h) := by
  unfold RK2Solver.attempt
  refine (rk2_stages hf hy).bind fun k hk => ?_
  have hnext : Ends (Level w n c) (Regular strict) (RK2Solver.nextValue y k.1 k.2) :=
    ((hk.1.scale _).add (hk.2.scale _)).bind fun _ hs => hy.add hs
  refine hnext.bind fun yNext hNext => ?_
  refine (hf (t + h) yNext hNext.1).bind fun v _ => ?_
  refine (subtract_ends _ _).bind fun d1 _ => ?_
  exact (subtract_ends _ _).bind fun d2 _ => hNext

theorem rk2_step (hf : FlatRhs strict w n f) (hy : Level w n c y) (fuel : ℕ) (h : ℝ) :
    (RK2Solver.step f tolerance t y fuel h).Keeps (fun _ => True) (Level w n c) (Regular strict) := by
  induction fuel generalizing h with
  | zero => trivial
  | succ fuel ih =>
    have ha := rk2_attempt (t := t) (h := h) hf hy
    unfold RK2Solver.step
    cases hr : RK2Solver.attempt f t y h with
    | error e => exact ⟨ha.error hr, trivial⟩
    | ok r =>
      dsimp only
      split_ifs
      · exact ⟨trivial, ha.ok hr⟩
      · exact ih _

theorem rk2_keeps (hf : FlatRhs strict w n f) (fuel : ℕ) :
    (RK2Solver.driver f tolerance fuel).Keeps (fun _ => True) (Level w n c) (Regular strict) where
  step _ hy := rk2_step hf hy fuel _
  caught _ hc := by cases hc

/-! ## RK23SSolver -/

theorem rk23s_stages (hf : FlatRhs strict w n f) (hy : Level w n c y) :
    Ends (fun k => Flat strict w n k.1 ∧ Flat strict w n k.2.1 ∧ Flat strict w n k.2.2) (Regular strict)
      (RK23SSolver.stages f t y h) := by
  unfold RK23SSolver.stages
  refine (hf t y hy.1).bind fun v1 h1 => ?_
  refine (hy.add ((h1.scale h).scale _)).bind fun y2 hy2 => ?_
  refine (hf _ y2 hy2.1).bind fun v2 h2 => ?_
  refine (((h1.scale h).scale _).add ((h2.scale h).scale _)).bind fun s hs => ?_
  refine (hy.add hs).bind fun y3 hy3 => ?_
  exact (hf _ y3 hy3.1).bind fun v3 h3 => ⟨h1.scale h, h2.scale h, h3.scale h⟩

theorem rk23s_nextValue {k1 k2 k3 : Vec ℝ} (hy : Level w n c y) (h1 : Flat strict w n k1) (h2 : Flat strict w n k2)
    (h3 : Flat strict w n k3) : Ends (Level w n c) (Regular strict) (RK23SSolver.nextValue y k1 k2 k3) :=
  ((h2.scale _).add (h3.scale _)).bind fun _ hs => ((h1.scale _).add hs).bind fun _ hs => hy.add hs

theorem rk23s_computeError {k1 k2 k3 : Vec ℝ} (h1 : Flat strict w n k1) (h2 : Flat strict w n k2)
    (h3 : Flat strict w n k3) :
    Ends (fun _ => True) (Regular strict) (RK23SSolver.computeError k1 k2 k3 tolerance) := by
  unfold RK23SSolver.computeError
  refine (subtract_ends _ _).bind fun d _ => ?_
  refine (maxOver_ends fun i hi => ?_).bind fun e _ => trivial
  have hi' : strict → i < n := fun hs => h1.2 hs ▸ hi
  refine (h3.read hi').bind fun _ _ => (h1.read hi').bind fun _ _ => ?_
  exact (h3.read hi').bind fun _ _ => (h2.read hi').bind fun _ _ => trivial

theorem rk23s_keeps (hf : FlatRhs strict w n f) :
    (RK23SSolver.driver f tolerance).Keeps (fun _ => True) (Level w n c) (Regular strict) where
  step := by
    intro m t y h _ hy
    have ha : Ends (fun k => Flat strict w n k.1 ∧ Flat strict w n k.2.1 ∧ Flat strict w n k.2.2.1) (Regular strict)
        (RK23SSolver.stages f t y h >>= fun k =>
          RK23SSolver.computeError k.1 k.2.1 k.2.2 tolerance >>= fun e => pure (k.1, k.2.1, k.2.2, e)) :=
      (rk23s_stages hf hy).bind fun k hk => (rk23s_computeError hk.1 hk.2.1 hk.2.2).bind fun e _ => hk
    simp only [RK23SSolver.driver, RK23SSolver.step]
    split
    · rename_i e hr
      exact ⟨ha.error hr, trivial⟩
    · rename_i k1 k2 k3 e hr
      obtain ⟨h1, h2, h3⟩ := ha.ok hr
      split_ifs
      · exact ⟨regular_runtimeError _, trivial⟩
      · have hn := rk23s_nextValue hy h1 h2 h3
        split
        · rename_i e' hr'
          exact ⟨hn.error hr', trivial⟩
        · rename_i y' hr'
          exact ⟨trivial, hn.ok hr'⟩
  caught _ _ := ⟨rfl, rfl⟩

/-! ## STEKSSolver -/

/-- all stages are flat -/
structure FlatStages (strict : Prop) (w : ℕ → ℝ) (n : ℕ) (k : STEKSSolver.Stages ℝ) : Prop where
  k1 : Flat strict w n k.k1
  k2 : Flat strict w n k.k2
  k3 : Flat strict w n k.k3
  k4 : Flat strict w n k.k4
  k5 : Flat strict w n k.k5

theorem steks_stages (hf : FlatRhs strict w n f) (hy : Level w n c y) :
    Ends (FlatStages strict w n) (Regular strict) (STEKSSolver.stages f t y h) := by
  unfold STEKSSolver.stages
  refine (hf t y hy.1).bind fun v1 h1 => ?_
  refine (hy.add ((h1.scale h).scale _)).bind fun y2 hy2 => ?_
  refine (hf _ y2 hy2.1).bind fun v2 h2 => ?_
  refine (hy.add ((h1.scale h).scale _)).bind fun s3 hs3 => ?_
  refine (hs3.add ((h2.scale h).scale _)).bind fun y3 hy3 => ?_
  refine (hf _ y3 hy3.1).bind fun v3 h3 => ?_
  refine (hy.add ((h1.scale h).scale _)).bind fun s4 hs4 => ?_
  refine (hs4.add ((h3.scale h).scale _)).bind fun y4 hy4 => ?_
  refine (hf _ y4 hy4.1).bind fun v4 h4 => ?_
  refine (hy.add ((h1.scale h).scale _)).bind fun s5 hs5 => ?_
  refine (hs5.add ((h3.scale h).scale _)).bind fun r5 hr5 => ?_
  refine (hr5.add ((h4.scale h).scale _)).bind fun y5 hy5 => ?_
  refine (hf _ y5 hy5.1).bind fun v5 h5 => ?_
  exact ⟨h1.scale h, h2.scale h, h3.scale h, h4.scale h, h5.scale h⟩

theorem steks_nextValue {k : STEKSSolver.Stages ℝ} (hy : Level w n c y) (hk : FlatStages strict w n k) :
    Ends (Level w n c) (Regular strict) (STEKSSolver.nextValue y k) :=
  (hy.add (hk.k1.scale _)).bind fun _ hs => ((hk.k4.scale _).add (hk.k5.scale _)).bind fun _ hr => hs.add hr

theorem steks_computeError {k : STEKSSolver.Stages ℝ} (hk : FlatStages strict w n k) :
    Ends (fun _ => True) (Regular strict) (STEKSSolver.computeError k) := by
  unfold STEKSSolver.computeError
  refine ((hk.k1.scale _).add (hk.k3.scale _)).bind fun a _ => ?_
  refine ((hk.k4.scale _).add hk.k5).bind fun b _ => ?_
  refine (subtract_ends _ _).bind fun d _ => ?_
  refine (maxOver_ends fun i hi => ?_).bind fun e _ => trivial
  have hi' : strict → i < n := fun hs => hk.k1.2 hs ▸ hi
  refine (hk.k2.read hi').bind fun _ _ => (hk.k1.read hi').bind fun _ _ => ?_
  exact (hk.k3.read hi').bind fun _ _ => (hk.k2.read hi').bind fun _ _ => trivial

theorem steks_keeps (hf : FlatRhs strict w n f) :
    (STEKSSolver.driver f tolerance).Keeps (fun _ => True) (Level w n c) (Regular strict) where
  step := by
    intro m t y h _ hy
    have ha : Ends (fun k => FlatStages strict w n k.1) (Regular strict)
        (do
          let k ← STEKSSolver.stages f t y h
          return (k, ← STEKSSolver.computeError k)) :=
      (steks_stages hf hy).bind fun k hk => (steks_computeError hk).bind fun e _ => hk
    simp only [STEKSSolver.driver, STEKSSolver.step]
    split
    · rename_i e hr
      exact ⟨ha.error hr, trivial⟩
    · rename_i k e hr
      split_ifs
      · exact ⟨regular_runtimeError _, trivial⟩
      · have hn := steks_nextValue hy (ha.ok hr)
        split
        · rename_i e' hr'
          exact ⟨hn.error hr', trivial⟩
        · rename_i y' hr'
          exact ⟨trivial, hn.ok hr'⟩
  caught _ _ := ⟨rfl, rfl⟩

/-! ## DISPDSolver -/

section DISPD

open DISPDSolver

variable {scheme : SchemeParams ℝ}

theorem dispd_stages (hf : FlatRhs strict w n f) (hy : Level w n c y) :
    Ends (fun k => Flat strict w n k.1 ∧ Flat strict w n k.2.1 ∧ Flat strict w n k.2.2) (Regular strict)
      (computeKTerms f t y h) := by
  unfold computeKTerms
  refine (hf t y hy.1).bind fun v1 h1 => ?_
  refine (hy.add ((h1.scale h).scale _)).bind fun y2 hy2 => ?_
  refine (hf _ y2 hy2.1).bind fun v2 h2 => ?_
  refine (hy.add ((h1.scale h).scale _)).bind fun s3 hs3 => ?_
  refine (hs3.add ((h2.scale h).scale _)).bind fun y3 hy3 => ?_
  exact (hf _ y3 hy3.1).bind fun v3 h3 => ⟨h1.scale h, h2.scale h, h3.scale h⟩

theorem dispd_computeV {k1 k2 k3 : Vec ℝ} (h1 : Flat strict w n k1) (h2 : Flat strict w n k2)
    (h3 : Flat strict w n k3) : Ends (fun _ => True) (Regular strict) (computeV k1 k2 k3) := by
  unfold computeV
  refine (maxOver_ends fun i hi => ?_).bind fun e _ => trivial
  have hi' : strict → i < n := fun hs => h1.2 hs ▸ hi
  refine (h2.read hi').bind fun _ _ => (h1.read hi').bind fun _ _ => ?_
  exact (h3.read hi').bind fun _ _ => (h2.read hi').bind fun _ _ => trivial

/-- a try is repeated, or accepted on the level of its state -/
def Try.On (L : Vec ℝ → Prop) : Try ℝ → Prop
  | .retry _ => True
  | .accept y _ => L y

theorem dispd_tryStep (hf : FlatRhs strict w n f) (hy : Level w n c y) (attempts : ℕ) (h : ℝ) :
    Ends (Try.On (Level w n c)) (Regular strict) (tryStep scheme f tolerance t y attempts h) := by
  unfold tryStep
  refine (dispd_stages hf hy).bind fun k hk => ?_
  refine ((subtract_ends _ _).bind fun d _ => trivial : Ends (fun _ => True) _ (computeAprime scheme k.1 k.2.1)).bind
    fun aPrime _ => ?_
  dsimp only
  split_ifs
  · trivial
  have hnext : Ends (Level w n c) (Regular strict) (nextValue scheme y k.1 k.2.1 k.2.2) :=
    ((hk.2.1.scale _).add (hk.2.2.scale _)).bind fun _ hs => ((hk.1.scale _).add hs).bind fun _ hs => hy.add hs
  refine hnext.bind fun yNext hNext => ?_
  refine (hf (t + h) yNext hNext.1).bind fun v _ => ?_
  refine ((subtract_ends _ _).bind fun d _ => trivial :
    Ends (fun _ => True) _ (computeAddoublePrime scheme h k.1 (multiplyScalarByVector h v))).bind fun addPrime _ => ?_
  split_ifs
  · trivial
  refine (dispd_computeV hk.1 hk.2.1 hk.2.2).bind fun v _ => ?_
  split_ifs
  · trivial
  · exact hNext

theorem dispd_attemptLoop (hf : FlatRhs strict w n f) (hy : Level w n c y) (left attempts : ℕ) (h : ℝ) :
    (attemptLoop scheme f tolerance t y left attempts h).Keeps (fun _ => True) (Level w n c) (Regular strict) := by
  induction left generalizing attempts h with
  | zero => exact ⟨regular_runtimeError _, trivial⟩
  | succ left ih =>
    have ht : Ends (Try.On (Level w n c)) (Regular strict) (tryStep scheme f tolerance t y attempts h) :=
      dispd_tryStep hf hy attempts h
    unfold attemptLoop
    split
    · rename_i e hr
      exact ⟨ht.error hr, trivial⟩
    · exact ih _ _
    · rename_i yNext h' hr
      exact ⟨trivial, ht.ok hr⟩

theorem dispd_keeps (hf : FlatRhs strict w n f) :
    (driver f tolerance).Keeps (fun _ => True) (Level w n c) (Regular strict) where
  step _ hy := dispd_attemptLoop hf hy 10 0 _
  caught hstep _ := ⟨(attemptLoop_threw hstep).1, rfl⟩

end DISPD

/-! ## DISPSSolver -/

section DISPS

open DISPSSolver

/-- a stage count with a step routine, a weight for each stage, and the stages that the controller of the order reads -/
structure WellFormed (v : DispsVariant ℝ) : Prop where
  stages : v.stages = 3 ∨ v.stages = 5 ∨ v.stages = 6
  weights : v.p.length = v.stages
  control : v.order = 1 ∨ v.order = 2 ∨ 4 ≤ v.stages

theorem variants_wellFormed {flags : DispsEnabledFlags} {v : DispsVariant ℝ} (hv : v ∈ variants flags) :
    WellFormed v := by
  simp only [variants, List.mem_append, List.mem_ite_nil_right, List.mem_singleton] at hv
  rcases hv with ((((⟨-, rfl⟩ | ⟨-, rfl⟩) | ⟨-, rfl⟩) | ⟨-, rfl⟩) | ⟨-, rfl⟩) | ⟨-, rfl⟩
  all_goals exact ⟨by decide, rfl, by decide⟩

theorem Level.dispsAdd {k : Vec ℝ} (hy : Level w n c y) (hk : Flat strict w n k) :
    Ends (Level w n c) (Regular strict) (DISPSSolver.add y k) := by
  unfold DISPSSolver.add
  split_ifs with hyk
  · exact regular_runtimeError _
  · exact hy.zipWith hk (not_not.1 hyk)

theorem disps_subtract (a b : Vec ℝ) : Ends (fun _ => True) (Regular strict) (subtract a b) := by
  unfold subtract
  split_ifs
  · exact regular_runtimeError _
  · trivial

theorem Flat.mul {k : Vec ℝ} (hk : Flat strict w n k) (a : ℝ) : Flat strict w n (mul a k) := hk.scale a

/-- an entry of a list that is long enough -/
theorem read_ends {α : Type} {P : α → Prop} {l : List α} {i : ℕ} (hi : strict → i < l.length) (hl : ∀ a ∈ l, P a) :
    Ends P (Regular strict) (read l i) := by
  rw [read]
  rcases Nat.lt_or_ge i l.length with hlt | hge
  · rw [List.getElem?_eq_getElem hlt]
    exact hl _ (List.getElem_mem hlt)
  · rw [List.getElem?_eq_none hge]
    exact fun hs => absurd (hi hs) (not_lt.2 hge)

theorem weight_ends {p : List ℝ} {s i : ℕ} (hp : strict → p.length = s) (hi : i < s) :
    Ends (fun _ => True) (Regular strict) (read p i) :=
  read_ends (fun hs => by rw [hp hs]; exact hi) fun _ _ => trivial

/-- what a step returns: a value on the level of its state, and s flat stages -/
def StepOn (strict : Prop) (w : ℕ → ℝ) (n : ℕ) (c : ℝ) (s : ℕ) (r : Vec ℝ × List (Vec ℝ)) : Prop :=
  Level w n c r.1 ∧ r.2.length = s ∧ ∀ k ∈ r.2, Flat strict w n k

theorem step3Stage_on (hf : FlatRhs strict w n f) (hy : Level w n c y) {p : List ℝ} (hp : strict → p.length = 3) :
    Ends (StepOn strict w n c 3) (Regular strict) (step3Stage t y h f p) := by
  unfold step3Stage
  refine (hf t y hy.1).bind fun v1 h1 => ?_
  refine (hy.dispsAdd ((h1.mul h).mul _)).bind fun y2 hy2 => ?_
  refine (hf _ y2 hy2.1).bind fun v2 h2 => ?_
  refine (hy.dispsAdd ((h1.mul h).mul _)).bind fun s3 hs3 => ?_
  refine (hs3.dispsAdd ((h2.mul h).mul _)).bind fun y3 hy3 => ?_
  refine (hf _ y3 hy3.1).bind fun v3 h3 => ?_
  -- the new value, term by term
  refine (weight_ends hp (by decide)).bind fun a0 _ => (hy.dispsAdd ((h1.mul h).mul a0)).bind fun z0 hz0 => ?_
  refine (weight_ends hp (by decide)).bind fun a1 _ => (hz0.dispsAdd ((h2.mul h).mul a1)).bind fun z1 hz1 => ?_
  refine (weight_ends hp (by decide)).bind fun a2 _ => (hz1.dispsAdd ((h3.mul h).mul a2)).bind fun z2 hz2 => ?_
  refine ⟨hz2, rfl, fun k hk => ?_⟩
  simp only [List.mem_cons, List.not_mem_nil, or_false] at hk
  rcases hk with rfl | rfl | rfl
  · exact h1.mul h
  · exact h2.mul h
  · exact h3.mul h

theorem step5Stage_on (hf : FlatRhs strict w n f) (hy : Level w n c y) {p : List ℝ} (hp : strict → p.length = 5) :
    Ends (StepOn strict w n c 5) (Regular strict) (step5Stage t y h f p) := by
  unfold step5Stage
  refine (hf t y hy.1).bind fun v1 h1 => ?_
  refine (hy.dispsAdd ((h1.mul h).mul _)).bind fun y2 hy2 => ?_
  refine (hf _ y2 hy2.1).bind fun v2 h2 => ?_
  refine (hy.dispsAdd ((h1.mul h).mul _)).bind fun s3 hs3 => ?_
  refine (hs3.dispsAdd ((h2.mul h).mul _)).bind fun y3 hy3 => ?_
  refine (hf _ y3 hy3.1).bind fun v3 h3 => ?_
  refine (hy.dispsAdd ((h1.mul h).mul _)).bind fun s4 hs4 => ?_
  refine (hs4.dispsAdd ((h3.mul h).mul _)).bind fun y4 hy4 => ?_
  refine (hf _ y4 hy4.1).bind fun v4 h4 => ?_
  refine (hy.dispsAdd ((h1.mul h).mul _)).bind fun s5 hs5 => ?_
  refine (hs5.dispsAdd ((h3.mul h).mul _)).bind fun r5 hr5 => ?_
  refine (hr5.dispsAdd ((h4.mul h).mul _)).bind fun y5 hy5 => ?_
  refine (hf _ y5 hy5.1).bind fun v5 h5 => ?_
  -- the new value, term by term
  refine (weight_ends hp (by decide)).bind fun a0 _ => (hy.dispsAdd ((h1.mul h).mul a0)).bind fun z0 hz0 => ?_
  refine (weight_ends hp (by decide)).bind fun a1 _ => (hz0.dispsAdd ((h2.mul h).mul a1)).bind fun z1 hz1 => ?_
  refine (weight_ends hp (by decide)).bind fun a2 _ => (hz1.dispsAdd ((h3.mul h).mul a2)).bind fun z2 hz2 => ?_
  refine (weight_ends hp (by decide)).bind fun a3 _ => (hz2.dispsAdd ((h4.mul h).mul a3)).bind fun z3 hz3 => ?_
  refine (weight_ends hp (by decide)).bind fun a4 _ => (hz3.dispsAdd ((h5.mul h).mul a4)).bind fun z4 hz4 => ?_
  refine ⟨hz4, rfl, fun k hk => ?_⟩
  simp only [List.mem_cons, List.not_mem_nil, or_false] at hk
  rcases hk with rfl | rfl | rfl | rfl | rfl
  · exact h1.mul h
  · exact h2.mul h
  · exact h3.mul h
  · exact h4.mul h
  · exact h5.mul h

theorem step6Stage_on (hf : FlatRhs strict w n f) (hy : Level w n c y) {p : List ℝ} (hp : strict → p.length = 6) :
    Ends (StepOn strict w n c 6) (Regular strict) (step6Stage t y h f p) := by
  unfold step6Stage
  refine (hf t y hy.1).bind fun v1 h1 => ?_
  refine (hy.dispsAdd ((h1.mul h).mul _)).bind fun y2 hy2 => ?_
  refine (hf _ y2 hy2.1).bind fun v2 h2 => ?_
  refine (hy.dispsAdd ((h2.mul h).mul _)).bind fun y3 hy3 => ?_
  refine (hf _ y3 hy3.1).bind fun v3 h3 => ?_
  refine (hy.dispsAdd ((h3.mul h).mul _)).bind fun y4 hy4 => ?_
  refine (hf _ y4 hy4.1).bind fun v4 h4 => ?_
  refine (hy.dispsAdd ((h1.mul h).mul _)).bind fun s5 hs5 => ?_
  refine (hs5.dispsAdd ((h4.mul h).mul _)).bind fun y5 hy5 => ?_
  refine (hf _ y5 hy5.1).bind fun v5 h5 => ?_
  refine (hy.dispsAdd (h5.mul h)).bind fun y6 hy6 => ?_
  refine (hf _ y6 hy6.1).bind fun v6 h6 => ?_
  -- the new value, term by term
  refine (weight_ends hp (by decide)).bind fun a0 _ => (hy.dispsAdd ((h1.mul h).mul a0)).bind fun z0 hz0 => ?_
  refine (weight_ends hp (by decide)).bind fun a1 _ => (hz0.dispsAdd ((h2.mul h).mul a1)).bind fun z1 hz1 => ?_
  refine (weight_ends hp (by decide)).bind fun a2 _ => (hz1.dispsAdd ((h3.mul h).mul a2)).bind fun z2 hz2 => ?_
  refine (weight_ends hp (by decide)).bind fun a3 _ => (hz2.dispsAdd ((h4.mul h).mul a3)).bind fun z3 hz3 => ?_
  refine (weight_ends hp (by decide)).bind fun a4 _ => (hz3.dispsAdd ((h5.mul h).mul a4)).bind fun z4 hz4 => ?_
  refine (weight_ends hp (by decide)).bind fun a5 _ => (hz4.dispsAdd ((h6.mul h).mul a5)).bind fun z5 hz5 => ?_
  refine ⟨hz5, rfl, fun k hk => ?_⟩
  simp only [List.mem_cons, List.not_mem_nil, or_false] at hk
  rcases hk with rfl | rfl | rfl | rfl | rfl | rfl
  · exact h1.mul h
  · exact h2.mul h
  · exact h3.mul h
  · exact h4.mul h
  · exact h5.mul h
  · exact h6.mul h

theorem doOneStep_on (hf : FlatRhs strict w n f) (hy : Level w n c y) {v : DispsVariant ℝ}
    (hv : strict → WellFormed v) :
    Ends (StepOn strict w n c v.stages) (Regular strict) (doOneStep f t y h v) := by
  have hp : ∀ s, v.stages = s → strict → v.p.length = s := fun s hs hst => (hv hst).weights.trans hs
  unfold doOneStep
  split_ifs with h3 h5 h6
  · rw [h3]; exact step3Stage_on hf hy (hp 3 h3)
  · rw [h5]; exact step5Stage_on hf hy (hp 5 h5)
  · rw [h6]; exact step6Stage_on hf hy (hp 6 h6)
  · exact regular_runtimeError _

theorem control_ends {v : DispsVariant ℝ} {k : List (Vec ℝ)} (hv : strict → WellFormed v)
    (hk : k.length = v.stages) : Ends (fun _ => True) (Regular strict) (DISPSSolver.control v k h tolerance) := by
  have h3 : strict → 3 ≤ k.length := fun hs => by
    have := (hv hs).stages
    omega
  have hread : ∀ {i}, (strict → i < k.length) → Ends (fun _ => True) (Regular strict) (read k i) := fun hi =>
    read_ends hi fun _ _ => trivial
  unfold DISPSSolver.control
  split_ifs with h1 h2
  · refine (hread fun hs => by have := h3 hs; omega).bind fun k1 _ => ?_
    refine (hread fun hs => by have := h3 hs; omega).bind fun k2 _ => ?_
    exact (disps_subtract _ _).bind fun d _ => trivial
  · refine (hread fun hs => by have := h3 hs; omega).bind fun k1 _ => ?_
    refine (hread fun hs => by have := h3 hs; omega).bind fun k2 _ => ?_
    refine (hread fun hs => by have := h3 hs; omega).bind fun k3 _ => ?_
    exact (disps_subtract _ _).bind fun d _ => trivial
  · have h4 : strict → 4 ≤ k.length := fun hs => by
      have := (hv hs).control
      omega
    refine (hread fun hs => by have := h3 hs; omega).bind fun k1 _ => ?_
    refine (hread fun hs => by have := h3 hs; omega).bind fun k2 _ => ?_
    refine (hread fun hs => by have := h3 hs; omega).bind fun k3 _ => ?_
    refine (hread fun hs => by have := h4 hs; omega).bind fun k4 _ => ?_
    exact (disps_subtract _ _).bind fun d _ => trivial

/-- tries that accept a step accept one on the level of the state -/
def Tries.On (L : Vec ℝ → Prop) : Tries ℝ → Prop
  | .accepted _ y _ _ => L y
  | .failed _ => True
  | .switched _ => True

theorem tryLoop_on (hf : FlatRhs strict w n f) (hy : Level w n c y) {v : DispsVariant ℝ}
    (hv : strict → WellFormed v) (left : ℕ) (h : ℝ) :
    Ends (Tries.On (Level w n c)) (Regular strict) (tryLoop f v tolerance t y left h) := by
  induction left generalizing h with
  | zero => trivial
  | succ left ih =>
    unfold tryLoop
    refine (doOneStep_on hf hy hv).bind fun r hr => ?_
    refine (control_ends hv hr.2.1).bind fun k _ => ?_
    split_ifs
    · exact hr.1
    · trivial
    · exact ih _

/-- the state and all rows of a run have L; with `strict` the current variant exists -/
structure Kept (strict : Prop) (enabled : List (DispsVariant ℝ)) (L : Vec ℝ → Prop) (s : State ℝ) : Prop where
  state : L s.y
  rows : ∀ r ∈ s.results, L r.2
  index : strict → s.currentIndex < enabled.length

/-- a pass of DISPS keeps the level, however it ends -/
theorem disps_body (hf : FlatRhs strict w n f) {enabled : List (DispsVariant ℝ)} {tEnd : ℝ} {s : State ℝ}
    (hv : strict → ∀ v ∈ enabled, WellFormed v) (hs : Kept strict enabled (Level w n c) s) :
    Kept strict enabled (Level w n c) (body f enabled tEnd tolerance s).state ∧
      ∀ e s', body f enabled tEnd tolerance s = .raise e s' → Regular strict e := by
  have htries : Ends (Tries.On (Level w n c)) (Regular strict)
      (do tryLoop f (← read enabled s.currentIndex) tolerance s.t s.y 30 (min s.stepSize (tEnd - s.t))) :=
    (read_ends hs.index fun v hmem => hmem).bind fun v hmem => tryLoop_on hf hs.state (fun hst => hv hst v hmem) 30 _
  unfold body
  by_cases ht : s.t < tEnd
  · rw [if_pos ht]
    dsimp only
    by_cases htiny : min s.stepSize (tEnd - s.t) < 1e-14
    · rw [if_pos htiny]
      exact ⟨hs, fun e s' h => by cases h⟩
    · rw [if_neg htiny]
      split
      · rename_i e hr
        refine ⟨hs, fun e' s' h => ?_⟩
        cases h
        exact htries.error hr
      · rename_i h' yNext newH needSwitch hr
        have hL : Level w n c yNext := htries.ok hr
        refine ⟨⟨hL, fun r hr => ?_, fun hst => ?_⟩, fun e s' h => by cases h⟩
        · rcases List.mem_append.1 hr with hr | hr
          · exact hs.rows r hr
          · rw [List.mem_singleton.1 hr]; exact hL
        · dsimp only [Pass.state]
          split_ifs
          · exact switchScheme_lt (hs.index hst)
          · exact hs.index hst
      · exact ⟨⟨hs.state, hs.rows, hs.index⟩, fun e s' h => by cases h⟩
      · exact ⟨⟨hs.state, hs.rows, fun hst => switchScheme_lt (hs.index hst)⟩, fun e s' h => by cases h⟩
  · rw [if_neg ht]
    exact ⟨hs, fun e s' h => by cases h⟩

/-- **What a run of DISPS keeps.** All its rows are on the level of y0, and an exception that ends it is regular. -/
theorem disps_keeps (hf : FlatRhs strict w n f) {enabled : List (DispsVariant ℝ)} {y0 : Vec ℝ} {currentIndex : ℕ}
    (hv : strict → ∀ v ∈ enabled, WellFormed v) (hi : strict → currentIndex < enabled.length) (hy : Level w n c y0)
    (stepSize t0 tEnd : ℝ) (passes : ℕ) :
    (∀ r ∈ (solve f enabled stepSize currentIndex t0 y0 tEnd tolerance passes).state.results, Level w n c r.2) ∧
      ∀ e s, solve f enabled stepSize currentIndex t0 y0 tEnd tolerance passes = .raise e s → Regular strict e := by
  have h0 : Kept strict enabled (Level w n c) ⟨t0, y0, stepSize, currentIndex, [(t0, y0)]⟩ :=
    ⟨hy, fun r hr => by rw [List.mem_singleton.1 hr]; exact hy, hi⟩
  obtain ⟨s, hs, hlast⟩ := run_last (body f enabled tEnd tolerance) passes ⟨t0, y0, stepSize, currentIndex, [(t0, y0)]⟩
  have hkept : Kept strict enabled (Level w n c) s := by
    refine head_invariant h0 (fun s s' h1 h2 => ?_) hs
    have hb : Kept strict enabled (Level w n c) (body f enabled tEnd tolerance s).state := (disps_body hf hv h1).1
    rwa [h2] at hb
  have hb : Kept strict enabled (Level w n c) (body f enabled tEnd tolerance s).state ∧
      ∀ e s', body f enabled tEnd tolerance s = .raise e s' → Regular strict e := disps_body hf hv hkept
  unfold solve
  rcases hlast with hn | hlast
  · rw [hn]
    exact ⟨hkept.rows, fun e s' h => by cases h⟩
  · rw [hlast]
    exact ⟨hb.1.rows, hb.2⟩

end DISPS

/-! ## DISPFSolver -/

section DISPF

open DISPFSolver

variable {k : Stages ℝ} {m : ℕ}

/-- a loop that writes n entries: each is what its round returned -/
theorem tabulate_ends {P : ℕ → ℝ → Prop} {g : ℕ → Except Exn ℝ} (hg : ∀ i < n, Ends (P i) (Regular strict) (g i)) :
    Ends (fun v => v.length = n ∧ ∀ i < n, P i (v.getD i 0)) (Regular strict) (tabulate n g) := by
  refine (Ends.mapM fun i hi => hg i (List.mem_range.1 hi)).imp fun v hv => ?_
  have hlen : v.length = n := by rw [← hv.length_eq, List.length_range]
  refine ⟨hlen, fun i hi => ?_⟩
  have hi' : i < v.length := hlen ▸ hi
  have hget := hv.get (i := i) (by rw [List.length_range]; exact hi) hi'
  rw [List.getD_eq_getElem?_getD, List.getElem?_eq_getElem hi']
  simpa using hget

/-- `k[i][m] = fm[i] * h` -/
theorem Flat.column {fm : Vec ℝ} (hm : Flat strict w n fm) (h : ℝ) :
    Ends (Flat strict w n) (Regular strict) (column n fm h) := by
  refine (tabulate_ends (P := fun i x => x = fm.getD i 0 * h) fun i hi => ?_).imp fun v hv => ⟨?_, fun _ => hv.1⟩
  · exact (hm.read fun _ => hi).bind fun x hx => by rw [hx]; rfl
  · have hsum : dot w n v = dot w n fm * h := by
      rw [dot, dot, Finset.sum_mul]
      refine Finset.sum_congr rfl fun i hi => ?_
      rw [hv.2 i (Finset.mem_range.1 hi), mul_assoc]
    rw [hsum, hm.1, zero_mul]

theorem Flat.map_mul {v : Vec ℝ} (hv : Flat strict w n v) (a : ℝ) : Flat strict w n (v.map (· * a)) := by
  have hmap : v.map (· * a) = multiplyScalarByVector a v := by simp only [multiplyScalarByVector, mul_comm]
  rw [hmap]
  exact hv.scale a

/-- the columns before m are flat -/
def FlatBefore (strict : Prop) (w : ℕ → ℝ) (n m : ℕ) (k : Stages ℝ) : Prop :=
  ∀ j : Fin 6, j.val < m → Flat strict w n (k j)

theorem FlatBefore.setStage {col : Vec ℝ} (hk : FlatBefore strict w n m k) (hcol : Flat strict w n col) :
    FlatBefore strict w n (m + 1) (setStage k m col) := by
  intro j hj
  unfold DISPFSolver.setStage
  split_ifs with hjm
  · exact hcol
  · exact hk j (by omega)

/-- the columns that a sum with the weights p reads -/
theorem mem_zip_ofFn {p : List ℝ} {q : ℝ × Vec ℝ} (hq : q ∈ p.zip (List.ofFn k)) :
    ∃ j : Fin 6, j.val < p.length ∧ q.2 = k j := by
  obtain ⟨i, hi, rfl⟩ := List.mem_iff_getElem.1 hq
  simp only [List.length_zip, List.length_ofFn, lt_min_iff] at hi
  exact ⟨⟨i, hi.2⟩, hi.1, by simp only [List.getElem_zip, List.getElem_ofFn]⟩

/-- `sum += q.1 * q.2[i]` over flat columns -/
theorem foldlM_terms {l : List (ℝ × Vec ℝ)} (hl : ∀ q ∈ l, Flat strict w n q.2) {i : ℕ} (hi : i < n) (a : ℝ) :
    Ends (fun x => x = a + (l.map fun q => q.1 * q.2.getD i 0).sum) (Regular strict)
      (l.foldlM (fun sum q => do return sum + q.1 * (← read q.2 i)) a) := by
  induction l generalizing a with
  | nil => exact (add_zero a).symm
  | cons q l ih =>
    rw [List.foldlM_cons]
    refine (((hl q List.mem_cons_self).read fun _ => hi).bind fun x hx => ?_ :
      Ends (fun b => b = a + q.1 * q.2.getD i 0) _ _).bind fun b hb => ?_
    · rw [hx]; rfl
    · refine (ih (fun r hr => hl r (List.mem_cons_of_mem q hr)) b).imp fun x hx => ?_
      rw [hx, hb, List.map_cons, List.sum_cons, add_assoc]

/-- `sum += p[j] * k[i][j]` over flat columns -/
theorem weightedSum_ends {p : List ℝ} (hk : FlatBefore strict w n p.length k) {i : ℕ} (hi : i < n) :
    Ends (fun x => x = ((p.zip (List.ofFn k)).map fun q => q.1 * q.2.getD i 0).sum) (Regular strict)
      (weightedSum p k i) := by
  have hl : ∀ q ∈ p.zip (List.ofFn k), Flat strict w n q.2 := by
    intro q hq
    obtain ⟨j, hj, e⟩ := mem_zip_ofFn hq
    rw [e]
    exact hk j hj
  refine (foldlM_terms hl hi 0).imp fun x hx => ?_
  rw [hx, zero_add]

/-- a combination of flat columns is flat -/
theorem sum_terms {l : List (ℝ × Vec ℝ)} (hl : ∀ q ∈ l, Flat strict w n q.2) :
    ∑ i ∈ Finset.range n, w i * (l.map fun q => q.1 * q.2.getD i 0).sum = 0 := by
  induction l with
  | nil => simp
  | cons q l ih =>
    have hq : ∑ i ∈ Finset.range n, w i * (q.1 * q.2.getD i 0) = q.1 * dot w n q.2 := by
      rw [dot, Finset.mul_sum]
      exact Finset.sum_congr rfl fun i _ => by ring
    simp only [List.map_cons, List.sum_cons, mul_add, Finset.sum_add_distrib]
    rw [hq, (hl q List.mem_cons_self).1, mul_zero, zero_add, ih fun r hr => hl r (List.mem_cons_of_mem q hr)]

theorem Level.read {i : ℕ} (hy : Level w n c y) (hi : i < n) :
    Ends (fun x => x = y.getD i 0) (Regular strict) (read y i) := by
  rw [OdeClientServer.read, List.getD_eq_getElem?_getD, List.getElem?_eq_getElem (hy.1.symm ▸ hi)]
  rfl

/-- `Y0[i] = y[i] + sum` stays on the level of y -/
theorem newPoint_level {p : List ℝ} (hy : Level w n c y) (hk : FlatBefore strict w n p.length k) :
    Ends (Level w n c) (Regular strict) (newPoint y k p) := by
  unfold newPoint
  rw [hy.1]
  refine (tabulate_ends (P := fun i x => x = y.getD i 0 + ((p.zip (List.ofFn k)).map fun q => q.1 * q.2.getD i 0).sum)
    fun i hi => ?_).imp fun v hv => ⟨hv.1, ?_⟩
  · exact (hy.read hi).bind fun a ha => (weightedSum_ends hk hi).bind fun b hb => by rw [ha, hb]; rfl
  · have hl : ∀ q ∈ p.zip (List.ofFn k), Flat strict w n q.2 := by
      intro q hq
      obtain ⟨j, hj, e⟩ := mem_zip_ofFn hq
      rw [e]
      exact hk j hj
    have hsum : dot w n v = dot w n y +
        ∑ i ∈ Finset.range n, w i * ((p.zip (List.ofFn k)).map fun q => q.1 * q.2.getD i 0).sum := by
      rw [dot, dot, ← Finset.sum_add_distrib]
      refine Finset.sum_congr rfl fun i hi => ?_
      rw [hv.2 i (Finset.mem_range.1 hi), mul_add]
    rw [hsum, sum_terms hl, add_zero, hy.2]

theorem stagePoint_length (hy : Level w n c y) (hk : FlatBefore strict w n m k) :
    Ends (fun v => v.length = n) (Regular strict) (stagePoint y k m) := by
  unfold stagePoint
  rw [hy.1]
  refine (tabulate_ends (P := fun _ _ => True) fun i hi => ?_).imp fun v hv => hv.1
  refine (hy.read hi).bind fun a _ => Ends.bind (P := fun _ => True) ?_ fun b _ => trivial
  refine (weightedSum_ends (fun j hj => hk j (lt_of_lt_of_le hj ?_)) hi).imp fun _ _ => trivial
  exact List.length_take_le _ _

/-! The loops over stages and attempts. An exception leaves a matrix whose first column is flat. -/

/-- an exception and the matrix it leaves -/
def LeftFlat (strict : Prop) (w : ℕ → ℝ) (n : ℕ) (r : Exn × Stages ℝ) : Prop :=
  Regular strict r.1 ∧ Flat strict w n (r.2 0)

theorem stageLoop_flat (hf : FlatRhs strict w n f) (hy : Level w n c y) (r : ℕ) {m : ℕ} (hm : 0 < m)
    (hk : FlatBefore strict w n m k) :
    Ends (FlatBefore strict w n (m + r)) (LeftFlat strict w n) (stageLoop f t y h (List.range' m r) k) := by
  induction r generalizing m k with
  | zero => exact hk
  | succ r ih =>
    have hcol : Ends (Flat strict w n) (Regular strict) (do
        let fm ← f (t + aCoef.getD (m - 1) 0 * h) (← stagePoint y k m)
        column y.length fm h) := by
      rw [hy.1]
      exact (stagePoint_length hy hk).bind fun p hp => (hf _ p hp).bind fun v hv => hv.column h
    simp only [List.range'_succ, stageLoop]
    split
    · rename_i e he
      exact ⟨hcol.error he, hk 0 hm⟩
    · rename_i col he
      have hnext := ih (m := m + 1) (Nat.succ_pos m) (hk.setStage (hcol.ok he))
      rwa [show m + 1 + r = m + (r + 1) by omega] at hnext

theorem FlatBefore.scaleFirst (hk : FlatBefore strict w n m k) (a : ℝ) : FlatBefore strict w n m (scaleFirst k a) := by
  intro j hj
  unfold DISPFSolver.scaleFirst DISPFSolver.setStage
  split_ifs with h0
  · rw [show (0 : Fin 6) = j from (Fin.ext h0).symm]
    exact (hk j hj).map_mul a
  · exact hk j hj

theorem FlatBefore.first (h0 : Flat strict w n (k 0)) : FlatBefore strict w n 1 k := fun j hj => by
  rwa [show j = 0 from Fin.ext (by omega)]

/-- the point of the second stage of a formula -/
def SecondPoint (strict : Prop) (w : ℕ → ℝ) (n : ℕ) (c : ℝ) (F : Formula ℝ) : Prop :=
  ∀ {y k}, Level w n c y → Flat strict w n (k 0) → Ends (fun v => v.length = n) (Regular strict) (F.second y k)

theorem formulaA_point : SecondPoint strict w n c formulaA := fun hy h0 => stagePoint_length hy (.first h0)

theorem formulaB_point : SecondPoint strict w n c formulaB := by
  intro y k hy h0
  change Ends _ _ (tabulate y.length _)
  rw [hy.1]
  refine (tabulate_ends (P := fun _ _ => True) fun i hi => ?_).imp fun v hv => hv.1
  exact (hy.read hi).bind fun a _ => (h0.read fun _ => hi).bind fun b _ => trivial

variable {F : Formula ℝ}

theorem secondStage_flat (hf : FlatRhs strict w n f) (hF : SecondPoint strict w n c F) (hy : Level w n c y)
    (h0 : Flat strict w n (k 0)) : Ends (Flat strict w n) (Regular strict) (secondStage F f t y h k) := by
  unfold secondStage
  rw [hy.1]
  exact (hF hy h0).bind fun p hp => (hf _ p hp).bind fun v hv => hv.column h

/-- an exception, the matrix it leaves and h -/
def LeftFlatH (strict : Prop) (w : ℕ → ℝ) (n : ℕ) (r : Exn × Stages ℝ × ℝ) : Prop :=
  Regular strict r.1 ∧ Flat strict w n (r.2.1 0)

theorem endDifference_ends {a first : Vec ℝ} (ha : Flat strict w n a) (h0 : Flat strict w n first) (h : ℝ) :
    Ends (fun _ => True) (Regular strict) (endDifference n a h first) :=
  maxOver_ends fun _ hi => (ha.read fun _ => hi).bind fun _ _ => (h0.read fun _ => hi).bind fun _ _ => trivial

/-- the loop 1a-2a ends with two flat columns -/
theorem predictor_flat (hf : FlatRhs strict w n f) (hF : SecondPoint strict w n c F) (hy : Level w n c y) (fuel : ℕ)
    {h : ℝ} (h0 : Flat strict w n (k 0)) {r : Except (Exn × Stages ℝ × ℝ) (Stages ℝ × ℝ)}
    (hr : predictor F f tolerance t y fuel k h = some r) :
    Ends (fun r => FlatBefore strict w n 2 r.1) (LeftFlatH strict w n) r := by
  induction fuel generalizing k h with
  | zero => cases hr
  | succ fuel ih =>
    have hcol : Ends (Flat strict w n) (Regular strict) (secondStage F f t y h k) := secondStage_flat hf hF hy h0
    unfold predictor at hr
    split at hr
    · rename_i e he
      cases hr
      exact ⟨hcol.error he, h0⟩
    · rename_i col he
      have hk : FlatBefore strict w n 2 (setStage k 1 col) := (FlatBefore.first h0).setStage (hcol.ok he)
      have hd : Ends (fun _ => True) (Regular strict)
          (maxOver y.length fun i => do return |(← read col i) - (← read (k 0) i)|) := by
        refine maxOver_ends fun i hi => ?_
        have hi' : strict → i < n := fun _ => hy.1 ▸ hi
        exact ((hcol.ok he).read hi').bind fun _ _ => (h0.read hi').bind fun _ _ => trivial
      split at hr
      · rename_i e' he'
        cases hr
        exact ⟨hd.error he', hk 0 (by decide)⟩
      · dsimp only at hr
        split_ifs at hr
        · exact ih (hk.scaleFirst _ 0 (by decide)) hr
        · cases hr
          exact hk

theorem endPoint_on (hf : FlatRhs strict w n f) (hy : Level w n c y) (hk : FlatBefore strict w n 6 k)
    (hp : F.p.length ≤ 6) :
    Ends (fun r => Level w n c r.1 ∧ Flat strict w n r.2.1) (Regular strict) (endPoint F f t y h k) := by
  unfold endPoint
  refine (newPoint_level hy fun j hj => hk j (lt_of_lt_of_le hj hp)).bind fun y0 hy0 => ?_
  refine (hf (t + h) y0 hy0.1).bind fun fEnd hEnd => ?_
  rw [hy.1]
  exact (endDifference_ends hEnd (hk 0 (by decide)) h).bind fun d _ => ⟨hy0, hEnd⟩

/-- how the search for an accepted attempt ends: on the level of y, with flat columns -/
def Approach.On (strict : Prop) (w : ℕ → ℝ) (n : ℕ) (c : ℝ) : Approach ℝ → Prop
  | .accepted a => Level w n c a.y0 ∧ Flat strict w n a.fEnd ∧ FlatBefore strict w n 6 a.mem.k
  | .threw e m _ => Regular strict e ∧ Flat strict w n (m.k 0)
  | .starved _ => True

theorem approach_on (hf : FlatRhs strict w n f) (hF : SecondPoint strict w n c F) (hp : F.p.length ≤ 6)
    (hy : Level w n c y) (fuel : ℕ) {m : Members ℝ} (h : ℝ) (h0 : Flat strict w n (m.k 0)) :
    Approach.On strict w n c (approach F f tolerance t y fuel m h) := by
  induction fuel generalizing m h with
  | zero => trivial
  | succ fuel ih =>
    unfold approach
    dsimp only
    split
    · trivial
    · rename_i e k1 h1 hr
      exact predictor_flat hf hF hy (fuel + 1) h0 hr
    · rename_i k1 h1 hr
      have hk1 : FlatBefore strict w n 2 k1 := predictor_flat hf hF hy (fuel + 1) h0 hr
      have hloop : Ends (FlatBefore strict w n 6) (LeftFlat strict w n) (stageLoop f t y h1 [2, 3, 4, 5] k1) :=
        stageLoop_flat hf hy 4 (by decide) hk1
      split
      · rename_i e k2 hr2
        exact hloop.error hr2
      · rename_i k2 hr2
        have hk2 : FlatBefore strict w n 6 k2 := hloop.ok hr2
        have hend := endPoint_on (t := t) (h := h1) hf hy hk2 hp
        split
        · rename_i e hr3
          exact ⟨hend.error hr3, hk2 0 (by decide)⟩
        · rename_i y0 fEnd an1 hr3
          obtain ⟨hy0, hEnd⟩ := hend.ok hr3
          split_ifs
          · exact ih _ (hk2.scaleFirst _ 0 (by decide))
          · exact ⟨hy0, hEnd, hk2⟩

theorem estimate_ends (hf : FlatRhs strict w n f) (jacobianMethod : ℤ) (t : ℝ) (hy : y.length = n) :
    Ends (fun _ => True) (Regular strict) (estimateJacobianEigenvalue f jacobianMethod t y) := by
  unfold estimateJacobianEigenvalue
  refine (hf t y hy).bind fun f0 h0 => ?_
  refine (Ends.mapM (R := fun _ _ => True) fun j _ => ?_).bind fun columns _ => ?_
  · refine (hf t _ (by rw [List.length_modify, hy])).bind fun fPert hPert => ?_
    rw [hy]
    refine (tabulate_ends (P := fun _ _ => True) fun i hi => ?_).imp fun _ _ => trivial
    exact (hPert.read fun _ => hi).bind fun _ _ => (h0.read fun _ => hi).bind fun _ _ => trivial
  · split_ifs <;> trivial

variable {cfg : Config ℝ}

theorem stabilityBlock_ends (hf : FlatRhs strict w n f) (hy : y.length = n) (length : ℝ) (jump : ℕ → Bool)
    (m : Members ℝ) :
    Ends (fun m' => m'.k = m.k) (Regular strict) (stabilityBlock cfg f t y h length jump m) := by
  unfold stabilityBlock
  by_cases hc : cfg.stabilityControlEnabled = true
  · rw [if_pos hc]
    refine (estimate_ends hf _ _ hy).bind fun l _ => ?_
    split_ifs <;> exact rfl
  · rw [if_neg hc]
    exact rfl

theorem calcVn_ends (hk : FlatBefore strict w n 6 k) : Ends (fun _ => True) (Regular strict) (calcVn k) := by
  unfold calcVn
  refine (maxOver_ends fun i hi => ?_).bind fun v _ => trivial
  have hi' : strict → i < n := fun hs => (hk 0 (by decide)).2 hs ▸ hi
  refine ((hk 1 (by decide)).read hi').bind fun _ _ => ((hk 0 (by decide)).read hi').bind fun _ _ => ?_
  refine ((hk 2 (by decide)).read hi').bind fun _ _ => ((hk 1 (by decide)).read hi').bind fun _ _ => ?_
  exact ((hk 0 (by decide)).read hi').bind fun _ _ => trivial

theorem embeddedDifference_ends (hk : FlatBefore strict w n 6 k) :
    Ends (fun _ => True) (Regular strict) (embeddedDifference n k) := by
  refine maxOver_ends fun i hi => ?_
  refine (weightedSum_ends (fun j hj => hk j (lt_of_lt_of_le hj ?_)) hi).bind fun x _ => trivial
  rw [List.length_zipWith]
  decide

/-- the first column is flat -/
def FirstFlat (strict : Prop) (w : ℕ → ℝ) (n : ℕ) (m : Members ℝ) : Prop := Flat strict w n (m.k 0)

theorem setStage_zero {col : Vec ℝ} (hcol : Flat strict w n col) : Flat strict w n (setStage k 0 col 0) := by
  rw [show setStage k 0 col 0 = col from setStage_same k 0 col]
  exact hcol

theorem acceptA_on (hf : FlatRhs strict w n f) (hy : y.length = n) {a : Accepted ℝ} (h0 : Level w n c a.y0)
    (hEnd : Flat strict w n a.fEnd) (hk : FlatBefore strict w n 6 a.mem.k) :
    (acceptA cfg f tolerance t y a).Keeps (FirstFlat strict w n) (Level w n c) (Regular strict) := by
  unfold acceptA
  dsimp only
  have hr : Ends (fun r => Flat strict w n r.2) (Regular strict)
      (do return (← calcVn a.mem.k, ← column y.length a.fEnd (a.h * growthFactor tolerance a.an1))) := by
    rw [hy]
    exact (calcVn_ends hk).bind fun v _ => (hEnd.column _).bind fun col hcol => hcol
  split
  · rename_i e he
    exact ⟨hr.error he, hk 0 (by decide)⟩
  · rename_i vn1 first he
    have hfirst : Flat strict w n first := hr.ok he
    split
    · rename_i e hb
      exact ⟨(stabilityBlock_ends hf h0.1 _ _ _).error hb, setStage_zero (k := a.mem.k) hfirst⟩
    · rename_i m hb
      have hm : m.k = setStage a.mem.k 0 first := (stabilityBlock_ends hf h0.1 _ _ _).ok hb
      have hm0 : FirstFlat strict w n m := by rw [FirstFlat, hm]; exact setStage_zero hfirst
      refine ⟨?_, h0⟩
      split_ifs <;> exact hm0

theorem acceptB_on (hf : FlatRhs strict w n f) (hy : y.length = n) {a : Accepted ℝ} (h0 : Level w n c a.y0)
    (hEnd : Flat strict w n a.fEnd) (hk : FlatBefore strict w n 6 a.mem.k) :
    (acceptB cfg f tolerance t y a).Keeps (FirstFlat strict w n) (Level w n c) (Regular strict) := by
  unfold acceptB
  dsimp only
  have hr : Ends (fun r => Flat strict w n r.2.2) (Regular strict)
      (do return (← embeddedDifference y.length a.mem.k, ← calcVn a.mem.k,
        ← column y.length a.fEnd (a.h * growthFactor tolerance a.an1))) := by
    rw [hy]
    refine (embeddedDifference_ends hk).bind fun d _ => ?_
    exact (calcVn_ends hk).bind fun v _ => (hEnd.column _).bind fun col hcol => hcol
  split
  · rename_i e he
    exact ⟨hr.error he, hk 0 (by decide)⟩
  · rename_i d vn1 first he
    have hfirst : Flat strict w n first := hr.ok he
    split
    · rename_i e hb
      exact ⟨(stabilityBlock_ends hf h0.1 _ _ _).error hb, setStage_zero (k := a.mem.k) hfirst⟩
    · rename_i m hb
      have hm : m.k = setStage a.mem.k 0 first := (stabilityBlock_ends hf h0.1 _ _ _).ok hb
      have hm0 : Flat strict w n (m.k 0) := by rw [hm]; exact setStage_zero hfirst
      split
      · rename_i e hb2
        refine ⟨(stabilityBlock_ends hf h0.1 _ _ _).error hb2, ?_⟩
        unfold FirstFlat
        split_ifs <;> exact hm0
      · rename_i m2 hb2
        have hm2 := (stabilityBlock_ends hf h0.1 _ _ _).ok hb2
        refine ⟨?_, h0⟩
        unfold FirstFlat
        rw [hm2]
        split_ifs <;> exact hm0

theorem approachC_flat (hf : FlatRhs strict w n f) (hy : Level w n c y) (fuel : ℕ) {h : ℝ}
    (h0 : Flat strict w n (k 0)) {r : Except (Exn × Stages ℝ × ℝ) (Stages ℝ × ℝ)}
    (hr : approachC f tolerance t y fuel k h = some r) :
    Ends (fun r => FlatBefore strict w n 6 r.1) (LeftFlatH strict w n) r := by
  induction fuel generalizing k h with
  | zero => cases hr
  | succ fuel ih =>
    have hloop : Ends (FlatBefore strict w n 6) (LeftFlat strict w n) (stageLoop f t y h [1, 2, 3, 4, 5] k) :=
      stageLoop_flat hf hy 5 (by decide) (.first h0)
    unfold approachC at hr
    split at hr
    · rename_i e k1 he
      cases hr
      exact hloop.error he
    · rename_i k1 he
      have hk : FlatBefore strict w n 6 k1 := hloop.ok he
      rw [hy.1] at hr
      split at hr
      · rename_i e' he'
        cases hr
        exact ⟨(embeddedDifference_ends hk).error he', hk 0 (by decide)⟩
      · dsimp only at hr
        split_ifs at hr
        · exact ih (hk.scaleFirst _ 0 (by decide)) hr
        · cases hr
          exact hk

theorem stepDISPFC_on (hf : FlatRhs strict w n f) (hy : Level w n c y) (fuel : ℕ) {m : Members ℝ}
    (h0 : FirstFlat strict w n m) :
    (stepDISPFC cfg f tolerance fuel m t y h).Keeps (FirstFlat strict w n) (Level w n c) (Regular strict) := by
  have hcol : Ends (Flat strict w n) (Regular strict) (do column y.length (← f t y) h) := by
    rw [hy.1]
    exact (hf t y hy.1).bind fun v hv => hv.column h
  unfold stepDISPFC
  split
  · rename_i e he
    exact ⟨hcol.error he, h0⟩
  · rename_i first he
    have hfirst : Flat strict w n (setStage m.k 0 first 0) := setStage_zero (hcol.ok he)
    split
    · trivial
    · rename_i e k h1 hr
      exact approachC_flat hf hy fuel hfirst hr
    · rename_i k h1 hr
      have hk : FlatBefore strict w n 6 k := approachC_flat hf hy fuel hfirst hr
      have hk0 : Flat strict w n (k 0) := hk 0 (by decide)
      have hpoint : Ends (Level w n c) (Regular strict) (newPoint y k P36) :=
        newPoint_level hy fun j hj => hk j (lt_of_lt_of_le hj (by decide))
      dsimp only
      split
      · rename_i e hr1
        exact ⟨hpoint.error hr1, hk0⟩
      · rename_i y0 hr1
        have hy0 : Level w n c y0 := hpoint.ok hr1
        have hend : Ends (fun _ => True) (Regular strict) (endPointC f t y0 h1 k) := by
          unfold endPointC
          rw [hy0.1]
          refine (hf _ y0 hy0.1).bind fun ff hff => ?_
          exact (endDifference_ends hff hk0 h1).bind fun d _ => (calcVn_ends hk).bind fun v _ => trivial
        split
        · rename_i e hr2
          exact ⟨hend.error hr2, hk0⟩
        · split
          · rename_i e hb
            exact ⟨(stabilityBlock_ends hf hy0.1 _ _ _).error hb, hk0⟩
          · rename_i m' hb
            have hm' : m'.k = k := (stabilityBlock_ends hf hy0.1 _ _ _).ok hb
            have hm0 : FirstFlat strict w n m' := by rw [FirstFlat, hm']; exact hk0
            refine ⟨?_, hy0⟩
            split_ifs <;> exact hm0

theorem dispf_keeps (hf : FlatRhs strict w n f) (fuel : ℕ) :
    (driver cfg f tolerance fuel).Keeps (FirstFlat strict w n) (Level w n c) (Regular strict) where
  step := by
    intro m t y h h0 hy
    change (step cfg f tolerance fuel m t y h).Keeps _ _ _
    unfold step
    split
    · have ha : Approach.On strict w n c (approach formulaA f tolerance t y fuel m h) :=
        approach_on hf formulaA_point (by decide) hy fuel h h0
      unfold stepDISPFA
      cases hr : approach formulaA f tolerance t y fuel m h <;> rw [hr] at ha
      · exact acceptA_on hf hy.1 ha.1 ha.2.1 ha.2.2
      · exact ha
      · trivial
    · have ha : Approach.On strict w n c (approach formulaB f tolerance t y fuel m h) :=
        approach_on hf formulaB_point (by decide) hy fuel h h0
      unfold stepDISPFB
      cases hr : approach formulaB f tolerance t y fuel m h <;> rw [hr] at ha
      · exact acceptB_on hf hy.1 ha.1 ha.2.1 ha.2.2
      · exact ha
      · trivial
    · exact stepDISPFC_on hf hy fuel h0
  caught _ hc := by cases hc

/-- `Solve` fills the matrix of a fresh solver with zeros -/
theorem reset_firstFlat (I : ℤ) (n : ℕ) : FirstFlat strict w n (((construct I).reset n : Members ℝ)) := by
  have hzero : ((construct I).reset n : Members ℝ).k 0 = List.replicate n 0 := by
    simp [construct, Members.reset]
  rw [FirstFlat, hzero]
  exact ⟨dot_replicate w n n, fun _ => List.length_replicate⟩

end DISPF

end OdeClientServer.Levels
