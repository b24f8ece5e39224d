/-
`DISPFSolver`: three formulas over one table of six stages, of order 1 (DISPFA), 2 (DISPFB) and 5 (DISPFC), that switch
during a run.

The stage matrix k is a member. It is kept here by columns: `k j` is the vector of `k[i][j]` over the equations i.
StepDISPFA and StepDISPFB do not compute their first stage k[i][0]; they find it in the matrix. Both share the retry
structure and differ in their weights and limits, so `approach` is written once over a `Formula`. The loops end only in
an accepted attempt or an exception and take fuel here.

`Members.calls` is a ghost: the entries of StepDISPFA and StepDISPFB so far, with what each call starts from.
-/
import OdeClientServer.Solvers.Solver

namespace OdeClientServer.DISPFSolver

open Loop

inductive Method where
  | DISPFA
  | DISPFB
  | DISPFC
deriving DecidableEq, Repr

/-- the columns k[.][0], ..., k[.][5] -/
abbrev Stages (R : Type) := Fin 6 → Vec R

/-- what StepDISPFA or StepDISPFB is called with: t, y, h and the cached first stage -/
structure Call (R : Type) where
  t : R
  y : Vec R
  h : R
  first : Vec R

/-- the accepted attempt of a `Step`: its formula, its step length and the first stage it used -/
structure Attempt (R : Type) where
  method : Method
  h : R
  first : Vec R

/-- what the constructor fixes -/
structure Config (R : Type) where
  gamma : R
  variableOrder : Bool
  stabilityControlEnabled : Bool
  jacobianMethod : ℤ

structure Members (R : Type) where
  k : Stages R
  currentMethod : Method
  vnBreakCount : ℕ
  jumpToRadau5 : Bool
  calls : List (Call R)

section Model

variable {R : Type} [Field R] [LinearOrder R]

/-! ## Tables -/

def B : List (List R) :=
  [[1.0 / 4.0, 0, 0, 0, 0],
   [3.0 / 32.0, 9.0 / 32.0, 0, 0, 0],
   [1932.0 / 2197.0, -7200.0 / 2197.0, 7296.0 / 2197.0, 0, 0],
   [439.0 / 216.0, -8.0, 3680.0 / 513.0, -845.0 / 4104.0, 0],
   [-8.0 / 27.0, 2.0, -3544.0 / 2565.0, 1859.0 / 4104.0, -11.0 / 40.0]]

def P36 : List R := [16.0 / 135.0, 0.0, 6656.0 / 12825.0, 28561.0 / 56430.0, -9.0 / 50.0, 2.0 / 55.0]

def P4 : List R := [25.0 / 216.0, 0.0, 1408.0 / 2565.0, 2197.0 / 4104.0, -1.0 / 5.0, 0.0]

def P72 : List R :=
  [0.41975960186956, 0.44944365216575, 0.1296419611922, 0.0012199235635231, -0.000066250690732054,
   0.0000011118997045939]

def P28 : List R :=
  [-0.38402741318519, 0.28983442536296, 1.0619636598535, 0.036673230572343, -0.0046504806400000, 0.00020657863636364]

def aCoef : List R := [1.0 / 4.0, 3.0 / 8.0, 12.0 / 13.0, 1.0, 0.5]

def CA1A : R := 1.351851851851851851852
def CA1B : R := 0.314690666666666666667
def dCoef : R := 0.24
def q : R := 1.1
def MAXDOUBLE : R := 100.0e+300

/-! ## Stages -/

/-- `sum += w[j] * k[i][j]` over the entries of w -/
def weightedSum (w : List R) (k : Stages R) (i : ℕ) : Except Exn R :=
  (w.zip (List.ofFn k)).foldlM (fun sum p => do return sum + p.1 * (← read p.2 i)) 0

def stadScalar (k : Stages R) (eqNum stage : ℕ) : Except Exn R :=
  weightedSum ((B.getD (stage - 1) []).take stage) k eqNum

/-- `k[.][m] = col` -/
def setStage (k : Stages R) (m : ℕ) (col : Vec R) : Stages R := fun j => if j.val = m then col else k j

/-- `k[i][m] = fm[i] * h` -/
def column (n : ℕ) (fm : Vec R) (h : R) : Except Exn (Vec R) := tabulate n fun i => do return (← read fm i) * h

/-- `k[i][0] *= factor` -/
def scaleFirst (k : Stages R) (factor : R) : Stages R := setStage k 0 ((k 0).map (· * factor))

/-- `Y0[i] = y[i] + StadScalar(i, m)` -/
def stagePoint (y : Vec R) (k : Stages R) (m : ℕ) : Except Exn (Vec R) :=
  tabulate y.length fun i => do return (← read y i) + (← stadScalar k i m)

/-- `Y0[i] = y[i] + sum` over the weights p -/
def newPoint (y : Vec R) (k : Stages R) (p : List R) : Except Exn (Vec R) :=
  tabulate y.length fun i => do return (← read y i) + (← weightedSum p k i)

/-- the loop over the stages m; an exception leaves the columns computed before it -/
def stageLoop (f : Rhs R) (t : R) (y : Vec R) (h : R) : List ℕ → Stages R → Except (Exn × Stages R) (Stages R)
  | [], k => .ok k
  | m :: ms, k =>
    match (do
      let fm ← f (t + aCoef.getD (m - 1) 0 * h) (← stagePoint y k m)
      column y.length fm h) with
    | .error e => .error (e, k)
    | .ok col => stageLoop f t y h ms (setStage k m col)

/-- the largest `|a[i] * h - k[i][0]|` -/
def endDifference (n : ℕ) (a : Vec R) (h : R) (first : Vec R) : Except Exn R :=
  maxOver n fun i => do return |(← read a i) * h - (← read first i)|

def calcVn (k : Stages R) : Except Exn R := do
  let vn ← maxOver (k 0).length fun i => do
    let d := (← read (k 1) i) - (← read (k 0) i)
    let d := if |d| < 1e-15 then 1e-15 else d
    return |(32.0 * (← read (k 2) i) - 48.0 * (← read (k 1) i) + 16.0 * (← read (k 0) i)) / d|
  return vn / 9.0

/-- the error Cn1, before its factor 17/24: the largest `|sum of (P36[j] - P4[j]) * k[i][j]|` -/
def embeddedDifference (n : ℕ) (k : Stages R) : Except Exn R :=
  maxOver n fun i => do return |← weightedSum (List.zipWith (· - ·) P36 P4) k i|

/-! ## Stability control -/

/-- one power iteration: `x` and `lambda`, or none at the break on a zero norm -/
def powerStep (n : ℕ) (J : ℕ → ℕ → R) (x : ℕ → R) : Option ((ℕ → R) × R) :=
  let yVec : ℕ → R := fun i => (List.range n).foldl (fun s j => s + J i j * x j) 0
  let norm := (List.range n).foldl (fun m i => max m |yVec i|) 0
  if norm = 0 then none else some (fun i => yVec i / norm, norm)

def powerIteration (n : ℕ) (J : ℕ → ℕ → R) : ℕ → (ℕ → R) → R → R
  | 0, _, lambda => lambda
  | iter + 1, x, lambda =>
    match powerStep n J x with
    | none => lambda
    | some (x', norm) => powerIteration n J iter x' norm

def estimateJacobianEigenvalue (f : Rhs R) (jacobianMethod : ℤ) (t : R) (y : Vec R) : Except Exn R := do
  let n := y.length
  let f0 ← f t y
  let columns ← (List.range n).mapM fun j => do
    let fPert ← f t (y.modify j (· + 1e-8))
    tabulate n fun i => do return ((← read fPert i) - (← read f0 i)) / 1e-8
  let J : ℕ → ℕ → R := fun i j => (columns.getD j []).getD i 0
  if jacobianMethod = 2 then
    let sum := (List.range n).foldl (fun s i => s + (List.range n).foldl (fun m j => max m |J i j|) 0) 0
    return sum / n
  else
    return powerIteration n J 100 (fun _ => 1.0) 0

/-- the stability block of a step routine, with its interval length and its test on the new count -/
def stabilityBlock (cfg : Config R) (f : Rhs R) (t : R) (y : Vec R) (h length : R) (jump : ℕ → Bool)
    (m : Members R) : Except Exn (Members R) :=
  if cfg.stabilityControlEnabled then do
    let lambdaEst ← estimateJacobianEigenvalue f cfg.jacobianMethod t y
    if lambdaEst ≠ 0 ∧ (h * lambdaEst) / length < cfg.gamma then
      return { m with
        vnBreakCount := m.vnBreakCount + 1
        jumpToRadau5 := if jump (m.vnBreakCount + 1) then true else m.jumpToRadau5 }
    else return { m with vnBreakCount := 0 }
  else return m

variable [CMath R]

/-- the factor of h after a rejected attempt -/
def retryFactor (tolerance error : R) : R := min 0.9 (max 0.5 (CMath.pow (tolerance / error) (1.0 / 5.0)))

/-- the factor of h after an accepted attempt -/
def growthFactor (tolerance error : R) : R := clampTop 0.9 2.0 (powTop (quot tolerance error) (1.0 / 5.0))

/-- `(x != 0.0) ? c * Lnq * log(a / x) : MAXDOUBLE`, with Lnq = 1 / log(q). Exactly, q to the power MAXDOUBLE times 0
is 0; in doubles the power is infinite and the product a NaN, so the code stays in DISPFA when An1 and Vn1 are both 0 -/
def logQuot (c a x : R) : R := if x = 0 then MAXDOUBLE else c * (1.0 / CMath.log q) * CMath.log (a / x)

/-! ## StepDISPFA and StepDISPFB up to the accepted attempt -/

/-- what StepDISPFA and StepDISPFB put into their common loops -/
structure Formula (R : Type) where
  /-- the point of the second stage -/
  second : Vec R → Stages R → Except Exn (Vec R)
  /-- the factor of An and An1 -/
  coef : R
  p : List R

def formulaA : Formula R := ⟨fun y k => stagePoint y k 1, CA1A, P72⟩

def formulaB : Formula R :=
  ⟨fun y k => tabulate y.length fun i => do return (← read y i) + 1.0 / 4.0 * (← read (k 0) i), CA1B * dCoef, P28⟩

/-- the column of the second stage -/
def secondStage (F : Formula R) (f : Rhs R) (t : R) (y : Vec R) (h : R) (k : Stages R) : Except Exn (Vec R) := do
  let fStage ← f (t + 0.25 * h) (← F.second y k)
  column y.length fStage h

/-- the loop 1a-2a: it shrinks h and the first stage until An is within the tolerance -/
def predictor (F : Formula R) (f : Rhs R) (tolerance t : R) (y : Vec R) :
    ℕ → Stages R → R → Option (Except (Exn × Stages R × R) (Stages R × R))
  | 0, _, _ => none
  | fuel + 1, k, h =>
    match secondStage F f t y h k with
    | .error e => some (.error (e, k, h))
    | .ok col =>
      match maxOver y.length fun i => do return |(← read col i) - (← read (k 0) i)| with
      | .error e => some (.error (e, setStage k 1 col, h))
      | .ok d =>
        let an := d * F.coef
        if an > tolerance then
          predictor F f tolerance t y fuel (scaleFirst (setStage k 1 col) (retryFactor tolerance an))
            (h * retryFactor tolerance an)
        else some (.ok (setStage k 1 col, h))

/-- the new point, f at the end point, and An1 -/
def endPoint (F : Formula R) (f : Rhs R) (t : R) (y : Vec R) (h : R) (k : Stages R) :
    Except Exn (Vec R × Vec R × R) := do
  let y0 ← newPoint y k F.p
  let fEnd ← f (t + h) y0
  let d ← endDifference y.length fEnd h (k 0)
  return (y0, fEnd, d * F.coef)

/-- what an accepted attempt hands to the rest of its routine -/
structure Accepted (R : Type) where
  mem : Members R
  y0 : Vec R
  fEnd : Vec R
  an1 : R
  h : R

/-- the entry of a call, for the ghost record -/
def Members.enter (m : Members R) (t : R) (y : Vec R) (h : R) : Members R :=
  { m with calls := m.calls ++ [⟨t, y, h, m.k 0⟩] }

/-- how the search for an accepted attempt ends -/
inductive Approach (R : Type) where
  | accepted (a : Accepted R)
  | threw (e : Exn) (m : Members R) (h : R)
  | starved (m : Members R)

def Approach.mem : Approach R → Members R
  | .accepted a => a.mem
  | .threw _ m _ => m
  | .starved m => m

/-- StepDISPFA or StepDISPFB from its entry to its accepted attempt; a late rejection calls the routine again -/
def approach (F : Formula R) (f : Rhs R) (tolerance t : R) (y : Vec R) : ℕ → Members R → R → Approach R
  | 0, m, _ => .starved m
  | fuel + 1, m, h =>
    let m := m.enter t y h
    match predictor F f tolerance t y (fuel + 1) m.k h with
    | none => .starved m
    | some (.error (e, k, h)) => .threw e { m with k := k } h
    | some (.ok (k, h)) =>
      match stageLoop f t y h [2, 3, 4, 5] k with
      | .error (e, k) => .threw e { m with k := k } h
      | .ok k =>
        match endPoint F f t y h k with
        | .error e => .threw e { m with k := k } h
        | .ok (y0, fEnd, an1) =>
          if an1 > tolerance then
            approach F f tolerance t y fuel { m with k := scaleFirst k (retryFactor tolerance an1) }
              (h * retryFactor tolerance an1)
          else .accepted ⟨{ m with k := k }, y0, fEnd, an1, h⟩

/-! ## The step routines -/

/-- 7a: the accepted step of StepDISPFA -/
def acceptA (cfg : Config R) (f : Rhs R) (tolerance t : R) (y : Vec R) (a : Accepted R) :
    StepEnd (Members R) (Attempt R) R :=
  let vn := logQuot 0.5 tolerance a.an1
  let h := a.h * growthFactor tolerance a.an1
  match (do return (← calcVn a.mem.k, ← column y.length a.fEnd h)) with
  | .error e => .threw e a.mem a.y0 h
  | .ok (vn1, first) =>
    let rn := logQuot 1 72.0 vn1
    let m := { a.mem with k := setStage a.mem.k 0 first }
    match stabilityBlock cfg f (t + a.h) a.y0 h 72.0 (fun count => count > 40) m with
    | .error e => .threw e m a.y0 h
    | .ok m =>
      let m :=
        if cfg.variableOrder ∧ CMath.pow q (min vn rn) * vn1 < 28.5 then { m with currentMethod := .DISPFB }
        else m
      .returned m a.y0 h ⟨.DISPFA, a.h, a.mem.k 0⟩

/-- the stability block stands twice in StepDISPFB, before and after the choice of the method -/
def acceptB (cfg : Config R) (f : Rhs R) (tolerance t : R) (y : Vec R) (a : Accepted R) :
    StepEnd (Members R) (Attempt R) R :=
  let vn := logQuot 0.5 tolerance a.an1
  let h := a.h * growthFactor tolerance a.an1
  match (do return (← embeddedDifference y.length a.mem.k, ← calcVn a.mem.k, ← column y.length a.fEnd h)) with
  | .error e => .threw e a.mem a.y0 h
  | .ok (d, vn1, first) =>
    let cn1 := d * (17.0 / 24.0)
    let rn := logQuot 1 28.5 vn1
    let m := { a.mem with k := setStage a.mem.k 0 first }
    match stabilityBlock cfg f (t + a.h) a.y0 h 28.5 (fun count => count > 40) m with
    | .error e => .threw e m a.y0 h
    | .ok m =>
      let qn1 := CMath.pow q vn
      let qn2 := CMath.pow q (min vn rn)
      let m :=
        if cfg.variableOrder then
          if qn1 * vn1 > 28.5 ∧ CMath.pow qn2 2.0 * a.an1 ≤ tolerance then { m with currentMethod := .DISPFA }
          else if qn1 ≤ 3.6 ∧ CMath.pow qn2 6.0 * cn1 ≤ tolerance then { m with currentMethod := .DISPFC }
          else m
        else m
      match stabilityBlock cfg f (t + a.h) a.y0 h 28.5 (fun count => count > 40) m with
      | .error e => .threw e m a.y0 h
      | .ok m => .returned m a.y0 h ⟨.DISPFB, a.h, a.mem.k 0⟩

def stepDISPFA (cfg : Config R) (f : Rhs R) (tolerance : R) (fuel : ℕ) (m : Members R) (t : R) (y : Vec R) (h : R) :
    StepEnd (Members R) (Attempt R) R :=
  match approach formulaA f tolerance t y fuel m h with
  | .starved m => .starved m
  | .threw e m h => .threw e m y h
  | .accepted a => acceptA cfg f tolerance t y a

def stepDISPFB (cfg : Config R) (f : Rhs R) (tolerance : R) (fuel : ℕ) (m : Members R) (t : R) (y : Vec R) (h : R) :
    StepEnd (Members R) (Attempt R) R :=
  match approach formulaB f tolerance t y fuel m h with
  | .starved m => .starved m
  | .threw e m h => .threw e m y h
  | .accepted a => acceptB cfg f tolerance t y a

/-- the stages 2 to 6 and Cn1 of StepDISPFC, repeated with a smaller h and first stage until Cn1 is within the
tolerance -/
def approachC (f : Rhs R) (tolerance t : R) (y : Vec R) :
    ℕ → Stages R → R → Option (Except (Exn × Stages R × R) (Stages R × R))
  | 0, _, _ => none
  | fuel + 1, k, h =>
    match stageLoop f t y h [1, 2, 3, 4, 5] k with
    | .error (e, k) => some (.error (e, k, h))
    | .ok k =>
      match embeddedDifference y.length k with
      | .error e => some (.error (e, k, h))
      | .ok d =>
        let cn1 := d * (17.0 / 24.0)
        if cn1 > tolerance then
          approachC f tolerance t y fuel (scaleFirst k (retryFactor tolerance cn1)) (h * retryFactor tolerance cn1)
        else some (.ok (k, h))

/-- the accepted step of StepDISPFC, after the new y is known: f at the end point, An1 and Vn -/
def endPointC (f : Rhs R) (t : R) (y0 : Vec R) (h : R) (k : Stages R) : Except Exn (R × R) := do
  let ff ← f (t + h) y0
  let d ← endDifference y0.length ff h (k 0)
  return (d * (CA1B * dCoef), ← calcVn k)

def stepDISPFC (cfg : Config R) (f : Rhs R) (tolerance : R) (fuel : ℕ) (m : Members R) (t : R) (y : Vec R) (h : R) :
    StepEnd (Members R) (Attempt R) R :=
  match (do column y.length (← f t y) h) with
  | .error e => .threw e m y h
  | .ok first =>
    match approachC f tolerance t y fuel (setStage m.k 0 first) h with
    | none => .starved m
    | some (.error (e, k, h)) => .threw e { m with k := k } y h
    | some (.ok (k, h)) =>
      let m := { m with k := k }
      match newPoint y k P36 with
      | .error e => .threw e m y h
      | .ok y0 =>
        match endPointC f t y0 h k with
        | .error e => .threw e m y0 h
        | .ok (an1, vn) =>
          match stabilityBlock cfg f (t + h) y0 h 72.0 (fun count => count ≥ 35) m with
          | .error e => .threw e m y0 h
          | .ok m =>
            let m := if cfg.variableOrder ∧ vn > 3.6 ∧ an1 ≤ tolerance then { m with currentMethod := .DISPFB } else m
            .returned m y0 (h * growthFactor tolerance an1) ⟨.DISPFC, h, k 0⟩

def step (cfg : Config R) (f : Rhs R) (tolerance : R) (fuel : ℕ) (m : Members R) (t : R) (y : Vec R) (h : R) :
    StepEnd (Members R) (Attempt R) R :=
  match m.currentMethod with
  | .DISPFA => stepDISPFA cfg f tolerance fuel m t y h
  | .DISPFB => stepDISPFB cfg f tolerance fuel m t y h
  | .DISPFC => stepDISPFC cfg f tolerance fuel m t y h

/-! ## Construction and Solve -/

/-- the constructor's part that depends on gamma, I, J and K; with J ≠ 0 the Jacobian method is never read -/
def config (gamma : R) (I J K : ℤ) : Config R := ⟨gamma, I = 0, J = 0, K⟩

/-- the members of a freshly constructed solver -/
def construct (I : ℤ) : Members R where
  k _ := []
  currentMethod := if I = 1 then .DISPFA else if I = 2 then .DISPFB else if I = 5 then .DISPFC else .DISPFA
  vnBreakCount := 0
  jumpToRadau5 := false
  calls := []

/-- the resets at the start of `Solve`; `k.resize` keeps the rows that are there -/
def Members.reset (m : Members R) (n : ℕ) : Members R :=
  { m with
    vnBreakCount := 0
    jumpToRadau5 := false
    k := fun j => (m.k j).take n ++ List.replicate (n - (m.k j).length) 0 }

def driver (cfg : Config R) (f : Rhs R) (tolerance : R) (fuel : ℕ) : Driver (Members R) (Attempt R) R where
  clip t h tEnd := if t + h > tEnd then tEnd - t else h
  tiny _ := false
  step := step cfg f tolerance fuel
  stops m rest h := m.jumpToRadau5 ∧ cfg.gamma ≠ 0 ∧ rest > h
  catches _ := false
  rejected s _ _ := s

/-- at most n passes of `Solve` on a solver with members m -/
def solve (cfg : Config R) (m : Members R) (f : Rhs R) (stepSize t0 : R) (y0 : Vec R) (tEnd tolerance : R)
    (fuel n : ℕ) : Pass Exn (RunState (Members R) (Attempt R) R) :=
  run ((driver cfg f tolerance fuel).body tEnd) n (start (m.reset y0.length) t0 y0 stepSize)

/-! ## One attempt on its own

An attempt depends on the matrix through its first column only. -/

/-- the new value, f there and An1 of an attempt of StepDISPFA or StepDISPFB -/
def trial (F : Formula R) (f : Rhs R) (t : R) (y : Vec R) (h : R) (first : Vec R) : Except Exn (Vec R × Vec R × R) := do
  let k := setStage (fun _ => []) 0 first
  let col ← secondStage F f t y h k
  match stageLoop f t y h [2, 3, 4, 5] (setStage k 1 col) with
  | .error (e, _) => .error e
  | .ok k => endPoint F f t y h k

/-- the new value and An1 of an attempt of StepDISPFC -/
def trialC (f : Rhs R) (t : R) (y : Vec R) (h : R) (first : Vec R) : Except Exn (Vec R × R) :=
  match stageLoop f t y h [1, 2, 3, 4, 5] (setStage (fun _ => []) 0 first) with
  | .error (e, _) => .error e
  | .ok k => do
    let y0 ← newPoint y k P36
    let (an1, _) ← endPointC f t y0 h k
    return (y0, an1)

/-- the new value and An1 of an attempt -/
def Method.trial (method : Method) (f : Rhs R) (t : R) (y : Vec R) (h : R) (first : Vec R) : Except Exn (Vec R × R) :=
  match method with
  | .DISPFA => do
    let (y0, _, an1) ← DISPFSolver.trial formulaA f t y h first
    return (y0, an1)
  | .DISPFB => do
    let (y0, _, an1) ← DISPFSolver.trial formulaB f t y h first
    return (y0, an1)
  | .DISPFC => trialC f t y h first

end Model

/-! ## The stage matrix -/

section Matrix

variable {k k' : Stages ℝ} {f : Rhs ℝ} {t h : ℝ} {y : Vec ℝ}

theorem setStage_same (k : Stages ℝ) (j : Fin 6) (col : Vec ℝ) : setStage k j col j = col := if_pos rfl

theorem setStage_of_ne (k : Stages ℝ) {m : ℕ} {j : Fin 6} (hj : j.val ≠ m) (col : Vec ℝ) : setStage k m col j = k j :=
  if_neg hj

/-- a sum over the first columns depends on these only -/
theorem weightedSum_congr {w : List ℝ} (hk : ∀ j : Fin 6, j.val < w.length → k j = k' j) (i : ℕ) :
    weightedSum w k i = weightedSum w k' i := by
  have hzip : w.zip (List.ofFn k) = w.zip (List.ofFn k') := by
    apply List.ext_getElem (by simp)
    intro j h1 h2
    simp only [List.length_zip, List.length_ofFn] at h1
    simp only [List.getElem_zip, List.getElem_ofFn]
    rw [hk ⟨j, by omega⟩ (by simp; omega)]
  rw [weightedSum, weightedSum, hzip]

theorem stagePoint_congr {m : ℕ} (hk : ∀ j : Fin 6, j.val < m → k j = k' j) : stagePoint y k m = stagePoint y k' m := by
  unfold stagePoint stadScalar
  congr 1
  funext i
  rw [weightedSum_congr fun j hj => hk j (lt_of_lt_of_le hj (List.length_take_le _ _))]

/-- the stage loop leaves the columns before its first stage -/
theorem stageLoop_before {m r : ℕ} {k1 : Stages ℝ} (hs : stageLoop f t y h (List.range' m r) k = .ok k1)
    {j : Fin 6} (hj : j.val < m) : k1 j = k j := by
  induction r generalizing m k with
  | zero => cases hs; rfl
  | succ r ih =>
    simp only [List.range'_succ, stageLoop] at hs
    split at hs
    · cases hs
    · rw [ih hs (by omega), setStage_of_ne k (by omega)]

/-- the stage loop depends on the columns before its first stage only -/
theorem stageLoop_congr {m r : ℕ} {k1 : Stages ℝ} (hk : ∀ j : Fin 6, j.val < m → k j = k' j)
    (hs : stageLoop f t y h (List.range' m r) k = .ok k1) :
    ∃ k1', stageLoop f t y h (List.range' m r) k' = .ok k1' ∧ ∀ j : Fin 6, j.val < m + r → k1' j = k1 j := by
  induction r generalizing m k k' with
  | zero => cases hs; exact ⟨k', rfl, fun j hj => (hk j hj).symm⟩
  | succ r ih =>
    simp only [List.range'_succ, stageLoop] at hs ⊢
    rw [← stagePoint_congr hk]
    split at hs
    · cases hs
    · rename_i col _
      have hset : ∀ j : Fin 6, j.val < m + 1 → setStage k m col j = setStage k' m col j := by
        intro j hj
        rcases Nat.lt_succ_iff_lt_or_eq.1 hj with hlt | rfl
        · rw [setStage_of_ne k hlt.ne, setStage_of_ne k' hlt.ne, hk j hlt]
        · rw [setStage_same, setStage_same]
      obtain ⟨k1', h1, h2⟩ := ih hset hs
      exact ⟨k1', h1, fun j hj => h2 j (by omega)⟩

/-- a stage loop up to the last column gives the whole matrix -/
theorem stageLoop_full {m r : ℕ} {k1 : Stages ℝ} (hmr : m + r = 6) (hk : ∀ j : Fin 6, j.val < m → k j = k' j)
    (hs : stageLoop f t y h (List.range' m r) k = .ok k1) : stageLoop f t y h (List.range' m r) k' = .ok k1 := by
  obtain ⟨k1', h1, h2⟩ := stageLoop_congr hk hs
  rw [h1, show k1' = k1 from funext fun j => h2 j (by omega)]

end Matrix

/-! ## Step length and first stage

Every retry multiplies h and the first stage by the same factor. -/

/-- (first', h') is (first, h) times one factor that is positive and at most 1 -/
def Scaled (first : Vec ℝ) (h : ℝ) (first' : Vec ℝ) (h' : ℝ) : Prop :=
  ∃ c, 0 < c ∧ c ≤ 1 ∧ first' = first.map (· * c) ∧ h' = h * c

theorem Scaled.refl (first : Vec ℝ) (h : ℝ) : Scaled first h first h :=
  ⟨1, one_pos, le_rfl, by simp, (mul_one h).symm⟩

theorem Scaled.trans {a b c : Vec ℝ} {h1 h2 h3 : ℝ} (hab : Scaled a h1 b h2) (hbc : Scaled b h2 c h3) :
    Scaled a h1 c h3 := by
  obtain ⟨r, hr0, hr1, rfl, rfl⟩ := hab
  obtain ⟨s, hs0, hs1, rfl, rfl⟩ := hbc
  refine ⟨r * s, mul_pos hr0 hs0, mul_le_one₀ hr1 hs0.le hs1, ?_, mul_assoc h1 r s⟩
  simp only [List.map_map, Function.comp_def, mul_assoc]

theorem Scaled.pos {a b : Vec ℝ} {h h' : ℝ} (hs : Scaled a h b h') (hh : 0 < h) : 0 < h' ∧ h' ≤ h := by
  obtain ⟨c, hc0, hc1, -, rfl⟩ := hs
  exact ⟨mul_pos hh hc0, mul_le_of_le_one_right hh.le hc1⟩

theorem retryFactor_pos (tolerance error : ℝ) : 0 < retryFactor tolerance error :=
  lt_min (by norm_num) (lt_max_of_lt_left (by norm_num))

theorem retryFactor_le_one (tolerance error : ℝ) : retryFactor tolerance error ≤ 1 :=
  (min_le_left _ _).trans (by norm_num)

theorem scaled_retry (first : Vec ℝ) (h tolerance error : ℝ) :
    Scaled first h (first.map (· * retryFactor tolerance error)) (h * retryFactor tolerance error) :=
  ⟨_, retryFactor_pos _ _, retryFactor_le_one _ _, rfl, rfl⟩

theorem scaleFirst_zero (k : Stages ℝ) (c : ℝ) : scaleFirst k c 0 = (k 0).map (· * c) := setStage_same k 0 _

theorem growthFactor_pos (tolerance error : ℝ) : 0 < growthFactor tolerance error :=
  clampTop_pos (by norm_num) (by norm_num) _

/-- the growth factor is 1 for exactly one An1 -/
theorem growthFactor_eq_one {tolerance error : ℝ} (htol : 0 < tolerance) (he : 0 ≤ error) :
    growthFactor tolerance error = 1 ↔ error = tolerance := by
  have h : clampTop 0.9 2.0 (mulTop 1 (powTop (quot tolerance error) (1.0 / 5.0))) = 1 ↔ error = 1 ^ 5 * tolerance :=
    clampTop_ratio_eq_one one_pos htol he (by norm_num) (by norm_num) (by norm_num) (by norm_num)
  rwa [mulTop_one, one_pow, one_mul] at h

/-! ## The search for an accepted attempt -/

section Search

variable {F : Formula ℝ} {f : Rhs ℝ} {tolerance t h : ℝ} {y : Vec ℝ} {k : Stages ℝ}

/-- what the common loops need of a formula -/
structure Formula.Valid (F : Formula ℝ) : Prop where
  second_congr : ∀ {y : Vec ℝ} {k k' : Stages ℝ}, k 0 = k' 0 → F.second y k = F.second y k'
  coef_nonneg : 0 ≤ F.coef

theorem formulaA_valid : formulaA.Valid where
  second_congr := by
    intro y k k' hk
    refine stagePoint_congr fun j hj => ?_
    rwa [show j = 0 from Fin.ext (by omega)]
  coef_nonneg := by norm_num [formulaA, CA1A]

theorem formulaB_valid : formulaB.Valid where
  second_congr := by
    intro y k k' hk
    simp only [formulaB, hk]
  coef_nonneg := by norm_num [formulaB, CA1B, dCoef]

theorem secondStage_congr (hF : F.Valid) {k' : Stages ℝ} (hk : k 0 = k' 0) :
    secondStage F f t y h k = secondStage F f t y h k' := by
  rw [secondStage, secondStage, hF.second_congr hk]

/-- the loop 1a-2a scales h and the first stage, and leaves the second stage of its last pass -/
theorem predictor_ok {fuel : ℕ} {k' : Stages ℝ} {h' : ℝ} (hF : F.Valid)
    (hp : predictor F f tolerance t y fuel k h = some (.ok (k', h'))) :
    Scaled (k 0) h (k' 0) h' ∧ secondStage F f t y h' k' = .ok (k' 1) := by
  induction fuel generalizing k h with
  | zero => cases hp
  | succ fuel ih =>
    unfold predictor at hp
    split at hp
    · cases hp
    · rename_i col hcol
      have hsame : setStage k 1 col 0 = k 0 := setStage_of_ne k (by decide) col
      split at hp
      · cases hp
      · dsimp only at hp
        split_ifs at hp
        · obtain ⟨h1, h2⟩ := ih hp
          rw [scaleFirst_zero, hsame] at h1
          exact ⟨(scaled_retry _ _ _ _).trans h1, h2⟩
        · cases hp
          refine ⟨hsame ▸ Scaled.refl _ _, ?_⟩
          rw [secondStage_congr hF hsame, hcol]
          exact congrArg _ (setStage_same k 1 col).symm

theorem endPoint_nonneg {r : Vec ℝ × Vec ℝ × ℝ} (hF : F.Valid) (hr : endPoint F f t y h k = .ok r) : 0 ≤ r.2.2 := by
  obtain ⟨_, -, hr⟩ := bind_eq_ok.1 hr
  obtain ⟨_, -, hr⟩ := bind_eq_ok.1 hr
  obtain ⟨_, hd, hr⟩ := bind_eq_ok.1 hr
  cases hr
  exact mul_nonneg (maxOver_nonneg hd) hF.coef_nonneg

/-- what the accepted attempt a of a call from (t, y, h) and first stage `first` is -/
structure Accepted.Spec (a : Accepted ℝ) (F : Formula ℝ) (f : Rhs ℝ) (tolerance t : ℝ) (y : Vec ℝ) (first : Vec ℝ)
    (h : ℝ) : Prop where
  scaled : Scaled first h (a.mem.k 0) a.h
  trial_eq : trial F f t y a.h (a.mem.k 0) = .ok (a.y0, a.fEnd, a.an1)
  nonneg : 0 ≤ a.an1
  within : a.an1 ≤ tolerance

/-- **Accepted attempt.** Whatever retries and recursive calls came before, the accepted attempt is one attempt with its
own step length and first stage, both scaled by the same factor. -/
theorem approach_accepted {fuel : ℕ} {m : Members ℝ} {a : Accepted ℝ} (hF : F.Valid)
    (ha : approach F f tolerance t y fuel m h = .accepted a) :
    a.Spec F f tolerance t y (m.k 0) h ∧ a.mem.currentMethod = m.currentMethod := by
  induction fuel generalizing m h with
  | zero => cases ha
  | succ fuel ih =>
    unfold approach at ha
    dsimp only at ha
    split at ha
    · cases ha
    · cases ha
    · rename_i k1 h1 hp
      obtain ⟨hscaled, hsecond⟩ := predictor_ok hF hp
      split at ha
      · cases ha
      · rename_i k2 hs
        have hfirst : k2 0 = k1 0 := stageLoop_before (m := 2) (r := 4) hs (by decide)
        split at ha
        · cases ha
        · rename_i y0 fEnd an1 he
          split_ifs at ha with htol
          · obtain ⟨h2, hm⟩ := ih ha
            refine ⟨{ h2 with scaled := ?_ }, hm⟩
            have hsc := h2.scaled
            simp only [scaleFirst_zero, hfirst] at hsc
            exact hscaled.trans ((scaled_retry _ _ _ _).trans hsc)
          · cases ha
            refine ⟨⟨by dsimp only; rw [hfirst]; exact hscaled, ?_, endPoint_nonneg hF he, not_lt.1 htol⟩, rfl⟩
            -- the attempt again, from a matrix that holds the first stage only
            have h0 : setStage (fun _ => []) 0 (k2 0) 0 = k1 0 := hfirst ▸ setStage_same (fun _ => []) 0 (k2 0)
            have hk : ∀ j : Fin 6, j.val < 2 →
                k1 j = setStage (setStage (fun _ => []) 0 (k2 0)) 1 (k1 1) j := by
              intro j hj
              rcases Nat.lt_succ_iff_lt_or_eq.1 hj with hlt | hj1
              · rw [show j = 0 from Fin.ext (by omega), setStage_of_ne _ (by decide), h0]
              · rw [show j = 1 from Fin.ext hj1]; exact (setStage_same _ 1 _).symm
            have hfull := stageLoop_full (m := 2) (r := 4) rfl hk hs
            dsimp only
            rw [trial, secondStage_congr hF h0, hsecond, ok_bind]
            rw [show [2, 3, 4, 5] = List.range' 2 4 from rfl, hfull]
            exact he

/-- **Entries of a call.** The calls that a call of StepDISPFA or StepDISPFB records are itself and its recursive calls:
all from the same (t, y), with h and the first stage scaled by the same factor. -/
theorem approach_calls (hF : F.Valid) (fuel : ℕ) (m : Members ℝ) (h : ℝ) :
    ∃ new, (approach F f tolerance t y fuel m h).mem.calls = m.calls ++ new ∧
      (∀ c ∈ new, c.t = t ∧ c.y = y ∧ Scaled (m.k 0) h c.first c.h) ∧ (0 < fuel → ⟨t, y, h, m.k 0⟩ ∈ new) := by
  induction fuel generalizing m h with
  | zero => exact ⟨[], by simp [approach, Approach.mem], by simp, fun h0 => absurd h0 (lt_irrefl 0)⟩
  | succ fuel ih =>
    -- every end without a recursive call records the entry only
    have hentry : ∃ new, (m.enter t y h).calls = m.calls ++ new ∧
        (∀ c ∈ new, c.t = t ∧ c.y = y ∧ Scaled (m.k 0) h c.first c.h) ∧ (0 < fuel + 1 → ⟨t, y, h, m.k 0⟩ ∈ new) := by
      refine ⟨[⟨t, y, h, m.k 0⟩], rfl, ?_, fun _ => List.mem_singleton_self _⟩
      rintro c hc
      rw [List.mem_singleton] at hc
      subst hc
      exact ⟨rfl, rfl, Scaled.refl _ _⟩
    unfold approach
    dsimp only
    split
    · exact hentry
    · exact hentry
    · rename_i k1 h1 hp
      obtain ⟨hscaled, -⟩ := predictor_ok hF hp
      split
      · exact hentry
      · rename_i k2 hs
        have hfirst : k2 0 = k1 0 := stageLoop_before (m := 2) (r := 4) hs (by decide)
        split
        · exact hentry
        · rename_i y0 fEnd an1 he
          split_ifs with htol
          · obtain ⟨new, hnew, hall, -⟩ := ih { m.enter t y h with k := scaleFirst k2 (retryFactor tolerance an1) }
              (h1 * retryFactor tolerance an1)
            obtain ⟨first, hfirstCalls, hentryAll, hmem⟩ := hentry
            refine ⟨first ++ new, ?_, ?_, fun h0 => List.mem_append_left _ (hmem h0)⟩
            · rw [hnew, ← List.append_assoc, ← hfirstCalls]
            · intro c hc
              rcases List.mem_append.1 hc with hc | hc
              · exact hentryAll c hc
              · obtain ⟨hct, hcy, hcs⟩ := hall c hc
                simp only [scaleFirst_zero, hfirst] at hcs
                exact ⟨hct, hcy, hscaled.trans ((scaled_retry _ _ _ _).trans hcs)⟩
          · exact hentry

/-- the loop of StepDISPFC scales h and the first stage, and leaves the stages of its last pass -/
theorem approachC_ok {fuel : ℕ} {k' : Stages ℝ} {h' : ℝ}
    (hp : approachC f tolerance t y fuel k h = some (.ok (k', h'))) :
    Scaled (k 0) h (k' 0) h' ∧ stageLoop f t y h' [1, 2, 3, 4, 5] (setStage (fun _ => []) 0 (k' 0)) = .ok k' := by
  induction fuel generalizing k h with
  | zero => cases hp
  | succ fuel ih =>
    unfold approachC at hp
    split at hp
    · cases hp
    · rename_i k1 hs
      have hfirst : k1 0 = k 0 := stageLoop_before (m := 1) (r := 5) hs (by decide)
      split at hp
      · cases hp
      · dsimp only at hp
        split_ifs at hp
        · obtain ⟨h1, h2⟩ := ih hp
          rw [scaleFirst_zero, hfirst] at h1
          exact ⟨(scaled_retry _ _ _ _).trans h1, h2⟩
        · cases hp
          refine ⟨hfirst ▸ Scaled.refl _ _, stageLoop_full (m := 1) (r := 5) rfl ?_ hs⟩
          intro j hj
          rw [show j = 0 from Fin.ext (by omega), hfirst]
          exact (setStage_same _ 0 _).symm

end Search

/-! ## The length of the new state -/

theorem trial_length {F : Formula ℝ} {f : Rhs ℝ} {t h : ℝ} {y first : Vec ℝ} {r : Vec ℝ × Vec ℝ × ℝ}
    (hr : trial F f t y h first = .ok r) : r.1.length = y.length := by
  unfold trial at hr
  obtain ⟨_, -, hr⟩ := bind_eq_ok.1 hr
  split at hr
  · cases hr
  · obtain ⟨y0, hy0, hr⟩ := bind_eq_ok.1 hr
    obtain ⟨_, -, hr⟩ := bind_eq_ok.1 hr
    obtain ⟨_, -, hr⟩ := bind_eq_ok.1 hr
    cases hr
    exact tabulate_length hy0

theorem trialC_length {f : Rhs ℝ} {t h : ℝ} {y first : Vec ℝ} {r : Vec ℝ × ℝ}
    (hr : trialC f t y h first = .ok r) : r.1.length = y.length := by
  unfold trialC at hr
  split at hr
  · cases hr
  · obtain ⟨y0, hy0, hr⟩ := bind_eq_ok.1 hr
    obtain ⟨_, -, hr⟩ := bind_eq_ok.1 hr
    cases hr
    exact tabulate_length hy0

theorem Method.trial_length {method : Method} {f : Rhs ℝ} {t h : ℝ} {y first : Vec ℝ} {r : Vec ℝ × ℝ}
    (hr : method.trial f t y h first = .ok r) : r.1.length = y.length := by
  cases method with
  | DISPFA =>
    obtain ⟨_, ht, hr⟩ := bind_eq_ok.1 hr
    cases hr
    exact DISPFSolver.trial_length ht
  | DISPFB =>
    obtain ⟨_, ht, hr⟩ := bind_eq_ok.1 hr
    cases hr
    exact DISPFSolver.trial_length ht
  | DISPFC => exact trialC_length hr

/-! ## The step routines -/

section Step

variable {cfg : Config ℝ} {f : Rhs ℝ} {tolerance t h : ℝ} {y : Vec ℝ}

/-- the stability block touches its count and its flag only -/
theorem stabilityBlock_ok {length : ℝ} {jump : ℕ → Bool} {m m' : Members ℝ}
    (hs : stabilityBlock cfg f t y h length jump m = .ok m') :
    m'.k = m.k ∧ m'.currentMethod = m.currentMethod ∧ m'.calls = m.calls := by
  unfold stabilityBlock at hs
  by_cases hc : cfg.stabilityControlEnabled = true
  · rw [if_pos hc] at hs
    obtain ⟨l, -, hs⟩ := bind_eq_ok.1 hs
    split_ifs at hs <;> cases hs <;> exact ⟨rfl, rfl, rfl⟩
  · rw [if_neg hc] at hs
    cases hs
    exact ⟨rfl, rfl, rfl⟩

/-- the rest of StepDISPFA, when it returns: one stability block, and after it the choice of the method -/
theorem acceptA_cases {a : Accepted ℝ} {m' : Members ℝ} {y' : Vec ℝ} {h' : ℝ} {g : Attempt ℝ}
    (hs : acceptA cfg f tolerance t y a = .returned m' y' h' g) :
    y' = a.y0 ∧ h' = a.h * growthFactor tolerance a.an1 ∧ g = ⟨.DISPFA, a.h, a.mem.k 0⟩ ∧
      ∃ first m1 method, column y.length a.fEnd h' = .ok first ∧
        stabilityBlock cfg f (t + a.h) a.y0 h' 72.0 (fun count => count > 40)
          { a.mem with k := setStage a.mem.k 0 first } = .ok m1 ∧
        (cfg.variableOrder = false → method = m1.currentMethod) ∧ m' = { m1 with currentMethod := method } := by
  unfold acceptA at hs
  dsimp only at hs
  split at hs
  · cases hs
  · rename_i vn1 first hf
    obtain ⟨_, -, hf⟩ := bind_eq_ok.1 hf
    obtain ⟨_, hcol, hf⟩ := bind_eq_ok.1 hf
    cases hf
    split at hs
    · cases hs
    · rename_i m1 hm
      cases hs
      split_ifs with hchoice
      · have hvariable : cfg.variableOrder = false → Method.DISPFB = m1.currentMethod := fun hv =>
          absurd (hv.symm.trans hchoice.1) Bool.false_ne_true
        exact ⟨rfl, rfl, rfl, first, m1, .DISPFB, hcol, hm, hvariable, rfl⟩
      · exact ⟨rfl, rfl, rfl, first, m1, m1.currentMethod, hcol, hm, fun _ => rfl, rfl⟩

/-- the rest of StepDISPFB, when it returns: a stability block, the choice of the method, and the block again -/
theorem acceptB_cases {a : Accepted ℝ} {m' : Members ℝ} {y' : Vec ℝ} {h' : ℝ} {g : Attempt ℝ}
    (hs : acceptB cfg f tolerance t y a = .returned m' y' h' g) :
    y' = a.y0 ∧ h' = a.h * growthFactor tolerance a.an1 ∧ g = ⟨.DISPFB, a.h, a.mem.k 0⟩ ∧
      ∃ first m1 method, column y.length a.fEnd h' = .ok first ∧
        stabilityBlock cfg f (t + a.h) a.y0 h' 28.5 (fun count => count > 40)
          { a.mem with k := setStage a.mem.k 0 first } = .ok m1 ∧
        stabilityBlock cfg f (t + a.h) a.y0 h' 28.5 (fun count => count > 40) { m1 with currentMethod := method } =
          .ok m' := by
  unfold acceptB at hs
  dsimp only at hs
  split at hs
  · cases hs
  · rename_i d vn1 first hf
    obtain ⟨_, -, hf⟩ := bind_eq_ok.1 hf
    obtain ⟨_, -, hf⟩ := bind_eq_ok.1 hf
    obtain ⟨_, hcol, hf⟩ := bind_eq_ok.1 hf
    cases hf
    split at hs
    · cases hs
    · rename_i m1 hm
      split at hs
      · cases hs
      · rename_i m2 hm2
        cases hs
        split_ifs at hm2
        · exact ⟨rfl, rfl, rfl, first, m1, .DISPFA, hcol, hm, hm2⟩
        · exact ⟨rfl, rfl, rfl, first, m1, .DISPFC, hcol, hm, hm2⟩
        · exact ⟨rfl, rfl, rfl, first, m1, m1.currentMethod, hcol, hm, hm2⟩
        · exact ⟨rfl, rfl, rfl, first, m1, m1.currentMethod, hcol, hm, hm2⟩

/-- what an accepted step does with the accepted attempt: the cached first stage is f at the end of the attempt times
the new step length -/
theorem acceptA_returned {a : Accepted ℝ} {m' : Members ℝ} {y' : Vec ℝ} {h' : ℝ} {g : Attempt ℝ}
    (hs : acceptA cfg f tolerance t y a = .returned m' y' h' g) :
    y' = a.y0 ∧ h' = a.h * growthFactor tolerance a.an1 ∧ g = ⟨.DISPFA, a.h, a.mem.k 0⟩ ∧
      column y.length a.fEnd h' = .ok (m'.k 0) := by
  obtain ⟨hy, hh, hg, first, m1, method, hcol, hm, -, rfl⟩ := acceptA_cases hs
  obtain ⟨hk, -, -⟩ := stabilityBlock_ok hm
  have hfirst : m1.k 0 = first := by rw [hk]; exact setStage_same a.mem.k 0 first
  exact ⟨hy, hh, hg, hcol.trans (congrArg _ hfirst.symm)⟩

theorem acceptB_returned {a : Accepted ℝ} {m' : Members ℝ} {y' : Vec ℝ} {h' : ℝ} {g : Attempt ℝ}
    (hs : acceptB cfg f tolerance t y a = .returned m' y' h' g) :
    y' = a.y0 ∧ h' = a.h * growthFactor tolerance a.an1 ∧ g = ⟨.DISPFB, a.h, a.mem.k 0⟩ ∧
      column y.length a.fEnd h' = .ok (m'.k 0) := by
  obtain ⟨hy, hh, hg, first, m1, method, hcol, hm, hm2⟩ := acceptB_cases hs
  obtain ⟨hk, -, -⟩ := stabilityBlock_ok hm
  obtain ⟨hk2, -, -⟩ := stabilityBlock_ok hm2
  have hfirst : m'.k 0 = first := by rw [hk2, hk]; exact setStage_same a.mem.k 0 first
  exact ⟨hy, hh, hg, hcol.trans (congrArg _ hfirst.symm)⟩

/-- a property of the members that the rest of a step routine keeps, also when it throws: it does not speak of the stage
matrix and the method, and a stability block keeps it -/
structure Kept (cfg : Config ℝ) (f : Rhs ℝ) (P : Members ℝ → Prop) : Prop where
  stages : ∀ {m : Members ℝ} (k : Stages ℝ), P m → P { m with k := k }
  method : ∀ {m : Members ℝ} (method : Method), P m → P { m with currentMethod := method }
  block : ∀ {t : ℝ} {y : Vec ℝ} {h length : ℝ} {jump : ℕ → Bool} {m m' : Members ℝ},
    stabilityBlock cfg f t y h length jump m = .ok m' → P m → P m'

section Kept

variable {P : Members ℝ → Prop}

theorem Kept.acceptA (hP : Kept cfg f P) {a : Accepted ℝ} (ha : P a.mem) :
    P (DISPFSolver.acceptA cfg f tolerance t y a).mem := by
  unfold DISPFSolver.acceptA
  dsimp only
  split
  · exact ha
  · split
    · exact hP.stages _ ha
    · rename_i m1 hm
      have h1 : P m1 := hP.block hm (hP.stages _ ha)
      dsimp only [StepEnd.mem]
      split_ifs
      · exact hP.method _ h1
      · exact h1

theorem Kept.acceptB (hP : Kept cfg f P) {a : Accepted ℝ} (ha : P a.mem) :
    P (DISPFSolver.acceptB cfg f tolerance t y a).mem := by
  unfold DISPFSolver.acceptB
  dsimp only
  split
  · exact ha
  · split
    · exact hP.stages _ ha
    · rename_i m1 hm
      have h1 : P m1 := hP.block hm (hP.stages _ ha)
      -- the choice of the method stands between the two blocks
      have hchoice : ∀ (b : Bool) (p q : Prop) [Decidable p] [Decidable q],
          P (if b = true then if p then { m1 with currentMethod := .DISPFA }
            else if q then { m1 with currentMethod := .DISPFC } else m1 else m1) := by
        intro b p q _ _
        split_ifs
        · exact hP.method _ h1
        · exact hP.method _ h1
        · exact h1
        · exact h1
      split
      · exact hchoice _ _ _
      · rename_i m2 hm2
        exact hP.block hm2 (hchoice _ _ _)

theorem Kept.stepDISPFC (hP : Kept cfg f P) (fuel : ℕ) {m : Members ℝ} (hm : P m) :
    P (DISPFSolver.stepDISPFC cfg f tolerance fuel m t y h).mem := by
  unfold DISPFSolver.stepDISPFC
  split
  · exact hm
  · split
    · exact hm
    · exact hP.stages _ hm
    · dsimp only
      split
      · exact hP.stages _ hm
      · split
        · exact hP.stages _ hm
        · split
          · exact hP.stages _ hm
          · rename_i m1 hm1
            have h1 : P m1 := hP.block hm1 (hP.stages _ hm)
            dsimp only [StepEnd.mem]
            split_ifs
            · exact hP.method _ h1
            · exact h1

end Kept

/-- after the accepted attempt no call is recorded -/
theorem kept_calls (calls : List (Call ℝ)) : Kept cfg f fun m => m.calls = calls where
  stages _ h := h
  method _ h := h
  block hs h := (stabilityBlock_ok hs).2.2.trans h

/-- the calls that a step of the current method records -/
theorem step_calls (cfg : Config ℝ) (f : Rhs ℝ) (tolerance : ℝ) (fuel : ℕ) (m : Members ℝ) (t : ℝ) (y : Vec ℝ) (h : ℝ) :
    ∃ new, (step cfg f tolerance fuel m t y h).mem.calls = m.calls ++ new ∧
      (∀ c ∈ new, m.currentMethod ≠ .DISPFC ∧ c.t = t ∧ c.y = y ∧ Scaled (m.k 0) h c.first c.h) ∧
      (0 < fuel → m.currentMethod ≠ .DISPFC → ⟨t, y, h, m.k 0⟩ ∈ new) := by
  cases hm : m.currentMethod with
  | DISPFA =>
    obtain ⟨new, hnew, hall, hmem⟩ := approach_calls (f := f) (t := t) (y := y) formulaA_valid fuel m h
    refine ⟨new, ?_, fun c hc => ⟨nofun, hall c hc⟩, fun h0 _ => hmem h0⟩
    rw [← hnew, step, hm]
    dsimp only
    rw [stepDISPFA]
    cases approach formulaA f tolerance t y fuel m h with
    | accepted a => exact (kept_calls a.mem.calls).acceptA rfl
    | threw e m1 h1 => rfl
    | starved m1 => rfl
  | DISPFB =>
    obtain ⟨new, hnew, hall, hmem⟩ := approach_calls (f := f) (t := t) (y := y) formulaB_valid fuel m h
    refine ⟨new, ?_, fun c hc => ⟨nofun, hall c hc⟩, fun h0 _ => hmem h0⟩
    rw [← hnew, step, hm]
    dsimp only
    rw [stepDISPFB]
    cases approach formulaB f tolerance t y fuel m h with
    | accepted a => exact (kept_calls a.mem.calls).acceptB rfl
    | threw e m1 h1 => rfl
    | starved m1 => rfl
  | DISPFC =>
    refine ⟨[], ?_, by simp, fun _ hne => absurd rfl hne⟩
    rw [List.append_nil, step, hm]
    exact (kept_calls m.calls).stepDISPFC fuel rfl

/-- an accepted step of StepDISPFA or StepDISPFB, from its accepted attempt a -/
structure ABStep (F : Formula ℝ) (method : Method) (f : Rhs ℝ) (tolerance : ℝ) (m : Members ℝ) (t : ℝ) (y : Vec ℝ)
    (h : ℝ) (m' : Members ℝ) (y' : Vec ℝ) (h' : ℝ) (g : Attempt ℝ) (a : Accepted ℝ) : Prop where
  accepted : a.Spec F f tolerance t y (m.k 0) h
  value : y' = a.y0
  length : h' = a.h * growthFactor tolerance a.an1
  attempt : g = ⟨method, a.h, a.mem.k 0⟩
  first : column y.length a.fEnd h' = .ok (m'.k 0)

theorem stepDISPFA_returned {fuel : ℕ} {m m' : Members ℝ} {y' : Vec ℝ} {h' : ℝ} {g : Attempt ℝ}
    (hs : stepDISPFA cfg f tolerance fuel m t y h = .returned m' y' h' g) :
    ∃ a, approach formulaA f tolerance t y fuel m h = .accepted a ∧
      ABStep formulaA .DISPFA f tolerance m t y h m' y' h' g a := by
  unfold stepDISPFA at hs
  split at hs
  · cases hs
  · cases hs
  · rename_i a ha
    obtain ⟨h1, h2, h3, h4⟩ := acceptA_returned hs
    exact ⟨a, ha, (approach_accepted formulaA_valid ha).1, h1, h2, h3, h4⟩

theorem stepDISPFB_returned {fuel : ℕ} {m m' : Members ℝ} {y' : Vec ℝ} {h' : ℝ} {g : Attempt ℝ}
    (hs : stepDISPFB cfg f tolerance fuel m t y h = .returned m' y' h' g) :
    ∃ a, approach formulaB f tolerance t y fuel m h = .accepted a ∧
      ABStep formulaB .DISPFB f tolerance m t y h m' y' h' g a := by
  unfold stepDISPFB at hs
  split at hs
  · cases hs
  · cases hs
  · rename_i a ha
    obtain ⟨h1, h2, h3, h4⟩ := acceptB_returned hs
    exact ⟨a, ha, (approach_accepted formulaB_valid ha).1, h1, h2, h3, h4⟩

/-- StepDISPFC, when it returns: its first stage, the loop, the end point, one stability block, and the choice of the
method -/
theorem stepDISPFC_cases {fuel : ℕ} {m m' : Members ℝ} {y' : Vec ℝ} {h' : ℝ} {g : Attempt ℝ}
    (hs : stepDISPFC cfg f tolerance fuel m t y h = .returned m' y' h' g) :
    ∃ first k m1 method an1 vn, (do column y.length (← f t y) h) = .ok first ∧
      approachC f tolerance t y fuel (setStage m.k 0 first) h = some (.ok (k, g.h)) ∧ newPoint y k P36 = .ok y' ∧
      endPointC f t y' g.h k = .ok (an1, vn) ∧ h' = g.h * growthFactor tolerance an1 ∧ g = ⟨.DISPFC, g.h, k 0⟩ ∧
      stabilityBlock cfg f (t + g.h) y' g.h 72.0 (fun count => count ≥ 35) { m with k := k } = .ok m1 ∧
      (cfg.variableOrder = false → method = m1.currentMethod) ∧ m' = { m1 with currentMethod := method } := by
  unfold stepDISPFC at hs
  split at hs
  · cases hs
  · rename_i first hfirst
    split at hs
    · cases hs
    · cases hs
    · rename_i k h1 hk
      dsimp only at hs
      split at hs
      · cases hs
      · rename_i y0 hy
        split at hs
        · cases hs
        · rename_i an1 vn he
          split at hs
          · cases hs
          · rename_i m1 hm
            cases hs
            split_ifs with hchoice
            · have hvariable : cfg.variableOrder = false → Method.DISPFB = m1.currentMethod := fun hv =>
                absurd (hv.symm.trans hchoice.1) Bool.false_ne_true
              exact ⟨first, k, m1, .DISPFB, an1, vn, hfirst, hk, hy, he, rfl, rfl, hm, hvariable, rfl⟩
            · exact ⟨first, k, m1, m1.currentMethod, an1, vn, hfirst, hk, hy, he, rfl, rfl, hm, fun _ => rfl, rfl⟩

/-- an accepted step of StepDISPFC: it computes its own first stage, and leaves the scaled one in the matrix -/
theorem stepDISPFC_returned {fuel : ℕ} {m m' : Members ℝ} {y' : Vec ℝ} {h' : ℝ} {g : Attempt ℝ}
    (hs : stepDISPFC cfg f tolerance fuel m t y h = .returned m' y' h' g) :
    g.method = .DISPFC ∧ m'.k 0 = g.first ∧ (cfg.variableOrder = false → m'.currentMethod = m.currentMethod) ∧
      ∃ first an1, (do column y.length (← f t y) h) = .ok first ∧ Scaled first h g.first g.h ∧
        trialC f t y g.h g.first = .ok (y', an1) ∧ 0 ≤ an1 ∧ h' = g.h * growthFactor tolerance an1 := by
  obtain ⟨first, k, m1, method, an1, vn, hfirst, hk, hy, he, hh, hg, hm, hvariable, rfl⟩ := stepDISPFC_cases hs
  obtain ⟨hmk, hmethod, -⟩ := stabilityBlock_ok hm
  obtain ⟨hscaled, hstages⟩ := approachC_ok hk
  rw [show setStage m.k 0 first 0 = first from setStage_same m.k 0 first] at hscaled
  have hgfirst : g.first = k 0 := congrArg Attempt.first hg
  refine ⟨congrArg Attempt.method hg, (congrFun hmk 0).trans hgfirst.symm, fun hv => (hvariable hv).trans hmethod,
    first, an1, hfirst, hgfirst ▸ hscaled, ?_, ?_, hh⟩
  · simp only [trialC, hgfirst, hstages, hy, he, ok_bind, except_pure]
  · obtain ⟨_, -, he⟩ := bind_eq_ok.1 he
    obtain ⟨_, hd, he⟩ := bind_eq_ok.1 he
    obtain ⟨_, -, he⟩ := bind_eq_ok.1 he
    cases he
    exact mul_nonneg (maxOver_nonneg hd) (by norm_num [CA1B, dCoef])

theorem ABStep.returned {F : Formula ℝ} {method : Method} {m m' : Members ℝ} {y' : Vec ℝ} {h' : ℝ} {g : Attempt ℝ}
    {a : Accepted ℝ} (ha : ABStep F method f tolerance m t y h m' y' h' g a) :
    g.method = method ∧ Scaled (m.k 0) h g.first g.h ∧ trial F f t y g.h g.first = .ok (y', a.fEnd, a.an1) ∧
      0 ≤ a.an1 ∧ h' = g.h * growthFactor tolerance a.an1 := by
  obtain ⟨hacc, rfl, rfl, rfl, -⟩ := ha
  exact ⟨rfl, hacc.scaled, hacc.trial_eq, hacc.nonneg, rfl⟩

/-- **Accepted step.** The accepted attempt of a `Step` is one attempt of the current formula, with a step length that
is at most the one the step was called with, and h is scaled by the growth factor of its An1. -/
theorem step_returned {fuel : ℕ} {m m' : Members ℝ} {y' : Vec ℝ} {h' : ℝ} {g : Attempt ℝ} (hh : 0 < h)
    (hs : step cfg f tolerance fuel m t y h = .returned m' y' h' g) :
    g.method = m.currentMethod ∧ 0 < g.h ∧ g.h ≤ h ∧
      ∃ an1, g.method.trial f t y g.h g.first = .ok (y', an1) ∧ 0 ≤ an1 ∧ h' = g.h * growthFactor tolerance an1 := by
  unfold step at hs
  split at hs
  · rename_i hm
    obtain ⟨a, -, ha⟩ := stepDISPFA_returned hs
    obtain ⟨h1, h2, h3, h4, h5⟩ := ha.returned
    exact ⟨h1.trans hm.symm, (h2.pos hh).1, (h2.pos hh).2, a.an1, by simp [h1, Method.trial, h3], h4, h5⟩
  · rename_i hm
    obtain ⟨a, -, ha⟩ := stepDISPFB_returned hs
    obtain ⟨h1, h2, h3, h4, h5⟩ := ha.returned
    exact ⟨h1.trans hm.symm, (h2.pos hh).1, (h2.pos hh).2, a.an1, by simp [h1, Method.trial, h3], h4, h5⟩
  · rename_i hm
    obtain ⟨h1, -, -, _, an1, -, h2, h3, h4, h5⟩ := stepDISPFC_returned hs
    exact ⟨h1.trans hm.symm, (h2.pos hh).1, (h2.pos hh).2, an1, by simp [h1, Method.trial, h3], h4, h5⟩

/-- **Clock of a step.** The new h is the step length of the accepted attempt exactly when its An1 is the tolerance. -/
theorem step_clock {fuel : ℕ} {m m' : Members ℝ} {y' : Vec ℝ} {h' : ℝ} {g : Attempt ℝ} (htol : 0 < tolerance)
    (hh : 0 < h) (hs : step cfg f tolerance fuel m t y h = .returned m' y' h' g) :
    (·.1) <$> g.method.trial f t y g.h g.first = .ok y' ∧ 0 < g.h ∧ g.h ≤ h ∧
      (h' = g.h ↔ (·.2) <$> g.method.trial f t y g.h g.first = .ok tolerance) := by
  obtain ⟨-, hg0, hg1, an1, htrial, hnn, rfl⟩ := step_returned hh hs
  refine ⟨by rw [htrial]; rfl, hg0, hg1, ?_⟩
  rw [mul_eq_left₀ hg0.ne', growthFactor_eq_one htol hnn, htrial, except_map, Except.ok.injEq]

theorem driver_sound (fuel : ℕ) : (driver cfg f tolerance fuel).Sound fun _ => True where
  clip_eq t h tEnd := by
    rcases le_or_gt (t + h) tEnd with hle | hlt
    · rw [min_eq_left (by linarith)]; exact if_neg (not_lt.2 hle)
    · rw [min_eq_right (by linarith)]; exact if_pos hlt
  returned := by
    intro m t y h m' y' h' g _ hh hs
    obtain ⟨-, hg0, -, an1, -, -, rfl⟩ := step_returned hh hs
    exact ⟨trivial, mul_pos hg0 (growthFactor_pos _ _)⟩
  threw := by
    intro s h e m' y' h' _ _ _ _ hc
    cases hc

end Step

end OdeClientServer.DISPFSolver
