/-
`Step` of RK2 and DISPF in doubles: what the retry loops compute, with rounding, overflow, infinities and NaN.

The arithmetic is that of `Float`, whose operations and comparisons are IEEE 754 binary64, each rounded to nearest.
`std::pow` is not fixed to the last bit by any standard and is a parameter, with what is used of it in `PowLaws`. The
state has the dimension of the system by its type.

StepDISPFA and StepDISPFB go back to their head by `continue` and by a call of themselves, in both cases with h and the
cached first stage scaled by one factor, so both are one loop (`retry`) over a pass that is accepted or sent back. What
StepDISPF* do after an accepted pass besides the new h and first stage (the switch of the formula and the stability
control) has no retry. It is in `DISPFSolver`; here the choice of the next formula is a parameter (`switch`).
-/
import OdeClientServer.Core.Double

namespace OdeClientServer.Doubles

abbrev Vec (n : ℕ) := Fin n → Float

abbrev Rhs (n : ℕ) := Float → Vec n → Vec n

inductive Method where
  | DISPFA
  | DISPFB
  | DISPFC

/-- the solver with what `Step` finds in its members: the formula and the first stage of the matrix -/
inductive Routine (n : ℕ) where
  | RK2
  | DISPF (method : Method) (first : Vec n)

/-- a call of `Step` -/
structure Call (n : ℕ) where
  t : Float
  y : Vec n
  h : Float
  routine : Routine n

/-- `std::pow` at an exponent between 0 and 1 -/
structure PowLaws (pow : Float → Float → Float) : Prop where
  zero : ∀ x a, (x == 0.0) = true → 0.0 < a → a < 1.0 → pow x a = 0.0
  unit : ∀ x a, 0.0 ≤ x → x ≤ 1.0 → 0.0 < a → a < 1.0 → 0.0 ≤ pow x a ∧ pow x a ≤ 1.0

def stdMax (a b : Float) : Float := if a < b then b else a

def stdMin (a b : Float) : Float := if b < a then b else a

def stdClamp (v lo hi : Float) : Float := if v < lo then lo else if hi < v then hi else v

section Model

variable {n : ℕ}

def multiplyScalarByVector (scalar : Float) (vec : Vec n) : Vec n := fun i => scalar * vec i

def addVectors (vec1 vec2 : Vec n) : Vec n := fun i => vec1 i + vec2 i

def subtractVectors (vec1 vec2 : Vec n) : Vec n := fun i => vec1 i - vec2 i

def norm (vec : Vec n) : Float := ((List.finRange n).foldl (fun sum i => sum + vec i * vec i) 0.0).sqrt

/-- `m = std::max(m, std::fabs(a[i]))` over the components -/
def largest (a : Vec n) : Float := (List.finRange n).foldl (fun m i => stdMax m (a i).abs) 0.0

/-! ## RK2Solver -/

def b21 : Float := 2.0 / 3.0
def p1 : Float := 1.0 / 4.0
def p2 : Float := 3.0 / 4.0

variable (pow : Float → Float → Float) (f : Rhs n) (tolerance t : Float) (y : Vec n)

def k1 (h : Float) : Vec n := multiplyScalarByVector h (f t y)

def k2 (h : Float) : Vec n :=
  multiplyScalarByVector h (f t (addVectors y (multiplyScalarByVector b21 (k1 f t y h))))

def yNext (h : Float) : Vec n :=
  addVectors y (addVectors (multiplyScalarByVector p1 (k1 f t y h)) (multiplyScalarByVector p2 (k2 f t y h)))

def hfNext (h : Float) : Vec n := multiplyScalarByVector h (f (t + h) (yNext f t y h))

def errorRK2 (h : Float) : Float :=
  stdMax (norm (subtractVectors (k2 f t y h) (k1 f t y h)) / 4.0)
    (norm (subtractVectors (hfNext f t y h) (k1 f t y h)) / 6.0)

def factorRK2 (h : Float) : Float := 0.9 * pow (tolerance / errorRK2 f t y h) (1.0 / 3.0)

/-- `RK2Solver::Step`: the new state and the new h, or none when the fuel does not reach -/
def stepRK2 : ℕ → Float → Option (Vec n × Float)
  | 0, _ => none
  | fuel + 1, h =>
    if errorRK2 f t y h ≤ tolerance then
      some (yNext f t y h, h * stdClamp (factorRK2 pow f tolerance t y h) 0.2 5.0)
    else stepRK2 fuel (h * stdMax (factorRK2 pow f tolerance t y h) 0.2)

/-! ## DISPFSolver -/

/-- the rows of `B` under the diagonal, each with its `ACoef` -/
def rows : List (Float × List Float) :=
  [(1.0 / 4.0, [1.0 / 4.0]),
   (3.0 / 8.0, [3.0 / 32.0, 9.0 / 32.0]),
   (12.0 / 13.0, [1932.0 / 2197.0, -7200.0 / 2197.0, 7296.0 / 2197.0]),
   (1.0, [439.0 / 216.0, -8.0, 3680.0 / 513.0, -845.0 / 4104.0]),
   (0.5, [-8.0 / 27.0, 2.0, -3544.0 / 2565.0, 1859.0 / 4104.0, -11.0 / 40.0])]

def P36 : List Float := [16.0 / 135.0, 0.0, 6656.0 / 12825.0, 28561.0 / 56430.0, -9.0 / 50.0, 2.0 / 55.0]

def P4 : List Float := [25.0 / 216.0, 0.0, 1408.0 / 2565.0, 2197.0 / 4104.0, -1.0 / 5.0, 0.0]

def P72 : List Float :=
  [0.41975960186956, 0.44944365216575, 0.1296419611922, 0.0012199235635231, -0.000066250690732054,
   0.0000011118997045939]

def P28 : List Float :=
  [-0.38402741318519, 0.28983442536296, 1.0619636598535, 0.036673230572343, -0.0046504806400000, 0.00020657863636364]

def CA1A : Float := 1.351851851851851851852
def CA1B : Float := 0.314690666666666666667
def dCoef : Float := 0.24

/-- `sum += w[j] * k[i][j]` -/
def weightedSum (w : List Float) (k : List (Vec n)) (i : Fin n) : Float :=
  (w.zip k).foldl (fun sum p => sum + p.1 * p.2 i) 0.0

/-- a stage of the loop over m, from the stages before it -/
def nextStage (h : Float) (k : List (Vec n)) (row : Float × List Float) : List (Vec n) :=
  k ++ [fun i => f (t + row.1 * h) (fun j => y j + weightedSum row.2 k j) i * h]

/-- what an accepted pass leaves behind; the t of `Step` is a copy -/
structure Accepted (n : ℕ) where
  y : Vec n
  h : Float
  first : Vec n

/-- the factor of h and of the first stage for the next try -/
def shrink (error : Float) : Float := stdMin 0.9 (stdMax 0.5 (pow (tolerance / error) (1.0 / 5.0)))

/-- the factor of h for the next step -/
def grow (error : Float) : Float := stdMin 2.0 (stdMax 0.9 (pow (tolerance / error) (1.0 / 5.0)))

/-- what StepDISPFA and StepDISPFB differ in: the term of the first stage in the second point, the weights of the new
value, and the coefficient of the estimates -/
structure Formula where
  firstTerm : Float → Float
  weights : List Float
  coef : Float

def formulaA : Formula where
  firstTerm k := 0.0 + 1.0 / 4.0 * k
  weights := P72
  coef := CA1A

def formulaB : Formula where
  firstTerm k := 1.0 / 4.0 * k
  weights := P28
  coef := CA1B * dCoef

/-- k2 -/
def second (G : Formula) (h : Float) (first : Vec n) : Vec n :=
  fun i => f (t + 0.25 * h) (fun j => y j + G.firstTerm (first j)) i * h

/-- the estimate An -/
def early (G : Formula) (h : Float) (first : Vec n) : Float :=
  largest (fun i => second f t y G h first i - first i) * G.coef

/-- the new point -/
def newPoint (G : Formula) (h : Float) (first : Vec n) : Vec n :=
  fun i => y i + weightedSum G.weights ((rows.drop 1).foldl (nextStage f t y h) [first, second f t y G h first]) i

def fEnd (G : Formula) (h : Float) (first : Vec n) : Vec n := f (t + h) (newPoint f t y G h first)

/-- the estimate An1 -/
def late (G : Formula) (h : Float) (first : Vec n) : Float :=
  largest (fun i => fEnd f t y G h first i * h - first i) * G.coef

/-- a pass of StepDISPFA or StepDISPFB: the error that sends it back, or what it leaves behind -/
def passAB (G : Formula) (h : Float) (first : Vec n) : Except Float (Accepted n) :=
  if tolerance < early f t y G h first then .error (early f t y G h first)
  else if tolerance < late f t y G h first then .error (late f t y G h first)
  else
    let h' := h * grow pow tolerance (late f t y G h first)
    .ok ⟨newPoint f t y G h first, h', fun i => fEnd f t y G h first i * h'⟩

/-- the six stages of StepDISPFC -/
def stagesC (h : Float) (first : Vec n) : List (Vec n) := rows.foldl (nextStage f t y h) [first]

/-- the estimate Cn1 -/
def embedded (h : Float) (first : Vec n) : Float :=
  largest (fun i => weightedSum (List.zipWith (· - ·) P36 P4) (stagesC f t y h first) i) * (17.0 / 24.0)

/-- a pass of StepDISPFC -/
def passC (h : Float) (first : Vec n) : Except Float (Accepted n) :=
  if tolerance < embedded f t y h first then .error (embedded f t y h first)
  else
    let y' : Vec n := fun i => y i + weightedSum P36 (stagesC f t y h first) i
    let an1 := largest (fun i => f (t + h) y' i * h - first i) * (CA1B * dCoef)
    .ok ⟨y', h * grow pow tolerance an1, first⟩

/-- the passes of a step routine, each from the h and the first stage that the one before it left -/
def retry (pass : Float → Vec n → Except Float (Accepted n)) : ℕ → Float → Vec n → Option (Accepted n)
  | 0, _, _ => none
  | fuel + 1, h, first =>
    match pass h first with
    | .ok accepted => some accepted
    | .error error =>
      retry pass fuel (h * shrink pow tolerance error) (fun i => first i * shrink pow tolerance error)

def stepDISPFA : ℕ → Float → Vec n → Option (Accepted n) :=
  retry pow tolerance (passAB pow f tolerance t y formulaA)

def stepDISPFB : ℕ → Float → Vec n → Option (Accepted n) :=
  retry pow tolerance (passAB pow f tolerance t y formulaB)

def stepDISPFC (fuel : ℕ) (h : Float) : Option (Accepted n) :=
  retry pow tolerance (passC pow f tolerance t y) fuel h fun i => f t y i * h

/-- `DISPFSolver::Step` -/
def stepDISPF (method : Method) (fuel : ℕ) (h : Float) (first : Vec n) : Option (Accepted n) :=
  match method with
  | .DISPFA => stepDISPFA pow f tolerance t y fuel h first
  | .DISPFB => stepDISPFB pow f tolerance t y fuel h first
  | .DISPFC => stepDISPFC pow f tolerance t y fuel h

end Model

/-! ## Solve -/

section Solve

variable {n : ℕ} (pow : Float → Float → Float) (f : Rhs n) (tolerance tEnd : Float) (switch : Call n → Method)

/-- the next call of `Step` in `RK2Solver::Solve` and `DISPFSolver::Solve`, after one that has returned -/
inductive Follows : Call n → Call n → Prop
  | RK2 {t : Float} {y : Vec n} {h : Float} {fuel : ℕ} {y' : Vec n} {h' : Float} :
      stepRK2 pow f tolerance t y fuel h = some (y', h') → t + h' < tEnd →
      Follows ⟨t, y, h, .RK2⟩ ⟨t + h', y', stdMin h' (tEnd - (t + h')), .RK2⟩
  | DISPF {t : Float} {y : Vec n} {h : Float} {method : Method} {first : Vec n} {fuel : ℕ} {a : Accepted n} :
      stepDISPF pow f tolerance t y method fuel h first = some a → t + a.h < tEnd →
      Follows ⟨t, y, h, .DISPF method first⟩
        ⟨t + a.h, a.y, if tEnd < t + a.h + a.h then tEnd - (t + a.h) else a.h,
          .DISPF (switch ⟨t, y, h, .DISPF method first⟩) a.first⟩

/-- the calls of `Step` in a run from the first one -/
inductive Called (start : Call n) : Call n → Prop
  | first : start.t < tEnd → Called start start
  | next {c c' : Call n} : Called start c → Follows pow f tolerance tEnd switch c c' → Called start c'

end Solve

def initialStep : Float := 0.001

/-- the tolerance that the handler passes on to DISPF -/
def toleranceDISPF (tolerance : Float) : Float := tolerance * 10e-5

/-- the first call of a request with the method RungeKutta2 -/
def startRK2 {n : ℕ} (t0 : Float) (y0 : Vec n) (tEnd : Float) : Call n :=
  ⟨t0, y0, stdMin initialStep (tEnd - t0), .RK2⟩

/-- the first call of a request with the method DISPF, by the formula of its order -/
def startDISPF {n : ℕ} (t0 : Float) (y0 : Vec n) (tEnd : Float) (method : Method) : Call n :=
  ⟨t0, y0, if tEnd < t0 + initialStep then tEnd - t0 else initialStep, .DISPF method fun _ => 0.0⟩

/-! ## TaskManager -/

/-- the right-hand side of VanDerPol -/
def vanDerPol (mu p : Float) : Rhs 2 := fun _ y => ![y 1, (mu * (1.0 - y 0 * y 0) * y 1 - y 0) / p]

end OdeClientServer.Doubles
