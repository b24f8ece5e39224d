/-
`TaskManager`: the three right-hand sides that a request can name.

`parameters[name]` inserts 0 for a name that the request did not send, so the parameters are a total function. The
right-hand sides index the state without a check (`getTask_indexes`).
-/
import OdeClientServer.Solvers.CommonFunctions

namespace OdeClientServer.TaskManager

variable {R : Type} [Field R] [LinearOrder R] [CMath R]

/-- with p = 0 the source has an infinity or NaN, which no exact number reads; the quotient of a field is 0 there -/
def vanDerPol (parameters : String → R) : Rhs R := fun _ y => do
  let mu := parameters "mu"
  let p := parameters "p"
  let y0 ← read y 0
  let y1 ← read y 1
  return [y1, (mu * (1 - y0 * y0) * y1 - y0) / p]

def forcedOscillator (parameters : String → R) : Rhs R := fun t y => do
  let omega := parameters "omega"
  let gamma := parameters "gamma"
  let F := parameters "F"
  let omegaDrive := parameters "omega_k"
  let y0 ← read y 0
  let y1 ← read y 1
  return [y1, -omega * omega * y0 - gamma * y1 + F * CMath.cos (omegaDrive * t)]

def robertsonSystem (parameters : String → R) : Rhs R := fun _ y => do
  let k1 := parameters "k1"
  let k2 := parameters "k2"
  let k3 := parameters "k3"
  let y0 ← read y 0
  let y1 ← read y 1
  let y2 ← read y 2
  return [-k1 * y0 + k2 * y1 * y2, k1 * y0 - k2 * y1 * y2 - k3 * y1 * y1, k3 * y1 * y1]

def getTask (parameters : String → R) (taskName : String) : Except Exn (Rhs R) :=
  if taskName = "VanDerPol" then .ok (vanDerPol parameters)
  else if taskName = "ForcedOscillator" then .ok (forcedOscillator parameters)
  else if taskName = "RobertsonSystem" then .ok (robertsonSystem parameters)
  else .error (.runtimeError ("Task not found: " ++ taskName))

omit [LinearOrder R] in
theorem getTask_returns_iff {parameters : String → R} {taskName : String} :
    (∃ f, getTask parameters taskName = .ok f) ↔ taskName ∈ ["VanDerPol", "ForcedOscillator", "RobertsonSystem"] := by
  simp only [List.mem_cons, List.not_mem_nil, or_false, getTask]
  split_ifs with h1 h2 h3
  · exact iff_of_true ⟨_, rfl⟩ (Or.inl h1)
  · exact iff_of_true ⟨_, rfl⟩ (Or.inr (Or.inl h2))
  · exact iff_of_true ⟨_, rfl⟩ (Or.inr (Or.inr h3))
  · exact iff_of_false nofun (by tauto)

/-! ## Dimensions -/

/-- f is a right-hand side of dimension d that indexes its state without a check -/
structure Indexes (d : ℕ) (f : Rhs ℝ) : Prop where
  ok : ∀ t y, d ≤ y.length → ∃ v, f t y = .ok v ∧ v.length = d
  short : ∀ t y, y.length < d → f t y = .error .badIndex

theorem indexes_two {f : Rhs ℝ} (hok : ∀ t a b y, ∃ c d, f t (a :: b :: y) = .ok [c, d])
    (hnil : ∀ t, f t [] = .error .badIndex) (hone : ∀ t a, f t [a] = .error .badIndex) : Indexes 2 f where
  ok := by
    rintro t (_ | ⟨a, _ | ⟨b, y⟩⟩) hy
    · simp at hy
    · simp at hy
    · obtain ⟨c, d, h⟩ := hok t a b y
      exact ⟨_, h, rfl⟩
  short := by
    rintro t (_ | ⟨a, _ | ⟨b, y⟩⟩) hy
    · exact hnil t
    · exact hone t a
    · simp at hy

theorem vanDerPol_indexes (parameters : String → ℝ) : Indexes 2 (vanDerPol parameters) :=
  indexes_two (fun _ _ _ _ => ⟨_, _, rfl⟩) (fun _ => rfl) fun _ _ => rfl

theorem forcedOscillator_indexes (parameters : String → ℝ) : Indexes 2 (forcedOscillator parameters) :=
  indexes_two (fun _ _ _ _ => ⟨_, _, rfl⟩) (fun _ => rfl) fun _ _ => rfl

theorem robertsonSystem_indexes (parameters : String → ℝ) : Indexes 3 (robertsonSystem parameters) where
  ok := by
    rintro t (_ | ⟨a, _ | ⟨b, _ | ⟨c, y⟩⟩⟩) hy
    · simp at hy
    · simp at hy
    · simp at hy
    · exact ⟨_, rfl, rfl⟩
  short := by
    rintro t (_ | ⟨a, _ | ⟨b, _ | ⟨c, y⟩⟩⟩) hy
    · rfl
    · rfl
    · rfl
    · simp only [List.length_cons] at hy
      omega

/-- the dimension of the system that a request names -/
def dimension (taskName : String) : ℕ := if taskName = "RobertsonSystem" then 3 else 2

/-- **Tasks.** A task indexes its state up to its dimension, and returns that many components. -/
theorem getTask_indexes {parameters : String → ℝ} {taskName : String} {f : Rhs ℝ}
    (hf : getTask parameters taskName = .ok f) : Indexes (dimension taskName) f := by
  unfold getTask at hf
  split_ifs at hf with h1 h2 h3
  · cases hf
    rw [dimension, if_neg (by rw [h1]; decide)]
    exact vanDerPol_indexes parameters
  · cases hf
    rw [dimension, if_neg (by rw [h2]; decide)]
    exact forcedOscillator_indexes parameters
  · cases hf
    rw [dimension, if_pos h3]
    exact robertsonSystem_indexes parameters

end OdeClientServer.TaskManager
