/-
Bounds of a polynomial with rational coefficients on an interval, by evaluation. A polynomial on [0, 1] is bounded
coefficient by coefficient; where that is too rough the interval is halved and both halves are moved to [0, 1].

- `eval_substitute`: the coefficients after a change of variable.
- `bounds_sound`: the bounds from the coefficients.
- `abs_le_of_within`: if the check passes, the bound holds on the whole interval.
-/
import OdeClientServer.Core.Numerals
import Mathlib.Tactic
import Mathlib.Data.Rat.Cast.Order

namespace OdeClientServer.PolyBound

variable {K : Type*} [Field K] [LinearOrder K] [IsStrictOrderedRing K]

/-- the value at x of the polynomial with the given coefficients, the constant first -/
def eval : List ℚ → K → K
  | [], _ => 0
  | c :: p, x => c + x * eval p x

def add : List ℚ → List ℚ → List ℚ
  | [], q => q
  | p, [] => p
  | a :: p, b :: q => (a + b) :: add p q

def scale (a : ℚ) (p : List ℚ) : List ℚ := p.map (a * ·)

/-- p times the polynomial a + w x -/
def mulLinear (a w : ℚ) (p : List ℚ) : List ℚ := add (scale a p) (0 :: scale w p)

/-- the coefficients of p(a + w x) -/
def substitute (a w : ℚ) : List ℚ → List ℚ
  | [] => []
  | c :: p => add [c] (mulLinear a w (substitute a w p))

/-- a lower and an upper bound on [0, 1] -/
def bounds : List ℚ → ℚ × ℚ
  | [] => (0, 0)
  | c :: p => (c + min 0 (bounds p).1, c + max 0 (bounds p).2)

/-- |p| ≤ B on [0, 1], checked on the whole interval or on its two halves -/
def within (B : ℚ) : ℕ → List ℚ → Bool
  | 0, p => decide (-B ≤ (bounds p).1 ∧ (bounds p).2 ≤ B)
  | n + 1, p => decide (-B ≤ (bounds p).1 ∧ (bounds p).2 ≤ B) ||
      within B n (substitute 0 (1 / 2) p) && within B n (substitute (1 / 2) (1 / 2) p)

/-! ## Evaluation -/

theorem eval_add (p q : List ℚ) (x : K) : eval (add p q) x = eval p x + eval q x := by
  induction p generalizing q with
  | nil => simp [add, eval]
  | cons a p ih =>
    cases q with
    | nil => simp [add, eval]
    | cons b q =>
      simp only [add, eval, ih]
      push_cast
      ring

theorem eval_scale (a : ℚ) (p : List ℚ) (x : K) : eval (scale a p) x = a * eval p x := by
  induction p with
  | nil => simp [scale, eval]
  | cons c p ih =>
    simp only [scale, List.map_cons, eval] at ih ⊢
    rw [ih]
    push_cast
    ring

theorem eval_mulLinear (a w : ℚ) (p : List ℚ) (x : K) : eval (mulLinear a w p) x = (a + w * x) * eval p x := by
  simp only [mulLinear, eval_add, eval, eval_scale]
  push_cast
  ring

/-- **Change of variable.** -/
theorem eval_substitute (a w : ℚ) (p : List ℚ) (x : K) : eval (substitute a w p) x = eval p (a + w * x) := by
  induction p with
  | nil => rfl
  | cons c p ih => simp [substitute, eval_add, eval_mulLinear, eval, ih]

/-! ## Bounds -/

theorem bounds_sound (p : List ℚ) {x : K} (h0 : 0 ≤ x) (h1 : x ≤ 1) :
    ((bounds p).1 : K) ≤ eval p x ∧ eval p x ≤ ((bounds p).2 : K) := by
  induction p with
  | nil => simp [bounds, eval]
  | cons c p ih =>
    obtain ⟨hlo, hhi⟩ := ih
    simp only [bounds, eval]
    push_cast
    constructor
    · have hmin : min 0 ((bounds p).1 : K) ≤ x * eval p x := by
        calc min 0 ((bounds p).1 : K) ≤ x * min 0 ((bounds p).1 : K) :=
              le_mul_of_le_one_left (min_le_left _ _) h1
          _ ≤ x * eval p x := mul_le_mul_of_nonneg_left ((min_le_right _ _).trans hlo) h0
      linarith
    · have hmax : x * eval p x ≤ max 0 ((bounds p).2 : K) := by
        calc x * eval p x ≤ x * max 0 ((bounds p).2 : K) :=
              mul_le_mul_of_nonneg_left (hhi.trans (le_max_right _ _)) h0
          _ ≤ max 0 ((bounds p).2 : K) := mul_le_of_le_one_left (le_max_left _ _) h1
      linarith

theorem abs_le_of_bounds {B : ℚ} {p : List ℚ} (h : -B ≤ (bounds p).1 ∧ (bounds p).2 ≤ B) {x : K} (h0 : 0 ≤ x)
    (h1 : x ≤ 1) : |eval p x| ≤ B := by
  obtain ⟨hlo, hhi⟩ := bounds_sound p h0 h1
  have hB : -(B : K) ≤ ((bounds p).1 : K) := by exact_mod_cast h.1
  exact abs_le.2 ⟨hB.trans hlo, hhi.trans (by exact_mod_cast h.2)⟩

/-- **Soundness of the check.** The induction is on the number of halvings: x lies in one of the halves. -/
theorem abs_le_of_within {B : ℚ} {n : ℕ} {p : List ℚ} (h : within B n p = true) {x : K} (h0 : 0 ≤ x) (h1 : x ≤ 1) :
    |eval p x| ≤ B := by
  induction n generalizing p x with
  | zero => exact abs_le_of_bounds (of_decide_eq_true h) h0 h1
  | succ n ih =>
    simp only [within, Bool.or_eq_true, Bool.and_eq_true, decide_eq_true_eq] at h
    rcases h with h | ⟨hl, hr⟩
    · exact abs_le_of_bounds h h0 h1
    · rcases le_total x (1 / 2) with hx | hx
      · have hleft := ih hl (x := 2 * x) (by linarith) (by linarith)
        rw [eval_substitute] at hleft
        convert hleft using 3
        push_cast
        ring
      · have hright := ih hr (x := 2 * x - 1) (by linarith) (by linarith)
        rw [eval_substitute] at hright
        convert hright using 3
        push_cast
        ring

end OdeClientServer.PolyBound
