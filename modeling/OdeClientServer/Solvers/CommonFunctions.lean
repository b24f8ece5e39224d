/-
Vectors of the solver library (`CommonFunctions.cpp`) and the exceptions its code ends with.

A `std::vector<double>` is a list. The size checks of `AddVectors` and `SubtractVectors` throw `std::invalid_argument`
as in the source; an unchecked `v[i]` past the end is undefined behaviour there, and the model stops with `badIndex`.
A right-hand side is any function of time and state that returns a vector or throws.

Connection to vector algebra: on vectors `List.ofFn u` with u : Fin n → ℝ every helper computes the vector space
operation of Fin n → ℝ (`addVectors_ofFn`, `multiplyScalarByVector_ofFn`, ...), and a total right-hand side F of
dimension n is `ofField F`.
-/
import Mathlib.Tactic
import OdeClientServer.Core.CMath

namespace OdeClientServer

/-- what a `throw` of the library, or an undefined vector access, ends the code with -/
inductive Exn where
  | runtimeError (what : String)
  | invalidArgument (what : String)
  | outOfRange (what : String)
  | jsonError (what : String)
  | badIndex
deriving DecidableEq, Repr

/-- `e.what()`; an undefined vector access has none -/
def Exn.what : Exn → Option String
  | .runtimeError what => some what
  | .invalidArgument what => some what
  | .outOfRange what => some what
  | .jsonError what => some what
  | .badIndex => none

/-- `catch (const std::runtime_error&)` -/
def Exn.isRuntimeError : Exn → Bool
  | .runtimeError _ => true
  | _ => false

/-- `std::vector<double>` -/
abbrev Vec (R : Type) := List R

/-- `std::function<std::vector<double>(double, std::vector<double> const &)>` -/
abbrev Rhs (R : Type) := R → Vec R → Except Exn (Vec R)

section Model

variable {R : Type} [Field R] [LinearOrder R]

/-- `v[i]` -/
def read {α : Type} (v : List α) (i : ℕ) : Except Exn α :=
  match v[i]? with
  | some x => .ok x
  | none => .error .badIndex

/-- `for (i = 0; i < n; ++i) out[i] = g(i)` -/
def tabulate (n : ℕ) (g : ℕ → Except Exn R) : Except Exn (Vec R) := (List.range n).mapM g

/-- `m = 0.0; for (i = 0; i < n; ++i) m = std::max(m, g(i))` -/
def maxOver (n : ℕ) (g : ℕ → Except Exn R) : Except Exn R :=
  (List.range n).foldlM (fun m i => do return max m (← g i)) 0

def multiplyScalarByVector (scalar : R) (vec : Vec R) : Vec R := vec.map (scalar * ·)

def addVectors (vec1 vec2 : Vec R) : Except Exn (Vec R) :=
  if vec1.length ≠ vec2.length then .error (.invalidArgument "Vectors must be of the same size")
  else .ok (List.zipWith (· + ·) vec1 vec2)

def subtractVectors (vec1 vec2 : Vec R) : Except Exn (Vec R) :=
  if vec1.length ≠ vec2.length then .error (.invalidArgument "Vectors must be of the same size")
  else .ok (List.zipWith (· - ·) vec1 vec2)

def norm [CMath R] (vec : Vec R) : R := CMath.sqrt (vec.foldl (fun sum val => sum + val * val) 0)

/-- the right-hand side of an n-dimensional system given by a total function -/
def ofField {n : ℕ} (F : R → (Fin n → R) → Fin n → R) : Rhs R := fun t y =>
  if h : y.length = n then .ok (List.ofFn (F t fun i => y.get (i.cast h.symm))) else .error .badIndex

end Model

/-! ## Computations that return -/

@[simp] theorem ok_bind {ε α β : Type} (a : α) (f : α → Except ε β) : (Except.ok a >>= f) = f a := rfl

@[simp] theorem error_bind {ε α β : Type} (e : ε) (f : α → Except ε β) :
    ((Except.error e : Except ε α) >>= f) = .error e := rfl

@[simp] theorem except_pure {ε α : Type} (a : α) : (pure a : Except ε α) = .ok a := rfl

@[simp] theorem except_map {ε α β : Type} (f : α → β) (a : α) : (f <$> (Except.ok a : Except ε α)) = .ok (f a) := rfl

/-- a sequence returns exactly when each part does -/
theorem bind_eq_ok {ε α β : Type} {x : Except ε α} {f : α → Except ε β} {b : β} :
    (x >>= f) = .ok b ↔ ∃ a, x = .ok a ∧ f a = .ok b := by
  cases x with
  | error e => simp
  | ok a => simp

theorem mapM_eq_ok {ε α β : Type} {g : α → Except ε β} {G : α → β} (l : List α) (h : ∀ a ∈ l, g a = .ok (G a)) :
    l.mapM g = .ok (l.map G) := by
  induction l with
  | nil => rfl
  | cons a l ih =>
    rw [List.mapM_cons, h a List.mem_cons_self, ih fun b hb => h b (List.mem_cons_of_mem a hb)]
    rfl

theorem mapM_length {ε α β : Type} {g : α → Except ε β} {l : List α} {v : List β} (h : l.mapM g = .ok v) :
    v.length = l.length := by
  induction l generalizing v with
  | nil => cases h; rfl
  | cons a l ih =>
    rw [List.mapM_cons] at h
    obtain ⟨b, -, h⟩ := bind_eq_ok.1 h
    obtain ⟨w, hw, h⟩ := bind_eq_ok.1 h
    cases h
    rw [List.length_cons, List.length_cons, ih hw]

theorem of_mapM_ok {ε α β : Type} {g : α → Except ε β} {l : List α} {v : List β} (h : l.mapM g = .ok v) {a : α}
    (ha : a ∈ l) : ∃ b, g a = .ok b := by
  induction l generalizing v with
  | nil => cases ha
  | cons c l ih =>
    rw [List.mapM_cons] at h
    obtain ⟨b, hb, h⟩ := bind_eq_ok.1 h
    obtain ⟨w, hw, -⟩ := bind_eq_ok.1 h
    rcases List.mem_cons.1 ha with rfl | hl
    · exact ⟨b, hb⟩
    · exact ih hw hl

/-- a function applied to each result, inside or after the loop -/
theorem map_mapM {ε α β γ : Type} (φ : β → γ) (g : α → Except ε β) (l : List α) :
    List.map φ <$> l.mapM g = l.mapM fun a => φ <$> g a := by
  induction l with
  | nil => rfl
  | cons a l ih =>
    rw [List.mapM_cons, List.mapM_cons, ← ih]
    cases g a with
    | error e => rfl
    | ok b =>
      cases l.mapM g with
      | error e => rfl
      | ok v => rfl

/-- a loop whose rounds all return returns -/
theorem mapM_ok {ε α β : Type} {g : α → Except ε β} {l : List α} (h : ∀ a ∈ l, ∃ b, g a = .ok b) :
    ∃ v, l.mapM g = .ok v := by
  induction l with
  | nil => exact ⟨[], rfl⟩
  | cons a l ih =>
    obtain ⟨b, hb⟩ := h a List.mem_cons_self
    obtain ⟨v, hv⟩ := ih fun c hc => h c (List.mem_cons_of_mem a hc)
    exact ⟨b :: v, by rw [List.mapM_cons, hb, hv]; rfl⟩

theorem foldlM_eq_ok {ε α β : Type} {g : β → α → Except ε β} {G : β → α → β} (l : List α) (b : β)
    (h : ∀ b, ∀ a ∈ l, g b a = .ok (G b a)) : l.foldlM g b = .ok (l.foldl G b) := by
  induction l generalizing b with
  | nil => rfl
  | cons a l ih =>
    rw [List.foldlM_cons, h b a List.mem_cons_self, ok_bind, List.foldl_cons]
    exact ih _ fun b' a' ha => h b' a' (List.mem_cons_of_mem a ha)

theorem foldlM_invariant {ε α β : Type} {g : β → α → Except ε β} {P : β → Prop}
    (hstep : ∀ b a b', P b → g b a = .ok b' → P b') {l : List α} {b b' : β} (hb : P b) (h : l.foldlM g b = .ok b') :
    P b' := by
  induction l generalizing b with
  | nil => cases h; exact hb
  | cons a l ih =>
    rw [List.foldlM_cons] at h
    obtain ⟨b1, h1, h2⟩ := bind_eq_ok.1 h
    exact ih (hstep b a b1 hb h1) h2

theorem maxOver_nonneg {n : ℕ} {g : ℕ → Except Exn ℝ} {m : ℝ} (h : maxOver n g = .ok m) : 0 ≤ m := by
  refine foldlM_invariant (P := fun m => 0 ≤ m) ?_ le_rfl h
  intro b a b' hb h1
  obtain ⟨x, -, h2⟩ := bind_eq_ok.1 h1
  cases h2
  exact le_max_of_le_left hb

/-- a maximum over entries that all exist is computed -/
theorem maxOver_ok {n : ℕ} {g : ℕ → Except Exn ℝ} (h : ∀ i : Fin n, ∃ x, g i = .ok x) : ∃ m, maxOver n g = .ok m := by
  choose G hG using h
  refine ⟨_, foldlM_eq_ok (G := fun m i => max m (if hi : i < n then G ⟨i, hi⟩ else 0)) _ _ ?_⟩
  intro b i hi
  have hi' : i < n := List.mem_range.1 hi
  rw [show g i = .ok (G ⟨i, hi'⟩) from hG ⟨i, hi'⟩, ok_bind, dif_pos hi', except_pure]

theorem read_ok {α : Type} {v : List α} {i : ℕ} (h : i < v.length) : ∃ x, read v i = .ok x :=
  ⟨v[i], by rw [read, List.getElem?_eq_getElem h]⟩

theorem lt_of_read {α : Type} {v : List α} {i : ℕ} {x : α} (h : read v i = .ok x) : i < v.length := by
  unfold read at h
  split at h
  · rename_i a ha
    exact (List.getElem?_eq_some_iff.1 ha).1
  · cases h

/-- a loop that reads the first n entries of v returns only if they exist -/
theorem length_of_tabulate {n : ℕ} {g : ℕ → Except Exn ℝ} {v w : Vec ℝ} (h : tabulate n g = .ok w)
    (hg : ∀ i b, g i = .ok b → ∃ x, read v i = .ok x) : n ≤ v.length := by
  by_contra hlt
  obtain ⟨b, hb⟩ := of_mapM_ok h (List.mem_range.2 (not_le.1 hlt))
  obtain ⟨x, hx⟩ := hg _ b hb
  exact lt_irrefl _ (lt_of_read hx)

theorem tabulate_ok {n : ℕ} {g : ℕ → Except Exn ℝ} (h : ∀ i < n, ∃ x, g i = .ok x) : ∃ v, tabulate n g = .ok v :=
  mapM_ok fun i hi => h i (List.mem_range.1 hi)

theorem tabulate_length {n : ℕ} {g : ℕ → Except Exn ℝ} {v : Vec ℝ} (h : tabulate n g = .ok v) : v.length = n := by
  rw [mapM_length h, List.length_range]

/-- on n-dimensional states f returns, with at least n components -/
def IsSystem (n : ℕ) (f : Rhs ℝ) : Prop := ∀ t y, y.length = n → ∃ v, f t y = .ok v ∧ n ≤ v.length

/-- whether f returns, with a component for each one of the state, depends on the dimension of the state alone -/
def Uniform (f : Rhs ℝ) : Prop :=
  ∀ t (y : Vec ℝ), (∃ v, f t y = .ok v ∧ y.length ≤ v.length) → IsSystem y.length f

theorem addVectors_of_eq {a b : Vec ℝ} (h : a.length = b.length) : addVectors a b = .ok (List.zipWith (· + ·) a b) :=
  if_neg (not_not.2 h)

theorem subtractVectors_of_eq {a b : Vec ℝ} (h : a.length = b.length) :
    subtractVectors a b = .ok (List.zipWith (· - ·) a b) :=
  if_neg (not_not.2 h)

/-- vectors that were added have one length, which is that of the sum -/
theorem length_of_addVectors {a b v : Vec ℝ} (h : addVectors a b = .ok v) :
    a.length = b.length ∧ v.length = a.length := by
  unfold addVectors at h
  split_ifs at h with hab
  cases h
  have heq := not_not.1 hab
  exact ⟨heq, by rw [List.length_zipWith, heq, min_self]⟩

theorem length_of_subtractVectors {a b v : Vec ℝ} (h : subtractVectors a b = .ok v) : a.length = b.length := by
  unfold subtractVectors at h
  split_ifs at h with hab
  exact not_not.1 hab

@[simp] theorem length_multiplyScalarByVector (c : ℝ) (v : Vec ℝ) : (multiplyScalarByVector c v).length = v.length :=
  List.length_map _

theorem norm_singleton (x : ℝ) : norm [x] = |x| := by
  rw [norm, List.foldl_cons, List.foldl_nil, zero_add, cmath_sqrt, Real.sqrt_mul_self_eq_abs]

theorem norm_nonneg' (v : Vec ℝ) : 0 ≤ norm v := Real.sqrt_nonneg _

/-! ## Vector algebra -/

section Algebra

variable {n : ℕ}

theorem read_ofFn (u : Fin n → ℝ) (i : Fin n) : read (List.ofFn u) i = .ok (u i) := by
  simp [read]

theorem exists_ofFn {v : Vec ℝ} (hv : v.length = n) : ∃ u : Fin n → ℝ, v = List.ofFn u := by
  subst hv
  exact ⟨v.get, (List.ofFn_get v).symm⟩

theorem map_range_eq_ofFn (G : ℕ → ℝ) : (List.range n).map G = List.ofFn fun i : Fin n => G i := by
  apply List.ext_getElem <;> simp

/-- a loop over i < n that computes F i writes the vector F -/
theorem tabulate_ofFn {g : ℕ → Except Exn ℝ} {F : Fin n → ℝ} (h : ∀ i : Fin n, g i = .ok (F i)) :
    tabulate n g = .ok (List.ofFn F) := by
  let G : ℕ → ℝ := fun i => if hi : i < n then F ⟨i, hi⟩ else 0
  have hG : ∀ i ∈ List.range n, g i = .ok (G i) := by
    intro i hi
    have hi' : i < n := List.mem_range.1 hi
    simp only [G, dif_pos hi']
    exact h ⟨i, hi'⟩
  rw [tabulate, mapM_eq_ok _ hG, map_range_eq_ofFn]
  simp [G]

theorem multiplyScalarByVector_ofFn (c : ℝ) (u : Fin n → ℝ) :
    multiplyScalarByVector c (List.ofFn u) = List.ofFn (c • u) := by
  rw [multiplyScalarByVector, List.map_ofFn]; rfl

theorem zipWith_ofFn (op : ℝ → ℝ → ℝ) (u v : Fin n → ℝ) :
    List.zipWith op (List.ofFn u) (List.ofFn v) = List.ofFn fun i => op (u i) (v i) := by
  apply List.ext_getElem <;> simp

theorem addVectors_ofFn (u v : Fin n → ℝ) : addVectors (List.ofFn u) (List.ofFn v) = .ok (List.ofFn (u + v)) := by
  simp only [addVectors, List.length_ofFn, ne_eq, not_true_eq_false, if_false, zipWith_ofFn]; rfl

theorem subtractVectors_ofFn (u v : Fin n → ℝ) :
    subtractVectors (List.ofFn u) (List.ofFn v) = .ok (List.ofFn (u - v)) := by
  simp only [subtractVectors, List.length_ofFn, ne_eq, not_true_eq_false, if_false, zipWith_ofFn]; rfl

theorem ofField_ofFn (F : ℝ → (Fin n → ℝ) → Fin n → ℝ) (t : ℝ) (u : Fin n → ℝ) :
    ofField F t (List.ofFn u) = .ok (List.ofFn (F t u)) := by
  simp [ofField]

/-- on states of dimension n, f computes the field F -/
def Computes (F : ℝ → (Fin n → ℝ) → Fin n → ℝ) (f : Rhs ℝ) : Prop :=
  ∀ t u, f t (List.ofFn u) = .ok (List.ofFn (F t u))

theorem ofField_isSystem (F : ℝ → (Fin n → ℝ) → Fin n → ℝ) : IsSystem n (ofField F) := fun t y hy =>
  ⟨List.ofFn (F t fun i => y.get (i.cast hy.symm)), dif_pos hy, List.length_ofFn.ge⟩

theorem ofField_uniform (F : ℝ → (Fin n → ℝ) → Fin n → ℝ) : Uniform (ofField F) := by
  rintro t y ⟨v, hv, -⟩
  unfold ofField at hv
  split_ifs at hv with hy
  exact hy ▸ ofField_isSystem F

/-- a maximum of absolute values is the maximum norm -/
theorem maxOver_ofFn {g : ℕ → Except Exn ℝ} {x : Fin n → ℝ} (h : ∀ i : Fin n, g i = .ok |x i|) :
    maxOver n g = .ok ‖x‖ := by
  let G : ℕ → ℝ := fun i => if hi : i < n then |x ⟨i, hi⟩| else 0
  have hG : ∀ b, ∀ i ∈ List.range n, (do return max b (← g i)) = (.ok (max b (G i)) : Except Exn ℝ) := by
    intro b i hi
    have hi' : i < n := List.mem_range.1 hi
    rw [show g i = .ok |x ⟨i, hi'⟩| from h ⟨i, hi'⟩, ok_bind, except_pure]
    simp only [G, dif_pos hi']
  -- the fold is the least bound of its entries
  have hfold : ∀ (l : List ℕ) (a b : ℝ), l.foldl (fun m i => max m (G i)) a ≤ b ↔ a ≤ b ∧ ∀ i ∈ l, G i ≤ b := by
    intro l
    induction l with
    | nil => simp
    | cons i l ih =>
      intro a b
      rw [List.foldl_cons, ih, max_le_iff, List.forall_mem_cons, and_assoc]
  rw [maxOver, foldlM_eq_ok _ _ hG, Except.ok.injEq]
  refine eq_of_forall_ge_iff fun b => ?_
  rw [hfold]
  constructor
  · rintro ⟨hb, hall⟩
    refine (pi_norm_le_iff_of_nonneg hb).2 fun i => ?_
    have hi := hall i (List.mem_range.2 i.isLt)
    simp only [G, dif_pos i.isLt] at hi
    exact hi
  · intro hb
    refine ⟨(norm_nonneg x).trans hb, fun i hi => ?_⟩
    simp only [G, dif_pos (List.mem_range.1 hi)]
    exact (norm_le_pi_norm x ⟨i, List.mem_range.1 hi⟩).trans hb

/-- `Norm` is the Euclidean norm -/
theorem norm_ofFn (u : Fin n → ℝ) : norm (List.ofFn u) = Real.sqrt (∑ i, u i * u i) := by
  have hfold : ∀ (l : List ℝ) (acc : ℝ),
      l.foldl (fun sum val => sum + val * val) acc = acc + (l.map fun val => val * val).sum := by
    intro l
    induction l with
    | nil => simp
    | cons a l ih => intro acc; rw [List.foldl_cons, ih, List.map_cons, List.sum_cons, add_assoc]
  rw [norm, hfold, zero_add, List.map_ofFn, List.sum_ofFn]
  rfl

theorem norm_ofFn_eq_zero {u : Fin n → ℝ} : norm (List.ofFn u) = 0 ↔ u = 0 := by
  have hnonneg : 0 ≤ ∑ i, u i * u i := Finset.sum_nonneg fun i _ => mul_self_nonneg (u i)
  rw [norm_ofFn, Real.sqrt_eq_zero hnonneg, Finset.sum_eq_zero_iff_of_nonneg fun i _ => mul_self_nonneg (u i)]
  simp [funext_iff]

/-- the Euclidean norm is at most sqrt(n) times the largest component -/
theorem norm_ofFn_le {u : Fin n → ℝ} {b : ℝ} (hb : 0 ≤ b) (hu : ∀ i, |u i| ≤ b) :
    norm (List.ofFn u) ≤ Real.sqrt n * b := by
  have hsum : ∑ i, u i * u i ≤ n * (b * b) := by
    calc ∑ i, u i * u i ≤ ∑ _i : Fin n, b * b := by
          refine Finset.sum_le_sum fun i _ => ?_
          rw [← abs_mul_abs_self]
          exact mul_le_mul (hu i) (hu i) (abs_nonneg _) hb
      _ = n * (b * b) := by rw [Finset.sum_const, Finset.card_univ, Fintype.card_fin, nsmul_eq_mul]
  calc norm (List.ofFn u) ≤ Real.sqrt (n * (b * b)) := by rw [norm_ofFn]; exact Real.sqrt_le_sqrt hsum
    _ = Real.sqrt n * b := by rw [Real.sqrt_mul n.cast_nonneg, Real.sqrt_mul_self hb]

end Algebra

end OdeClientServer
