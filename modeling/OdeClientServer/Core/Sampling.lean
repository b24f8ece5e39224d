/-
Samples of a list: at most `limit` of its elements, read through a partial function, at increasing positions that begin
with the first one. A sample is taken with a rational step: the i-th position is the floor of i times the step.

- `floor_mul_strictMono`, `floor_mul_lt`: the positions increase when the step is at least 1, and stay below the count
  when the step is the count divided by the limit.
- `isSample_of_mapM`: a list within the limit is a sample of itself.
- `isSample_of_step`: the elements at the multiples of the step are a sample.
-/
import Mathlib.Tactic

namespace OdeClientServer.Sampling

/-! ## Floors of the multiples of a step -/

section Floor

variable {K : Type*} [Field K] [LinearOrder K] [IsStrictOrderedRing K] [FloorSemiring K]

/-- multiples of a step of at least 1 have different floors -/
theorem floor_mul_strictMono {step : K} (hstep : 1 ≤ step) : StrictMono fun i : ℕ => ⌊(i : K) * step⌋₊ := by
  apply strictMono_nat_of_lt_succ
  intro i
  have hnonneg : 0 ≤ (i : K) * step := mul_nonneg (Nat.cast_nonneg i) (zero_le_one.trans hstep)
  have hnext : (i : K) * step + 1 ≤ ((i + 1 : ℕ) : K) * step := by
    rw [Nat.cast_add_one, add_one_mul]
    linarith
  calc ⌊(i : K) * step⌋₊ < ⌊(i : K) * step⌋₊ + 1 := Nat.lt_succ_self _
    _ = ⌊(i : K) * step + 1⌋₊ := (Nat.floor_add_one hnonneg).symm
    _ ≤ ⌊((i + 1 : ℕ) : K) * step⌋₊ := Nat.floor_le_floor hnext

/-- the first `limit` multiples of `count / limit` are below the count -/
theorem floor_mul_lt {count limit i : ℕ} (hcount : 0 < count) (hi : i < limit) :
    ⌊(i : K) * ((count : K) / (limit : K))⌋₊ < count := by
  have hlimit : (0 : K) < limit := Nat.cast_pos.2 (Nat.zero_lt_of_lt hi)
  have hlt : (i : K) * ((count : K) / (limit : K)) < count := by
    calc (i : K) * ((count : K) / (limit : K)) < limit * ((count : K) / (limit : K)) :=
          mul_lt_mul_of_pos_right (Nat.cast_lt.2 hi) (div_pos (Nat.cast_pos.2 hcount) hlimit)
      _ = count := mul_div_cancel₀ (count : K) hlimit.ne'
  exact (Nat.floor_lt' hcount.ne').2 hlt

end Floor

/-! ## Reading a list through a partial function -/

variable {α β : Type}

theorem mapM_eq_some_cons {g : α → Option β} {a : α} {as : List α} {bs : List β} (h : (a :: as).mapM g = some bs) :
    ∃ b bs', g a = some b ∧ as.mapM g = some bs' ∧ bs = b :: bs' := by
  rw [List.mapM_cons] at h
  obtain ⟨b, hb, h⟩ := Option.bind_eq_some_iff.1 h
  obtain ⟨bs', hbs, h⟩ := Option.bind_eq_some_iff.1 h
  cases h
  exact ⟨b, bs', hb, hbs, rfl⟩

/-- each result comes from the element at its place -/
theorem forall₂_of_mapM {g : α → Option β} {as : List α} {bs : List β} (h : as.mapM g = some bs) :
    List.Forall₂ (fun a b => g a = some b) as bs := by
  induction as generalizing bs with
  | nil =>
    cases h
    exact .nil
  | cons a as ih =>
    obtain ⟨b, bs', hb, hbs, rfl⟩ := mapM_eq_some_cons h
    exact .cons hb (ih hbs)

theorem mapM_isSome {g : α → Option β} {as : List α} (h : ∀ a ∈ as, ∃ b, g a = some b) : ∃ bs, as.mapM g = some bs := by
  induction as with
  | nil => exact ⟨[], rfl⟩
  | cons a as ih =>
    obtain ⟨b, hb⟩ := h a List.mem_cons_self
    obtain ⟨bs, hbs⟩ := ih fun c hc => h c (List.mem_cons_of_mem a hc)
    exact ⟨b :: bs, by rw [List.mapM_cons, hb, hbs]; rfl⟩

/-! ## Samples -/

/-- **Sample.** The list bs has the values of g at increasing positions of as, as many as the limit allows, and begins
with the first one. -/
structure IsSample (limit : ℕ) (g : α → Option β) (as : List α) (bs : List β) : Prop where
  count : bs.length = min as.length limit
  positions : ∃ position : Fin bs.length → Fin as.length, StrictMono position ∧
    (∀ i, g (as.get (position i)) = some (bs.get i)) ∧ ∀ i, i.val = 0 → (position i).val = 0

/-- a sample with a place for one element of a nonempty list has the first one -/
theorem IsSample.first {limit : ℕ} {g : α → Option β} {as : List α} {bs : List β} (h : IsSample limit g as bs)
    (hlimit : 0 < limit) (hne : as ≠ []) : ∃ a b, as.head? = some a ∧ bs.head? = some b ∧ g a = some b := by
  have hpos : 0 < as.length := List.length_pos_iff.2 hne
  have hbs : 0 < bs.length := by
    rw [h.count]
    exact lt_min hpos hlimit
  obtain ⟨position, -, hget, hfirst⟩ := h.positions
  have h0 : position ⟨0, hbs⟩ = ⟨0, hpos⟩ := Fin.ext (hfirst ⟨0, hbs⟩ rfl)
  refine ⟨as.get ⟨0, hpos⟩, bs.get ⟨0, hbs⟩, ?_, ?_, ?_⟩
  · rw [List.head?_eq_getElem?]
    exact List.getElem?_eq_getElem hpos
  · rw [List.head?_eq_getElem?]
    exact List.getElem?_eq_getElem hbs
  · rw [← h0]
    exact hget ⟨0, hbs⟩

theorem IsSample.mem {limit : ℕ} {g : α → Option β} {as : List α} {bs : List β} (h : IsSample limit g as bs) {b : β}
    (hb : b ∈ bs) : ∃ a ∈ as, g a = some b := by
  obtain ⟨i, rfl⟩ := List.mem_iff_get.1 hb
  obtain ⟨position, -, hget, -⟩ := h.positions
  exact ⟨_, List.get_mem as (position i), hget i⟩

theorem isSample_of_mapM {limit : ℕ} {g : α → Option β} {as : List α} {bs : List β} (hlimit : as.length ≤ limit)
    (h : as.mapM g = some bs) : IsSample limit g as bs := by
  have hall := forall₂_of_mapM h
  have hlength : as.length = bs.length := hall.length_eq
  refine ⟨by rw [min_eq_left hlimit, hlength], Fin.cast hlength.symm, fun i j hij => hij, fun i => ?_, fun i hi => hi⟩
  exact hall.get (by rw [hlength]; exact i.isLt) i.isLt

/-- the elements at the first `limit` multiples of `count / limit` -/
theorem isSample_of_step {K : Type*} [Field K] [LinearOrder K] [IsStrictOrderedRing K] [FloorSemiring K] {limit : ℕ}
    {g : α → Option β} {as : List α} {bs : List β} (hlimit : limit < as.length)
    (h : (List.range limit).mapM (fun i : ℕ => as[⌊(i : K) * ((as.length : K) / (limit : K))⌋₊]?.bind g) = some bs) :
    IsSample limit g as bs := by
  have hall := forall₂_of_mapM h
  have hlength : limit = bs.length := by
    rw [← hall.length_eq, List.length_range]
  have hcount : 0 < as.length := Nat.zero_lt_of_lt hlimit
  have hbelow : ∀ i : Fin bs.length, i.val < limit := fun i => i.isLt.trans_eq hlength.symm
  have hlt : ∀ i : Fin bs.length, ⌊(i.val : K) * ((as.length : K) / (limit : K))⌋₊ < as.length :=
    fun i => floor_mul_lt hcount (hbelow i)
  refine ⟨by rw [min_eq_right hlimit.le, ← hlength], fun i => ⟨_, hlt i⟩, fun i j hij => ?_, fun i => ?_, fun i hi =>
    ?_⟩
  · -- the step is at least 1
    have hpos : (0 : K) < limit := Nat.cast_pos.2 (Nat.zero_lt_of_lt (hbelow i))
    have hstep : (1 : K) ≤ (as.length : K) / (limit : K) := (one_le_div hpos).2 (Nat.cast_le.2 hlimit.le)
    exact floor_mul_strictMono hstep hij
  · have hi := hall.get (i := i.val) (by rw [List.length_range]; exact hbelow i) i.isLt
    rw [List.get_eq_getElem, List.getElem_range] at hi
    obtain ⟨a, ha, hg⟩ := Option.bind_eq_some_iff.1 hi
    obtain ⟨_, rfl⟩ := List.getElem?_eq_some_iff.1 ha
    exact hg
  · dsimp only
    rw [hi, Nat.cast_zero, zero_mul, Nat.floor_zero]

end OdeClientServer.Sampling
