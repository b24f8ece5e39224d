/-
Loops with a clock, a step and a state that grows with the clock. A pass advances the clock by the step that it leaves,
and multiplies the size of the state by at most exp(K step), or it leaves clock and state and at least halves the step.
While the size is bounded such a loop may not lower its step for ever.

- `terminates_of_paced`: the loop is left when the step of a bounded state does not fall below a floor, except for the
  steps that are cut off at the end of the interval.
- `fuelled_settles`: loops whose passes need fuel, when every pass is fed with enough of it.
-/
import OdeClientServer.Core.Loop
import Mathlib.Analysis.SpecialFunctions.Exp

namespace OdeClientServer.Loop

variable {ε σ : Type}

/-! ## Paced loops -/

section Paced

variable {body : σ → Pass ε σ} {I : σ → Prop} {t h size : σ → ℝ} {tEnd K : ℝ} {s s' : σ}

/-- the clock advances by the new step, and the state grows at most exponentially in it -/
structure Advances (t h size : σ → ℝ) (K : ℝ) (s s' : σ) : Prop where
  clock : t s' = t s + h s'
  pos : 0 < h s'
  growth : size s' ≤ size s * Real.exp (K * h s')

/-- clock and state stay, and the step is at least halved -/
structure Retries (t h size : σ → ℝ) (s s' : σ) : Prop where
  clock : t s' = t s
  growth : size s' = size s
  half : h s' ≤ h s / 2

/-- the pass from s to s' keeps a step up to η, where the interval does not cut it off, and leaves at least c of a
larger one while more than η of the interval is left -/
structure Keeps (t h size : σ → ℝ) (tEnd K η c : ℝ) (s s' : σ) : Prop where
  short : h s ≤ η → Advances t h size K s s' ∧ min (h s) (tEnd - t s) ≤ h s'
  long : η < h s → η < tEnd - t s → c ≤ h s'

/-- every pass of the loop is made before the end, advances or retries, and keeps its step while the state is bounded -/
structure Paced (body : σ → Pass ε σ) (I : σ → Prop) (t h size : σ → ℝ) (tEnd K : ℝ) : Prop where
  size_nonneg : ∀ s, 0 ≤ size s
  pos : ∀ s, I s → 0 < h s
  pass : ∀ s s', I s → body s = .next s' → t s < tEnd ∧ I s' ∧ (Advances t h size K s s' ∨ Retries t h size s s')
  floor : ∀ R, ∃ η > 0, ∃ c > 0, ∀ s s', I s → size s ≤ R → body s = .next s' → Keeps t h size tEnd K η c s s'

/-- the size grows with the clock at most as much as s0 allows -/
def Within (t size : σ → ℝ) (K : ℝ) (s0 s : σ) : Prop := size s ≤ size s0 * Real.exp (K * (t s - t s0))

theorem within_step {s0 : σ} (hs : Within t size K s0 s) (hstep : Advances t h size K s s' ∨ Retries t h size s s') :
    Within t size K s0 s' := by
  rcases hstep with ha | hr
  · calc size s' ≤ size s * Real.exp (K * h s') := ha.growth
      _ ≤ size s0 * Real.exp (K * (t s - t s0)) * Real.exp (K * h s') :=
        mul_le_mul_of_nonneg_right hs (Real.exp_pos _).le
      _ = size s0 * Real.exp (K * (t s' - t s0)) := by rw [mul_assoc, ← Real.exp_add, ha.clock]; ring_nf
  · rw [Within, hr.clock, hr.growth]
    exact hs

/-- a bound of the size for the whole interval -/
theorem within_bound (hK : 0 ≤ K) {s0 : σ} (h0 : 0 ≤ size s0) (hs : Within t size K s0 s) (hend : t s ≤ tEnd) :
    size s ≤ size s0 * Real.exp (K * (tEnd - t s0)) :=
  hs.trans (mul_le_mul_of_nonneg_left
    (Real.exp_le_exp.2 (mul_le_mul_of_nonneg_left (sub_le_sub_right hend _) hK)) h0)

/-- an advance that does not reach the end leaves less than the rest of the interval -/
theorem Advances.lt_rest (ha : Advances t h size K s s') (hlive : t s' < tEnd) : h s' < tEnd - t s := by
  linarith [ha.clock]

/-- a short step is not lowered before the end -/
theorem Keeps.le_step {η c : ℝ} (hk : Keeps t h size tEnd K η c s s') (hshort : h s ≤ η) (hlive : t s' < tEnd) :
    Advances t h size K s s' ∧ h s ≤ h s' := by
  obtain ⟨ha, hmin⟩ := hk.short hshort
  refine ⟨ha, ?_⟩
  rcases min_le_iff.1 hmin with hle | hle
  · exact hle
  · exact absurd (ha.lt_rest hlive) (not_lt.2 hle)

theorem terminates_of_next {s1 : σ} (hb : body s = .next s1) (h1 : Terminates body s1) : Terminates body s := by
  obtain ⟨n, hn⟩ := h1
  exact ⟨n + 1, by rwa [run_succ_next hb]⟩

/-- a loop is left from a head from which no pass comes back -/
theorem terminates_of_no_next (hb : ∀ s1, body s ≠ .next s1) : Terminates body s := by
  refine ⟨1, fun s1 h1 => ?_⟩
  obtain ⟨s2, h2, -⟩ := run_succ_eq_next.1 h1
  exact hb s2 h2

section Bounded

variable {η c : ℝ}

/-- in the last part of the interval a short step only grows -/
theorem terminates_near_end (hpass : ∀ s s', I s → body s = .next s' →
    t s < tEnd ∧ I s' ∧ (Advances t h size K s s' ∨ Retries t h size s s') ∧ Keeps t h size tEnd K η c s s')
    (hs : I s) (hpos : 0 < h s) (hshort : h s ≤ η) (hrest : tEnd - t s ≤ η) : Terminates body s := by
  have hend : ∀ s1, t s1 < tEnd → t s1 ≤ tEnd := fun s1 h1 => h1.le
  refine terminates_of_control (I := fun s1 => I s1 ∧ (t s1 < tEnd → h s ≤ h s1 ∧ h s1 ≤ η ∧ tEnd - t s1 ≤ η))
    (t := t) (h := h) hpos hend ⟨hs, fun _ => ⟨le_rfl, hshort, hrest⟩⟩ fun s1 s2 h1 hb => ?_
  obtain ⟨hlive, h2, -, hkeeps⟩ := hpass s1 s2 h1.1 hb
  obtain ⟨hlow, hshort1, hrest1⟩ := h1.2 hlive
  refine ⟨⟨h2, fun hlive2 => ?_⟩, hlive, fun hlive2 => ?_⟩
  · obtain ⟨ha, hle⟩ := hkeeps.le_step hshort1 hlive2
    have hlt := ha.lt_rest hlive2
    have hclock := ha.clock
    exact ⟨hlow.trans hle, hlt.le.trans hrest1, by linarith [ha.pos]⟩
  · obtain ⟨ha, hle⟩ := hkeeps.le_step hshort1 hlive2
    exact Or.inl (by linarith [ha.clock])

/-- the loop is left when the floor holds in every state that it reaches -/
theorem terminates_of_floor (hη : 0 < η) (hc : 0 < c) (hpass : ∀ s s', I s → body s = .next s' →
    t s < tEnd ∧ I s' ∧ (Advances t h size K s s' ∨ Retries t h size s s') ∧ Keeps t h size tEnd K η c s s')
    (hpos : ∀ s, I s → 0 < h s) (hs : I s) : Terminates body s := by
  by_contra hno
  -- while more than η is left the step stays above this
  let low := min (h s) (min η c)
  have hlow : 0 < low := lt_min (hpos s hs) (lt_min hη hc)
  have hlowη : low ≤ η := (min_le_right _ _).trans (min_le_left _ _)
  have hlowc : low ≤ c := (min_le_right _ _).trans (min_le_right _ _)
  have hend : ∀ s1, t s1 < tEnd → t s1 ≤ tEnd := fun s1 h1 => h1.le
  refine hno (terminates_of_control (I := fun s1 => I s1 ∧ ¬ Terminates body s1 ∧ (η < tEnd - t s1 → low ≤ h s1))
    (t := t) (h := h) hlow hend ⟨hs, hno, fun _ => min_le_left _ _⟩ fun s1 s2 h1 hb => ?_)
  obtain ⟨hI1, hno1, hlow1⟩ := h1
  obtain ⟨hlive, hI2, hstep, hkeeps⟩ := hpass s1 s2 hI1 hb
  have hno2 : ¬ Terminates body s2 := fun hterm => hno1 (terminates_of_next hb hterm)
  have hlive2 : t s2 < tEnd := by
    by_contra hdead
    exact hno2 (terminates_of_no_next fun s3 h3 => hdead (hpass s2 s3 hI2 h3).1)
  have hlarge : tEnd - t s2 ≤ η → η < h s2 := by
    intro hrest
    by_contra hshort
    exact hno2 (terminates_near_end hpass hI2 (hpos s2 hI2) (not_lt.1 hshort) hrest)
  have hfar : η < tEnd - t s1 → low ≤ h s2 := by
    intro hrest
    rcases le_or_gt (h s1) η with hshort | hlong
    · exact (hlow1 hrest).trans (hkeeps.le_step hshort hlive2).2
    · exact hlowc.trans (hkeeps.long hlong hrest)
  have hfloor : low ≤ h s2 := by
    rcases le_or_gt (tEnd - t s1) η with hnear | hrest
    · rcases hstep with ha | hr
      · have hlong := hlarge (by linarith [ha.clock, ha.pos])
        exact absurd (ha.lt_rest hlive2) (not_lt.2 (hnear.trans hlong.le))
      · exact hlowη.trans (hlarge (by rw [hr.clock]; exact hnear)).le
    · exact hfar hrest
  refine ⟨⟨hI2, hno2, fun _ => hfloor⟩, hlive, fun _ => ?_⟩
  rcases hstep with ha | hr
  · exact Or.inl (by linarith [ha.clock])
  · exact Or.inr ⟨hr.clock, hfloor, hr.half⟩

end Bounded

/-- **Paced loops.** A loop whose state grows at most exponentially with its clock, and whose step has a floor while the
state is bounded, is left after some number of passes. -/
theorem terminates_of_paced (hbody : Paced body I t h size tEnd K) (hK : 0 ≤ K) (hs : I s) : Terminates body s := by
  obtain ⟨η, hη, c, hc, hfloor⟩ := hbody.floor (size s * Real.exp (K * (tEnd - t s)))
  have hpass : ∀ s1 s2, I s1 ∧ Within t size K s s1 → body s1 = .next s2 → t s1 < tEnd ∧
      (I s2 ∧ Within t size K s s2) ∧ (Advances t h size K s1 s2 ∨ Retries t h size s1 s2) ∧
      Keeps t h size tEnd K η c s1 s2 := by
    rintro s1 s2 ⟨h1, hsize⟩ hb
    obtain ⟨hlive, h2, hstep⟩ := hbody.pass s1 s2 h1 hb
    have hbound := within_bound hK (hbody.size_nonneg s) hsize hlive.le
    exact ⟨hlive, ⟨h2, within_step hsize hstep⟩, hstep, hfloor s1 s2 h1 hbound hb⟩
  have hstart : Within t size K s s := by rw [Within, sub_self, mul_zero, Real.exp_zero, mul_one]
  exact terminates_of_floor hη hc hpass (fun s1 h1 => hbody.pos s1 h1.1) ⟨hs, hstart⟩

end Paced

/-! ## Loops whose passes need fuel -/

section Fuel

variable {body : ℕ → σ → Pass ε σ} {I : σ → Prop} {s s' : σ}

/-- the pass from s is not cut off -/
def Fed (body : ℕ → σ → Pass ε σ) (fuel : ℕ) (s : σ) : Prop := ∀ s', body fuel s ≠ .starved s'

/-- more fuel does not change a pass that is not cut off -/
def FuelStable (body : ℕ → σ → Pass ε σ) : Prop :=
  ∀ fuel0 s, Fed body fuel0 s → ∀ fuel ≥ fuel0, body fuel s = body fuel0 s

open Classical in
/-- the pass with enough fuel -/
noncomputable def limit (body : ℕ → σ → Pass ε σ) (s : σ) : Pass ε σ :=
  if h : ∃ fuel, Fed body fuel s then body h.choose s else body 0 s

theorem limit_eq (hbody : FuelStable body) {fuel0 : ℕ} (hfed : Fed body fuel0 s) :
    ∀ fuel ≥ fuel0, body fuel s = limit body s := by
  intro fuel hfuel
  have hex : ∃ fuel, Fed body fuel s := ⟨fuel0, hfed⟩
  rw [limit, dif_pos hex]
  rcases le_total hex.choose fuel0 with hle | hle
  · rw [hbody fuel0 s hfed fuel hfuel, hbody _ s hex.choose_spec fuel0 hle]
  · rw [hbody fuel0 s hfed fuel hfuel, ← hbody fuel0 s hfed _ hle]

/-- a pass of the limit is a pass with some amount of fuel -/
theorem limit_next (hb : limit body s = .next s') : ∃ fuel, body fuel s = .next s' := by
  unfold limit at hb
  split_ifs at hb
  · exact ⟨_, hb⟩
  · exact ⟨_, hb⟩

/-- **Fuel.** When the loop with enough fuel for every pass is left, from some amount of fuel and number of passes on
all runs are the same, and are neither cut off nor waiting for more passes. -/
theorem fuelled_settles (hbody : FuelStable body) (hI : ∀ s s', I s → limit body s = .next s' → I s')
    (hfed : ∀ s, I s → ∃ fuel, Fed body fuel s) {s0 : σ} (h0 : I s0) (hterm : Terminates (limit body) s0) :
    ∃ p, (∀ s, p ≠ .next s) ∧ (∀ s, p ≠ .starved s) ∧ ∃ N, ∀ n ≥ N, ∀ fuel ≥ N, run (body fuel) n s0 = p := by
  obtain ⟨n, hn⟩ := hterm
  induction n generalizing s0 with
  | zero => exact absurd rfl (hn s0)
  | succ n ih =>
    obtain ⟨fuel0, hF⟩ := hfed s0 h0
    have hsame := limit_eq hbody hF
    cases hb : limit body s0 with
    | next s1 =>
      rw [run_succ_next hb] at hn
      obtain ⟨p, hnext, hstarved, N, hp⟩ := ih (hI s0 s1 h0 hb) hn
      refine ⟨p, hnext, hstarved, max N fuel0 + 1, fun m hm fuel hfuel => ?_⟩
      obtain ⟨k, rfl⟩ := Nat.exists_eq_add_of_le' (show 1 ≤ m by omega)
      have hpass : body fuel s0 = .next s1 := (hsame fuel (by omega)).trans hb
      rw [run_succ_next hpass]
      exact hp k (by omega) fuel (by omega)
    | exit s1 =>
      refine ⟨.exit s1, (fun _ h => by cases h), (fun _ h => by cases h), fuel0 + 1, fun m hm fuel hfuel => ?_⟩
      obtain ⟨k, rfl⟩ := Nat.exists_eq_add_of_le' (show 1 ≤ m by omega)
      exact run_succ_exit ((hsame fuel (by omega)).trans hb) k
    | raise e s1 =>
      refine ⟨.raise e s1, (fun _ h => by cases h), (fun _ h => by cases h), fuel0 + 1, fun m hm fuel hfuel => ?_⟩
      obtain ⟨k, rfl⟩ := Nat.exists_eq_add_of_le' (show 1 ≤ m by omega)
      have hpass : body fuel s0 = .raise e s1 := (hsame fuel (by omega)).trans hb
      simp only [run, hpass]
    | starved s1 => exact absurd ((hsame fuel0 le_rfl).trans hb) (hF s1)

end Fuel

end OdeClientServer.Loop
