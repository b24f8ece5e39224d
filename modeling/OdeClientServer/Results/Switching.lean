/-
How DISPS reacts when an accepted step reports instability. The current variant is then replaced by the one that
`switchScheme` prefers: the highest order, and among these the smallest stability length gamma.

- `unstable_pass`: an accepted step that reports `needSwitch` goes on with the index of `switchScheme`.
- `reacts_iff`: in every run, the next variant is at least as stable as the current one, when a more stable one is
  enabled, exactly when no such step is made with a variant from which the preferred one leads down.
- `disps13_destabilised`: a run in which gamma falls from 17 to 6 while a variant with 46.8 is enabled.
-/
import OdeClientServer.Solvers.Tableaux

namespace OdeClientServer.Switching

open Loop DISPSSolver Tableaux

/-! ## The preferred variant -/

theorem mem_variants_iff {flags : DispsEnabledFlags} {v : DispsVariant ℝ} :
    v ∈ variants flags ↔ flags.disps13 = true ∧ v = disps13 ∨ flags.disps15 = true ∧ v = disps15 ∨
      flags.disps23 = true ∧ v = disps23 ∨ flags.disps25 = true ∧ v = disps25 ∨ flags.disps35 = true ∧ v = disps35 ∨
        flags.disps36 = true ∧ v = disps36 := by
  simp only [variants, List.mem_append, List.mem_ite_nil_right, List.mem_singleton, or_assoc]

/-- the stability length of the preferred variant -/
noncomputable def preferredGamma (flags : DispsEnabledFlags) : ℝ :=
  if flags.disps35 then 10.3 else if flags.disps36 then 15.68 else if flags.disps23 then 6.0
  else if flags.disps25 then 18.8 else if flags.disps13 then 17.0 else 46.8

theorem prefers_gamma {flags : DispsEnabledFlags} {w : DispsVariant ℝ} (hw : w ∈ variants flags)
    (hall : ∀ u ∈ variants flags, Prefers w u) : w.gamma = preferredGamma flags := by
  have h35 : flags.disps35 = true → Prefers w disps35 := fun h => hall _ (by simp [mem_variants_iff, h])
  have h36 : flags.disps36 = true → Prefers w disps36 := fun h => hall _ (by simp [mem_variants_iff, h])
  have h23 : flags.disps23 = true → Prefers w disps23 := fun h => hall _ (by simp [mem_variants_iff, h])
  have h25 : flags.disps25 = true → Prefers w disps25 := fun h => hall _ (by simp [mem_variants_iff, h])
  have h13 : flags.disps13 = true → Prefers w disps13 := fun h => hall _ (by simp [mem_variants_iff, h])
  rcases mem_variants_iff.1 hw with ⟨h, rfl⟩ | ⟨h, rfl⟩ | ⟨h, rfl⟩ | ⟨h, rfl⟩ | ⟨h, rfl⟩ | ⟨h, rfl⟩ <;>
    norm_num [Prefers, disps13, disps15, disps23, disps25, disps35, disps36] at h35 h36 h23 h25 h13 <;>
    norm_num [preferredGamma, disps13, disps15, disps23, disps25, disps35, disps36, h, h35, h36, h23, h25, h13]

/-- from the variant v the preferred one is not less stable, or no enabled one is more stable than v -/
def SafeToSwitch (flags : DispsEnabledFlags) (v : DispsVariant ℝ) : Prop :=
  ¬ (v = disps13 ∧ (flags.disps15 ∨ flags.disps25) ∧ (flags.disps23 ∨ flags.disps35 ∨ flags.disps36)) ∧
    ¬ (v = disps25 ∧ flags.disps15 ∧ (flags.disps23 ∨ flags.disps35 ∨ flags.disps36)) ∧
      ¬ (v = disps36 ∧ flags.disps35 ∧ (flags.disps13 ∨ flags.disps15 ∨ flags.disps25))

theorem exists_larger_iff (flags : DispsEnabledFlags) (g : ℝ) :
    (∃ w ∈ variants flags, g < w.gamma) ↔ flags.disps13 = true ∧ g < 17 ∨ flags.disps15 = true ∧ g < 46.8 ∨
      flags.disps23 = true ∧ g < 6 ∨ flags.disps25 = true ∧ g < 18.8 ∨ flags.disps35 = true ∧ g < 10.3 ∨
        flags.disps36 = true ∧ g < 15.68 := by
  simp only [mem_variants_iff, or_and_right, exists_or, and_assoc, exists_and_left, exists_eq_left]
  norm_num [disps13, disps15, disps23, disps25, disps35, disps36]

theorem safeToSwitch_iff {flags : DispsEnabledFlags} {v : DispsVariant ℝ} (hv : v ∈ variants flags) :
    ((∃ w ∈ variants flags, v.gamma < w.gamma) → v.gamma ≤ preferredGamma flags) ↔ SafeToSwitch flags v := by
  rw [exists_larger_iff]
  rcases mem_variants_iff.1 hv with ⟨h, rfl⟩ | ⟨h, rfl⟩ | ⟨h, rfl⟩ | ⟨h, rfl⟩ | ⟨h, rfl⟩ | ⟨h, rfl⟩ <;>
    norm_num [SafeToSwitch, preferredGamma, disps13, disps15, disps23, disps25, disps35, disps36, h]
  · cases flags.disps35 <;> cases flags.disps36 <;> cases flags.disps23 <;> cases flags.disps25 <;> norm_num
  · split_ifs <;> norm_num
  · cases flags.disps35 <;> cases flags.disps36 <;> cases flags.disps23 <;> norm_num
  · cases flags.disps35 <;> norm_num

/-! ## Unstable steps -/

section Runs

variable {f : Rhs ℝ} {enabled : List (DispsVariant ℝ)} {tEnd tolerance : ℝ} {s s' : State ℝ}

/-- the pass from s accepts a step of the variant v that reports `needSwitch` -/
def UnstableAt (f : Rhs ℝ) (enabled : List (DispsVariant ℝ)) (tEnd tolerance : ℝ) (s : State ℝ) (v : DispsVariant ℝ) :
    Prop :=
  s.t < tEnd ∧ ¬ min s.stepSize (tEnd - s.t) < 1e-14 ∧ read enabled s.currentIndex = .ok v ∧
    ∃ h yNext newH, tryLoop f v tolerance s.t s.y 30 (min s.stepSize (tEnd - s.t)) = .ok (.accepted h yNext newH true)

/-- the variant at j is at least as stable as v, if one more stable than v is enabled -/
def Reacts (enabled : List (DispsVariant ℝ)) (v : DispsVariant ℝ) (j : ℕ) : Prop :=
  (∃ w ∈ enabled, v.gamma < w.gamma) → ∃ v', enabled[j]? = some v' ∧ v.gamma ≤ v'.gamma

/-- every unstable step of a run is followed by a variant that is at least as stable -/
def ReactsToInstability (f : Rhs ℝ) (enabled : List (DispsVariant ℝ)) (tEnd tolerance : ℝ) (s0 : State ℝ) : Prop :=
  ∀ s v s', Head (body f enabled tEnd tolerance) s0 s → UnstableAt f enabled tEnd tolerance s v →
    body f enabled tEnd tolerance s = .next s' → Reacts enabled v s'.currentIndex

theorem getElem?_of_read {α : Type} {l : List α} {i : ℕ} {a : α} (h : read l i = .ok a) : l[i]? = some a := by
  unfold read at h
  split at h
  · rename_i x hx
    cases h
    exact hx
  · cases h

/-- **Unstable pass.** The pass goes back to the loop head with the index that `switchScheme` chooses. -/
theorem unstable_pass {v : DispsVariant ℝ} (hs : UnstableAt f enabled tEnd tolerance s v) :
    ∃ s', body f enabled tEnd tolerance s = .next s' ∧ s'.currentIndex = switchScheme enabled s.currentIndex := by
  obtain ⟨ht, htiny, hv, h, yNext, newH, htry⟩ := hs
  simp only [body, if_pos ht, if_neg htiny, hv, ok_bind, htry, if_true]
  exact ⟨_, rfl, rfl⟩

/-- one unstable step: when the next variant is at least as stable -/
theorem reacts_step_iff {flags : DispsEnabledFlags} {v : DispsVariant ℝ}
    (hs : UnstableAt f (variants flags) tEnd tolerance s v) (hb : body f (variants flags) tEnd tolerance s = .next s') :
    Reacts (variants flags) v s'.currentIndex ↔ SafeToSwitch flags v := by
  obtain ⟨s1, hb1, hi⟩ := unstable_pass hs
  cases hb.symm.trans hb1
  have hget := getElem?_of_read hs.2.2.1
  obtain ⟨w, hw, hbest⟩ := switchScheme_prefers hget
  have hgamma := prefers_gamma (List.mem_of_getElem? hw) hbest
  rw [← safeToSwitch_iff (List.mem_of_getElem? hget), Reacts, hi, ← hgamma]
  refine imp_congr_right fun _ => ?_
  rw [hw]
  constructor
  · rintro ⟨_, ⟨⟩, hle⟩; exact hle
  · exact fun hle => ⟨w, rfl, hle⟩

/-- **Reaction to instability.** Which runs of DISPS answer every unstable step with a variant that is at least as
stable. -/
theorem reacts_iff (f : Rhs ℝ) (flags : DispsEnabledFlags) (stepSize t0 tEnd tolerance : ℝ) (y0 : Vec ℝ) :
    ReactsToInstability f (variants flags) tEnd tolerance ⟨t0, y0, stepSize, 0, [(t0, y0)]⟩ ↔
      ∀ s v, Head (body f (variants flags) tEnd tolerance) ⟨t0, y0, stepSize, 0, [(t0, y0)]⟩ s →
        UnstableAt f (variants flags) tEnd tolerance s v → SafeToSwitch flags v := by
  constructor
  · intro hreacts s v hhead hs
    obtain ⟨s', hb, -⟩ := unstable_pass hs
    exact (reacts_step_iff hs hb).1 (hreacts s v s' hhead hs hb)
  · intro hsafe s v s' hhead hs hb
    exact (reacts_step_iff hs hb).2 (hsafe s v hhead hs)

/-! ## A step down

y' = -1500 y from 1/3 with the step 0.001 of the server: the first stage has norm 1/2, so the estimate A' is 0, and the
second stage is 0. -/

/-- y' = -1500 y -/
def fastDecay : Rhs ℝ := fun _ y => .ok (y.map (-1500 * ·))

/-- Disps13, Disps15 and Disps23 -/
def threeEnabled : DispsEnabledFlags := ⟨true, true, true, false, false, false⟩

theorem fastDecay_step :
    ∃ yNext, doOneStep fastDecay 0 [1 / 3] 0.001 disps13 = .ok (yNext, [[-(1 / 2)], [0], [-(1 / 4)]]) := by
  norm_num [doOneStep, disps13, step3Stage, fastDecay, mul, add, multiplyScalarByVector, read]

/-- the estimate is 0 and V_n is far above 17 -/
theorem fastDecay_control :
    ∃ newH, DISPSSolver.control disps13 [[-(1 / 2)], [0], [-(1 / 4)]] (0.001 : ℝ) 0.001 = .ok ⟨true, newH, true⟩ := by
  have hroot : √(2⁻¹ * 2⁻¹ : ℝ) = 2⁻¹ := Real.sqrt_mul_self (by norm_num)
  simp [DISPSSolver.control, control1stOrder, disps13, read, subtract, norm, hroot, verdict, vnTest]
  norm_num

theorem fastDecay_unstable :
    UnstableAt fastDecay (variants threeEnabled) 1 0.001 ⟨0, [1 / 3], 0.001, 0, [(0, [1 / 3])]⟩ disps13 := by
  have hclip : min (0.001 : ℝ) (1 - 0) = 0.001 := by norm_num
  obtain ⟨yNext, hstep⟩ := fastDecay_step
  obtain ⟨newH, hcontrol⟩ := fastDecay_control
  refine ⟨by norm_num, by norm_num, rfl, 0.001, yNext, newH, ?_⟩
  dsimp only
  rw [hclip]
  exact tryLoop_accepted hstep hcontrol rfl

/-- **Step down.** The first step is unstable for Disps13, with gamma = 17. Disps15 with 46.8 is enabled, but the next
variant is Disps23 with 6. -/
theorem disps13_destabilised :
    ¬ ReactsToInstability fastDecay (variants threeEnabled) 1 0.001 ⟨0, [1 / 3], 0.001, 0, [(0, [1 / 3])]⟩ := by
  intro hreacts
  obtain ⟨s', hb, -⟩ := unstable_pass fastDecay_unstable
  have hsafe := (reacts_step_iff fastDecay_unstable hb).1 (hreacts _ _ s' .start fastDecay_unstable hb)
  simp [SafeToSwitch, threeEnabled] at hsafe

end Runs

end OdeClientServer.Switching
