/-
Termination of `DISPSSolver::Solve`. A pass of its loop accepts a step, shrinks the step, or changes the variant. The
loop gives up below a step of 1e-14, but a pass without an accepted step never leaves less than 1e-10.

- `stuck_pass`: a pass at the floor that accepts nothing and keeps its variant comes back to the same state.
- `rank_lt`: every other pass lowers a rank: the accepted steps that still fit into the interval, then whether the
  variant is still to change, then how far the step is from the floor.
- `terminates_iff`: the loop is left, and reaches no state twice, exactly when none of its heads is stuck.
- `disps25_never_ends`: a linear system on which Disps25 alone is stuck from the start.
-/
import OdeClientServer.Results.Switching
import OdeClientServer.Results.Repeatability

namespace OdeClientServer.Termination

open Loop DISPSSolver

variable {f : Rhs ℝ} {enabled : List (DispsVariant ℝ)} {tEnd tolerance : ℝ} {s s' : State ℝ}

/-! ## One pass -/

/-- the loop is not left at its head -/
def Continues (tEnd t stepSize : ℝ) : Prop := t < tEnd ∧ 1e-14 ≤ min stepSize (tEnd - t)

noncomputable instance (tEnd t stepSize : ℝ) : Decidable (Continues tEnd t stepSize) :=
  inferInstanceAs (Decidable (_ ∧ _))

/-- the tries of the pass from s -/
noncomputable def tries (f : Rhs ℝ) (enabled : List (DispsVariant ℝ)) (tEnd tolerance : ℝ) (s : State ℝ) :
    Except Exn (Tries ℝ) := do
  tryLoop f (← read enabled s.currentIndex) tolerance s.t s.y 30 (min s.stepSize (tEnd - s.t))

/-- **Pass inversion.** A pass back to the loop head, by how its tries end. -/
theorem body_cases (hb : body f enabled tEnd tolerance s = .next s') :
    Continues tEnd s.t s.stepSize ∧
      ((∃ h yNext newH needSwitch, tries f enabled tEnd tolerance s = .ok (.accepted h yNext newH needSwitch) ∧
        s' = ⟨s.t + h, yNext, newH, if needSwitch then switchScheme enabled s.currentIndex else s.currentIndex,
          s.results ++ [(s.t + h, yNext)]⟩) ∨
      (∃ h, tries f enabled tEnd tolerance s = .ok (.failed h) ∧ s' = { s with stepSize := max (h * 0.5) 1e-10 }) ∨
      ∃ h, tries f enabled tEnd tolerance s = .ok (.switched h) ∧
        s' = { s with stepSize := max (h * 0.5) 1e-10, currentIndex := switchScheme enabled s.currentIndex }) := by
  unfold body at hb
  by_cases ht : s.t < tEnd
  · rw [if_pos ht] at hb
    dsimp only at hb
    by_cases htiny : min s.stepSize (tEnd - s.t) < 1e-14
    · rw [if_pos htiny] at hb
      cases hb
    · rw [if_neg htiny] at hb
      refine ⟨⟨ht, not_lt.1 htiny⟩, ?_⟩
      split at hb
      · cases hb
      · rename_i h yNext newH needSwitch htry
        cases hb
        exact Or.inl ⟨h, yNext, newH, needSwitch, htry, rfl⟩
      · rename_i h htry
        cases hb
        exact Or.inr (Or.inl ⟨h, htry, rfl⟩)
      · rename_i h htry
        cases hb
        exact Or.inr (Or.inr ⟨h, htry, rfl⟩)
  · rw [if_neg ht] at hb
    cases hb

/-- what the tries end with, from a positive step -/
theorem tries_sound (htol : 0 < tolerance) (hs : Continues tEnd s.t s.stepSize) {r : Tries ℝ}
    (hr : tries f enabled tEnd tolerance s = .ok r) :
    ∃ v, enabled[s.currentIndex]? = some v ∧ r.Sound f v s.t s.y (min s.stepSize (tEnd - s.t)) := by
  have hpos : 0 < min s.stepSize (tEnd - s.t) := lt_of_lt_of_le (by norm_num) hs.2
  obtain ⟨v, hv, hr⟩ := bind_eq_ok.1 hr
  exact ⟨v, Switching.getElem?_of_read hv, tryLoop_sound hpos htol hr⟩

/-- the step after an accepted one -/
theorem tryLoop_growth {v : DispsVariant ℝ} {t h h' newH : ℝ} {y yNext : Vec ℝ} {needSwitch : Bool} {left : ℕ}
    (hh : 0 < h) (htol : 0 < tolerance)
    (hr : tryLoop f v tolerance t y left h = .ok (.accepted h' yNext newH needSwitch)) : newH ≤ h' * 1.2 := by
  induction left generalizing h with
  | zero => cases hr
  | succ left ih =>
    obtain ⟨⟨y1, k⟩, -, hr⟩ := bind_eq_ok.1 hr
    obtain ⟨c, hc, hr⟩ := bind_eq_ok.1 hr
    split_ifs at hr with hok hsw
    · cases hr
      exact control_growth hh hc hok
    · cases hr
    · exact ih (control_sound hh htol hc).1 hr

/-! ## Rejected tries -/

/-- the controller rejects the step h from (t, y) and proposes h' -/
def Rejects (f : Rhs ℝ) (v : DispsVariant ℝ) (tolerance t : ℝ) (y : Vec ℝ) (h h' : ℝ) : Prop :=
  ∃ yNext k c, doOneStep f t y h v = .ok (yNext, k) ∧ DISPSSolver.control v k h tolerance = .ok c ∧ c.ok = false ∧
    c.newH = h'

section Tries

variable {v : DispsVariant ℝ} {t h : ℝ} {y : Vec ℝ} {left : ℕ}

/-- the five-stage variant of order 2, which leaves its tries at the first rejection -/
def LeavesTries (v : DispsVariant ℝ) : Prop := v.stages = 5 ∧ v.order = 2

instance (v : DispsVariant ℝ) : Decidable (LeavesTries v) := inferInstanceAs (Decidable (_ ∧ _))

theorem tryLoop_rejected (hv : ¬ LeavesTries v) {h' : ℝ} (hr : Rejects f v tolerance t y h h') :
    tryLoop f v tolerance t y (left + 1) h = tryLoop f v tolerance t y left h' := by
  obtain ⟨yNext, k, c, hstep, hc, hok, rfl⟩ := hr
  simp only [tryLoop, hstep, ok_bind, hc, hok, Bool.false_eq_true, if_false]
  exact if_neg fun h1 => hv ⟨h1.1, h1.2.1⟩

/-- a try that is neither accepted nor an exception is rejected -/
theorem tryLoop_cases {r : Tries ℝ} (hr : tryLoop f v tolerance t y (left + 1) h = .ok r) :
    (∃ yNext newH needSwitch, r = .accepted h yNext newH needSwitch) ∨ ∃ h', Rejects f v tolerance t y h h' := by
  obtain ⟨⟨yNext, k⟩, hstep, hr⟩ := bind_eq_ok.1 hr
  obtain ⟨c, hc, hr⟩ := bind_eq_ok.1 hr
  by_cases hok : c.ok = true
  · rw [if_pos hok] at hr
    cases hr
    exact Or.inl ⟨_, _, _, rfl⟩
  · exact Or.inr ⟨c.newH, yNext, k, c, hstep, hc, Bool.eq_false_iff.2 hok, rfl⟩

/-- **All tries rejected.** The tries fail when each of them is rejected and proposes the next. -/
theorem tryLoop_failed_iff (hv : ¬ LeavesTries v) :
    (∃ h', tryLoop f v tolerance t y left h = .ok (.failed h')) ↔
      ∃ steps : ℕ → ℝ, steps 0 = h ∧ ∀ i < left, Rejects f v tolerance t y (steps i) (steps (i + 1)) := by
  induction left generalizing h with
  | zero => exact iff_of_true ⟨h, rfl⟩ ⟨fun _ => h, rfl, fun i hi => absurd hi (Nat.not_lt_zero i)⟩
  | succ left ih =>
    constructor
    · rintro ⟨h', htry⟩
      rcases tryLoop_cases htry with ⟨_, _, _, hr⟩ | ⟨h1, hr⟩
      · cases hr
      · rw [tryLoop_rejected hv hr] at htry
        obtain ⟨steps, hfirst, hall⟩ := ih.1 ⟨h', htry⟩
        refine ⟨fun i => if i = 0 then h else steps (i - 1), rfl, fun i hi => ?_⟩
        cases i with
        | zero =>
          change Rejects f v tolerance t y h (steps 0)
          rwa [hfirst]
        | succ i => exact hall i (Nat.lt_of_succ_lt_succ hi)
    · rintro ⟨steps, rfl, hall⟩
      rw [tryLoop_rejected hv (hall 0 (Nat.succ_pos left))]
      exact ih.2 ⟨fun i => steps (i + 1), rfl, fun i hi => hall (i + 1) (Nat.succ_lt_succ hi)⟩

theorem tryLoop_leaves (hv : LeavesTries v) (hh : 0 < h) (htol : 0 < tolerance) {h' : ℝ}
    (hr : Rejects f v tolerance t y h h') : tryLoop f v tolerance t y (left + 1) h = .ok (.switched h) := by
  obtain ⟨yNext, k, c, hstep, hc, hok, rfl⟩ := hr
  have hlt : c.newH < h := (control_sound hh htol hc).2 hok
  simp only [tryLoop, hstep, ok_bind, hc, hok, Bool.false_eq_true, if_false]
  exact if_pos ⟨hv.1, hv.2, hlt⟩

theorem tryLoop_not_switched (hv : ¬ LeavesTries v) {h' : ℝ} :
    tryLoop f v tolerance t y left h ≠ .ok (.switched h') := by
  induction left generalizing h with
  | zero => exact nofun
  | succ left ih =>
    intro htry
    rcases tryLoop_cases htry with ⟨_, _, _, hr⟩ | ⟨h1, hr⟩
    · cases hr
    · rw [tryLoop_rejected hv hr] at htry
      exact ih htry

end Tries

/-! ## Stuck passes -/

/-- The step of s is at its floor. Disps25 is rejected there and is not replaced, or another variant is rejected 30
times in a row. -/
structure Stuck (f : Rhs ℝ) (enabled : List (DispsVariant ℝ)) (tEnd tolerance : ℝ) (s : State ℝ) : Prop where
  continues : Continues tEnd s.t s.stepSize
  floor : s.stepSize = 1e-10
  rejected : ∃ v, read enabled s.currentIndex = .ok v ∧
    if LeavesTries v then
      (∃ h', Rejects f v tolerance s.t s.y (min s.stepSize (tEnd - s.t)) h') ∧
        switchScheme enabled s.currentIndex = s.currentIndex
    else ∃ steps : ℕ → ℝ, steps 0 = min s.stepSize (tEnd - s.t) ∧
      ∀ i < 30, Rejects f v tolerance s.t s.y (steps i) (steps (i + 1))

/-- the pass from a stuck state, by how its tries end -/
theorem stuck_iff (htol : 0 < tolerance) : Stuck f enabled tEnd tolerance s ↔
    Continues tEnd s.t s.stepSize ∧ s.stepSize = 1e-10 ∧
      ((∃ h, tries f enabled tEnd tolerance s = .ok (.failed h)) ∨
        (∃ h, tries f enabled tEnd tolerance s = .ok (.switched h)) ∧
          switchScheme enabled s.currentIndex = s.currentIndex) := by
  constructor
  · rintro ⟨hcont, hfloor, v, hv, hrej⟩
    have hpos : 0 < min s.stepSize (tEnd - s.t) := lt_of_lt_of_le (by norm_num) hcont.2
    refine ⟨hcont, hfloor, ?_⟩
    unfold tries
    simp only [hv, ok_bind]
    split_ifs at hrej with hleaves
    · obtain ⟨⟨h', hr⟩, hswitch⟩ := hrej
      exact Or.inr ⟨⟨_, tryLoop_leaves hleaves hpos htol hr⟩, hswitch⟩
    · exact Or.inl ((tryLoop_failed_iff hleaves).2 hrej)
  · rintro ⟨hcont, hfloor, htry⟩
    have hpos : 0 < min s.stepSize (tEnd - s.t) := lt_of_lt_of_le (by norm_num) hcont.2
    refine ⟨hcont, hfloor, ?_⟩
    rcases htry with ⟨h, htry⟩ | ⟨⟨h, htry⟩, hswitch⟩
    · obtain ⟨v, hv, htry⟩ := bind_eq_ok.1 htry
      refine ⟨v, hv, ?_⟩
      split_ifs with hleaves
      · -- Disps25 never comes to its second try
        rcases tryLoop_cases htry with ⟨_, _, _, hr⟩ | ⟨h1, hr⟩
        · cases hr
        · rw [tryLoop_leaves hleaves hpos htol hr] at htry
          cases htry
      · exact (tryLoop_failed_iff hleaves).1 ⟨h, htry⟩
    · obtain ⟨v, hv, htry⟩ := bind_eq_ok.1 htry
      refine ⟨v, hv, ?_⟩
      split_ifs with hleaves
      · rcases tryLoop_cases htry with ⟨_, _, _, hr⟩ | hr
        · cases hr
        · exact ⟨hr, hswitch⟩
      · exact absurd htry (tryLoop_not_switched hleaves)

/-- half a step that is at most the floor is cut off at the floor -/
theorem half_floor {h : ℝ} (hh : h ≤ 1e-10) : max (h * 0.5) 1e-10 = 1e-10 := by
  refine max_eq_right ?_
  norm_num at hh ⊢
  linarith

/-- **Stuck.** A stuck pass comes back to the loop head in the same state. -/
theorem stuck_pass (htol : 0 < tolerance) (hs : Stuck f enabled tEnd tolerance s) :
    body f enabled tEnd tolerance s = .next s := by
  obtain ⟨⟨ht, hstep⟩, hfloor, hrej⟩ := (stuck_iff htol).1 hs
  have hle : ∀ h, h ≤ min s.stepSize (tEnd - s.t) → max (h * 0.5) 1e-10 = s.stepSize := by
    intro h hh
    rw [half_floor (hfloor ▸ hh.trans (min_le_left _ _)), hfloor]
  unfold body
  rw [if_pos ht]
  dsimp only
  rw [if_neg (not_lt.2 hstep)]
  rcases hrej with ⟨h, htry⟩ | ⟨⟨h, htry⟩, hswitch⟩
  · obtain ⟨v, -, -, hh⟩ := tries_sound htol ⟨ht, hstep⟩ htry
    unfold tries at htry
    rw [htry]
    dsimp only
    rw [hle h hh]
  · obtain ⟨v, -, -, hh⟩ := tries_sound htol ⟨ht, hstep⟩ htry
    unfold tries at htry
    rw [htry]
    dsimp only
    rw [hle h hh, hswitch]

/-! ## The rank -/

/-- a bound of the accepted steps to come: a step that is followed by another pass is longer than 5e-15 -/
noncomputable def advances (tEnd t stepSize : ℝ) : ℕ :=
  if Continues tEnd t stepSize then ⌊(tEnd - t) / 5e-15⌋₊ + 1 else 0

/-- 1 while a change of variant is still possible -/
noncomputable def unsettled (enabled : List (DispsVariant ℝ)) (i : ℕ) : ℕ := if switchScheme enabled i = i then 0 else 1

/-- a bound of the passes without an accepted step, before the step is at its floor -/
noncomputable def halvings (stepSize : ℝ) : ℕ := if stepSize = 1e-10 then 0 else ⌈stepSize / 1e-10⌉₊ + 1

/-- what a loop head keeps of the state -/
def look (s : State ℝ) : ℝ × Vec ℝ × ℝ × ℕ := (s.t, s.y, s.stepSize, s.currentIndex)

noncomputable def rank (enabled : List (DispsVariant ℝ)) (tEnd : ℝ) (c : ℝ × Vec ℝ × ℝ × ℕ) : ℕ ×ₗ ℕ ×ₗ ℕ :=
  toLex (advances tEnd c.1 c.2.2.1, toLex (unsettled enabled c.2.2.2, halvings c.2.2.1))

theorem advances_lt {t h newH : ℝ} {stepSize : ℝ} (hs : Continues tEnd t stepSize) (hgrow : newH ≤ h * 1.2) :
    advances tEnd (t + h) newH < advances tEnd t stepSize := by
  unfold advances
  rw [if_pos hs]
  split_ifs with hnext
  · obtain ⟨ht, hstep⟩ := hnext
    have hlong : (5e-15 : ℝ) ≤ h := by
      have hnew := (hstep.trans (min_le_left _ _)).trans hgrow
      norm_num at hnew ⊢
      linarith
    have hle : (tEnd - (t + h)) / 5e-15 + 1 ≤ (tEnd - t) / 5e-15 := by
      rw [div_add_one (by norm_num)]
      exact div_le_div_of_nonneg_right (by linarith) (by norm_num)
    have hpos : 0 ≤ (tEnd - (t + h)) / 5e-15 := div_nonneg (by linarith) (by norm_num)
    rw [← Nat.floor_add_one hpos]
    exact Nat.lt_succ_of_le (Nat.floor_mono hle)
  · exact Nat.succ_pos _

/-- a pass that leaves t and half a step at most does not change the bound of the accepted steps -/
theorem advances_eq {t stepSize h : ℝ} (hs : Continues tEnd t stepSize) :
    advances tEnd t (max (h * 0.5) 1e-10) = advances tEnd t stepSize := by
  have hnext : Continues tEnd t (max (h * 0.5) 1e-10) :=
    ⟨hs.1, le_min (le_max_of_le_right (by norm_num)) (hs.2.trans (min_le_right _ _))⟩
  rw [advances, advances, if_pos hs, if_pos hnext]

theorem halvings_lt {stepSize h : ℝ} (hle : h ≤ stepSize) (hfloor : stepSize ≠ 1e-10) :
    halvings (max (h * 0.5) 1e-10) < halvings stepSize := by
  unfold halvings
  rw [if_neg hfloor]
  split_ifs with hnext
  · exact Nat.succ_pos _
  · have hlt : (1e-10 : ℝ) < h * 0.5 := by
      by_contra hnot
      exact hnext (max_eq_right (not_lt.1 hnot))
    rw [max_eq_left hlt.le]
    -- more than twice the floor is left, so the quotient falls by one
    have hquot : h * 0.5 / 1e-10 + 1 ≤ stepSize / 1e-10 := by
      rw [div_add_one (by norm_num)]
      exact div_le_div_of_nonneg_right (by norm_num at hlt ⊢; linarith) (by norm_num)
    have hpos : 0 ≤ h * 0.5 / 1e-10 := div_nonneg (by norm_num at hlt ⊢; linarith) (by norm_num)
    have hceil : ⌈h * 0.5 / 1e-10⌉₊ + 1 ≤ ⌈stepSize / 1e-10⌉₊ := by
      rw [← Nat.ceil_add_one hpos]
      exact Nat.ceil_mono hquot
    exact Nat.succ_lt_succ hceil

theorem unsettled_lt {i : ℕ} {v : DispsVariant ℝ} (hv : enabled[i]? = some v) (hne : switchScheme enabled i ≠ i) :
    unsettled enabled (switchScheme enabled i) < unsettled enabled i := by
  rw [unsettled, unsettled, if_pos (switchScheme_idem hv), if_neg hne]
  exact Nat.zero_lt_one

/-- **Progress.** A pass that is not stuck lowers the rank. -/
theorem rank_lt (htol : 0 < tolerance) (hs : ¬ Stuck f enabled tEnd tolerance s)
    (hb : body f enabled tEnd tolerance s = .next s') : rank enabled tEnd (look s') < rank enabled tEnd (look s) := by
  obtain ⟨hcont, ⟨h, yNext, newH, needSwitch, htry, rfl⟩ | ⟨h, htry, rfl⟩ | ⟨h, htry, rfl⟩⟩ := body_cases hb
  · -- an accepted step
    have hpos : 0 < min s.stepSize (tEnd - s.t) := lt_of_lt_of_le (by norm_num) hcont.2
    obtain ⟨v, -, htry⟩ := bind_eq_ok.1 htry
    exact Prod.Lex.toLex_lt_toLex.2 (Or.inl (advances_lt hcont (tryLoop_growth hpos htol htry)))
  · obtain ⟨v, -, -, hle⟩ := tries_sound htol hcont htry
    have hfloor : s.stepSize ≠ 1e-10 := fun h0 => hs ((stuck_iff htol).2 ⟨hcont, h0, Or.inl ⟨h, htry⟩⟩)
    refine Prod.Lex.toLex_lt_toLex.2 (Or.inr ⟨advances_eq hcont, ?_⟩)
    exact Prod.Lex.toLex_lt_toLex.2 (Or.inr ⟨rfl, halvings_lt (hle.trans (min_le_left _ _)) hfloor⟩)
  · obtain ⟨v, hv, -, hle⟩ := tries_sound htol hcont htry
    refine Prod.Lex.toLex_lt_toLex.2 (Or.inr ⟨advances_eq hcont, ?_⟩)
    by_cases hswitch : switchScheme enabled s.currentIndex = s.currentIndex
    · have hfloor : s.stepSize ≠ 1e-10 := fun h0 =>
        hs ((stuck_iff htol).2 ⟨hcont, h0, Or.inr ⟨⟨h, htry⟩, hswitch⟩⟩)
      refine Prod.Lex.toLex_lt_toLex.2 (Or.inr ⟨?_, halvings_lt (hle.trans (min_le_left _ _)) hfloor⟩)
      exact congrArg (unsettled enabled) hswitch
    · exact Prod.Lex.toLex_lt_toLex.2 (Or.inl (unsettled_lt hv hswitch))

/-! ## Runs -/

/-- **Termination.** The loop of `Solve` is left, and reaches no state (t, y, stepSize_, currentIndex_) twice, exactly
when none of its heads is stuck. -/
theorem terminates_iff (f : Rhs ℝ) (flags : DispsEnabledFlags) (stepSize t0 tEnd : ℝ) (currentIndex : ℕ) (y0 : Vec ℝ)
    {tolerance : ℝ} (htol : 0 < tolerance) :
    (Terminates (body f (variants flags) tEnd tolerance) ⟨t0, y0, stepSize, currentIndex, [(t0, y0)]⟩ ∧
      NoRepeat (body f (variants flags) tEnd tolerance) look ⟨t0, y0, stepSize, currentIndex, [(t0, y0)]⟩) ↔
    ∀ s, Head (body f (variants flags) tEnd tolerance) ⟨t0, y0, stepSize, currentIndex, [(t0, y0)]⟩ s →
      ¬ Stuck f (variants flags) tEnd tolerance s := by
  generalize (⟨t0, y0, stepSize, currentIndex, [(t0, y0)]⟩ : State ℝ) = s0
  constructor
  · rintro ⟨hterm, -⟩ s hs hstuck
    exact (forever_of_fixed hs (stuck_pass htol hstuck) look).1 hterm
  · intro hall
    have hstep : ∀ s s', Head (body f (variants flags) tEnd tolerance) s0 s →
        body f (variants flags) tEnd tolerance s = .next s' →
          Head (body f (variants flags) tEnd tolerance) s0 s' ∧
            rank (variants flags) tEnd (look s') < rank (variants flags) tEnd (look s) :=
      fun s s' hs hb => ⟨hs.pass hb, rank_lt htol (hall s hs) hb⟩
    exact ⟨terminates_of_rank .start hstep, noRepeat_of_rank .start hstep⟩

/-- y' = 1 with Disps13 over [0, 1], whose only step is accepted -/
theorem terminates_iff_unit :
    Terminates (body Repeatability.one (variants Repeatability.onlyDisps13) 1 1) ⟨0, [0], 1, 0, [(0, [0])]⟩ ∧
      NoRepeat (body Repeatability.one (variants Repeatability.onlyDisps13) 1 1) look ⟨0, [0], 1, 0, [(0, [0])]⟩ := by
  refine (terminates_iff Repeatability.one Repeatability.onlyDisps13 1 0 1 0 [0] one_pos).2 fun s hs hstuck => ?_
  have hheads : s.t = 1 ∨ s.stepSize = 1 := by
    refine (head_invariant (I := fun s => s.t = 1 ∨ s = ⟨0, [0], 1, 0, [(0, [0])]⟩) (Or.inr rfl) ?_ hs).imp_right
      fun h => by rw [h]
    rintro s s' (h | rfl) hb
    · exact absurd (body_cases hb).1.1 (not_lt.2 h.ge)
    · rw [Repeatability.unit_pass] at hb
      cases hb
      exact Or.inl rfl
  rcases hheads with h | h
  · exact absurd hstuck.continues.1 (not_lt.2 h.ge)
  · have hfloor := hstuck.floor
    rw [h] at hfloor
    norm_num at hfloor

/-! ## Disps25 alone

y' = 2·10⁹ y from 1 with the step 1e-10. The stages are 0.2, 0.2133 and 0.2138, and the estimate B' is 8.9e-5. -/

/-- y' = 2·10⁹ y -/
def growth : ℝ → (Fin 1 → ℝ) → Fin 1 → ℝ := fun _ y => (2000000000 : ℝ) • y

def onlyDisps25 : DispsEnabledFlags := ⟨false, false, false, true, false, false⟩

theorem growth_lipschitz (t : ℝ) : LipschitzWith 2000000000 (growth t) := by
  refine LipschitzWith.of_dist_le_mul fun x y => ?_
  rw [growth, growth, dist_eq_norm, dist_eq_norm, ← smul_sub, norm_smul_of_nonneg (by norm_num)]
  rfl

theorem growth_apply (t x : ℝ) : ofField growth t [x] = .ok [2000000000 * x] := by
  simpa [growth] using ofField_ofFn growth t ![x]

theorem growth_step :
    ∃ yNext k4 k5, doOneStep (ofField growth) 0 [1] 1e-10 disps25 =
      .ok (yNext, [[1 / 5], [16 / 75], [481 / 2250], k4, k5]) := by
  norm_num -implicitDefEqProofs [doOneStep, disps25, step5Stage, growth_apply, mul, add, multiplyScalarByVector, read]

theorem growth_control (k4 k5 : Vec ℝ) :
    ∃ newH needSwitch, DISPSSolver.control disps25 [[1 / 5], [16 / 75], [481 / 2250], k4, k5] (1e-10 : ℝ) 1e-6 =
      .ok ⟨false, newH, needSwitch⟩ := by
  have hroot : √(5⁻¹ * 5⁻¹ : ℝ) = 5⁻¹ := Real.sqrt_mul_self (by norm_num)
  simp [DISPSSolver.control, control2ndOrder, disps25, read, subtract, norm, hroot, verdict]
  norm_num

theorem growth_stuck :
    Stuck (ofField growth) (variants onlyDisps25) 1 1e-6 ⟨0, [1], 1e-10, 0, [(0, [1])]⟩ where
  continues := ⟨by norm_num, by norm_num⟩
  floor := rfl
  rejected := by
    obtain ⟨yNext, k4, k5, hstep⟩ := growth_step
    obtain ⟨newH, needSwitch, hcontrol⟩ := growth_control k4 k5
    have hmin : min (1e-10 : ℝ) (1 - 0) = 1e-10 := by norm_num
    refine ⟨disps25, rfl, ?_⟩
    rw [if_pos ⟨rfl, rfl⟩]
    dsimp only
    rw [hmin]
    exact ⟨⟨newH, yNext, _, _, hstep, hcontrol, rfl, rfl⟩,
      switchScheme_preferred rfl fun u hu => by rw [List.mem_singleton.1 hu]; exact .refl _⟩

/-- **No end.** For this system, which is linear, Disps25 alone comes back to its first state for ever. -/
theorem disps25_never_ends :
    (∀ t, LipschitzWith 2000000000 (growth t)) ∧
      ¬ (Terminates (body (ofField growth) (variants onlyDisps25) 1 1e-6) ⟨0, [1], 1e-10, 0, [(0, [1])]⟩ ∧
        NoRepeat (body (ofField growth) (variants onlyDisps25) 1 1e-6) look ⟨0, [1], 1e-10, 0, [(0, [1])]⟩) :=
  ⟨growth_lipschitz, fun h => (forever_of_fixed .start (stuck_pass (by norm_num) growth_stuck) look).1 h.1⟩

end OdeClientServer.Termination
