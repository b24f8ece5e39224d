/-
`ExtractInitialConditions` (`ParseUtils.cpp`): the initial values of a request, found by the names of its parameters.

The parameters are the entries of the `unordered_map` in the order in which it enumerates them, so a property of a map
is one of every order of its entries. `std::sort` is a parameter of the model: it returns an ascending permutation and
leaves open how equal indexes are ordered.

The function sorts the values by the index in the key and then drops the index. So the result is right only when the
indexes are 0, 1, 2, ... without a gap, each written once and without leading zeros:
- `initDigits_eq_some`: the keys that the regular expression matches.
- `extract_tooLarge`, `extract_eq`, `extract_empty`: the result, through the (index, value) pairs of the matching keys.
- `sorted_own`, `sorted_eq`: on consecutive keys each value is at its own place, in the same way for every order.
- `assigns_own_iff`: every order gives each value to its own component, and the same result, exactly when the matching
  keys are y0_init, ..., y<m-1>_init for some m, or one of them has an index that does not fit into an int.
- `gap_shifts`: two requests that break it.
-/
import OdeClientServer.Solvers.CommonFunctions

namespace OdeClientServer.ParseUtils

/-! ## Model -/

/-- the digits that `^y(\d+)_init$` captures in a key -/
def initDigits (key : String) : Option (List Char) :=
  match key.toList with
  | 'y' :: rest =>
    let digits := rest.takeWhile Char.isDigit
    if digits ≠ [] ∧ rest.drop digits.length = "_init".toList then some digits else none
  | _ => none

/-- `std::stoi` on digits; INT_MAX is 2147483647 -/
def stoi (digits : List Char) : Except Exn ℕ :=
  let value := Nat.ofDigitChars 10 digits 0
  if 2147483647 < value then .error (.outOfRange "stoi") else .ok value

section Model

variable {R : Type}

/-- the first loop, over the entries in enumeration order -/
def indexedConditions : List (String × R) → Except Exn (List (ℕ × R))
  | [] => .ok []
  | (key, value) :: parameters =>
    match initDigits key with
    | none => indexedConditions parameters
    | some digits => do
      let index ← stoi digits
      let later ← indexedConditions parameters
      return (index, value) :: later

def extractInitialConditions (sort : List (ℕ × R) → List (ℕ × R)) (parameters : List (String × R)) :
    Except Exn (Vec R) := do
  let indexed ← indexedConditions parameters
  let initialConditions := (sort indexed).map Prod.snd
  if initialConditions.isEmpty then throw (.runtimeError "No initial conditions found in parameters.")
  return initialConditions

/-- what `std::sort` by index promises -/
def IsSort (sort : List (ℕ × R) → List (ℕ × R)) : Prop :=
  ∀ l, (sort l).Perm l ∧ (sort l).Pairwise (fun a b => a.1 ≤ b.1)

/-- a sort by index -/
def byIndex : List (ℕ × R) → List (ℕ × R) := List.insertionSort fun a b => a.1 ≤ b.1

theorem byIndex_isSort : IsSort (byIndex (R := R)) := by
  intro l
  have htrans : IsTrans (ℕ × R) fun a b => a.1 ≤ b.1 := ⟨fun _ _ _ => le_trans⟩
  have htotal : @Std.Total (ℕ × R) fun a b => a.1 ≤ b.1 := ⟨fun a b => le_total a.1 b.1⟩
  exact ⟨List.perm_insertionSort _ l, List.pairwise_insertionSort _ l⟩

end Model

/-! ## Keys -/

/-- `y<i>_init` -/
def ownKey (i : ℕ) : String := "y" ++ toString i ++ "_init"

/-- the index in a key that matches -/
def initIndex (key : String) : Option ℕ := (initDigits key).map (Nat.ofDigitChars 10 · 0)

theorem initDigits_eq_some {key : String} {digits : List Char} :
    initDigits key = some digits ↔
      key.toList = 'y' :: (digits ++ "_init".toList) ∧ digits ≠ [] ∧ ∀ c ∈ digits, c.isDigit := by
  have hstop : ∀ l : List Char, (∀ c ∈ l, c.isDigit) → (l ++ "_init".toList).takeWhile Char.isDigit = l := by
    intro l hl
    rw [List.takeWhile_append_of_pos hl]
    simp
  unfold initDigits
  constructor
  · intro h
    split at h
    · next rest hkey =>
      dsimp only at h
      split_ifs at h with hif
      cases h
      refine ⟨?_, hif.1, fun c hc => List.all_eq_true.1 List.all_takeWhile c hc⟩
      rw [hkey, ← hif.2]
      congr 1
      have hpre := List.takeWhile_prefix (l := rest) Char.isDigit
      exact (List.prefix_iff_eq_append.1 hpre).symm
    · cases h
  · rintro ⟨hkey, hne, hall⟩
    rw [hkey]
    simp only [hstop digits hall]
    rw [if_pos ⟨hne, by simp⟩]

theorem initDigits_ownKey (i : ℕ) : initDigits (ownKey i) = some (Nat.toDigits 10 i) := by
  refine initDigits_eq_some.2 ⟨?_, Nat.toDigits_ne_nil, fun c hc => ?_⟩
  · simp [ownKey]
  · exact Nat.isDigit_of_mem_toDigits (by decide) (by decide) hc

theorem initIndex_ownKey (i : ℕ) : initIndex (ownKey i) = some i := by
  rw [initIndex, initDigits_ownKey, Option.map_some, Nat.ofDigitChars_ten_toDigits]

theorem ownKey_injective : Function.Injective ownKey := by
  intro i j hij
  have h := congrArg initIndex hij
  rw [initIndex_ownKey, initIndex_ownKey] at h
  exact Option.some.inj h

/-! ## The pairs -/

variable {R : Type} {sort : List (ℕ × R) → List (ℕ × R)} {entries order : List (String × R)}

def matching (keys : List String) : List String := keys.filter fun key => (initIndex key).isSome

/-- some matching key has an index that does not fit into an int -/
def TooLarge (keys : List String) : Prop := ∃ key ∈ keys, ∃ i, initIndex key = some i ∧ 2147483647 < i

/-- the pairs of the matching keys, in the order of the entries -/
def pairs (entries : List (String × R)) : List (ℕ × R) :=
  entries.filterMap fun e => (initIndex e.1).map (·, e.2)

theorem mem_pairs {i : ℕ} {x : R} : (i, x) ∈ pairs entries ↔ ∃ key, (key, x) ∈ entries ∧ initIndex key = some i := by
  simp only [pairs, List.mem_filterMap, Option.map_eq_some_iff, Prod.mk.injEq, Prod.exists]
  constructor
  · rintro ⟨key, y, hmem, j, hj, rfl, rfl⟩
    exact ⟨key, hmem, hj⟩
  · rintro ⟨key, hmem, hi⟩
    exact ⟨key, x, hmem, i, hi, rfl, rfl⟩

/-- the indexes of the pairs are read off the matching keys -/
theorem pairs_fst (entries : List (String × R)) :
    (pairs entries).map Prod.fst = (matching (entries.map Prod.fst)).filterMap initIndex := by
  induction entries with
  | nil => rfl
  | cons e entries ih =>
    cases hi : initIndex e.1 with
    | none => simpa [pairs, matching, hi] using ih
    | some i => simpa [pairs, matching, hi] using ih

theorem pairs_length (entries : List (String × R)) :
    (pairs entries).length = (matching (entries.map Prod.fst)).length := by
  induction entries with
  | nil => rfl
  | cons e entries ih =>
    cases hi : initIndex e.1 with
    | none => simpa [pairs, matching, hi] using ih
    | some i => simpa [pairs, matching, hi] using ih

theorem tooLarge_perm (h : order.Perm entries) : TooLarge (order.map Prod.fst) ↔ TooLarge (entries.map Prod.fst) := by
  simp only [TooLarge, (h.map Prod.fst).mem_iff]

/-- the first loop, when every index fits into an int -/
theorem indexedConditions_eq (h : ¬ TooLarge (entries.map Prod.fst)) :
    indexedConditions entries = .ok (pairs entries) := by
  induction entries with
  | nil => rfl
  | cons e entries ih =>
    obtain ⟨key, x⟩ := e
    have hrest : ¬ TooLarge (entries.map Prod.fst) :=
      fun ⟨k, hk, hi⟩ => h ⟨k, List.mem_cons_of_mem _ hk, hi⟩
    cases hd : initDigits key with
    | none => simpa [indexedConditions, pairs, initIndex, hd] using ih hrest
    | some digits =>
      have hfits : ¬ 2147483647 < Nat.ofDigitChars 10 digits 0 :=
        fun hlt => h ⟨key, List.mem_cons_self, _, by rw [initIndex, hd]; rfl, hlt⟩
      simp only [indexedConditions, hd, stoi, if_neg hfits, ih hrest]
      simp [pairs, initIndex, hd]

/-- the first loop, when some index does not -/
theorem indexedConditions_tooLarge (h : TooLarge (entries.map Prod.fst)) :
    indexedConditions entries = .error (.outOfRange "stoi") := by
  induction entries with
  | nil => obtain ⟨_, hk, _⟩ := h; cases hk
  | cons e entries ih =>
    obtain ⟨key, x⟩ := e
    obtain ⟨k, hk, i, hi, hlt⟩ := h
    rcases List.mem_cons.1 hk with rfl | hk
    · -- the loop stops at this key
      obtain ⟨digits, hd, rfl⟩ := Option.map_eq_some_iff.1 hi
      simp only [indexedConditions, hd, stoi, if_pos hlt]
      rfl
    · have hrest := ih ⟨k, hk, i, hi, hlt⟩
      cases hd : initDigits key with
      | none => simpa [indexedConditions, hd] using hrest
      | some digits =>
        simp only [indexedConditions, hd, hrest, stoi]
        split_ifs <;> rfl

/-! ## The result -/

theorem extract_tooLarge (h : TooLarge (entries.map Prod.fst)) :
    extractInitialConditions sort entries = .error (.outOfRange "stoi") := by
  rw [extractInitialConditions, indexedConditions_tooLarge h]
  rfl

theorem extract_eq (h : ¬ TooLarge (entries.map Prod.fst)) (hne : sort (pairs entries) ≠ []) :
    extractInitialConditions sort entries = .ok ((sort (pairs entries)).map Prod.snd) := by
  rw [extractInitialConditions, indexedConditions_eq h]
  cases hs : sort (pairs entries) with
  | nil => exact absurd hs hne
  | cons p l => simp [hs, bind, Except.bind, pure, Except.pure]

theorem extract_empty (h : ¬ TooLarge (entries.map Prod.fst)) (he : sort (pairs entries) = []) :
    extractInitialConditions sort entries = .error (.runtimeError "No initial conditions found in parameters.") := by
  rw [extractInitialConditions, indexedConditions_eq h]
  simp [he, bind, Except.bind, throw, throwThe, MonadExceptOf.throw]

/-- the function returns unless it meets an index too large for an int, or no matching key -/
theorem extract_returns_iff (hsort : IsSort sort) :
    (∃ v, extractInitialConditions sort entries = .ok v) ↔
      ¬ TooLarge (entries.map Prod.fst) ∧ matching (entries.map Prod.fst) ≠ [] := by
  have hnil : sort (pairs entries) = [] ↔ matching (entries.map Prod.fst) = [] := by
    rw [← List.length_eq_zero_iff, (hsort _).1.length_eq, pairs_length, List.length_eq_zero_iff]
  by_cases h : TooLarge (entries.map Prod.fst)
  · rw [extract_tooLarge h]
    exact iff_of_false nofun (fun hr => hr.1 h)
  · by_cases he : sort (pairs entries) = []
    · rw [extract_empty h he]
      exact iff_of_false nofun (fun hr => hr.2 (hnil.1 he))
    · exact iff_of_true ⟨_, extract_eq h he⟩ ⟨h, fun hm => he (hnil.2 hm)⟩

/-- the matching keys are y0_init, ..., y<m-1>_init for some m -/
def Consecutive (keys : List String) : Prop :=
  ∃ m, (matching keys).Perm ((List.range m).map ownKey)

theorem range_filterMap (m : ℕ) : ((List.range m).map ownKey).filterMap initIndex = List.range m := by
  simp [List.filterMap_map, initIndex_ownKey]

/-- on consecutive keys the sorted pairs carry the indexes 0, 1, 2, ... -/
theorem sorted_fst (hsort : IsSort sort) {m : ℕ}
    (hm : (matching (entries.map Prod.fst)).Perm ((List.range m).map ownKey)) :
    (sort (pairs entries)).map Prod.fst = List.range m := by
  have hperm : ((sort (pairs entries)).map Prod.fst).Perm (List.range m) := by
    refine ((hsort _).1.map Prod.fst).trans ?_
    rw [pairs_fst, ← range_filterMap m]
    exact hm.filterMap initIndex
  have hsorted : ((sort (pairs entries)).map Prod.fst).Pairwise (· ≤ ·) := List.pairwise_map.2 (hsort _).2
  exact hperm.eq_of_pairwise (fun _ _ _ _ => le_antisymm) hsorted (List.pairwise_lt_range.imp le_of_lt)

/-- a position of the sorted pairs holds the value of its own key -/
theorem sorted_own (hsort : IsSort sort) {m : ℕ}
    (hm : (matching (entries.map Prod.fst)).Perm ((List.range m).map ownKey)) {i : ℕ}
    {x : R} (hx : ((sort (pairs entries)).map Prod.snd)[i]? = some x) : (ownKey i, x) ∈ entries := by
  rw [List.getElem?_map, Option.map_eq_some_iff] at hx
  obtain ⟨⟨j, x'⟩, hj, rfl⟩ := hx
  -- the index stored beside the value is its position
  have hij : j = i := by
    have hfst : ((sort (pairs entries)).map Prod.fst)[i]? = some j := by rw [List.getElem?_map, hj]; rfl
    rw [sorted_fst hsort hm] at hfst
    obtain ⟨hlt, he⟩ := List.getElem?_eq_some_iff.1 hfst
    rw [← he, List.getElem_range]
  obtain ⟨key, hmem, hkey⟩ := mem_pairs.1 ((hsort _).1.mem_iff.1 (List.mem_of_getElem? hj))
  have hown : key ∈ (List.range m).map ownKey := by
    refine hm.mem_iff.1 (List.mem_filter.2 ⟨List.mem_map_of_mem hmem, ?_⟩)
    rw [hkey]
    rfl
  obtain ⟨k, -, rfl⟩ := List.mem_map.1 hown
  rw [initIndex_ownKey] at hkey
  cases hkey
  rwa [← hij]

/-- on consecutive keys the sort is determined by the entries alone -/
theorem sorted_eq (hsort : IsSort sort) {m : ℕ} (h : order.Perm entries)
    (hm : (matching (entries.map Prod.fst)).Perm ((List.range m).map ownKey)) :
    sort (pairs order) = sort (pairs entries) := by
  have hperm : (sort (pairs order)).Perm (sort (pairs entries)) :=
    ((hsort _).1.trans (h.filterMap _)).trans (hsort _).1.symm
  have hnodup : ((sort (pairs order)).map Prod.fst).Nodup := by
    rw [(hperm.map Prod.fst).nodup_iff, sorted_fst hsort hm]
    exact List.nodup_range
  refine hperm.eq_of_pairwise (fun a b ha hb hab hba => ?_) (hsort _).2 (hsort _).2
  exact List.inj_on_of_nodup_map hnodup ha (hperm.mem_iff.2 hb) (le_antisymm hab hba)

theorem not_tooLarge_of_consecutive {keys : List String} {m : ℕ} (hm : (matching keys).Perm ((List.range m).map ownKey))
    (hsmall : m ≤ 2147483647) : ¬ TooLarge keys := by
  rintro ⟨key, hkey, i, hi, hlarge⟩
  have hmatching : key ∈ matching keys := List.mem_filter.2 ⟨hkey, by rw [hi]; rfl⟩
  obtain ⟨j, hj, rfl⟩ := List.mem_map.1 (hm.mem_iff.1 hmatching)
  rw [initIndex_ownKey, Option.some.injEq] at hi
  have := List.mem_range.1 hj
  omega

/-- the result on consecutive keys, when each has a value of its own -/
theorem extract_consecutive (hsort : IsSort sort) {m : ℕ} (hpos : 0 < m) (hsmall : m ≤ 2147483647)
    (hm : (matching (entries.map Prod.fst)).Perm ((List.range m).map ownKey)) {v : ℕ → R}
    (hv : ∀ i < m, ∀ x, (ownKey i, x) ∈ entries → x = v i) :
    extractInitialConditions sort entries = .ok ((List.range m).map v) := by
  have hlen : (sort (pairs entries)).length = m := by
    simpa using congrArg List.length (sorted_fst hsort hm)
  have hne : sort (pairs entries) ≠ [] := List.ne_nil_of_length_pos (by omega)
  rw [extract_eq (not_tooLarge_of_consecutive hm hsmall) hne]
  congr 1
  refine List.ext_getElem (by simp [hlen]) fun i h1 h2 => ?_
  have hi : i < m := by simpa using h2
  rw [List.getElem_map, List.getElem_map, List.getElem_range]
  exact hv i hi _ (sorted_own hsort hm (by rw [List.getElem?_eq_getElem h1, List.getElem_map]))

/-! ## Each value in its own component -/

/-- in every enumeration order, component i of a returned vector is the value stored under y<i>_init, and the result is
the same -/
def AssignsOwn (sort : List (ℕ × R) → List (ℕ × R)) (entries : List (String × R)) : Prop :=
  ∀ order, order.Perm entries →
    (∀ v, extractInitialConditions sort order = .ok v → ∀ i x, v[i]? = some x → (ownKey i, x) ∈ entries) ∧
    extractInitialConditions sort order = extractInitialConditions sort entries

theorem assigns_of_consecutive (hsort : IsSort sort) (hfits : ¬ TooLarge (entries.map Prod.fst))
    (hc : Consecutive (entries.map Prod.fst)) : AssignsOwn sort entries := by
  intro order horder
  obtain ⟨m, hm⟩ := hc
  have hfits' : ¬ TooLarge (order.map Prod.fst) := by rwa [tooLarge_perm horder]
  have hsame := sorted_eq hsort horder hm
  by_cases he : sort (pairs entries) = []
  · rw [extract_empty hfits he, extract_empty hfits' (hsame.trans he)]
    exact ⟨nofun, rfl⟩
  · rw [extract_eq hfits he, extract_eq hfits' (by rwa [hsame]), hsame]
    refine ⟨fun v hv i x hx => ?_, rfl⟩
    cases hv
    exact sorted_own hsort hm hx

/-- a right result leaves no room for a gap: each of the m components has its key among the m matching ones -/
theorem consecutive_of_assigns (hsort : IsSort sort) (hfits : ¬ TooLarge (entries.map Prod.fst))
    (ha : AssignsOwn sort entries) : Consecutive (entries.map Prod.fst) := by
  refine ⟨(pairs entries).length, ?_⟩
  have hsub : (List.range (pairs entries).length).map ownKey ⊆
      matching (entries.map Prod.fst) := by
    intro key hkey
    obtain ⟨i, hi, rfl⟩ := List.mem_map.1 hkey
    rw [List.mem_range, ← (hsort (pairs entries)).1.length_eq] at hi
    have hne : sort (pairs entries) ≠ [] := List.ne_nil_of_length_pos (by omega)
    obtain ⟨x, hx⟩ : ∃ x, ((sort (pairs entries)).map Prod.snd)[i]? = some x :=
      ⟨_, List.getElem?_eq_getElem (by rwa [List.length_map])⟩
    have hmem := (ha entries (List.Perm.refl _)).1 _ (extract_eq hfits hne) i x hx
    refine List.mem_filter.2 ⟨List.mem_map_of_mem hmem, ?_⟩
    simp [initIndex_ownKey]
  have hnodup : ((List.range (pairs entries).length).map ownKey).Nodup := List.nodup_range.map ownKey_injective
  exact ((hnodup.subperm hsub).perm_of_length_le (by simp [pairs_length])).symm

/-- **Own components.** Every initial value reaches its own component, in every enumeration order, exactly when the
matching keys are y0_init, y1_init, ... without a gap, or the function throws on an index too large for an int. -/
theorem assigns_own_iff (hsort : IsSort sort) :
    AssignsOwn sort entries ↔ TooLarge (entries.map Prod.fst) ∨ Consecutive (entries.map Prod.fst) := by
  by_cases hlarge : TooLarge (entries.map Prod.fst)
  · refine iff_of_true (fun order horder => ?_) (Or.inl hlarge)
    rw [extract_tooLarge hlarge, extract_tooLarge ((tooLarge_perm horder).2 hlarge)]
    exact ⟨nofun, rfl⟩
  · constructor
    · exact fun ha => Or.inr (consecutive_of_assigns hsort hlarge ha)
    · rintro (h | hc)
      · exact absurd h hlarge
      · exact assigns_of_consecutive hsort hlarge hc

theorem assigns_own_iff_two :
    IsSort (R := ℤ) byIndex ∧
    (AssignsOwn (R := ℤ) byIndex [("y1_init", 7), ("mu", 5), ("y0_init", 2)] ↔
      TooLarge ["y1_init", "mu", "y0_init"] ∨ Consecutive ["y1_init", "mu", "y0_init"]) :=
  ⟨byIndex_isSort, assigns_own_iff byIndex_isSort⟩

example : extractInitialConditions byIndex [("y1_init", 7), ("mu", 5), ("y0_init", 2)] = .ok [2, 7] := by decide +kernel

/-- without y0_init the value of component 1 starts component 0, and beside y01_init the hash order decides -/
theorem gap_shifts :
    ¬ AssignsOwn byIndex [("y1_init", 2), ("y2_init", 3)] ∧
    ¬ AssignsOwn byIndex [("y0_init", 1), ("y1_init", 2), ("y01_init", 3)] := by
  constructor
  · intro h
    have hres : extractInitialConditions byIndex [("y1_init", 2), ("y2_init", 3)] = .ok [2, 3] := by decide +kernel
    have hown := (h _ (List.Perm.refl _)).1 _ hres 0 2 rfl
    exact absurd hown (by decide +kernel)
  · intro h
    have hres := (h [("y0_init", 1), ("y01_init", 3), ("y1_init", 2)] (by decide +kernel)).2
    exact absurd hres (by decide +kernel)

end OdeClientServer.ParseUtils
