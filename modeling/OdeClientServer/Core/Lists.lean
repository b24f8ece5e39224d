/-
Lists as dictionaries and as sets.

- `lookup_iff_mem`: with keys that differ, looking a key up is finding its entry.
- `lookup_perm`: no lookup sees the order of the entries.
- `addAll_eq`: entries can be added one by one as long as their keys differ.
- `eraseDups_prefixes`: of lists that begin a common list without duplicates, the distinct elements are the longest one.
-/
import Mathlib.Data.List.Induction
import Mathlib.Data.List.Nodup

namespace OdeClientServer.Lists

/-! ## Dictionaries -/

section Entries

variable {κ α β : Type} [BEq κ] [LawfulBEq κ] {entries entries' : List (κ × α)} {k : κ} {a : α}

theorem mem_of_lookup (h : entries.lookup k = some a) : (k, a) ∈ entries := by
  obtain ⟨l1, l2, rfl, -⟩ := List.lookup_eq_some_iff.1 h
  exact List.mem_append_right _ List.mem_cons_self

/-- with keys that differ, a lookup finds every entry -/
theorem lookup_iff_mem (hkeys : (entries.map Prod.fst).Nodup) : entries.lookup k = some a ↔ (k, a) ∈ entries := by
  refine ⟨mem_of_lookup, fun hmem => ?_⟩
  cases hl : entries.lookup k with
  | none => exact absurd (beq_self_eq_true k) (by simpa using List.lookup_eq_none_iff.1 hl _ hmem)
  | some b =>
    have heq := List.inj_on_of_nodup_map hkeys (mem_of_lookup hl) hmem rfl
    rw [(Prod.mk.inj heq).2]

/-- **Order.** Two orders of the same entries have the same lookups. -/
theorem lookup_perm (h : entries.Perm entries') (hkeys : (entries.map Prod.fst).Nodup) (k : κ) :
    entries.lookup k = entries'.lookup k := by
  have hkeys' : (entries'.map Prod.fst).Nodup := (h.map Prod.fst).nodup_iff.1 hkeys
  refine Option.ext fun a => ?_
  rw [lookup_iff_mem hkeys, lookup_iff_mem hkeys', h.mem_iff]

omit [LawfulBEq κ] in
/-- a lookup in a dictionary of converted values -/
theorem lookup_map (f : α → β) (entries : List (κ × α)) (k : κ) :
    (entries.map fun entry => (entry.1, f entry.2)).lookup k = (entries.lookup k).map f := by
  induction entries with
  | nil => rfl
  | cons entry entries ih =>
    rw [List.map_cons, List.lookup_cons, List.lookup_cons, ih]
    cases k == entry.1 <;> rfl

/-- adding an entry, refused if its key is there -/
def add (entries : List (κ × α)) (entry : κ × α) : Option (List (κ × α)) :=
  if (entries.map Prod.fst).contains entry.1 then none else some (entries ++ [entry])

/-- entries whose keys differ are all added -/
theorem addAll_eq {more : List (κ × α)} (hkeys : ((entries ++ more).map Prod.fst).Nodup) :
    more.foldlM add entries = some (entries ++ more) := by
  induction more generalizing entries with
  | nil => rw [List.foldlM_nil, List.append_nil]; rfl
  | cons entry more ih =>
    rw [List.append_cons] at hkeys ⊢
    have hnew : entry.1 ∉ entries.map Prod.fst := by
      rw [List.map_append, List.map_append] at hkeys
      have hdisjoint := (List.nodup_append.1 (List.nodup_append.1 hkeys).1).2.2
      exact fun hmem => hdisjoint _ hmem _ (List.mem_singleton_self _) rfl
    have hadd : add entries entry = some (entries ++ [entry]) := by
      rw [add, if_neg (by simpa using hnew)]
    rw [List.foldlM_cons, hadd]
    exact ih hkeys

end Entries

/-! ## Distinct elements -/

section Prefixes

variable {α : Type} [BEq α] [LawfulBEq α] {full l : List α} {ls : List (List α)}

theorem eraseDups_of_nodup (h : l.Nodup) : l.eraseDups = l := by
  induction l with
  | nil => rfl
  | cons a l ih =>
    have hfilter : l.filter (fun b => !b == a) = l := by
      refine List.filter_eq_self.2 fun b hb => ?_
      have hne : b ≠ a := fun heq => (List.nodup_cons.1 h).1 (heq ▸ hb)
      simpa using hne
    rw [List.eraseDups_cons, hfilter, ih (List.nodup_cons.1 h).2]

/-- **Prefixes.** The distinct elements of lists that all begin the same list are those of the longest. -/
theorem eraseDups_prefixes (hfull : full.Nodup) (h : ∀ l ∈ ls, l <+: full) :
    ls.flatten.eraseDups <+: full ∧ (∀ l ∈ ls, l <+: ls.flatten.eraseDups) ∧ (ls ≠ [] → ls.flatten.eraseDups ∈ ls) := by
  induction ls using List.reverseRecOn with
  | nil => exact ⟨List.nil_prefix, by simp, by simp⟩
  | append_singleton ls l ih =>
    obtain ⟨hpre, hall, hattained⟩ := ih fun l hl => h l (List.mem_append_left _ hl)
    have hl : l <+: full := h l (by simp)
    have hsplit : (ls ++ [l]).flatten.eraseDups = ls.flatten.eraseDups ++ (l.removeAll ls.flatten).eraseDups := by
      rw [List.flatten_append, List.flatten_singleton, List.eraseDups_append]
    rcases List.prefix_or_prefix_of_prefix hl hpre with hshort | ⟨rest, rfl⟩
    · -- the new list has nothing new
      have hnone : l.removeAll ls.flatten = [] := by
        refine List.filter_eq_nil_iff.2 fun a ha => ?_
        have hmem : a ∈ ls.flatten := List.mem_eraseDups.1 (hshort.subset ha)
        simpa using hmem
      rw [hsplit, hnone, List.eraseDups_nil, List.append_nil]
      refine ⟨hpre, fun l' hl' => ?_, fun _ => ?_⟩
      · rcases List.mem_append.1 hl' with hl' | hl'
        · exact hall l' hl'
        · exact List.mem_singleton.1 hl' ▸ hshort
      · rcases eq_or_ne ls [] with rfl | hne
        · exact List.mem_append_right _ (by simpa using List.prefix_nil.1 hshort)
        · exact List.mem_append_left _ (hattained hne)
    · -- the new list goes on after the longest so far
      have hnodup : (ls.flatten.eraseDups ++ rest).Nodup := hfull.sublist hl.sublist
      obtain ⟨-, hrest, hdisjoint⟩ := List.nodup_append.1 hnodup
      have hnew : (ls.flatten.eraseDups ++ rest).removeAll ls.flatten = rest := by
        have hold : ls.flatten.eraseDups.removeAll ls.flatten = [] :=
          List.filter_eq_nil_iff.2 fun a ha => by simpa using List.mem_eraseDups.1 ha
        have hkept : rest.removeAll ls.flatten = rest := by
          refine List.filter_eq_self.2 fun a ha => ?_
          have hnot : a ∉ ls.flatten := fun hmem => hdisjoint a (List.mem_eraseDups.2 hmem) a ha rfl
          simpa using hnot
        rw [List.removeAll, List.filter_append]
        exact (congrArg₂ _ hold hkept).trans (List.nil_append _)
      rw [hsplit, hnew, eraseDups_of_nodup hrest]
      refine ⟨hl, fun l' hl' => ?_, fun _ => by simp⟩
      rcases List.mem_append.1 hl' with hl' | hl'
      · exact (hall l' hl').trans (List.prefix_append _ _)
      · exact List.mem_singleton.1 hl' ▸ List.prefix_rfl

end Prefixes

end OdeClientServer.Lists
