import FragmentArchive.Proofs.Lists
import FragmentArchive.SortedMap

/-!
# Looking up what was put into a sorted map

A map is known by what is found under each key, and as keys are strictly increasing this is the
same as membership among the entries. Both operations by which maps are built are characterized
here in these terms: an update changes what is found under its own key, and grouping finds under
a key the values that were given for it, in their order. A map made of a list of entries finds the
last one of them.
-/

open Std

namespace FragmentArchive.SortedMap

variable {κ ν : Type}

/-! ## Values given for a key -/

section

variable [DecidableEq κ]

/-- The values that are given for a key, in their order. -/
def valuesAt (k : κ) (entries : List (κ × ν)) : List ν := (entries.filter (·.1 = k)).map (·.2)

theorem valuesAt_cons_self (k : κ) (v : ν) (entries : List (κ × ν)) :
    valuesAt k ((k, v) :: entries) = v :: valuesAt k entries := by
  rw [valuesAt, List.filter_cons_of_pos (by simp), List.map_cons, valuesAt]

theorem valuesAt_cons_of_ne {k k' : κ} (h : k' ≠ k) (v : ν) (entries : List (κ × ν)) :
    valuesAt k ((k', v) :: entries) = valuesAt k entries := by
  rw [valuesAt, List.filter_cons_of_neg (by simpa using h), valuesAt]

theorem valuesAt_eq_nil {k : κ} {entries : List (κ × ν)} (h : k ∉ entries.map (·.1)) :
    valuesAt k entries = [] := by
  rw [valuesAt, List.map_eq_nil_iff, List.filter_eq_nil_iff]
  intro e he hk
  exact h (List.mem_map.mpr ⟨e, he, of_decide_eq_true hk⟩)

theorem valuesAt_append (k : κ) (entries entries' : List (κ × ν)) :
    valuesAt k (entries ++ entries') = valuesAt k entries ++ valuesAt k entries' := by
  rw [valuesAt, List.filter_append, List.map_append, valuesAt, valuesAt]

theorem valuesAt_map {α : Type} (f : α → κ) (g : α → ν) (k : κ) (as : List α) :
    valuesAt k (as.map fun a ↦ (f a, g a)) = (as.filter (f · = k)).map g := by
  rw [valuesAt, List.filter_map, List.map_map]
  rfl

end

/-! ## Entries -/

variable [Ord κ]

theorem keys_pairwise (m : SortedMap κ ν) : m.keys.Pairwise fun a b ↦ compare a b = .lt :=
  List.pairwise_map.mpr m.sorted

theorem eq_empty_of_isEmpty {m : SortedMap κ ν} (h : m.isEmpty = true) : m = ∅ :=
  SortedMap.ext (List.isEmpty_iff.mp h)

section

variable [LawfulEqOrd κ]

theorem ne_of_compare_lt {a b : κ} (h : compare a b = .lt) : a ≠ b := by
  rintro rfl
  rw [compare_self] at h
  cases h

theorem keys_nodup (m : SortedMap κ ν) : m.keys.Nodup := m.keys_pairwise.imp ne_of_compare_lt

omit [LawfulEqOrd κ] in
private theorem find?_eq_none {k : κ} {entries : List (κ × ν)}
    (h : ∀ e ∈ entries, compare k e.1 = .lt) :
    entries.find? (fun e ↦ compare k e.1 == .eq) = none := by
  rw [List.find?_eq_none]
  intro e he
  rw [h e he]
  decide

private theorem find?_eq_some_iff {entries : List (κ × ν)} {k : κ} {v : ν}
    (h : entries.Pairwise fun a b ↦ compare a.1 b.1 = .lt) :
    (entries.find? fun e ↦ compare k e.1 == .eq).map (·.2) = some v ↔ (k, v) ∈ entries := by
  induction entries with
  | nil => simp
  | cons head rest ih =>
    obtain ⟨k', v'⟩ := head
    obtain ⟨hhead, hrest⟩ := List.pairwise_cons.mp h
    rw [List.find?_cons, List.mem_cons]
    by_cases hk : k = k'
    · subst hk
      have hnot : (k, v) ∉ rest := fun hmem ↦ ne_of_compare_lt (hhead _ hmem) rfl
      simp [compare_self, hnot, eq_comm]
    · have hne : (compare k k' == .eq) = false := by simpa using hk
      rw [hne, ih hrest]
      simp [hk]

/-- What is found under a key is what stands beside it. -/
theorem get?_eq_some_iff {m : SortedMap κ ν} {k : κ} {v : ν} :
    m.get? k = some v ↔ (k, v) ∈ m.toList := find?_eq_some_iff m.sorted

end

section

variable [TransOrd κ]

private theorem updateEntries_of_lt {k : κ} {f : Option ν → ν} {entries : List (κ × ν)}
    (h : ∀ e ∈ entries, compare e.1 k = .lt) :
    updateEntries k f entries = entries ++ [(k, f none)] := by
  induction entries with
  | nil => rfl
  | cons e entries ih =>
    have hgt : compare k e.1 = .gt := OrientedCmp.gt_of_lt (h e List.mem_cons_self)
    rw [updateEntries, hgt, List.cons_append, ← ih fun e he ↦ h e (List.mem_cons_of_mem _ he)]

private theorem toList_foldl_insert (entries : List (κ × ν)) (m : SortedMap κ ν)
    (h : (m.toList ++ entries).Pairwise fun a b ↦ compare a.1 b.1 = .lt) :
    (entries.foldl (fun m e ↦ m.insert e.1 e.2) m).toList = m.toList ++ entries := by
  induction entries generalizing m with
  | nil => exact (List.append_nil _).symm
  | cons e entries ih =>
    have hlt : ∀ e' ∈ m.toList, compare e'.1 e.1 = .lt := fun e' he' ↦
      (List.pairwise_append.mp h).2.2 e' he' e List.mem_cons_self
    have hinsert : (m.insert e.1 e.2).toList = m.toList ++ [e] := updateEntries_of_lt hlt
    rw [List.foldl_cons, ih, hinsert, List.append_assoc, List.singleton_append]
    rwa [hinsert, List.append_assoc, List.singleton_append]

/-- A map is the map of its own entries. -/
theorem ofList_toList (m : SortedMap κ ν) : ofList m.toList = m :=
  SortedMap.ext ((toList_foldl_insert m.toList ∅ m.sorted).trans (List.nil_append _))

end

variable [TransOrd κ] [LawfulEqOrd κ]

/-- Maps with the same keys have them in the same order. -/
theorem keys_eq_of_mem_iff {ν' : Type} {m : SortedMap κ ν} {n : SortedMap κ ν'}
    (h : ∀ k, k ∈ m.keys ↔ k ∈ n.keys) : m.keys = n.keys :=
  eq_of_pairwise_of_mem_iff (fun _ hk ↦ ne_of_compare_lt hk rfl)
    (fun _ _ ↦ OrientedCmp.not_lt_of_lt) m.keys_pairwise n.keys_pairwise h

/-! ## Updates -/

private theorem mem_updateEntries {entries : List (κ × ν)} {k k' : κ} {v : ν} {f : Option ν → ν}
    (h : entries.Pairwise fun a b ↦ compare a.1 b.1 = .lt) :
    (k', v) ∈ updateEntries k f entries ↔
      k' = k ∧ v = f ((entries.find? fun e ↦ compare k e.1 == .eq).map (·.2)) ∨
        k' ≠ k ∧ (k', v) ∈ entries := by
  induction entries with
  | nil => simp [updateEntries]
  | cons head rest ih =>
    obtain ⟨k₀, v₀⟩ := head
    obtain ⟨hhead, hrest⟩ := List.pairwise_cons.mp h
    rw [updateEntries]
    split
    · next hlt =>
      -- the key belongs in front of all entries, so it is not among them
      have hall : ∀ e ∈ (k₀, v₀) :: rest, compare k e.1 = .lt := by
        intro e he
        rcases List.mem_cons.mp he with rfl | he
        · exact hlt
        · exact TransCmp.lt_trans hlt (hhead e he)
      rw [find?_eq_none hall, List.mem_cons, Prod.mk.injEq, Option.map_none]
      refine or_congr_right ⟨fun hmem ↦ ⟨fun heq ↦ ?_, hmem⟩, And.right⟩
      exact ne_of_compare_lt (hall _ hmem) heq.symm
    · next heq =>
      obtain rfl := LawfulEqOrd.eq_of_compare heq
      have hnot : ∀ v, (k, v) ∉ rest := fun v hmem ↦ ne_of_compare_lt (hhead _ hmem) rfl
      rw [List.find?_cons_of_pos (by simp), List.mem_cons, List.mem_cons, Prod.mk.injEq,
        Prod.mk.injEq]
      by_cases hk : k' = k
      · subst hk
        simp [hnot]
      · simp [hk]
    · next hgt =>
      have hne : k ≠ k₀ := by
        rintro rfl
        rw [compare_self] at hgt
        cases hgt
      rw [List.find?_cons_of_neg (by simpa using hne), List.mem_cons, List.mem_cons, ih hrest,
        Prod.mk.injEq]
      by_cases hk : k' = k
      · subst hk
        simp [hne]
      · simp [hk]

theorem mem_update {m : SortedMap κ ν} {k k' : κ} {v : ν} {f : Option ν → ν} :
    (k', v) ∈ (m.update k f).toList ↔
      k' = k ∧ v = f (m.get? k) ∨ k' ≠ k ∧ (k', v) ∈ m.toList :=
  mem_updateEntries m.sorted

theorem get?_update (m : SortedMap κ ν) (k : κ) (f : Option ν → ν) :
    (m.update k f).get? k = some (f (m.get? k)) :=
  get?_eq_some_iff.mpr (mem_update.mpr (.inl ⟨rfl, rfl⟩))

theorem get?_update_of_ne {k k' : κ} (h : k' ≠ k) (m : SortedMap κ ν) (f : Option ν → ν) :
    (m.update k f).get? k' = m.get? k' := by
  refine Option.ext fun v ↦ ?_
  rw [get?_eq_some_iff, get?_eq_some_iff, mem_update]
  simp [h]

/-! ## Groups -/

variable [DecidableEq κ]

/-- The map that is filled with entries finds the last value that was given for a key. -/
private theorem get?_foldl_insert (entries : List (κ × ν)) (m : SortedMap κ ν) (k : κ) :
    (entries.foldl (fun m e ↦ m.insert e.1 e.2) m).get? k =
      (valuesAt k entries).getLast?.or (m.get? k) := by
  induction entries generalizing m with
  | nil => rfl
  | cons e entries ih =>
    obtain ⟨k', v⟩ := e
    rw [List.foldl_cons, ih]
    by_cases hk : k' = k
    · subst hk
      rw [insert, get?_update, valuesAt_cons_self, List.getLast?_cons]
      cases (valuesAt k' entries).getLast? <;> rfl
    · rw [insert, get?_update_of_ne (Ne.symm hk), valuesAt_cons_of_ne hk]

/-- **Of several values given for a key, the last one is found.** -/
theorem get?_ofList (entries : List (κ × ν)) (k : κ) :
    (ofList entries).get? k = (valuesAt k entries).getLast? := by
  have hempty : (∅ : SortedMap κ ν).get? k = none := rfl
  rw [ofList, get?_foldl_insert, hempty, Option.or_none]

/-- The map that collects values finds under a key what it had before, and the new ones behind. -/
private theorem get?_foldl_update (entries : List (κ × ν)) (m : SortedMap κ (List ν)) (k : κ) :
    (entries.foldl (fun m e ↦ m.update e.1 fun old ↦ old.getD [] ++ [e.2]) m).get? k =
      if k ∈ entries.map (·.1) then some ((m.get? k).getD [] ++ valuesAt k entries)
      else m.get? k := by
  induction entries generalizing m with
  | nil => rfl
  | cons e entries ih =>
    obtain ⟨k', v⟩ := e
    rw [List.foldl_cons, ih, List.map_cons]
    by_cases hk : k' = k
    · subst hk
      rw [get?_update, Option.getD_some, valuesAt_cons_self, if_pos List.mem_cons_self,
        List.append_assoc, List.singleton_append]
      split
      · rfl
      · next hmem => rw [valuesAt_eq_nil hmem]
    · rw [get?_update_of_ne (Ne.symm hk), valuesAt_cons_of_ne hk]
      simp only [List.mem_cons, Ne.symm hk, false_or]

/-- **What a group is.** Under a key stand the values that were given for it, if there are any. -/
theorem mem_group {entries : List (κ × ν)} {k : κ} {vs : List ν} :
    (k, vs) ∈ (group entries).toList ↔ vs = valuesAt k entries ∧ k ∈ entries.map (·.1) := by
  have hempty : (∅ : SortedMap κ (List ν)).get? k = none := rfl
  rw [← get?_eq_some_iff, group, get?_foldl_update, hempty, Option.getD_none, List.nil_append]
  by_cases hk : k ∈ entries.map (·.1)
  · rw [if_pos hk, Option.some.injEq, eq_comm]
    exact (and_iff_left hk).symm
  · rw [if_neg hk]
    simp [hk]

theorem mem_keys_group {entries : List (κ × ν)} {k : κ} :
    k ∈ (group entries).keys ↔ k ∈ entries.map (·.1) := by
  constructor
  · intro h
    obtain ⟨e, he, rfl⟩ := List.mem_map.mp h
    exact (mem_group.mp he).2
  · intro h
    exact List.mem_map.mpr ⟨(k, valuesAt k entries), mem_group.mpr ⟨rfl, h⟩, rfl⟩

/-- A group is determined by its keys. -/
theorem toList_group (entries : List (κ × ν)) :
    (group entries).toList = (group entries).keys.map fun k ↦ (k, valuesAt k entries) := by
  rw [keys, List.map_map]
  refine (List.map_id _).symm.trans (List.map_congr_left fun e he ↦ ?_)
  exact Prod.ext rfl (mem_group.mp he).1

end FragmentArchive.SortedMap
