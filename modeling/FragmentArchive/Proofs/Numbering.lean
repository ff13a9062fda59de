import FragmentArchive.Proofs.Lists
import FragmentArchive.Proofs.SortedMap
import FragmentArchive.Variant.Numbering

/-!
# Variant numbers are ranks

The number of a key is the first number and as many more as there are smaller keys. How often a key
is given, and in which order the keys come, does not matter: what is numbered is the increasing list
of the different keys, which is determined by the set of keys.

That a map *enumerates* keys from a first number on is said without ranks: it has exactly the given
keys, it keeps their order, and its numbers are an interval. Only one map does so, and the numbering
is this map or, when the interval does not fit, an error.
-/

open Std

namespace FragmentArchive

namespace SortedMap

/-! ## Keys -/

variable {κ ν μ : Type}

theorem mem_keys_iff [Ord κ] [LawfulEqOrd κ] {m : SortedMap κ ν} {k : κ} :
    k ∈ m.keys ↔ ∃ v, m.get? k = some v := by
  rw [keys, List.mem_map]
  constructor
  · rintro ⟨⟨_, v⟩, hmem, rfl⟩
    exact ⟨v, get?_eq_some_iff.mpr hmem⟩
  · rintro ⟨v, hv⟩
    exact ⟨(k, v), get?_eq_some_iff.mp hv, rfl⟩

section

variable [Ord κ] [TransOrd κ] [LawfulEqOrd κ]

theorem mem_keys_update {m : SortedMap κ ν} {k k' : κ} {f : Option ν → ν} :
    k' ∈ (m.update k f).keys ↔ k' = k ∨ k' ∈ m.keys := by
  rw [keys, keys, List.mem_map, List.mem_map]
  constructor
  · rintro ⟨⟨_, v⟩, h, rfl⟩
    exact (mem_update.mp h).imp And.left fun h ↦ ⟨_, h.2, rfl⟩
  · intro h
    by_cases hk : k' = k
    · exact ⟨(k', f (m.get? k)), mem_update.mpr (.inl ⟨hk, rfl⟩), rfl⟩
    · obtain ⟨⟨_, v⟩, hmem, rfl⟩ := h.resolve_left hk
      exact ⟨_, mem_update.mpr (.inr ⟨hk, hmem⟩), rfl⟩

theorem mem_keys_ofList {entries : List (κ × ν)} {k : κ} :
    k ∈ (ofList entries).keys ↔ k ∈ entries.map (·.1) := by
  have h : ∀ m : SortedMap κ ν, k ∈ (entries.foldl (fun m e ↦ m.insert e.1 e.2) m).keys ↔
      k ∈ m.keys ∨ k ∈ entries.map (·.1) := by
    induction entries with
    | nil => simp
    | cons e entries ih =>
      intro m
      rw [List.foldl_cons, ih, insert, mem_keys_update, List.map_cons, List.mem_cons, or_assoc,
        or_left_comm]
  have hempty : k ∉ (∅ : SortedMap κ ν).keys := List.not_mem_nil
  rw [ofList, h, or_iff_right hempty]

/-- In an increasing list, the place of a key is the number of smaller keys. -/
theorem countP_lt_of_getElem? {ks : List κ} (h : ks.Pairwise (compare · · = .lt)) {i : Nat} {k : κ}
    (hk : ks[i]? = some k) : ks.countP (compare · k = .lt) = i := by
  induction ks generalizing i with
  | nil => cases hk
  | cons k' ks ih =>
    obtain ⟨hk', hks⟩ := List.pairwise_cons.mp h
    cases i with
    | zero =>
      obtain rfl : k' = k := Option.some.inj hk
      rw [List.countP_eq_zero]
      intro a ha hlt
      rcases List.mem_cons.mp ha with rfl | ha
      · exact ne_of_compare_lt (of_decide_eq_true hlt) rfl
      · exact OrientedCmp.not_lt_of_lt (hk' a ha) (of_decide_eq_true hlt)
    | succ i =>
      have hmem : k ∈ ks := List.mem_of_getElem? hk
      rw [List.countP_cons, ih hks hk, if_pos (decide_eq_true (hk' k hmem))]

end

/-! ## Ranks -/

theorem rankEntries_eq (f : Nat → μ) (i : Nat) (entries : List (κ × ν)) :
    rankEntries f i entries = (entries.map (·.1)).zip ((List.range' i entries.length).map f) := by
  induction entries generalizing i with
  | nil => rfl
  | cons e entries ih =>
    rw [rankEntries, ih]
    rfl

/-- Under the key at a place stands the function of the place. -/
theorem get?_rank_eq_some_iff [Ord κ] [LawfulEqOrd κ] {m : SortedMap κ ν} {f : Nat → μ} {k : κ}
    {v : μ} : (m.rank f).get? k = some v ↔ ∃ i, m.keys[i]? = some k ∧ f i = v := by
  have hlist : (m.rank f).toList = m.keys.zip ((List.range' 0 m.keys.length).map f) := by
    rw [keys, List.length_map]
    exact rankEntries_eq f 0 m.toList
  rw [get?_eq_some_iff, hlist, List.mem_iff_getElem?]
  refine exists_congr fun i ↦ ?_
  rw [List.getElem?_zip_eq_some]
  refine and_congr_right fun hk ↦ ?_
  rw [List.getElem?_map, List.getElem?_range' (List.getElem?_eq_some_iff.mp hk).1, Nat.one_mul,
    Nat.zero_add, Option.map_some, Option.some.injEq]

end SortedMap

namespace VariantKey

/-! ## The increasing list of keys -/

/-- The different keys among some keys, in increasing order. -/
def ascending (keys : List VariantKey) : List VariantKey :=
  (SortedMap.ofList (keys.map fun key ↦ (key, ()))).keys

/-- The number of different keys among some keys that are smaller than a key. -/
def rank (keys : List VariantKey) (k : VariantKey) : Nat :=
  keys.eraseDups.countP (compare · k = .lt)

theorem ascending_pairwise (keys : List VariantKey) :
    (ascending keys).Pairwise (compare · · = .lt) :=
  SortedMap.keys_pairwise _

theorem mem_ascending {keys : List VariantKey} {k : VariantKey} :
    k ∈ ascending keys ↔ k ∈ keys := by
  rw [ascending, SortedMap.mem_keys_ofList, List.map_map]
  exact Iff.of_eq (congrArg (k ∈ ·) (List.map_id keys))

theorem ascending_perm (keys : List VariantKey) : (ascending keys).Perm keys.eraseDups := by
  refine (List.perm_ext_iff_of_nodup (SortedMap.keys_nodup _) (nodup_eraseDups keys)).mpr fun k ↦ ?_
  exact mem_ascending.trans List.mem_eraseDups.symm

theorem length_ascending (keys : List VariantKey) :
    (ascending keys).length = keys.eraseDups.length :=
  (ascending_perm keys).length_eq

/-- The increasing list depends on the set of keys only. -/
theorem ascending_congr {keys keys' : List VariantKey} (h : ∀ k, k ∈ keys ↔ k ∈ keys') :
    ascending keys = ascending keys' := by
  refine eq_of_pairwise_of_mem_iff (fun k hk ↦ SortedMap.ne_of_compare_lt hk rfl)
    (fun _ _ ↦ OrientedCmp.not_lt_of_lt) (ascending_pairwise keys) (ascending_pairwise keys')
    fun k ↦ ?_
  rw [mem_ascending, mem_ascending, h]

/-- The rank of a key is its place in the increasing list. -/
theorem getElem?_ascending_eq_some_iff {keys : List VariantKey} {i : Nat} {k : VariantKey} :
    (ascending keys)[i]? = some k ↔ k ∈ keys ∧ rank keys k = i := by
  have hrank : ∀ {i}, (ascending keys)[i]? = some k → rank keys k = i := by
    intro i hi
    rw [rank, ← (ascending_perm keys).countP_eq]
    exact SortedMap.countP_lt_of_getElem? (ascending_pairwise keys) hi
  constructor
  · intro hi
    exact ⟨mem_ascending.mp (List.mem_of_getElem? hi), hrank hi⟩
  · rintro ⟨hk, rfl⟩
    obtain ⟨i, hi⟩ := List.getElem?_of_mem (mem_ascending.mpr hk)
    rw [hrank hi, hi]

theorem rank_congr {keys keys' : List VariantKey} (h : ∀ k, k ∈ keys ↔ k ∈ keys')
    (k : VariantKey) : rank keys k = rank keys' k := by
  rw [rank, rank, ← (ascending_perm keys).countP_eq, ← (ascending_perm keys').countP_eq,
    ascending_congr h]

/-- The ranks of keys are the numbers below the number of different keys. -/
theorem exists_rank_iff {keys : List VariantKey} {i : Nat} :
    (∃ k ∈ keys, rank keys k = i) ↔ i < keys.eraseDups.length := by
  rw [← length_ascending]
  constructor
  · rintro ⟨k, hk, hrank⟩
    exact (List.getElem?_eq_some_iff.mp (getElem?_ascending_eq_some_iff.mpr ⟨hk, hrank⟩)).1
  · intro hi
    exact ⟨_, getElem?_ascending_eq_some_iff.mp (List.getElem?_eq_getElem hi)⟩

theorem rank_lt_rank {keys : List VariantKey} {k k' : VariantKey} (hk : k ∈ keys) (hk' : k' ∈ keys)
    (h : compare k k' = .lt) : rank keys k < rank keys k' := by
  obtain ⟨hi, hget⟩ := List.getElem?_eq_some_iff.mp (getElem?_ascending_eq_some_iff.mpr ⟨hk, rfl⟩)
  obtain ⟨hi', hget'⟩ :=
    List.getElem?_eq_some_iff.mp (getElem?_ascending_eq_some_iff.mpr ⟨hk', rfl⟩)
  rcases Nat.lt_trichotomy (rank keys k) (rank keys k') with hlt | heq | hgt
  · exact hlt
  · have : k = k' := by
      rw [← hget, ← hget']
      simp only [heq]
    exact absurd this (SortedMap.ne_of_compare_lt h)
  · have hlt := List.pairwise_iff_getElem.mp (ascending_pairwise keys) _ _ hi' hi hgt
    rw [hget, hget'] at hlt
    exact absurd hlt (OrientedCmp.not_lt_of_lt h)

/-! ## Numbering -/

variable {keys : List VariantKey} {first : UInt32} {numbers : SortedMap VariantKey UInt32}

private theorem numbering_eq (keys : List VariantKey) (first : UInt32) : numbering keys first =
    if first.toNat + keys.eraseDups.length ≤ largestNumber then
      .ok ((SortedMap.ofList (keys.map fun key ↦ (key, ()))).rank fun i ↦ first + .ofNat i)
    else .error (.configuration (.numberRange keys.eraseDups.length first)) := by
  have hsize : (SortedMap.ofList (keys.map fun key ↦ (key, ()))).size =
      keys.eraseDups.length := by
    rw [← length_ascending, ascending, SortedMap.keys, List.length_map]
    rfl
  rw [numbering, hsize]

theorem numbering_of_lt (h : largestNumber < first.toNat + keys.eraseDups.length) :
    numbering keys first = .error (.configuration (.numberRange keys.eraseDups.length first)) := by
  rw [numbering_eq, if_neg (Nat.not_le_of_lt h)]

theorem exists_numbering (h : first.toNat + keys.eraseDups.length ≤ largestNumber) :
    ∃ numbers, numbering keys first = .ok numbers :=
  ⟨_, by rw [numbering_eq, if_pos h]⟩

theorem le_of_numbering (h : numbering keys first = .ok numbers) :
    first.toNat + keys.eraseDups.length ≤ largestNumber := by
  refine Nat.le_of_not_lt fun hlt ↦ ?_
  rw [numbering_of_lt hlt] at h
  cases h

/-- Up to the largest number nothing wraps around. -/
private theorem toNat_add_ofNat {i : Nat} (h : first.toNat + i ≤ largestNumber) :
    (first + UInt32.ofNat i).toNat = first.toNat + i := by
  have hsize : largestNumber = 2 ^ 32 - 1 := rfl
  have hofNat : (UInt32.ofNat i).toNat = i := UInt32.toNat_ofNat_of_lt' (by
    have : UInt32.size = 2 ^ 32 := rfl
    omega)
  rw [UInt32.toNat_add, hofNat, Nat.mod_eq_of_lt (by omega)]

/-- **What is found under a key.** -/
theorem get?_numbering (h : numbering keys first = .ok numbers) {k : VariantKey} {v : UInt32} :
    numbers.get? k = some v ↔ k ∈ keys ∧ v.toNat = first.toNat + rank keys k := by
  have hle := le_of_numbering h
  rw [numbering_eq, if_pos hle] at h
  obtain rfl := Except.ok.inj h
  have hvalue : ∀ {i}, (∃ k ∈ keys, rank keys k = i) →
      (first + UInt32.ofNat i = v ↔ v.toNat = first.toNat + i) := by
    intro i hi
    have hlt := exists_rank_iff.mp hi
    rw [← UInt32.toNat_inj, toNat_add_ofNat (by omega), eq_comm]
  rw [SortedMap.get?_rank_eq_some_iff]
  constructor
  · rintro ⟨i, hi, hv⟩
    obtain ⟨hk, rfl⟩ := getElem?_ascending_eq_some_iff.mp hi
    exact ⟨hk, (hvalue ⟨k, hk, rfl⟩).mp hv⟩
  · rintro ⟨hk, hv⟩
    exact ⟨rank keys k, getElem?_ascending_eq_some_iff.mpr ⟨hk, rfl⟩, (hvalue ⟨k, hk, rfl⟩).mpr hv⟩

theorem exists_number (h : numbering keys first = .ok numbers) {k : VariantKey} (hk : k ∈ keys) :
    ∃ v, numbers.get? k = some v := by
  have hlt := exists_rank_iff.mp ⟨k, hk, rfl⟩
  have hle := le_of_numbering h
  exact ⟨_, (get?_numbering h).mpr ⟨hk, toNat_add_ofNat (by omega)⟩⟩

/-! ## Enumerations -/

/-- Keys are numbered in their order, without gaps from a first number on. -/
structure Enumerates (keys : List VariantKey) (first : UInt32)
    (numbers : SortedMap VariantKey UInt32) : Prop where
  mem_keys : ∀ k, k ∈ numbers.keys ↔ k ∈ keys
  increasing : ∀ k k' v v', numbers.get? k = some v → numbers.get? k' = some v' →
    compare k k' = .lt → v < v'
  onto : ∀ n : Nat, (∃ k v, numbers.get? k = some v ∧ v.toNat = n) ↔
    first.toNat ≤ n ∧ n < first.toNat + keys.eraseDups.length

theorem enumerates_of_numbering (h : numbering keys first = .ok numbers) :
    Enumerates keys first numbers where
  mem_keys k := by
    rw [SortedMap.mem_keys_iff]
    constructor
    · rintro ⟨v, hv⟩
      exact ((get?_numbering h).mp hv).1
    · exact exists_number h
  increasing k k' v v' hv hv' hlt := by
    obtain ⟨hk, hv⟩ := (get?_numbering h).mp hv
    obtain ⟨hk', hv'⟩ := (get?_numbering h).mp hv'
    have hrank := rank_lt_rank hk hk' hlt
    rw [UInt32.lt_iff_toNat_lt]
    omega
  onto n := by
    constructor
    · rintro ⟨k, v, hv, rfl⟩
      obtain ⟨hk, hv⟩ := (get?_numbering h).mp hv
      have hlt := exists_rank_iff.mp ⟨k, hk, rfl⟩
      omega
    · rintro ⟨hge, hlt⟩
      have hplace : n - first.toNat < keys.eraseDups.length := by omega
      obtain ⟨k, hk, hrank⟩ := exists_rank_iff.mpr hplace
      obtain ⟨v, hv⟩ := exists_number h hk
      refine ⟨k, v, hv, ?_⟩
      rw [((get?_numbering h).mp hv).2, hrank]
      omega

/-- The numbers of an enumeration are listed in increasing order. -/
theorem Enumerates.values_pairwise (h : Enumerates keys first numbers) :
    numbers.values.Pairwise (· < ·) := by
  refine List.pairwise_map.mpr (numbers.sorted.imp_of_mem fun {a b} ha hb hab ↦ ?_)
  exact h.increasing a.1 b.1 a.2 b.2 (SortedMap.get?_eq_some_iff.mpr ha)
    (SortedMap.get?_eq_some_iff.mpr hb) hab

theorem Enumerates.mem_values (h : Enumerates keys first numbers) {v : UInt32} :
    v ∈ numbers.values ↔
      first.toNat ≤ v.toNat ∧ v.toNat < first.toNat + keys.eraseDups.length := by
  rw [← h.onto, SortedMap.values, List.mem_map]
  constructor
  · rintro ⟨⟨k, v⟩, hmem, rfl⟩
    exact ⟨k, v, SortedMap.get?_eq_some_iff.mpr hmem, rfl⟩
  · rintro ⟨k, v', hv', heq⟩
    obtain rfl := UInt32.toNat_inj.mp heq
    exact ⟨(k, v'), SortedMap.get?_eq_some_iff.mp hv', rfl⟩

/-- There is one enumeration of keys from a first number on. -/
theorem Enumerates.unique {numbers' : SortedMap VariantKey UInt32}
    (h : Enumerates keys first numbers) (h' : Enumerates keys first numbers') :
    numbers = numbers' := by
  have hkeys : numbers.keys = numbers'.keys := by
    refine SortedMap.keys_eq_of_mem_iff fun k ↦ ?_
    rw [h.mem_keys, h'.mem_keys]
  have hvalues : numbers.values = numbers'.values := by
    refine eq_of_pairwise_of_mem_iff (fun v ↦ UInt32.lt_irrefl v) (fun _ _ ↦ UInt32.lt_asymm)
      h.values_pairwise h'.values_pairwise fun v ↦ ?_
    rw [h.mem_values, h'.mem_values]
  refine SortedMap.ext ((List.zip_of_prod hkeys hvalues).trans ?_)
  exact (List.zip_of_prod rfl rfl).symm

/-- **What numbering comes to.** It is the enumeration of the keys, if the numbers suffice. -/
theorem numbering_ok_iff : numbering keys first = .ok numbers ↔
    first.toNat + keys.eraseDups.length ≤ largestNumber ∧ Enumerates keys first numbers := by
  constructor
  · intro h
    exact ⟨le_of_numbering h, enumerates_of_numbering h⟩
  · rintro ⟨hle, h⟩
    obtain ⟨numbers', h'⟩ := exists_numbering hle
    rw [h', h.unique (enumerates_of_numbering h')]

/-- Only the set of keys matters. -/
theorem numbering_congr {keys' : List VariantKey} (h : ∀ k, k ∈ keys ↔ k ∈ keys') :
    numbering keys first = numbering keys' first := by
  have hlength : keys.eraseDups.length = keys'.eraseDups.length := by
    rw [← length_ascending, ← length_ascending, ascending_congr h]
  by_cases hle : first.toNat + keys.eraseDups.length ≤ largestNumber
  · obtain ⟨numbers, hnumbers⟩ := exists_numbering hle
    have henum := enumerates_of_numbering hnumbers
    have henum' : Enumerates keys' first numbers := {
      mem_keys := fun k ↦ (henum.mem_keys k).trans (h k)
      increasing := henum.increasing
      onto := hlength ▸ henum.onto }
    rw [hnumbers, numbering_ok_iff.mpr ⟨hlength ▸ hle, henum'⟩]
  · rw [numbering_of_lt (Nat.lt_of_not_le hle), hlength,
      numbering_of_lt (hlength ▸ Nat.lt_of_not_le hle)]

end VariantKey

end FragmentArchive
