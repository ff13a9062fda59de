/-!
# Finite maps in key order

A map is the list of its entries with strictly increasing keys. The list *is* the data, so two
maps with the same entries are equal, which is what structural equality of the records that hold
one relies on; and the order in which entries are visited is the order of the keys, whatever the
history of the map was.

The only way to change a map is `update`, which sees the old value under the key, if there is one,
and puts a new value there. The order of the keys survives because `update` walks past exactly the
smaller ones.
-/

open Std

namespace FragmentArchive

/-- A finite map, as its entries in strictly increasing key order. -/
structure SortedMap (κ ν : Type) [Ord κ] where
  toList : List (κ × ν)
  sorted : toList.Pairwise fun a b ↦ compare a.1 b.1 = .lt

namespace SortedMap

variable {κ ν : Type} [Ord κ]

@[ext] theorem ext {m n : SortedMap κ ν} (h : m.toList = n.toList) : m = n := by
  cases m
  cases n
  subst h
  rfl

instance [DecidableEq κ] [DecidableEq ν] : DecidableEq (SortedMap κ ν) := fun m n ↦
  if h : m.toList = n.toList then isTrue (ext h) else isFalse fun e ↦ h (e ▸ rfl)

/-- The map without entries. -/
def empty : SortedMap κ ν := ⟨[], .nil⟩

instance : EmptyCollection (SortedMap κ ν) := ⟨empty⟩

instance : Inhabited (SortedMap κ ν) := ⟨empty⟩

/-- Whether there are no entries. -/
def isEmpty (m : SortedMap κ ν) : Bool := m.toList.isEmpty

/-- The number of entries. -/
def size (m : SortedMap κ ν) : Nat := m.toList.length

/-- The keys, in increasing order. -/
def keys (m : SortedMap κ ν) : List κ := m.toList.map (·.1)

/-- The values, in the order of their keys. -/
def values (m : SortedMap κ ν) : List ν := m.toList.map (·.2)

/-- The value under a key. -/
def get? (m : SortedMap κ ν) (k : κ) : Option ν :=
  (m.toList.find? fun e ↦ compare k e.1 == .eq).map (·.2)

/-- Maps are compared as the lists of their entries, key before value. -/
instance [Ord ν] : Ord (SortedMap κ ν) where
  compare m n :=
    letI : Ord (κ × ν) := lexOrd
    compare m.toList n.toList

/-! ## Updating

The walk past the smaller keys, on the bare entries first. -/

def updateEntries (k : κ) (f : Option ν → ν) : List (κ × ν) → List (κ × ν)
  | [] => [(k, f none)]
  | (k', v) :: rest =>
    match compare k k' with
    | .lt => (k, f none) :: (k', v) :: rest
    | .eq => (k', f (some v)) :: rest
    | .gt => (k', v) :: updateEntries k f rest

private theorem key_mem_updateEntries {k : κ} {f : Option ν → ν} {entries : List (κ × ν)}
    {e : κ × ν} (h : e ∈ updateEntries k f entries) : e.1 = k ∨ ∃ e' ∈ entries, e'.1 = e.1 := by
  induction entries with
  | nil => simp_all [updateEntries]
  | cons head rest ih =>
    obtain ⟨k', v⟩ := head
    rw [updateEntries] at h
    split at h
    · rcases List.mem_cons.1 h with rfl | h
      · exact .inl rfl
      · exact .inr ⟨e, h, rfl⟩
    · rcases List.mem_cons.1 h with rfl | h
      · exact .inr ⟨(k', v), List.mem_cons_self, rfl⟩
      · exact .inr ⟨e, List.mem_cons_of_mem _ h, rfl⟩
    · rcases List.mem_cons.1 h with rfl | h
      · exact .inr ⟨(k', v), List.mem_cons_self, rfl⟩
      · rcases ih h with h | ⟨e', he', hk⟩
        · exact .inl h
        · exact .inr ⟨e', List.mem_cons_of_mem _ he', hk⟩

private theorem sorted_updateEntries [TransOrd κ] {k : κ} {f : Option ν → ν}
    {entries : List (κ × ν)} (h : entries.Pairwise fun a b ↦ compare a.1 b.1 = .lt) :
    (updateEntries k f entries).Pairwise fun a b ↦ compare a.1 b.1 = .lt := by
  induction entries with
  | nil => simp [updateEntries]
  | cons head rest ih =>
    obtain ⟨k', v⟩ := head
    obtain ⟨hhead, hrest⟩ := List.pairwise_cons.1 h
    rw [updateEntries]
    split
    · next hlt =>
      refine List.pairwise_cons.2 ⟨fun e he ↦ ?_, h⟩
      rcases List.mem_cons.1 he with rfl | he
      · exact hlt
      · exact TransCmp.lt_trans hlt (hhead e he)
    · exact List.pairwise_cons.2 ⟨hhead, hrest⟩
    · next hgt =>
      refine List.pairwise_cons.2 ⟨fun e he ↦ ?_, ih hrest⟩
      rcases key_mem_updateEntries he with hk | ⟨e', he', hk⟩
      · rw [hk]
        exact OrientedCmp.gt_iff_lt.1 hgt
      · rw [← hk]
        exact hhead e' he'

/-- Replaces the value under a key, telling `f` the value that is there now. -/
def update [TransOrd κ] (m : SortedMap κ ν) (k : κ) (f : Option ν → ν) : SortedMap κ ν :=
  ⟨updateEntries k f m.toList, sorted_updateEntries m.sorted⟩

/-- Puts a value under a key; a value that was there is lost. -/
def insert [TransOrd κ] (m : SortedMap κ ν) (k : κ) (v : ν) : SortedMap κ ν :=
  m.update k fun _ ↦ v

/-- The map of a list of entries; of two entries with one key the later one counts. -/
def ofList [TransOrd κ] (entries : List (κ × ν)) : SortedMap κ ν :=
  entries.foldl (fun m e ↦ m.insert e.1 e.2) ∅

/-- Collects the values under their keys, the values of one key in the order of the list. -/
def group [TransOrd κ] (entries : List (κ × ν)) : SortedMap κ (List ν) :=
  entries.foldl (fun m e ↦ m.update e.1 fun old ↦ old.getD [] ++ [e.2]) ∅

private theorem sorted_filterMap {μ : Type} (f : κ → ν → Option μ) {entries : List (κ × ν)}
    (h : entries.Pairwise fun a b ↦ compare a.1 b.1 = .lt) :
    (entries.filterMap fun e ↦ (f e.1 e.2).map (e.1, ·)).Pairwise
      fun a b ↦ compare a.1 b.1 = .lt := by
  refine List.pairwise_filterMap.2 (h.imp fun {a b} hab x hx y hy ↦ ?_)
  obtain ⟨_, _, rfl⟩ := Option.map_eq_some_iff.1 hx
  obtain ⟨_, _, rfl⟩ := Option.map_eq_some_iff.1 hy
  exact hab

/-- Replaces every value, or drops its entry. -/
def filterMap {μ : Type} (f : κ → ν → Option μ) (m : SortedMap κ ν) : SortedMap κ μ :=
  ⟨m.toList.filterMap fun e ↦ (f e.1 e.2).map (e.1, ·), sorted_filterMap f m.sorted⟩

/-! ## Ranks -/

def rankEntries {μ : Type} (f : Nat → μ) : Nat → List (κ × ν) → List (κ × μ)
  | _, [] => []
  | i, e :: rest => (e.1, f i) :: rankEntries f (i + 1) rest

omit [Ord κ] in
private theorem key_mem_rankEntries {μ : Type} {f : Nat → μ} {i : Nat} {entries : List (κ × ν)}
    {e : κ × μ} (h : e ∈ rankEntries f i entries) : ∃ e' ∈ entries, e'.1 = e.1 := by
  induction entries generalizing i with
  | nil => cases h
  | cons head rest ih =>
    rcases List.mem_cons.1 h with rfl | h
    · exact ⟨head, List.mem_cons_self, rfl⟩
    · obtain ⟨e', he', hk⟩ := ih h
      exact ⟨e', List.mem_cons_of_mem _ he', hk⟩

private theorem sorted_rankEntries {μ : Type} {f : Nat → μ} {i : Nat} {entries : List (κ × ν)}
    (h : entries.Pairwise fun a b ↦ compare a.1 b.1 = .lt) :
    (rankEntries f i entries).Pairwise fun a b ↦ compare a.1 b.1 = .lt := by
  induction entries generalizing i with
  | nil => exact .nil
  | cons head rest ih =>
    obtain ⟨hhead, hrest⟩ := List.pairwise_cons.1 h
    refine List.pairwise_cons.2 ⟨fun e he ↦ ?_, ih hrest⟩
    obtain ⟨e', he', hk⟩ := key_mem_rankEntries he
    rw [← hk]
    exact hhead e' he'

/-- Puts under each key a function of the number of smaller keys. -/
def rank {μ : Type} (f : Nat → μ) (m : SortedMap κ ν) : SortedMap κ μ :=
  ⟨rankEntries f 0 m.toList, sorted_rankEntries m.sorted⟩

end SortedMap

end FragmentArchive
