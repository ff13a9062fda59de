import FragmentArchive.Proofs.ByteOrder
import FragmentArchive.Proofs.Examination

/-!
# The order of variant keys

Variants are grouped, numbered and sorted by one comparison of their keys. It is put together from
comparisons of options, lists and strings, and everything that is kept in key order relies on what
comes out being a total order: a map would otherwise hold a key twice or not find it, and sorting
would not bring equal keys together.

`Precedes` tells when one key comes before another without comparing anything but numbers and bytes,
with one rule for each field that can decide. The comparison computes this relation, and the laws of
a total order are proved of it through the comparison. Sorting is then determined, whichever
algorithm does it: there is only one way to put the keys in order. Taking out the repetitions leaves
the keys that are numbered.
-/

open Std

namespace FragmentArchive

/-! ## Comparing parts of keys -/

section

variable {α : Type} [Ord α] {r : α → α → Prop}

/-- Lists are compared at the first place where they differ, and a proper prefix comes first. -/
theorem compare_lt_iff_lex [LawfulEqOrd α] (hr : ∀ {a b : α}, compare a b = .lt ↔ r a b)
    {as bs : List α} : compare as bs = .lt ↔ List.Lex r as bs := by
  induction as generalizing bs with
  | nil =>
    cases bs with
    | nil => simp
    | cons b bs => exact iff_of_true List.compare_nil_cons .nil
  | cons a as ih =>
    cases bs with
    | nil => simp
    | cons b bs =>
      rw [List.compare_cons_cons, Ordering.then_eq_lt, hr, Std.compare_eq_iff_eq, ih,
        List.cons_lex_cons_iff]

/-- A missing value comes before all others. -/
theorem compare_lt_iff_of_option (hr : ∀ {a b : α}, compare a b = .lt ↔ r a b) {x y : Option α} :
    compare x y = .lt ↔
      (x = none ∧ ∃ b, y = some b) ∨ ∃ a b, x = some a ∧ y = some b ∧ r a b := by
  cases x with
  | none =>
    cases y with
    | none =>
      refine iff_of_false (fun h ↦ ?_) (by simp)
      cases h
    | some b => exact iff_of_true rfl (.inl ⟨rfl, b, rfl⟩)
  | some a =>
    cases y with
    | none =>
      refine iff_of_false (fun h ↦ ?_) (by simp)
      cases h
    | some b =>
      change compare a b = .lt ↔ _
      simp [hr]

end

/-- Categories come in the order in which they are declared. -/
theorem Category.compare_lt_iff {c d : Category} :
    compare c d = .lt ↔ Category.all.idxOf c < Category.all.idxOf d := by
  cases c <;> cases d <;> decide

/-! ## Targetings -/

namespace VariantTargeting

/-- One targeting comes before another. Of two that differ, the first field in which they do so
decides: a missing bound comes before every bound and a smaller bound before a larger one; lists are
ordered lexicographically, a proper prefix first; names are ordered by their bytes. -/
inductive Precedes (s t : VariantTargeting) : Prop
  | unbounded {n : UInt32} (hs : s.minSdk = none) (ht : t.minSdk = some n)
  | minSdk {m n : UInt32} (hs : s.minSdk = some m) (ht : t.minSdk = some n) (h : m < n)
  | abis (hsdk : s.minSdk = t.minSdk) (h : List.Lex (utf8Bytes · < utf8Bytes ·) s.abis t.abis)
  | screenDensities (hsdk : s.minSdk = t.minSdk) (habis : s.abis = t.abis)
      (h : List.Lex (· < ·) s.screenDensities t.screenDensities)
  | textureFormats (hsdk : s.minSdk = t.minSdk) (habis : s.abis = t.abis)
      (hdensities : s.screenDensities = t.screenDensities)
      (h : List.Lex (utf8Bytes · < utf8Bytes ·) s.textureFormats t.textureFormats)

theorem compare_lt_iff {s t : VariantTargeting} : compare s t = .lt ↔ s.Precedes t := by
  have hnumber : ∀ {m n : UInt32}, compare m n = .lt ↔ m < n := Std.compare_eq_lt
  rw [compare_eq]
  simp only [compareLex, compareOn, Ordering.then_eq_lt, Std.compare_eq_iff_eq,
    compare_lt_iff_of_option hnumber, compare_lt_iff_lex hnumber,
    compare_lt_iff_lex compare_lt_iff_utf8Bytes_lt]
  constructor
  · rintro ((⟨hs, n, ht⟩ | ⟨m, n, hs, ht, h⟩) | ⟨hsdk, h | ⟨habis, h | ⟨hdensities, h⟩⟩⟩)
    · exact .unbounded hs ht
    · exact .minSdk hs ht h
    · exact .abis hsdk h
    · exact .screenDensities hsdk habis h
    · exact .textureFormats hsdk habis hdensities h
  · intro h
    cases h with
    | unbounded hs ht => exact .inl (.inl ⟨hs, _, ht⟩)
    | minSdk hs ht h => exact .inl (.inr ⟨_, _, hs, ht, h⟩)
    | abis hsdk h => exact .inr ⟨hsdk, .inl h⟩
    | screenDensities hsdk habis h => exact .inr ⟨hsdk, .inr ⟨habis, .inl h⟩⟩
    | textureFormats hsdk habis hdensities h =>
      exact .inr ⟨hsdk, .inr ⟨habis, .inr ⟨hdensities, h⟩⟩⟩

end VariantTargeting

/-! ## Keys -/

namespace VariantKey

/-- One key comes before another: its category does, or the categories are the same and its
targeting does. -/
inductive Precedes (a b : VariantKey) : Prop
  | category (h : Category.all.idxOf a.category < Category.all.idxOf b.category)
  | targeting (hcategory : a.category = b.category) (h : a.targeting.Precedes b.targeting)

variable {a b c : VariantKey}

theorem compare_lt_iff : compare a b = .lt ↔ a.Precedes b := by
  rw [compare_eq]
  simp only [compareLex, compareOn, Ordering.then_eq_lt, Std.compare_eq_iff_eq,
    Category.compare_lt_iff, VariantTargeting.compare_lt_iff]
  constructor
  · rintro (h | ⟨hcategory, h⟩)
    · exact .category h
    · exact .targeting hcategory h
  · intro h
    cases h with
    | category h => exact .inl h
    | targeting hcategory h => exact .inr ⟨hcategory, h⟩

theorem compare_gt_iff : compare a b = .gt ↔ b.Precedes a :=
  OrientedCmp.gt_iff_lt.trans compare_lt_iff

theorem isLE_compare_iff : (compare a b).isLE = true ↔ a = b ∨ a.Precedes b := by
  rw [Ordering.isLE_iff_eq_lt_or_eq_eq, compare_lt_iff, Std.compare_eq_iff_eq, or_comm]

instance : Decidable (a.Precedes b) := decidable_of_iff _ compare_lt_iff

-- the targeting is looked at only when the categories are the same
example : (⟨.instant, .sdk 30⟩ : VariantKey).Precedes ⟨.system, .everyDevice⟩ := by decide

namespace Precedes

theorem ne (h : a.Precedes b) : a ≠ b := SortedMap.ne_of_compare_lt (compare_lt_iff.mpr h)

theorem asymm (h : a.Precedes b) : ¬b.Precedes a := fun h' ↦
  OrientedCmp.not_lt_of_lt (compare_lt_iff.mpr h) (compare_lt_iff.mpr h')

theorem trans (hab : a.Precedes b) (hbc : b.Precedes c) : a.Precedes c :=
  compare_lt_iff.mp (TransCmp.lt_trans (compare_lt_iff.mpr hab) (compare_lt_iff.mpr hbc))

end Precedes

theorem precedes_trichotomy (a b : VariantKey) : a.Precedes b ∨ a = b ∨ b.Precedes a := by
  cases h : compare a b with
  | lt => exact .inl (compare_lt_iff.mp h)
  | eq => exact .inr (.inl (LawfulEqOrd.eq_of_compare h))
  | gt => exact .inr (.inr (compare_gt_iff.mp h))

/-! ## Sorting -/

/-- No key comes before one that stands in front of it. -/
def InOrder (keys : List VariantKey) : Prop := keys.Pairwise fun a b ↦ a = b ∨ a.Precedes b

variable {keys keys' : List VariantKey}

private theorem eq_of_precedes_or_eq (hab : a = b ∨ a.Precedes b) (hba : b = a ∨ b.Precedes a) :
    a = b := by
  rcases hab with heq | hab
  · exact heq
  · exact (hba.resolve_right hab.asymm).symm

/-- Keys can be put in order in one way only. -/
theorem InOrder.eq_of_perm (h : InOrder keys) (h' : InOrder keys') (hperm : keys.Perm keys') :
    keys = keys' :=
  hperm.eq_of_pairwise (fun _ _ _ _ ↦ eq_of_precedes_or_eq) h h'

theorem sort_perm (keys : List VariantKey) : (sort keys).Perm keys := List.mergeSort_perm keys _

theorem inOrder_sort (keys : List VariantKey) : InOrder (sort keys) := by
  have htotal : ∀ a b : VariantKey, ((compare a b).isLE || (compare b a).isLE) = true := by
    intro a b
    rw [Bool.or_eq_true, isLE_compare_iff, isLE_compare_iff]
    rcases precedes_trichotomy a b with h | h | h
    · exact .inl (.inr h)
    · exact .inl (.inl h)
    · exact .inr (.inr h)
  refine (List.pairwise_mergeSort ?_ htotal keys).imp isLE_compare_iff.mp
  exact fun _ _ _ ↦ TransCmp.isLE_trans

/-- Sorted keys without their repetitions are the keys that get numbers. -/
theorem keys_numbering {first : UInt32} {numbers : SortedMap VariantKey UInt32}
    (h : numbering keys first = .ok numbers) : numbers.keys = (sort keys).eraseReps := by
  rw [eraseReps_eq_eraseDups (fun _ _ ↦ eq_of_precedes_or_eq) (inOrder_sort keys)]
  have horder : InOrder numbers.keys :=
    numbers.keys_pairwise.imp fun hlt ↦ .inr (compare_lt_iff.mp hlt)
  refine horder.eq_of_perm ((inOrder_sort keys).sublist (eraseDups_sublist _)) ?_
  refine (List.perm_ext_iff_of_nodup numbers.keys_nodup (nodup_eraseDups _)).mpr fun k ↦ ?_
  rw [List.mem_eraseDups, (sort_perm keys).mem_iff]
  exact (enumerates_of_numbering h).mem_keys k

/-- **Variant keys are totally ordered.** Which of two keys comes first is decided by the first
field in which they differ, and this is what the comparison answers; it reports equality of equal
keys only. Of two keys one comes before the other or they are equal, and just one of the three is
the case; the order is transitive. There is therefore one way to put given keys in order, which is
what sorting does, and the sorted keys without their repetitions are those that get numbers.
Fragments are grouped under increasing keys. A key has a group when there are fragments with this
key, and the group consists of these in their order; all groups together hold every fragment once,
under its own key. -/
theorem order_is_total (a b c : VariantKey) (keys : List VariantKey) (fragments : List Fragment) :
    ((compare a b = .lt ↔ a.Precedes b) ∧ (compare a b = .eq ↔ a = b) ∧
        (compare a b = .gt ↔ b.Precedes a)) ∧
      ((a.Precedes b ∨ a = b ∨ b.Precedes a) ∧ ¬(a.Precedes b ∧ a = b) ∧
        ¬(a.Precedes b ∧ b.Precedes a) ∧ ¬(a = b ∧ b.Precedes a)) ∧
      (a.Precedes b → b.Precedes c → a.Precedes c) ∧
      ((sort keys).Perm keys ∧ InOrder (sort keys) ∧
        ∀ sorted : List VariantKey, sorted.Perm keys → InOrder sorted → sorted = sort keys) ∧
      (∀ (first : UInt32) (numbers : SortedMap VariantKey UInt32),
        numbering keys first = .ok numbers → numbers.keys = (sort keys).eraseReps) ∧
      (Fragment.byVariant fragments).keys.Pairwise Precedes ∧
      (∀ k fs, (k, fs) ∈ (Fragment.byVariant fragments).toList ↔
        fs = fragments.filter (·.key = k) ∧ fs ≠ []) ∧
      (Fragment.visits (Fragment.byVariant fragments).toList).Perm
        (fragments.map fun f ↦ (f.key, f)) := by
  refine ⟨⟨compare_lt_iff, Std.compare_eq_iff_eq, compare_gt_iff⟩,
    ⟨precedes_trichotomy a b, ?_, ?_, ?_⟩, .trans, ⟨sort_perm keys, inOrder_sort keys, ?_⟩,
    fun _ _ ↦ keys_numbering, ?_, fun _ _ ↦ Fragment.mem_byVariant,
    Fragment.visits_byVariant_perm_keyed fragments⟩
  · rintro ⟨hab, heq⟩
    exact hab.ne heq
  · rintro ⟨hab, hba⟩
    exact hab.asymm hba
  · rintro ⟨heq, hba⟩
    exact hba.ne heq.symm
  · intro sorted hperm hsorted
    exact hsorted.eq_of_perm (inOrder_sort keys) (hperm.trans (sort_perm keys).symm)
  · exact (Fragment.byVariant fragments).keys_pairwise.imp compare_lt_iff.mp

/-- Three keys with lists of names, of which the first is a proper prefix of the second, and the
third differs from both in its first name; this consists of a character that needs four bytes. -/
theorem prefix_and_longer_character_in_order :
    let key (abis : List String) : VariantKey :=
      ⟨.split, { VariantTargeting.everyDevice with abis }⟩
    let early := key ["\uffff"]
    let middle := key ["\uffff", ""]
    let late := key ["😀"]
    let given := [late, early, middle, early]
    early.Precedes middle ∧ middle.Precedes late ∧ early.Precedes late ∧
      sort given = [early, early, middle, late] ∧
      ∃ numbers, numbering given 7 = .ok numbers ∧ numbers.keys = [early, middle, late] := by
  intro key early middle late given
  have hmiddle : early.Precedes middle := .targeting rfl (.abis rfl (.cons .nil))
  have hlate : middle.Precedes late := .targeting rfl (.abis rfl (.rel (by decide)))
  obtain ⟨-, -, htrans, ⟨-, -, hunique⟩, hnumbered, -⟩ :=
    order_is_total early middle late given []
  have hboth : early.Precedes late := htrans hmiddle hlate
  have hsorted : sort given = [early, early, middle, late] := by
    refine (hunique [early, early, middle, late] (by decide) ?_).symm
    simp [InOrder, hmiddle, hlate, hboth]
  obtain ⟨numbers, hnumbers⟩ : ∃ numbers, numbering given 7 = .ok numbers :=
    exists_numbering (by decide)
  refine ⟨hmiddle, hlate, hboth, hsorted, numbers, hnumbers, ?_⟩
  rw [hnumbered 7 numbers hnumbers, hsorted]
  decide

end VariantKey

end FragmentArchive
