import FragmentArchive.Proofs.Canonical
import FragmentArchive.Proofs.Storing

/-!
# Interleavings of variants

A generator may hand over the fragments of different variants in any order, one variant behind the
other or mixed. Two lists have the same variants when, for every key, the fragments with this key
are the same in the same order; each of the lists is then an interleaving of the other's variants.

The given list is looked at in two places only: the mode is checked against the categories that
occur, which is a matter of membership, and the fragments are grouped by their keys. From there on
the order within a variant is all that is left, so the two lists lead to the same run, with the same
questions, names and requests to the writer.
-/

namespace FragmentArchive

/-! ## Lists with the same variants -/

namespace Fragment

/-- Whichever key one looks at, the fragments with this key are the same in the same order. -/
def SameVariants (as bs : List Fragment) : Prop :=
  ∀ k, as.filter (·.key = k) = bs.filter (·.key = k)

/-- Neighbours of different variants can be exchanged. -/
theorem sameVariants_swap {f g : Fragment} (h : f.key ≠ g.key) (fs : List Fragment) :
    SameVariants (f :: g :: fs) (g :: f :: fs) := by
  intro k
  by_cases hf : f.key = k
  · have hg : g.key ≠ k := fun hg ↦ h (hf.trans hg.symm)
    simp [hf, hg]
  · simp [List.filter_cons, hf]

namespace SameVariants

variable {as bs : List Fragment}

protected theorem symm (h : SameVariants as bs) : SameVariants bs as := fun k ↦ (h k).symm

theorem mem_iff (h : SameVariants as bs) (f : Fragment) : f ∈ as ↔ f ∈ bs := by
  have hself : ∀ fs : List Fragment, f ∈ fs ↔ f ∈ fs.filter (·.key = f.key) := fun fs ↦ by simp
  rw [hself as, hself bs, h f.key]

/-- The same fragments occur, each as often. -/
theorem perm (h : SameVariants as bs) : as.Perm bs := by
  refine List.perm_iff_count.mpr fun f ↦ ?_
  have hself : ∀ fs : List Fragment, (fs.filter (·.key = f.key)).count f = fs.count f :=
    fun fs ↦ List.count_filter (decide_eq_true rfl)
  rw [← hself as, ← hself bs, h f.key]

theorem anyOf_eq (h : SameVariants as bs) (category : Category) :
    anyOf category as = anyOf category bs := by
  rw [anyOf, anyOf, Bool.eq_iff_iff, List.any_eq_true, List.any_eq_true]
  exact exists_congr fun f ↦ and_congr_left fun _ ↦ h.mem_iff f

end SameVariants

/-! ## Grouping and admission -/

/-- Under a key that does not occur there is nothing, and under the others are the fragments with
this key. -/
theorem getD_get?_byVariant (fragments : List Fragment) (k : VariantKey) :
    ((byVariant fragments).get? k).getD [] = fragments.filter (·.key = k) := by
  cases hget : (byVariant fragments).get? k with
  | some group => exact (mem_byVariant.mp (SortedMap.get?_eq_some_iff.mp hget)).1
  | none =>
    rw [Option.getD_none, eq_comm]
    refine Classical.byContradiction fun hne ↦ ?_
    have hmem := mem_byVariant.mpr ⟨rfl, hne⟩
    rw [SortedMap.get?_eq_some_iff.mpr hmem] at hget
    cases hget

/-- Lists are grouped in the same way exactly when they have the same variants. -/
theorem byVariant_eq_iff {as bs : List Fragment} :
    byVariant as = byVariant bs ↔ SameVariants as bs := by
  constructor
  · intro h k
    rw [← getD_get?_byVariant, ← getD_get?_byVariant, h]
  · intro h
    have hkeys : (byVariant as).keys = (byVariant bs).keys := by
      refine SortedMap.keys_eq_of_mem_iff fun k ↦ ?_
      rw [mem_keys_byVariant, mem_keys_byVariant]
      exact exists_congr fun f ↦ and_congr_left fun _ ↦ h.mem_iff f
    refine SortedMap.ext ?_
    rw [toList_byVariant, toList_byVariant, hkeys]
    exact List.map_congr_left fun k _ ↦ congrArg (Prod.mk k) (h k)

theorem SameVariants.check_eq {as bs : List Fragment} (h : SameVariants as bs)
    (mode : BuildMode) : mode.check as = mode.check bs := by
  rw [BuildMode.check, BuildMode.check, funext h.anyOf_eq]

end Fragment

/-! ## Runs -/

namespace Serializer

variable {μ ℓ π ω : Type} (s : Serializer μ ℓ π) {as bs : List Fragment}

theorem writeFragments_congr (h : Fragment.SameVariants as bs) (writer : Writer ω)
    (schedule : (jobs : Nat) → Schedule jobs) (mode : BuildMode) (device : Option Device) :
    (s.writeFragments writer schedule as mode device : Run (Memory μ ℓ π ω) (List Variant)) =
      s.writeFragments writer schedule bs mode device := by
  rw [writeFragments, writeFragments, h.check_eq mode, Fragment.byVariant_eq_iff.mpr h]

/-- A whole build does not depend on how the variants are interleaved, either. -/
theorem build_congr (writer : Writer ω) (timing : Timing) {request : BuildRequest}
    (h : Fragment.SameVariants request.fragments bs) :
    (s.build writer timing request : Run (Memory μ ℓ π ω) TableOfContents) =
      s.build writer timing { request with fragments := bs } := by
  rw [build, build, s.writeFragments_congr h, h.perm.length_eq]

/-- **Only the order within a variant matters.** Lists with the same variants are grouped in the
same way, and writing them has the same outcome from every memory: the same result or error, the
same questions to matcher and modifier, the same names and requests to the writer in the same order,
and the same memory in the end. -/
theorem interleaving_is_invisible (h : Fragment.SameVariants as bs) :
    Fragment.byVariant as = Fragment.byVariant bs ∧
      ∀ (writer : Writer ω) (schedule : (jobs : Nat) → Schedule jobs) (mode : BuildMode)
        (device : Option Device) (m : Memory μ ℓ π ω),
        s.writeFragments writer schedule as mode device m =
          s.writeFragments writer schedule bs mode device m := by
  refine ⟨Fragment.byVariant_eq_iff.mpr h, fun writer schedule mode device m ↦ ?_⟩
  rw [s.writeFragments_congr h]

/-- Of three fragments the one that makes up a variant of its own can stand first or second. -/
theorem two_variants_interleaved :
    let f : Fragment := { Fragment.untargeted .base .split (.ofPackage "p") with
      isMaster := true, variantTargeting := .sdk 21 }
    let f' : Fragment :=
      { f with isMaster := false, targeting := { f.targeting with abi := some "x86" } }
    let g : Fragment := { f with variantTargeting := .sdk 24 }
    let s := plain { Bundle.ofPackage "p" with
      modules := [.independent .base .feature (.ofPackage "p")] }
    let m : Memory Unit Unit Naming Unit := ⟨(), (), ∅, ()⟩
    let write (fs : List Fragment) :=
      s.writeFragments Writer.echo Schedule.inOrder fs .default none m
    Fragment.SameVariants [f, g, f'] [g, f, f'] ∧ (write [f, g, f']).result.toOption.isSome = true ∧
      (Event.writes (write [f, g, f']).events).length = 2 ∧ write [f, g, f'] = write [g, f, f'] := by
  intro f f' g s m write
  have hsame : Fragment.SameVariants [f, g, f'] [g, f, f'] :=
    Fragment.sameVariants_swap (by decide) [f']
  exact ⟨hsame, by decide +kernel, by decide +kernel,
    (s.interleaving_is_invisible hsame).2 Writer.echo Schedule.inOrder .default none m⟩

end Serializer

end FragmentArchive
