import FragmentArchive.Device.Filter
import FragmentArchive.Run

/-!
# Canonical fragments

Before fragments are written they are brought into their canonical form: those that the device does
not receive are dropped, the modifier edits the manifest of each of the others, and then the variant
targeting is cleared, which the modifier has still seen. Fragments of different variants may have
the same canonical form; the artifact for it is shared.
-/

namespace FragmentArchive.Fragment

variable {μ ℓ π ω : Type}

/-- The canonical form of a fragment that is kept. -/
def canonicalForm (modifier : Modifier μ) (variantNumber : UInt32) (f : Fragment) :
    Run (Memory μ ℓ π ω) Fragment := do
  let manifest ← Run.modify modifier f.manifest (.ofFragment f variantNumber)
  return { f with manifest, variantTargeting := .everyDevice }

/-- The canonical forms of the fragments of one variant. -/
def canonicalForms (filter : DeviceFilter) (matcher : Matcher μ) (modifier : Modifier μ)
    (variantNumber : UInt32) : List Fragment → Run (Memory μ ℓ π ω) (List Fragment)
  | [] => return []
  | f :: fs => do
    if ← filter.keeps matcher f then
      let canonical ← f.canonicalForm modifier variantNumber
      let others ← canonicalForms filter matcher modifier variantNumber fs
      return canonical :: others
    else canonicalForms filter matcher modifier variantNumber fs

/-- The canonical forms of the fragments of all variants. A variant of which nothing is kept is
dropped. -/
def canonicalGroups (filter : DeviceFilter) (matcher : Matcher μ) (modifier : Modifier μ)
    (numbers : SortedMap VariantKey UInt32) :
    List (VariantKey × List Fragment) → Run (Memory μ ℓ π ω) (List (VariantKey × List Fragment))
  | [] => return []
  | (key, fragments) :: groups =>
    match numbers.get? key with
    | none => Run.fail (.internal (.unnumbered key))
    | some variantNumber => do
      let canonical ← canonicalForms filter matcher modifier variantNumber fragments
      let others ← canonicalGroups filter matcher modifier numbers groups
      return if canonical.isEmpty then others else (key, canonical) :: others

/-- The different fragments of a list, each at its first place. -/
def distinct (fragments : List Fragment) : List Fragment := fragments.eraseDups

end FragmentArchive.Fragment
