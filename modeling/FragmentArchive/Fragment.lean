import FragmentArchive.Manifest
import FragmentArchive.Names
import FragmentArchive.Targeting

/-!
# Fragments

A fragment is a piece of a package that is generated on its own and written to the archive as one
artifact. Its category and its variant targeting make up the key of the variant that it belongs to.
Equality of fragments is structural; fragments of different variants that agree in everything but
the variant targeting become equal once that is cleared, and are then written only once.
-/

open Std

namespace FragmentArchive

open Json

/-! ## Categories -/

/-- The kinds of fragments. -/
inductive Category
  | split
  | instant
  | standalone
  | system
  | assetSlice
  | hibernation
deriving DecidableEq, Ord, Repr, Inhabited

namespace Category

/-- All categories, in their order. -/
def all : List Category := [split, instant, standalone, system, assetSlice, hibernation]

/-- The name of a category in messages. -/
def text : Category → String
  | split => "split"
  | instant => "instant"
  | standalone => "standalone"
  | system => "system"
  | assetSlice => "asset_slice"
  | hibernation => "hibernation"

/-- The category with a given name. -/
def ofText (s : String) : Except String Category :=
  match all.find? (·.text = s) with
  | some c => .ok c
  | none => .error ("Invalid fragment category: " ++ s)

instance : TransOrd Category where
  eq_swap {a b} := by cases a <;> cases b <;> rfl
  isLE_trans {a b c} := by cases a <;> cases b <;> cases c <;> decide

instance : LawfulEqOrd Category where
  compare_self {a} := by cases a <;> rfl
  eq_of_compare {a b} := by cases a <;> cases b <;> decide

def codec : Codec Category :=
  .choice [("SPLIT", split), ("INSTANT", instant), ("STANDALONE", standalone),
    ("SYSTEM", system), ("ASSET_SLICE", assetSlice), ("HIBERNATION", hibernation)]

end Category

/-! ## Variant keys -/

/-- What the fragments of one variant have in common. Keys are ordered by category first, then by
targeting. -/
structure VariantKey where
  category : Category
  targeting : VariantTargeting
deriving DecidableEq, Ord, Repr, Inhabited

namespace VariantKey

theorem compare_eq : (compare : VariantKey → VariantKey → Ordering) =
    compareLex (compareOn category) (compareOn targeting) := by
  funext a b
  change ((compare a.category b.category).then
    ((compare a.targeting b.targeting).then .eq)) = _
  simp [compareLex, compareOn]

instance : TransOrd VariantKey := by
  unfold TransOrd
  rw [compare_eq]
  infer_instance

instance : LawfulEqOrd VariantKey where
  compare_self {a} := by
    rw [compare_eq]
    simp [compareLex, compareOn]
  eq_of_compare {a b} h := by
    rw [compare_eq] at h
    simp only [compareLex, compareOn, Ordering.then_eq_eq, Std.compare_eq_iff_eq] at h
    cases a
    cases b
    simp_all

/-- Keys in their order, each as often as it is given. -/
def sort (keys : List VariantKey) : List VariantKey :=
  keys.mergeSort fun a b ↦ (compare a b).isLE

def codec : Codec VariantKey :=
  Record.codec "VariantKey" default [
    .required "category" Category.codec category fun x k ↦ { k with category := x },
    .required "targeting" VariantTargeting.codec targeting fun x k ↦ { k with targeting := x }]

end VariantKey

/-! ## Fragments -/

/-- A file inside a fragment. -/
structure FragmentEntry where
  path : String
  content : List UInt8
deriving DecidableEq, Ord, Repr, Inhabited

def FragmentEntry.codec : Codec FragmentEntry :=
  Record.codec "FragmentEntry" default [
    .required "path" .string path fun x e ↦ { e with path := x },
    .withDefault "content" (.list .uint8) content fun x e ↦ { e with content := x }]

/-- A piece of a package, or of its assets. -/
structure Fragment where
  module : ModuleName
  category : Category
  variantTargeting : VariantTargeting
  targeting : DeviceTargeting
  /-- Whether the fragment counts as one of the base module; its module's name need not agree. -/
  isBaseModule : Bool
  isMaster : Bool
  manifest : Manifest
  entries : List FragmentEntry
deriving DecidableEq, Inhabited

namespace Fragment

/-- The fragment of a module that has no targeting and no entries. -/
def untargeted (module : ModuleName) (category : Category) (manifest : Manifest) : Fragment where
  module
  category
  variantTargeting := .everyDevice
  targeting := .everyDevice
  isBaseModule := module.isBase
  isMaster := false
  manifest
  entries := []

/-- The key of the variant that a fragment belongs to. -/
def key (f : Fragment) : VariantKey := ⟨f.category, f.variantTargeting⟩

def codec : Codec Fragment :=
  Record.codec "Fragment" default [
    .required "module" ModuleName.codec module fun x f ↦ { f with module := x },
    .required "category" Category.codec category fun x f ↦ { f with category := x },
    .withDefault "variant_targeting" VariantTargeting.codec variantTargeting
      fun x f ↦ { f with variantTargeting := x },
    .withDefault "targeting" DeviceTargeting.codec targeting fun x f ↦ { f with targeting := x },
    .withDefault "is_base_module" .bool isBaseModule fun x f ↦ { f with isBaseModule := x },
    .withDefault "is_master" .bool isMaster fun x f ↦ { f with isMaster := x },
    .required "manifest" Manifest.codec manifest fun x f ↦ { f with manifest := x },
    .withDefault "entries" (.list FragmentEntry.codec) entries fun x f ↦ { f with entries := x }]

end Fragment

/-! ## Generated collections

The fragments and asset slices of one run come from a generator, each list in a record of its
own. -/

/-- The ordinary fragments of a run. -/
structure GeneratedFragments where
  fragments : List Fragment
deriving DecidableEq, Inhabited

def GeneratedFragments.codec : Codec GeneratedFragments :=
  Record.codec "GeneratedFragments" default [
    .withDefault "fragments" (.list Fragment.codec) fragments fun x g ↦ { g with fragments := x }]

/-- The asset slices of a run. -/
structure GeneratedAssetSlices where
  slices : List Fragment
deriving DecidableEq, Inhabited

def GeneratedAssetSlices.codec : Codec GeneratedAssetSlices :=
  Record.codec "GeneratedAssetSlices" default [
    .withDefault "slices" (.list Fragment.codec) slices fun x g ↦ { g with slices := x }]

namespace Fragment

/-- Whether a fragment of the category is among the given ones. -/
def anyOf (category : Category) (fragments : List Fragment) : Bool :=
  fragments.any (·.category = category)

/-- The fragments of each variant in their given order, the variants in the order of their keys. -/
def byVariant (fragments : List Fragment) : SortedMap VariantKey (List Fragment) :=
  .group (fragments.map fun f ↦ (f.key, f))

end Fragment

end FragmentArchive
