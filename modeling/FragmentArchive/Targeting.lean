import FragmentArchive.Json.Record

/-!
# Targeting

There are two kinds of targeting. *Variant targeting* says on which devices a set of fragments is
installed together, and is part of what tells variants apart. *Device targeting* says which of the
devices within a variant receive one particular fragment; it also shows in the fragment's file name.
-/

open Std

namespace FragmentArchive

open Json

/-! ## Variants -/

/-- The devices that install a variant. Empty lists and a missing bound admit every device. -/
structure VariantTargeting where
  minSdk : Option UInt32
  abis : List String
  screenDensities : List UInt32
  textureFormats : List String
deriving DecidableEq, Ord, Repr

namespace VariantTargeting

/-- The targeting that admits every device. -/
def everyDevice : VariantTargeting := ⟨none, [], [], []⟩

instance : Inhabited VariantTargeting := ⟨everyDevice⟩

/-- Whether every device is admitted. -/
def isEmpty (t : VariantTargeting) : Bool := t = everyDevice

/-- The targeting that is bounded only by a smallest SDK version. -/
def sdk (minSdk : UInt32) : VariantTargeting := { everyDevice with minSdk }

/-- Targetings are compared field by field. -/
theorem compare_eq : (compare : VariantTargeting → VariantTargeting → Ordering) =
    compareLex (compareOn minSdk) (compareLex (compareOn abis)
      (compareLex (compareOn screenDensities) (compareOn textureFormats))) := by
  funext a b
  change ((compare a.minSdk b.minSdk).then ((compare a.abis b.abis).then
    ((compare a.screenDensities b.screenDensities).then
      ((compare a.textureFormats b.textureFormats).then .eq)))) = _
  simp [compareLex, compareOn]

instance : TransOrd VariantTargeting := by
  unfold TransOrd
  rw [compare_eq]
  infer_instance

instance : LawfulEqOrd VariantTargeting where
  compare_self {a} := by
    rw [compare_eq]
    simp [compareLex, compareOn]
  eq_of_compare {a b} h := by
    rw [compare_eq] at h
    simp only [compareLex, compareOn, Ordering.then_eq_eq, Std.compare_eq_iff_eq] at h
    obtain ⟨h1, h2, h3, h4⟩ := h
    cases a
    cases b
    simp_all

def codec : Codec VariantTargeting :=
  Record.codec "VariantTargeting" everyDevice [
    .optional "min_sdk" .uint32 minSdk fun x t ↦ { t with minSdk := x },
    .leftOutWhen List.isEmpty "abis" (.list .string) abis fun x t ↦ { t with abis := x },
    .leftOutWhen List.isEmpty "screen_densities" (.list .uint32) screenDensities
      fun x t ↦ { t with screenDensities := x },
    .leftOutWhen List.isEmpty "texture_formats" (.list .string) textureFormats
      fun x t ↦ { t with textureFormats := x }]

end VariantTargeting

/-! ## Devices within a variant -/

/-- The devices that receive a fragment, dimension by dimension. -/
structure DeviceTargeting where
  minSdk : Option UInt32
  abi : Option String
  screenDensity : Option UInt32
  language : Option String
  textureFormat : Option String
  deviceTier : Option Int32
  countrySet : Option String
deriving DecidableEq, Ord, Repr

namespace DeviceTargeting

/-- The targeting that admits every device of the variant. -/
def everyDevice : DeviceTargeting := ⟨none, none, none, none, none, none, none⟩

instance : Inhabited DeviceTargeting := ⟨everyDevice⟩

/-- Whether no dimension is targeted. -/
def isEmpty (t : DeviceTargeting) : Bool := t = everyDevice

/-- The usual name of a screen density given in dots per inch. -/
def densityText (dpi : UInt32) : String :=
  match dpi.toNat with
  | 120 => "ldpi"
  | 160 => "mdpi"
  | 213 => "tvdpi"
  | 240 => "hdpi"
  | 320 => "xhdpi"
  | 480 => "xxhdpi"
  | 640 => "xxxhdpi"
  | other => Decimal.ofNat other ++ "dpi"

private def underscored (s : String) : String :=
  String.ofList (s.toList.map fun c ↦ if c = '-' then '_' else c)

/-- What each targeted dimension adds to a file name. -/
def nameParts (t : DeviceTargeting) : List String :=
  [t.abi.map underscored,
    t.screenDensity.map densityText,
    t.language,
    t.textureFormat,
    t.deviceTier.map fun tier ↦ "tier_" ++ Decimal.ofInt tier.toInt,
    t.countrySet.map ("countries_" ++ ·),
    t.minSdk.map fun sdk ↦ "sdk" ++ Decimal.ofNat sdk.toNat].filterMap id

/-- The targeted dimensions in the form in which they appear in file names; `none` when there are
none. -/
def suffix? (t : DeviceTargeting) : Option String :=
  match t.nameParts with
  | [] => none
  | parts => some ("_".intercalate parts)

def codec : Codec DeviceTargeting :=
  Record.codec "DeviceTargeting" everyDevice [
    .optional "min_sdk" .uint32 minSdk fun x t ↦ { t with minSdk := x },
    .optional "abi" .string abi fun x t ↦ { t with abi := x },
    .optional "screen_density" .uint32 screenDensity fun x t ↦ { t with screenDensity := x },
    .optional "language" .string language fun x t ↦ { t with language := x },
    .optional "texture_format" .string textureFormat fun x t ↦ { t with textureFormat := x },
    .optional "device_tier" .int32 deviceTier fun x t ↦ { t with deviceTier := x },
    .optional "country_set" .string countrySet fun x t ↦ { t with countrySet := x }]

end DeviceTargeting

end FragmentArchive
