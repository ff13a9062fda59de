import FragmentArchive.Json.Record

/-!
# Build configuration

The configuration names the dimensions along which fragments are split. A dimension may have a
suffix stripping, whose default suffix is the value assumed for devices that do not report the
dimension. Two views are taken of the strippings. The *effective* ones are a map from dimensions,
without the negated dimensions and disabled strippings, in which the last mention of a dimension
counts. The *declared* ones are a list that keeps every mention.
-/

open Std

namespace FragmentArchive

open Json

/-! ## Dimensions -/

/-- A property of devices along which fragments are split. -/
inductive Dimension
  | abi
  | screenDensity
  | language
  | textureCompressionFormat
  | deviceTier
  | countrySet
deriving DecidableEq, Ord, Repr, Inhabited

namespace Dimension

/-- The name of a dimension. -/
def text : Dimension → String
  | abi => "ABI"
  | screenDensity => "SCREEN_DENSITY"
  | language => "LANGUAGE"
  | textureCompressionFormat => "TEXTURE_COMPRESSION_FORMAT"
  | deviceTier => "DEVICE_TIER"
  | countrySet => "COUNTRY_SET"

/-- All dimensions, in their order. -/
def all : List Dimension :=
  [abi, screenDensity, language, textureCompressionFormat, deviceTier, countrySet]

instance : TransOrd Dimension where
  eq_swap {a b} := by cases a <;> cases b <;> rfl
  isLE_trans {a b c} := by cases a <;> cases b <;> cases c <;> decide

instance : LawfulEqOrd Dimension where
  compare_self {a} := by cases a <;> rfl
  eq_of_compare {a b} := by cases a <;> cases b <;> decide

def codec : Codec Dimension := .choice (all.map fun d ↦ (d.text, d))

end Dimension

/-! ## Configuration -/

/-- How the suffix of a dimension is treated. -/
structure SuffixStripping where
  enabled : Bool
  /-- The value assumed for devices that do not report the dimension. -/
  defaultSuffix : String
deriving DecidableEq, Repr, Inhabited

def SuffixStripping.codec : Codec SuffixStripping :=
  Record.codec "SuffixStripping" default [
    .withDefault "enabled" .bool enabled fun x s ↦ { s with enabled := x },
    .withDefault "default_suffix" .string defaultSuffix fun x s ↦ { s with defaultSuffix := x }]

/-- A mention of a dimension in the configuration. -/
structure SplitDimension where
  dimension : Dimension
  /-- Whether fragments are kept together along the dimension after all. -/
  negate : Bool
  suffixStripping : Option SuffixStripping
deriving DecidableEq, Repr, Inhabited

def SplitDimension.codec : Codec SplitDimension :=
  Record.codec "SplitDimension" default [
    .required "dimension" Dimension.codec dimension fun x d ↦ { d with dimension := x },
    .withDefault "negate" .bool negate fun x d ↦ { d with negate := x },
    .withDefault "suffix_stripping" SuffixStripping.codec.option suffixStripping
      fun x d ↦ { d with suffixStripping := x }]

/-- The stripping of a dimension that is split along and has one enabled. -/
def SplitDimension.effectiveStripping? (d : SplitDimension) : Option (Dimension × SuffixStripping) :=
  match d.suffixStripping with
  | some stripping =>
    if !d.negate && stripping.enabled then some (d.dimension, stripping) else none
  | none => none

/-- Versions of the asset modules. -/
structure AssetModulesConfig where
  appVersions : List Int64
  assetVersionTag : String
deriving DecidableEq, Inhabited

def AssetModulesConfig.codec : Codec AssetModulesConfig :=
  Record.codec "AssetModulesConfig" default [
    .withDefault "app_versions" (.list .int64) appVersions fun x c ↦ { c with appVersions := x },
    .withDefault "asset_version_tag" .string assetVersionTag
      fun x c ↦ { c with assetVersionTag := x }]

/-- The configuration of a bundle. -/
structure BuildConfig where
  splitDimensions : List SplitDimension
  assetModules : Option AssetModulesConfig
deriving DecidableEq, Inhabited

namespace BuildConfig

def codec : Codec BuildConfig :=
  Record.codec "BuildConfig" default [
    .withDefault "split_dimensions" (.list SplitDimension.codec) splitDimensions
      fun x c ↦ { c with splitDimensions := x },
    .withDefault "asset_modules" AssetModulesConfig.codec.option assetModules
      fun x c ↦ { c with assetModules := x }]

/-- The effective strippings by dimension. -/
def effectiveStrippings (config : BuildConfig) : SortedMap Dimension SuffixStripping :=
  .ofList (config.splitDimensions.filterMap (·.effectiveStripping?))

end BuildConfig

end FragmentArchive
