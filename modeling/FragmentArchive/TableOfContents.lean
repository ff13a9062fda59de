import FragmentArchive.Artifact
import FragmentArchive.Bundle
import FragmentArchive.Version

/-!
# Tables of contents

The table of contents is what a consumer of an archive reads: the variants with their artifacts by
module, the asset modules with their slices, and what has to be known about the build to choose
among them. It is written last, once every artifact it names is in place.
-/

namespace FragmentArchive

open Json

/-! ## Variants -/

/-- The artifacts of one module in a variant. -/
structure ArtifactSet where
  moduleMetadata : ModuleMetadata
  descriptors : List ArtifactDescriptor
deriving DecidableEq, Repr, Inhabited

def ArtifactSet.codec : Codec ArtifactSet :=
  Record.codec "ArtifactSet" default [
    .required "module_metadata" ModuleMetadata.codec moduleMetadata
      fun x s ↦ { s with moduleMetadata := x },
    .required "descriptors" (.list ArtifactDescriptor.codec) descriptors
      fun x s ↦ { s with descriptors := x }]

/-- The artifacts that are installed together on matching devices. -/
structure Variant where
  number : UInt32
  targeting : VariantTargeting
  artifactSets : List ArtifactSet
deriving DecidableEq, Repr, Inhabited

def Variant.codec : Codec Variant :=
  Record.codec "Variant" default [
    .required "number" .uint32 number fun x v ↦ { v with number := x },
    .required "targeting" VariantTargeting.codec targeting fun x v ↦ { v with targeting := x },
    .required "artifact_sets" (.list ArtifactSet.codec) artifactSets
      fun x v ↦ { v with artifactSets := x }]

/-! ## Asset modules -/

/-- When an asset module reaches the device. -/
inductive DeliveryType
  | installTime
  | onDemand
  | fastFollow
deriving DecidableEq, Repr, Inhabited

namespace DeliveryType

def codec : Codec DeliveryType :=
  .choice [("INSTALL_TIME", installTime), ("ON_DEMAND", onDemand), ("FAST_FOLLOW", fastFollow)]

/-- The delivery that an element declares. Delivery on demand comes before the one right after the
installation, and an element that declares neither means delivery with the installation. -/
def ofElement (element : DeliveryElement) : DeliveryType :=
  if element.onDemand then onDemand
  else if element.fastFollow then fastFollow
  else installTime

end DeliveryType

/-- The instant delivery of an asset module. -/
structure InstantMetadata where
  isInstant : Bool
  /-- Given for instant modules only. -/
  deliveryType : Option DeliveryType
deriving DecidableEq, Repr, Inhabited

def InstantMetadata.codec : Codec InstantMetadata :=
  Record.codec "InstantMetadata" default [
    .required "is_instant" .bool isInstant fun x m ↦ { m with isInstant := x },
    .optional "delivery_type" DeliveryType.codec deliveryType
      fun x m ↦ { m with deliveryType := x }]

/-- The description of an asset module that stands next to its slices. -/
structure AssetModuleMetadata where
  name : String
  deliveryType : DeliveryType
  instantMetadata : InstantMetadata
deriving DecidableEq, Repr, Inhabited

namespace AssetModuleMetadata

def codec : Codec AssetModuleMetadata :=
  Record.codec "AssetModuleMetadata" default [
    .required "name" .string name fun x m ↦ { m with name := x },
    .required "delivery_type" DeliveryType.codec deliveryType
      fun x m ↦ { m with deliveryType := x },
    .required "instant_metadata" InstantMetadata.codec instantMetadata
      fun x m ↦ { m with instantMetadata := x }]

/-- The description of a module. One that declares no delivery comes with the installation, and an
instant one that declares no instant delivery comes on demand. -/
def ofModule (m : BundleModule) : AssetModuleMetadata where
  name := m.name.text
  deliveryType := (m.manifest.delivery.map .ofElement).getD .installTime
  instantMetadata := {
    isInstant := m.isInstant
    deliveryType :=
      if m.isInstant then some ((m.manifest.instantDelivery.map .ofElement).getD .onDemand)
      else none }

end AssetModuleMetadata

/-- The slices of one asset module. -/
structure AssetSliceSet where
  metadata : AssetModuleMetadata
  descriptors : List ArtifactDescriptor
deriving DecidableEq, Repr, Inhabited

def AssetSliceSet.codec : Codec AssetSliceSet :=
  Record.codec "AssetSliceSet" default [
    .required "metadata" AssetModuleMetadata.codec metadata fun x s ↦ { s with metadata := x },
    .required "descriptors" (.list ArtifactDescriptor.codec) descriptors
      fun x s ↦ { s with descriptors := x }]

/-! ## The build -/

/-- The value assumed for devices that do not report a dimension. -/
structure DefaultTargetingValue where
  dimension : Dimension
  defaultValue : String
deriving DecidableEq, Repr, Inhabited

namespace DefaultTargetingValue

def codec : Codec DefaultTargetingValue :=
  Record.codec "DefaultTargetingValue" default [
    .required "dimension" Dimension.codec dimension fun x v ↦ { v with dimension := x },
    .required "default_value" .string defaultValue fun x v ↦ { v with defaultValue := x }]

/-- The default suffixes of all declared strippings, in the order of the configuration. -/
def ofConfig (config : BuildConfig) : List DefaultTargetingValue :=
  config.splitDimensions.filterMap fun d ↦
    d.suffixStripping.map fun stripping ↦ ⟨d.dimension, stripping.defaultSuffix⟩

end DefaultTargetingValue

/-- Versions of the asset modules. -/
structure AssetModulesInfo where
  appVersions : List Int64
  assetVersionTag : String
deriving DecidableEq, Inhabited

namespace AssetModulesInfo

def codec : Codec AssetModulesInfo :=
  Record.codec "AssetModulesInfo" default [
    .required "app_versions" (.list .int64) appVersions fun x i ↦ { i with appVersions := x },
    .required "asset_version_tag" .string assetVersionTag
      fun x i ↦ { i with assetVersionTag := x }]

/-- The configured versions. -/
def ofConfig (config : AssetModulesConfig) : AssetModulesInfo :=
  ⟨config.appVersions, config.assetVersionTag⟩

end AssetModulesInfo

/-- Whether and where the archive can be tested on the machine it was built on. -/
structure LocalTestingInfo where
  enabled : Bool
  localTestingPath : String
deriving DecidableEq, Repr, Inhabited

def LocalTestingInfo.codec : Codec LocalTestingInfo :=
  Record.codec "LocalTestingInfo" default [
    .withDefault "enabled" .bool enabled fun x i ↦ { i with enabled := x },
    .leftOutWhen String.isEmpty "local_testing_path" .string localTestingPath
      fun x i ↦ { i with localTestingPath := x }]

/-! ## The table -/

/-- The version of this program. -/
def Version.current : Version := ⟨0, 1, 0, [], []⟩

/-- The table of contents of an archive. -/
structure TableOfContents where
  packageName : String
  toolVersion : Version
  variants : List Variant
  assetSliceSets : List AssetSliceSet
  defaultTargetingValues : List DefaultTargetingValue
  permanentlyFusedModules : List String
  assetModulesInfo : Option AssetModulesInfo
  localTestingInfo : LocalTestingInfo
deriving DecidableEq

namespace TableOfContents

/-- The table of an archive without artifacts. -/
def blank : TableOfContents := ⟨"", .current, [], [], [], [], none, default⟩

def codec : Codec TableOfContents :=
  Record.codec "TableOfContents" blank [
    .required "package_name" .string packageName fun x t ↦ { t with packageName := x },
    .required "tool_version" Version.codec toolVersion fun x t ↦ { t with toolVersion := x },
    .required "variants" (.list Variant.codec) variants fun x t ↦ { t with variants := x },
    .required "asset_slice_sets" (.list AssetSliceSet.codec) assetSliceSets
      fun x t ↦ { t with assetSliceSets := x },
    .required "default_targeting_values" (.list DefaultTargetingValue.codec)
      defaultTargetingValues fun x t ↦ { t with defaultTargetingValues := x },
    .required "permanently_fused_modules" (.list .string) permanentlyFusedModules
      fun x t ↦ { t with permanentlyFusedModules := x },
    .optional "asset_modules_info" AssetModulesInfo.codec assetModulesInfo
      fun x t ↦ { t with assetModulesInfo := x },
    .withDefault "local_testing_info" LocalTestingInfo.codec localTestingInfo
      fun x t ↦ { t with localTestingInfo := x }]

/-- The table for the results of a run. -/
def ofResults (bundle : Bundle) (variants : List Variant) (assetSliceSets : List AssetSliceSet)
    (permanentlyFusedModules : List ModuleName) (localTestingInfo : LocalTestingInfo) :
    TableOfContents where
  packageName := bundle.packageName
  toolVersion := .current
  variants
  assetSliceSets
  defaultTargetingValues := DefaultTargetingValue.ofConfig bundle.config
  permanentlyFusedModules := permanentlyFusedModules.map (·.text)
  assetModulesInfo := bundle.config.assetModules.map .ofConfig
  localTestingInfo

/-- All artifacts that the variants refer to, as often as they do. -/
def variantArtifacts (toc : TableOfContents) : List ArtifactDescriptor :=
  toc.variants.flatMap fun v ↦ v.artifactSets.flatMap (·.descriptors)

/-- The number of different paths among the artifacts of the variants. -/
def artifactCount (toc : TableOfContents) : Nat :=
  (toc.variantArtifacts.map (·.path)).eraseDups.length

end TableOfContents

end FragmentArchive
