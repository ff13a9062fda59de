import FragmentArchive.BuildPlan
import FragmentArchive.DirectoryArchive
import FragmentArchive.Proofs.Json.Record
import FragmentArchive.Proofs.Version

/-!
# The documents of an archive

Every type that is written as a document is read back from it. For a record this is said field by
field, in the order of its fields: that the content is read back, that a value which is there is
not written `null`, and that what a field is left out for is what the draft holds anyway.
-/

namespace FragmentArchive

open Json Codec

/-! ## Names and choices -/

theorem ModuleName.faithful_codec : ModuleName.codec.Faithful := faithful_string.via fun _ ↦ rfl

theorem ArchivePath.faithful_codec : ArchivePath.codec.Faithful := faithful_string.via fun _ ↦ rfl

theorem Category.faithful_codec : Category.codec.Faithful :=
  faithful_choice (fun c ↦ by cases c <;> decide) (by decide)

theorem Dimension.faithful_codec : Dimension.codec.Faithful :=
  faithful_choice (fun d ↦ by cases d <;> decide) (by decide)

theorem ModuleType.faithful_codec : ModuleType.codec.Faithful :=
  faithful_choice (fun t ↦ by cases t <;> decide) (by decide)

theorem ArtifactKind.faithful_codec : ArtifactKind.codec.Faithful :=
  faithful_choice (fun k ↦ by cases k <;> decide) (by decide)

theorem DeliveryType.faithful_codec : DeliveryType.codec.Faithful :=
  faithful_choice (fun t ↦ by cases t <;> decide) (by decide)

/-! ## Targeting -/

theorem VariantTargeting.faithful_codec : VariantTargeting.codec.Faithful :=
  Record.faithful (by decide) <|
    .optional faithful_uint32 (fun _ ↦ nofun) (fun _ ↦ rfl) <|
    .leftOutWhen faithful_string.list (fun _ ↦ List.isEmpty_iff.mp) (fun _ ↦ rfl) <|
    .leftOutWhen faithful_uint32.list (fun _ ↦ List.isEmpty_iff.mp) (fun _ ↦ rfl) <|
    .leftOutWhen faithful_string.list (fun _ ↦ List.isEmpty_iff.mp) (fun _ ↦ rfl) <|
    .nil fun _ ↦ rfl

theorem DeviceTargeting.faithful_codec : DeviceTargeting.codec.Faithful :=
  Record.faithful (by decide) <|
    .optional faithful_uint32 (fun _ ↦ nofun) (fun _ ↦ rfl) <|
    .optional faithful_string (fun _ ↦ nofun) (fun _ ↦ rfl) <|
    .optional faithful_uint32 (fun _ ↦ nofun) (fun _ ↦ rfl) <|
    .optional faithful_string (fun _ ↦ nofun) (fun _ ↦ rfl) <|
    .optional faithful_string (fun _ ↦ nofun) (fun _ ↦ rfl) <|
    .optional faithful_int32 (fun _ ↦ nofun) (fun _ ↦ rfl) <|
    .optional faithful_string (fun _ ↦ nofun) (fun _ ↦ rfl) <|
    .nil fun _ ↦ rfl

theorem VariantKey.faithful_codec : VariantKey.codec.Faithful :=
  Record.faithful (by decide) <|
    .required Category.faithful_codec <|
    .required VariantTargeting.faithful_codec <|
    .nil fun _ ↦ rfl

/-! ## Manifests -/

theorem DeliveryElement.faithful_codec : DeliveryElement.codec.Faithful :=
  Record.faithful (by decide) <|
    .withDefault faithful_bool <|
    .withDefault faithful_bool <|
    .withDefault faithful_bool <|
    .nil fun _ ↦ rfl

theorem Manifest.faithful_codec : Manifest.codec.Faithful :=
  Record.faithful (by decide) <|
    .required faithful_string <|
    .withDefault faithful_int64 <|
    .optional faithful_string (fun _ ↦ nofun) (fun _ ↦ rfl) <|
    .withDefault faithful_bool <|
    .optional DeliveryElement.faithful_codec (fun _ ↦ nofun) (fun _ ↦ rfl) <|
    .optional DeliveryElement.faithful_codec (fun _ ↦ nofun) (fun _ ↦ rfl) <|
    .leftOutWhen faithful_string.map (fun _ ↦ SortedMap.eq_empty_of_isEmpty) (fun _ ↦ rfl) <|
    .nil fun _ ↦ rfl

/-! ## Fragments -/

theorem FragmentEntry.faithful_codec : FragmentEntry.codec.Faithful :=
  Record.faithful (by decide) <|
    .required faithful_string <|
    .withDefault faithful_uint8.list <|
    .nil fun _ ↦ rfl

theorem Fragment.faithful_codec : Fragment.codec.Faithful :=
  Record.faithful (by decide) <|
    .required ModuleName.faithful_codec <|
    .required Category.faithful_codec <|
    .withDefault VariantTargeting.faithful_codec <|
    .withDefault DeviceTargeting.faithful_codec <|
    .withDefault faithful_bool <|
    .withDefault faithful_bool <|
    .required Manifest.faithful_codec <|
    .withDefault FragmentEntry.faithful_codec.list <|
    .nil fun _ ↦ rfl

theorem GeneratedFragments.faithful_codec : GeneratedFragments.codec.Faithful :=
  Record.faithful (by decide) <|
    .withDefault Fragment.faithful_codec.list <|
    .nil fun _ ↦ rfl

theorem GeneratedAssetSlices.faithful_codec : GeneratedAssetSlices.codec.Faithful :=
  Record.faithful (by decide) <|
    .withDefault Fragment.faithful_codec.list <|
    .nil fun _ ↦ rfl

/-! ## Bundles and devices -/

theorem SuffixStripping.faithful_codec : SuffixStripping.codec.Faithful :=
  Record.faithful (by decide) <|
    .withDefault faithful_bool <|
    .withDefault faithful_string <|
    .nil fun _ ↦ rfl

theorem SplitDimension.faithful_codec : SplitDimension.codec.Faithful :=
  Record.faithful (by decide) <|
    .required Dimension.faithful_codec <|
    .withDefault faithful_bool <|
    .withDefault (SuffixStripping.faithful_codec.option fun _ ↦ nofun) <|
    .nil fun _ ↦ rfl

theorem AssetModulesConfig.faithful_codec : AssetModulesConfig.codec.Faithful :=
  Record.faithful (by decide) <|
    .withDefault faithful_int64.list <|
    .withDefault faithful_string <|
    .nil fun _ ↦ rfl

theorem BuildConfig.faithful_codec : BuildConfig.codec.Faithful :=
  Record.faithful (by decide) <|
    .withDefault SplitDimension.faithful_codec.list <|
    .withDefault (AssetModulesConfig.faithful_codec.option fun _ ↦ nofun) <|
    .nil fun _ ↦ rfl

theorem ModuleMetadata.faithful_codec : ModuleMetadata.codec.Faithful :=
  Record.faithful (by decide) <|
    .required faithful_string <|
    .required ModuleType.faithful_codec <|
    .required faithful_bool <|
    .leftOutWhen faithful_string.list (fun _ ↦ List.isEmpty_iff.mp) (fun _ ↦ rfl) <|
    .nil fun _ ↦ rfl

theorem BundleModule.faithful_codec : BundleModule.codec.Faithful :=
  Record.faithful (by decide) <|
    .required ModuleName.faithful_codec <|
    .withDefault ModuleType.faithful_codec <|
    .required Manifest.faithful_codec <|
    .withDefault faithful_string.list <|
    .nil fun _ ↦ rfl

theorem Bundle.faithful_codec : Bundle.codec.Faithful :=
  Record.faithful (by decide) <|
    .required faithful_string <|
    .withDefault BundleModule.faithful_codec.list <|
    .withDefault BuildConfig.faithful_codec <|
    .nil fun _ ↦ rfl

theorem Device.faithful_codec : Device.codec.Faithful :=
  Record.faithful (by decide) <|
    .withDefault faithful_uint32 <|
    .withDefault faithful_string.list <|
    .withDefault faithful_uint32 <|
    .withDefault faithful_string.list <|
    .withDefault faithful_string.list <|
    .optional faithful_int32 (fun _ ↦ nofun) (fun _ ↦ rfl) <|
    .optional faithful_string (fun _ ↦ nofun) (fun _ ↦ rfl) <|
    .nil fun _ ↦ rfl

/-! ## Tables of contents -/

theorem ArtifactDescriptor.faithful_codec : ArtifactDescriptor.codec.Faithful :=
  Record.faithful (by decide) <|
    .required ArchivePath.faithful_codec <|
    .required ArtifactKind.faithful_codec <|
    .withDefault DeviceTargeting.faithful_codec <|
    .optional faithful_string (fun _ ↦ nofun) (fun _ ↦ rfl) <|
    .withDefault faithful_bool <|
    .withDefault faithful_uint64 <|
    .leftOutWhen faithful_string (fun _ ↦ String.isEmpty_iff.mp) (fun _ ↦ rfl) <|
    .nil fun _ ↦ rfl

theorem ArtifactSet.faithful_codec : ArtifactSet.codec.Faithful :=
  Record.faithful (by decide) <|
    .required ModuleMetadata.faithful_codec <|
    .required ArtifactDescriptor.faithful_codec.list <|
    .nil fun _ ↦ rfl

theorem Variant.faithful_codec : Variant.codec.Faithful :=
  Record.faithful (by decide) <|
    .required faithful_uint32 <|
    .required VariantTargeting.faithful_codec <|
    .required ArtifactSet.faithful_codec.list <|
    .nil fun _ ↦ rfl

theorem InstantMetadata.faithful_codec : InstantMetadata.codec.Faithful :=
  Record.faithful (by decide) <|
    .required faithful_bool <|
    .optional DeliveryType.faithful_codec (fun _ ↦ nofun) (fun _ ↦ rfl) <|
    .nil fun _ ↦ rfl

theorem AssetModuleMetadata.faithful_codec : AssetModuleMetadata.codec.Faithful :=
  Record.faithful (by decide) <|
    .required faithful_string <|
    .required DeliveryType.faithful_codec <|
    .required InstantMetadata.faithful_codec <|
    .nil fun _ ↦ rfl

theorem AssetSliceSet.faithful_codec : AssetSliceSet.codec.Faithful :=
  Record.faithful (by decide) <|
    .required AssetModuleMetadata.faithful_codec <|
    .required ArtifactDescriptor.faithful_codec.list <|
    .nil fun _ ↦ rfl

theorem DefaultTargetingValue.faithful_codec : DefaultTargetingValue.codec.Faithful :=
  Record.faithful (by decide) <|
    .required Dimension.faithful_codec <|
    .required faithful_string <|
    .nil fun _ ↦ rfl

theorem AssetModulesInfo.faithful_codec : AssetModulesInfo.codec.Faithful :=
  Record.faithful (by decide) <|
    .required faithful_int64.list <|
    .required faithful_string <|
    .nil fun _ ↦ rfl

theorem LocalTestingInfo.faithful_codec : LocalTestingInfo.codec.Faithful :=
  Record.faithful (by decide) <|
    .withDefault faithful_bool <|
    .leftOutWhen faithful_string (fun _ ↦ String.isEmpty_iff.mp) (fun _ ↦ rfl) <|
    .nil fun _ ↦ rfl

theorem TableOfContents.faithful_codec : TableOfContents.codec.Faithful :=
  Record.faithful (by decide) <|
    .required faithful_string <|
    .required Version.faithful_codec <|
    .required Variant.faithful_codec.list <|
    .required AssetSliceSet.faithful_codec.list <|
    .required DefaultTargetingValue.faithful_codec.list <|
    .required faithful_string.list <|
    .optional AssetModulesInfo.faithful_codec (fun _ ↦ nofun) (fun _ ↦ rfl) <|
    .withDefault LocalTestingInfo.faithful_codec <|
    .nil fun _ ↦ rfl

theorem BuildPlan.faithful_codec : BuildPlan.codec.Faithful :=
  Record.faithful (by decide) <|
    .required Bundle.faithful_codec <|
    .withDefault Fragment.faithful_codec.list <|
    .withDefault Fragment.faithful_codec.list <|
    .withDefault LocalTestingInfo.faithful_codec <|
    .withDefault ModuleName.faithful_codec.list <|
    .nil fun _ ↦ rfl

/-! ## Round trips -/

/-- The stored bytes tell fragments apart. -/
theorem DirectoryArchive.payload_inj {f g : Fragment} (h : payload f = payload g) : f = g :=
  Fragment.faithful_codec.roundTrips.injective (String.toByteArray_inj.mp h)

/-- **Every type that is written compactly is read back from its text.** So no two fragments are
stored in the same bytes. -/
theorem documents_roundTrip :
    Fragment.codec.RoundTrips ∧ FragmentEntry.codec.RoundTrips ∧ Category.codec.RoundTrips ∧
    GeneratedFragments.codec.RoundTrips ∧ GeneratedAssetSlices.codec.RoundTrips ∧
    Manifest.codec.RoundTrips ∧ DeliveryElement.codec.RoundTrips ∧
    VariantTargeting.codec.RoundTrips ∧ DeviceTargeting.codec.RoundTrips ∧
    VariantKey.codec.RoundTrips ∧ Bundle.codec.RoundTrips ∧ BundleModule.codec.RoundTrips ∧
    ModuleMetadata.codec.RoundTrips ∧ ModuleName.codec.RoundTrips ∧ ModuleType.codec.RoundTrips ∧
    BuildConfig.codec.RoundTrips ∧ AssetModulesConfig.codec.RoundTrips ∧
    SplitDimension.codec.RoundTrips ∧ SuffixStripping.codec.RoundTrips ∧
    Dimension.codec.RoundTrips ∧ BuildPlan.codec.RoundTrips ∧ Device.codec.RoundTrips ∧
    ArtifactDescriptor.codec.RoundTrips ∧ ArtifactKind.codec.RoundTrips ∧
    ArchivePath.codec.RoundTrips ∧ TableOfContents.codec.RoundTrips ∧ Version.codec.RoundTrips ∧
    Variant.codec.RoundTrips ∧ ArtifactSet.codec.RoundTrips ∧ AssetSliceSet.codec.RoundTrips ∧
    AssetModuleMetadata.codec.RoundTrips ∧ InstantMetadata.codec.RoundTrips ∧
    DeliveryType.codec.RoundTrips ∧ DefaultTargetingValue.codec.RoundTrips ∧
    AssetModulesInfo.codec.RoundTrips ∧ LocalTestingInfo.codec.RoundTrips ∧
    Function.Injective DirectoryArchive.payload :=
  ⟨Fragment.faithful_codec.roundTrips, FragmentEntry.faithful_codec.roundTrips,
    Category.faithful_codec.roundTrips, GeneratedFragments.faithful_codec.roundTrips,
    GeneratedAssetSlices.faithful_codec.roundTrips, Manifest.faithful_codec.roundTrips,
    DeliveryElement.faithful_codec.roundTrips, VariantTargeting.faithful_codec.roundTrips,
    DeviceTargeting.faithful_codec.roundTrips, VariantKey.faithful_codec.roundTrips,
    Bundle.faithful_codec.roundTrips, BundleModule.faithful_codec.roundTrips,
    ModuleMetadata.faithful_codec.roundTrips, ModuleName.faithful_codec.roundTrips,
    ModuleType.faithful_codec.roundTrips, BuildConfig.faithful_codec.roundTrips,
    AssetModulesConfig.faithful_codec.roundTrips, SplitDimension.faithful_codec.roundTrips,
    SuffixStripping.faithful_codec.roundTrips, Dimension.faithful_codec.roundTrips,
    BuildPlan.faithful_codec.roundTrips, Device.faithful_codec.roundTrips,
    ArtifactDescriptor.faithful_codec.roundTrips, ArtifactKind.faithful_codec.roundTrips,
    ArchivePath.faithful_codec.roundTrips, TableOfContents.faithful_codec.roundTrips,
    Version.faithful_codec.roundTrips, Variant.faithful_codec.roundTrips,
    ArtifactSet.faithful_codec.roundTrips, AssetSliceSet.faithful_codec.roundTrips,
    AssetModuleMetadata.faithful_codec.roundTrips, InstantMetadata.faithful_codec.roundTrips,
    DeliveryType.faithful_codec.roundTrips, DefaultTargetingValue.faithful_codec.roundTrips,
    AssetModulesInfo.faithful_codec.roundTrips, LocalTestingInfo.faithful_codec.roundTrips,
    fun _ _ ↦ DirectoryArchive.payload_inj⟩

end FragmentArchive
