import FragmentArchive.Proofs.ByteOrder
import FragmentArchive.Proofs.Survivors

/-!
# Well-formed tables of contents

What a consumer of an archive relies on when it reads the table: numbers that increase and stay
within the range of the keys, variants and sets that are never empty, modules that are described
once and as the bundle describes them. None of it is checked when the table is put together. It
follows from how the parts come about, and they come about in two ways. The artifacts of a variant
are sorted by their modules; those of the asset modules are put behind each other in the order of
the slices.
-/

open Std

namespace FragmentArchive

/-! ## What is well formed -/

/-- The artifact sets of a variant are well formed. -/
structure Variant.WellFormed (bundle : Bundle) (v : Variant) : Prop where
  sets_ne_nil : v.artifactSets ≠ []
  /-- The names of the modules increase, byte by byte. -/
  ascending : (v.artifactSets.map fun set ↦ utf8Bytes set.moduleMetadata.name).Pairwise (· < ·)
  descriptors_ne_nil : ∀ set ∈ v.artifactSets, set.descriptors ≠ []
  /-- A set is described by the first module of the bundle that has its name. -/
  metadata : ∀ set ∈ v.artifactSets, ∃ module : BundleModule,
    bundle.modules.find? (·.name.text = set.moduleMetadata.name) = some module ∧
      set.moduleMetadata = module.metadata

/-- A table of contents is well formed, for variants that are numbered from a first number on and
slices that survived. -/
structure TableOfContents.WellFormed (bundle : Bundle) (first : UInt32) (keys : List VariantKey)
    (slices : List Fragment) (toc : TableOfContents) : Prop where
  increasing : (toc.variants.map (·.number)).Pairwise (· < ·)
  range : ∀ v ∈ toc.variants, first.toNat ≤ v.number.toNat ∧
    v.number.toNat < first.toNat + keys.eraseDups.length
  variant : ∀ v ∈ toc.variants, v.WellFormed bundle
  /-- There is one set for every module with slices, in the order of their first slices. -/
  slice_modules : toc.assetSliceSets.map (·.metadata.name) =
    (slices.map (·.module.text)).eraseDups
  slice_modules_nodup : (toc.assetSliceSets.map (·.metadata.name)).Nodup
  slice_descriptors_ne_nil : ∀ set ∈ toc.assetSliceSets, set.descriptors ≠ []
  /-- A set is described by the first module of the bundle that has its name. -/
  slice_metadata : ∀ set ∈ toc.assetSliceSets, ∃ module : BundleModule,
    bundle.modules.find? (·.name.text = set.metadata.name) = some module ∧
      set.metadata = .ofModule module ∧
      (set.metadata.instantMetadata.deliveryType.isSome ↔ module.isInstant)
  /-- The sets together have as many artifacts as there are slices. -/
  slice_descriptors : toc.sliceArtifacts.length = slices.length

/-! ## Modules -/

theorem Bundle.find?_text (bundle : Bundle) (name : ModuleName) :
    bundle.modules.find? (·.name.text = name.text) = bundle.module? name := by
  have hname : (fun module : BundleModule ↦ decide (module.name.text = name.text)) =
      fun module ↦ decide (module.name = name) := by
    funext module
    cases module.name
    cases name
    simp
  rw [Bundle.module?, hname]

/-- An instant delivery is given for instant modules only. -/
theorem AssetModuleMetadata.isSome_deliveryType_ofModule (module : BundleModule) :
    (ofModule module).instantMetadata.deliveryType.isSome ↔ module.isInstant := by
  rw [ofModule]
  cases module.isInstant <;> simp

/-! ## Variants -/

/-- A variant that lists some artifacts is well formed. -/
theorem Variant.Lists.wellFormed {bundle : Bundle} {answer : Fragment → ArtifactDescriptor}
    {cs : List Fragment} {v : Variant} (h : v.Lists bundle answer cs) (hcs : cs ≠ []) :
    v.WellFormed bundle := by
  obtain ⟨modules, hsorted, hmem, hmodule, hsets⟩ := h
  have hset : ∀ set ∈ v.artifactSets, ∃ module ∈ modules, set =
      ⟨module.metadata, (cs.filter (·.module = module.name)).map answer⟩ := by
    intro set hset
    rw [hsets] at hset
    obtain ⟨module, hmodule, rfl⟩ := List.mem_map.mp hset
    exact ⟨module, hmodule, rfl⟩
  constructor
  case sets_ne_nil =>
    obtain ⟨c, cs', rfl⟩ := List.exists_cons_of_ne_nil hcs
    obtain ⟨module, hmodule, -⟩ :=
      List.mem_map.mp ((hmem c.module).mpr ⟨c, List.mem_cons_self, rfl⟩)
    rw [hsets]
    exact List.ne_nil_of_mem (List.mem_map_of_mem hmodule)
  case ascending =>
    rw [hsets, List.map_map, List.pairwise_map]
    rw [List.pairwise_map] at hsorted
    exact hsorted.imp utf8Bytes_lt
  case descriptors_ne_nil =>
    intro set hmem'
    obtain ⟨module, hmodule, rfl⟩ := hset set hmem'
    obtain ⟨c, hc, hcm⟩ := (hmem module.name).mp (List.mem_map_of_mem hmodule)
    exact List.ne_nil_of_mem (List.mem_map_of_mem (List.mem_filter.mpr ⟨hc, decide_eq_true hcm⟩))
  case metadata =>
    intro set hmem'
    obtain ⟨module, hin, rfl⟩ := hset set hmem'
    exact ⟨module, (bundle.find?_text module.name).trans (hmodule module hin), rfl⟩

namespace Serializer

variable {μ ℓ π ω : Type} {s : Serializer μ ℓ π} {schedule : (jobs : Nat) → Schedule jobs}
  {fragments slices : List Fragment} {mode : BuildMode} {device : Option Device} {es : List Event}
  {variants : List Variant} {sets : List AssetSliceSet}

theorem Tells.wellFormed {a : FragmentAccount}
    (h : s.Tells schedule fragments mode device es variants a) {v : Variant} (hv : v ∈ variants) :
    v.WellFormed s.bundle := by
  rw [h.variants] at hv
  obtain ⟨k, hk, rfl⟩ := List.mem_map.mp hv
  refine (h.variant k hk).2.2.wellFormed fun hnil ↦ ?_
  have hkept := (List.mem_filter.mp hk).2
  rw [hnil] at hkept
  cases hkept

/-! ## Asset slices -/

variable {b : SliceAccount}

/-- There is a set for every module with slices that are kept. -/
theorem TellsSlices.map_name (h : s.TellsSlices schedule slices mode device es sets b) :
    sets.map (·.metadata.name) = (b.kept.map (·.module.text)).eraseDups := by
  obtain ⟨modules, hnames, -, rfl⟩ := h.sets
  have hinjective : Function.Injective ModuleName.text := fun _ _ ↦ ModuleName.text_inj.mp
  calc (modules.map _).map (fun set : AssetSliceSet ↦ set.metadata.name)
      = (modules.map (·.name)).map ModuleName.text := by
        rw [List.map_map, List.map_map]
        rfl
    _ = ((b.kept.map (·.module)).map ModuleName.text).eraseDups := by
        rw [hnames, eraseDups_map hinjective]
    _ = (b.kept.map (·.module.text)).eraseDups := by
        rw [List.map_map]
        rfl

theorem TellsSlices.descriptors_ne_nil (h : s.TellsSlices schedule slices mode device es sets b)
    {set : AssetSliceSet} (hset : set ∈ sets) : set.descriptors ≠ [] := by
  obtain ⟨modules, hnames, -, rfl⟩ := h.sets
  obtain ⟨module, hmodule, rfl⟩ := List.mem_map.mp hset
  have hname := List.mem_map_of_mem (f := BundleModule.name) hmodule
  rw [hnames, List.mem_eraseDups, SliceAccount.kept, List.map_map, List.mem_map] at hname
  obtain ⟨stored, hstored, heq⟩ := hname
  have hfilter : stored ∈ b.stored.filter (·.1.1.module = module.name) :=
    List.mem_filter.mpr ⟨hstored, decide_eq_true heq⟩
  exact List.ne_nil_of_mem (List.mem_map_of_mem hfilter)

theorem TellsSlices.exists_module (h : s.TellsSlices schedule slices mode device es sets b)
    {set : AssetSliceSet} (hset : set ∈ sets) :
    ∃ module : BundleModule, s.bundle.module? module.name = some module ∧
      set.metadata = .ofModule module := by
  obtain ⟨modules, -, hmodules, rfl⟩ := h.sets
  obtain ⟨module, hmodule, rfl⟩ := List.mem_map.mp hset
  exact ⟨module, hmodules module hmodule, rfl⟩

/-- The slices that are kept survived. -/
theorem TellsSlices.kept_eq (h : s.TellsSlices schedule slices mode device es sets b) :
    b.kept = Fragment.survivors device.isSome slices es := by
  rw [← DeviceFilter.isSome_of_slices h.filter_eq, ← Fragment.survivors_questions]
  exact h.kept.eq_survivors

theorem TellsSlices.length_descriptors
    (h : s.TellsSlices schedule slices mode device es sets b) :
    (sets.flatMap (·.descriptors)).length = b.kept.length := by
  rw [h.descriptors_perm.length_eq, SliceAccount.kept, List.length_map, List.length_map]

/-! ## Builds -/

/-- **Every table of contents that a build results in is well formed.** -/
theorem build_wellFormed (s : Serializer μ ℓ π) (writer : Writer ω) (timing : Timing)
    (request : BuildRequest) (m : Memory μ ℓ π ω) (toc : TableOfContents)
    (h : (s.build writer timing request m).result = .ok toc) :
    toc.WellFormed s.bundle s.options.firstVariantNumber (request.fragments.map (·.key))
      (Fragment.survivors request.device.isSome request.assetSlices
        (s.slicePhase writer timing request m).events) := by
  obtain ⟨variants, m₁, es₁, sets, m₂, es₂, hfragments, hslices, rfl⟩ := phases_of_build h
  obtain ⟨a, ha⟩ := exists_tells hfragments
  obtain ⟨b, hb⟩ := exists_tellsSlices hslices
  rw [hslices, ← hb.kept_eq]
  constructor
  case increasing => exact ha.numbers_pairwise
  case range =>
    intro v hv
    obtain ⟨k, hk, rfl⟩ := List.mem_map.mp (ha.variants ▸ hv)
    have hkey := (List.mem_filter.mp hk).1
    have hrank := VariantKey.exists_rank_iff.mp ⟨k, (ha.mem_map_key k).mp hkey, rfl⟩
    rw [(ha.variant k hk).1, ha.toNat_number hkey]
    omega
  case variant => exact fun v hv ↦ ha.wellFormed hv
  case slice_modules => exact hb.map_name
  case slice_modules_nodup =>
    change (sets.map (·.metadata.name)).Nodup
    rw [hb.map_name]
    exact nodup_eraseDups _
  case slice_descriptors_ne_nil => exact fun set hset ↦ hb.descriptors_ne_nil hset
  case slice_metadata =>
    intro set hset
    obtain ⟨module, hmodule, hmetadata⟩ := hb.exists_module hset
    refine ⟨module, ?_, hmetadata, ?_⟩
    · rw [hmetadata, ← hmodule]
      exact s.bundle.find?_text module.name
    · rw [hmetadata]
      exact AssetModuleMetadata.isSome_deliveryType_ofModule module
  case slice_descriptors => exact hb.length_descriptors

/-- Two modules of one name, of which the first one is instant, with three slices for them and one
for another module. -/
theorem build_wellFormed_with_two_modules_of_one_name :
    let textures : ModuleName := ⟨"textures"⟩
    let instant : Manifest := { Manifest.ofPackage "p" with instant := true }
    let s := plain { Bundle.ofPackage "p" with
      modules := [.independent .base .feature (.ofPackage "p"),
        .independent textures .asset instant, .independent textures .asset (.ofPackage "p"),
        .independent ⟨"sounds"⟩ .asset (.ofPackage "p")] }
    let slice (name : ModuleName) := Fragment.untargeted name .assetSlice (.ofPackage "p")
    let request : BuildRequest := ⟨[Fragment.untargeted .base .split (.ofPackage "p")],
      [slice textures, slice ⟨"sounds"⟩, slice textures, slice textures], .default, none, default,
      []⟩
    let out := s.build Writer.echo .inOrder request ⟨(), (), ∅, ()⟩
    ∃ toc, out.result = .ok toc ∧
      toc.assetSliceSets.map (fun set ↦ (set.metadata.name,
        set.metadata.instantMetadata.deliveryType, set.descriptors.length)) =
          [("textures", some .onDemand, 3), ("sounds", none, 1)] ∧
      toc.WellFormed s.bundle 0 (request.fragments.map (·.key)) request.assetSlices := by
  intro textures instant s slice request out
  have hsets : out.result.toOption.map (fun toc ↦ toc.assetSliceSets.map fun set ↦
      (set.metadata.name, set.metadata.instantMetadata.deliveryType, set.descriptors.length)) =
        some [("textures", some .onDemand, 3), ("sounds", none, 1)] := by decide +kernel
  obtain ⟨toc, htoc, hsets⟩ := Option.map_eq_some_iff.mp hsets
  have h := toOption_eq_some_iff.mp htoc
  exact ⟨toc, h, hsets, build_wellFormed s Writer.echo .inOrder request ⟨(), (), ∅, ()⟩ toc h⟩

end Serializer

end FragmentArchive
