import FragmentArchive.Proofs.Survivors

/-!
# Filtering never renumbers

A build for one device and the build for the whole fleet number the same variants alike. The two
runs need not have anything in common but the fragments, the mode and the first number: matcher,
modifier and writer may be others, and they may remember what they like. What carries over is that a
key is numbered before anything is filtered, and that what is left of its fragments is all that
becomes of it. The variants of a device are therefore a selection of those of the fleet, with gaps
where nothing was left, and two devices agree wherever both selections have a variant.
-/

namespace FragmentArchive

/-- What a variant is found by. -/
def Variant.label (v : Variant) : UInt32 × VariantTargeting := (v.number, v.targeting)

namespace Serializer

section

variable {μ ℓ π : Type} (s : Serializer μ ℓ π) (fragments : List Fragment) (mode : BuildMode)
  (device : Option Device)

/-- Fragments were written into variants: by themselves, or as the ordinary fragments of a build.
What happened meanwhile is what happened to these fragments. -/
inductive Yields : List Event → List Variant → Prop
  | alone {ω : Type} {writer : Writer ω} {schedule : (jobs : Nat) → Schedule jobs}
      {m : Memory μ ℓ π ω} {variants : List Variant}
      (h : (s.writeFragments writer schedule fragments mode device m).result = .ok variants) :
      Yields (s.writeFragments writer schedule fragments mode device m).events variants
  | inBuild {ω : Type} {writer : Writer ω} {timing : Timing} {request : BuildRequest}
      {m : Memory μ ℓ π ω} {toc : TableOfContents} (hfragments : request.fragments = fragments)
      (hmode : request.mode = mode) (hdevice : request.device = device)
      (h : (s.build writer timing request m).result = .ok toc) :
      Yields (s.fragmentPhase writer timing request m).events toc.variants

end

section

variable {μ ℓ π : Type} {s : Serializer μ ℓ π} {fragments : List Fragment} {mode : BuildMode}
  {device : Option Device} {es : List Event} {variants : List Variant}

theorem Yields.exists_tells (h : s.Yields fragments mode device es variants) :
    ∃ (schedule : (jobs : Nat) → Schedule jobs) (a : FragmentAccount),
      s.Tells schedule fragments mode device es variants a := by
  cases h with
  | @alone ω writer schedule m variants h =>
    rcases hrun : s.writeFragments writer schedule fragments mode device m with ⟨r, m', es⟩
    rw [hrun] at h
    obtain rfl : r = .ok variants := h
    exact ⟨schedule, Serializer.exists_tells hrun⟩
  | @inBuild ω writer timing request m toc hfragments hmode hdevice h =>
    subst hfragments hmode hdevice
    obtain ⟨variants, m₁, es₁, sets, m₂, es₂, hphase, -, htoc⟩ := phases_of_build h
    rw [hphase, htoc]
    exact ⟨timing.fragments, Serializer.exists_tells hphase⟩

/-- **What filtering makes of the variants.** There is one for each key that has something left, it
has the number that its key has among all keys, and it lists what is left of its key. -/
theorem Yields.exists_variant (h : s.Yields fragments mode device es variants) :
    let keys := VariantKey.ascending (fragments.map (·.key))
    let left := Fragment.survivors (mode.filtersFor device) fragments es
    (∀ f ∈ left, f ∈ fragments) ∧
    ∃ variant : VariantKey → Variant,
      variants = (keys.filter fun k ↦ k ∈ left.map (·.key)).map variant ∧
      ∀ k ∈ left.map (·.key),
        (variant k).number.toNat = s.options.firstVariantNumber.toNat +
          VariantKey.rank (fragments.map (·.key)) k ∧
        (variant k).targeting = k.targeting ∧
        (∀ name, ((variant k).descriptorsOf name).length =
          left.countP fun f ↦ f.key = k ∧ f.module = name) ∧
        ∀ set ∈ (variant k).artifactSets,
          ∃ f ∈ left, f.key = k ∧ f.module.text = set.moduleMetadata.name := by
  obtain ⟨schedule, a, ha⟩ := h.exists_tells
  have hleft : ∀ f ∈ Fragment.survivors (mode.filtersFor device) fragments es, f ∈ fragments :=
    fun f hf ↦ ha.mem_of_mem_survivors hf
  refine ⟨hleft, a.variant, ?_, fun k hk ↦ ?_⟩
  · rw [ha.variants, ha.kept_eq, ha.keys_eq]
  · have hkey : k ∈ a.keys := by
      obtain ⟨f, hf, rfl⟩ := List.mem_map.mp hk
      exact (ha.mem_map_key _).mpr (List.mem_map_of_mem (hleft f hf))
    have hkept : k ∈ a.kept := by
      rw [ha.kept_eq]
      exact List.mem_filter.mpr ⟨hkey, decide_eq_true hk⟩
    obtain ⟨hnumber, htargeting, hlists⟩ := ha.variant k hkept
    refine ⟨?_, htargeting, ha.length_descriptorsOf hkept, fun set hset ↦ ?_⟩
    · rw [hnumber, ha.toNat_number hkey]
    · obtain ⟨modules, -, hnames, -, hsets⟩ := hlists
      rw [hsets] at hset
      obtain ⟨module, hmodule, rfl⟩ := List.mem_map.mp hset
      have hname := ha.exists_survivor_of_module hkey
        ((hnames _).mp (List.mem_map_of_mem hmodule))
      obtain ⟨f, hf, hfkey, hfmodule⟩ := hname
      exact ⟨f, hf, hfkey, congrArg ModuleName.text hfmodule⟩

end

/-- **Filtering never renumbers.** Of the variants for the whole fleet, those for a device are the
ones whose keys have fragments that the device accepts; each of these has kept its number and its
targeting, and lists for every module as many artifacts as there are such fragments. So two devices
agree on the number of every variant that both of them have. -/
theorem filtering_never_renumbers {μ₀ ℓ₀ π₀ μ₁ ℓ₁ π₁ μ₂ ℓ₂ π₂ : Type} {s₀ : Serializer μ₀ ℓ₀ π₀}
    {s₁ : Serializer μ₁ ℓ₁ π₁} {s₂ : Serializer μ₂ ℓ₂ π₂} {fragments : List Fragment}
    {mode : BuildMode} {device₁ device₂ : Option Device} {es₀ es₁ es₂ : List Event}
    {V₀ V₁ V₂ : List Variant}
    (hfirst₁ : s₁.options.firstVariantNumber = s₀.options.firstVariantNumber)
    (hfirst₂ : s₂.options.firstVariantNumber = s₀.options.firstVariantNumber)
    (h₀ : s₀.Yields fragments mode none es₀ V₀) (h₁ : s₁.Yields fragments mode device₁ es₁ V₁)
    (h₂ : s₂.Yields fragments mode device₂ es₂ V₂) :
    let keys := VariantKey.ascending (fragments.map (·.key))
    let accepted₁ := Fragment.survivors (mode.filtersFor device₁) fragments es₁
    let accepted₂ := Fragment.survivors (mode.filtersFor device₂) fragments es₂
    (∀ f ∈ accepted₁, f ∈ fragments) ∧
    ∃ variant₀ variant₁ variant₂ : VariantKey → Variant,
      V₀ = keys.map variant₀ ∧
      V₁ = (keys.filter fun k ↦ k ∈ accepted₁.map (·.key)).map variant₁ ∧
      V₂ = (keys.filter fun k ↦ k ∈ accepted₂.map (·.key)).map variant₂ ∧
      V₁.map (·.label) =
        ((keys.filter fun k ↦ k ∈ accepted₁.map (·.key)).map variant₀).map (·.label) ∧
      (V₁.map (·.label)).Sublist (V₀.map (·.label)) ∧
      (∀ k ∈ accepted₁.map (·.key),
        (∀ name, ((variant₁ k).descriptorsOf name).length =
          accepted₁.countP fun f ↦ f.key = k ∧ f.module = name) ∧
        ∀ set ∈ (variant₁ k).artifactSets,
          ∃ f ∈ accepted₁, f.key = k ∧ f.module.text = set.moduleMetadata.name) ∧
      ∀ k ∈ accepted₁.map (·.key), k ∈ accepted₂.map (·.key) →
        (variant₁ k).number = (variant₂ k).number := by
  intro keys accepted₁ accepted₂
  obtain ⟨-, variant₀, hV₀, hvariant₀⟩ := h₀.exists_variant
  obtain ⟨hleft₁, variant₁, hV₁, hvariant₁⟩ := h₁.exists_variant
  obtain ⟨hleft₂, variant₂, hV₂, hvariant₂⟩ := h₂.exists_variant
  have hunfiltered : Fragment.survivors (mode.filtersFor none) fragments es₀ = fragments := rfl
  rw [hunfiltered] at hV₀ hvariant₀
  -- without a device every key has a variant
  have hkeys : keys.filter (fun k ↦ k ∈ fragments.map (·.key)) = keys :=
    List.filter_eq_self.mpr fun k hk ↦ decide_eq_true (VariantKey.mem_ascending.mp hk)
  rw [hkeys] at hV₀
  have hmem₁ : ∀ k ∈ accepted₁.map (·.key), k ∈ fragments.map (·.key) := by
    intro k hk
    obtain ⟨f, hf, rfl⟩ := List.mem_map.mp hk
    exact List.mem_map_of_mem (hleft₁ f hf)
  have hlabel : ∀ k ∈ accepted₁.map (·.key), (variant₁ k).label = (variant₀ k).label := by
    intro k hk
    obtain ⟨hnumber₁, htargeting₁, -⟩ := hvariant₁ k hk
    obtain ⟨hnumber₀, htargeting₀, -⟩ := hvariant₀ k (hmem₁ k hk)
    refine Prod.ext (UInt32.toNat_inj.mp ?_) (htargeting₁.trans htargeting₀.symm)
    rw [Variant.label, Variant.label, hnumber₁, hnumber₀, hfirst₁]
  have hlabels : V₁.map (·.label) =
      ((keys.filter fun k ↦ k ∈ accepted₁.map (·.key)).map variant₀).map (·.label) := by
    rw [hV₁, List.map_map, List.map_map]
    exact List.map_congr_left fun k hk ↦ hlabel k (of_decide_eq_true (List.mem_filter.mp hk).2)
  refine ⟨hleft₁, variant₀, variant₁, variant₂, hV₀, hV₁, hV₂, hlabels, ?_, fun k hk ↦ ?_,
    fun k hk₁ hk₂ ↦ ?_⟩
  · rw [hlabels, hV₀]
    exact (List.filter_sublist.map variant₀).map _
  · obtain ⟨-, -, hlength, hsets⟩ := hvariant₁ k hk
    exact ⟨hlength, hsets⟩
  · obtain ⟨hnumber₁, -⟩ := hvariant₁ k hk₁
    obtain ⟨hnumber₂, -⟩ := hvariant₂ k hk₂
    refine UInt32.toNat_inj.mp ?_
    rw [hnumber₁, hnumber₂, hfirst₁, hfirst₂]

/-- Of three variants, one device misses the second and another one the first; the third has the
same number for both. -/
theorem gaps_of_two_devices :
    let f : Fragment := { Fragment.untargeted .base .split (.ofPackage "p") with isMaster := true }
    let fragments : List Fragment := [{ f with variantTargeting := .sdk 30 },
      { f with variantTargeting := .sdk 21 }, { f with variantTargeting := .sdk 24 }]
    let fleet := plain { Bundle.ofPackage "p" with
      modules := [.independent .base .feature (.ofPackage "p")] }
    let missing (sdk : UInt32) : Matcher Unit :=
      ⟨fun f _ ↦ .silent (.ok (f.variantTargeting ≠ .sdk sdk))⟩
    let write (matcher : Matcher Unit) (device : Option Device) :=
      { fleet with matcher }.writeFragments Writer.echo .inOrder fragments .default device
        ⟨(), (), ∅, ()⟩
    ∃ V₀ V₁ V₂, (write .always none).result = .ok V₀ ∧
      (write (missing 24) (some default)).result = .ok V₁ ∧
      (write (missing 21) (some default)).result = .ok V₂ ∧ V₀.map (·.number) = [0, 1, 2] ∧
      V₁.map (·.number) = [0, 2] ∧ V₂.map (·.number) = [1, 2] ∧
      (V₁.map (·.label)).Sublist (V₀.map (·.label)) := by
  intro f fragments fleet missing write
  have hrun : ∀ (matcher : Matcher Unit) (device : Option Device) (ns : List UInt32),
      (write matcher device).result.toOption.map (fun V ↦ V.map (·.number)) = some ns →
        ∃ V, (write matcher device).result = .ok V ∧ V.map (·.number) = ns ∧
          { fleet with matcher }.Yields fragments .default device
            (write matcher device).events V := by
    intro matcher device ns h
    obtain ⟨V, hV, hns⟩ := Option.map_eq_some_iff.mp h
    have hok := toOption_eq_some_iff.mp hV
    exact ⟨V, hok, hns, .alone hok⟩
  obtain ⟨V₀, h₀, hns₀, hyields₀⟩ := hrun .always none [0, 1, 2] (by decide +kernel)
  obtain ⟨V₁, h₁, hns₁, hyields₁⟩ := hrun (missing 24) (some default) [0, 2]
    (by decide +kernel)
  obtain ⟨V₂, h₂, hns₂, hyields₂⟩ := hrun (missing 21) (some default) [1, 2]
    (by decide +kernel)
  obtain ⟨-, variant₀, variant₁, variant₂, -, -, -, -, hlabels, -⟩ :=
    filtering_never_renumbers (by rfl) (by rfl) hyields₀ hyields₁ hyields₂
  exact ⟨V₀, V₁, V₂, h₀, h₁, h₂, hns₀, hns₁, hns₂, hlabels⟩

end Serializer

end FragmentArchive
