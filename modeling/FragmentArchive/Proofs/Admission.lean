import FragmentArchive.Proofs.CommitPoint
import FragmentArchive.Proofs.Survivors

/-!
# What a build mode lets through

A mode is checked by looking for the categories that it rules out. Three of the modes are meant to
write fragments of one category only, and for them the list of the others has to be complete. It
lacks one entry: asset slices are ruled out by no mode, so a slice among the ordinary fragments is
let through and written like the rest.

Which categories are written can be told from the fragments that survive filtering, because all
canonical forms of a key are of the category of the key.
-/

namespace FragmentArchive

/-! ## The check -/

theorem Fragment.anyOf_eq_true_iff {category : Category} {fragments : List Fragment} :
    anyOf category fragments = true ↔ ∃ f ∈ fragments, f.category = category := by
  simp only [anyOf, List.any_eq_true, decide_eq_true_eq]

namespace BuildMode

variable {mode : BuildMode} {fragments : List Fragment}

/-- What is reported is the first category, in the order of the mode, that should not be there. -/
theorem check_eq_error_iff {e : Error} : mode.check fragments = .error e ↔
    ∃ category, mode.forbidden.find? (Fragment.anyOf · fragments) = some category ∧
      e = .internal (.forbidden mode category) := by
  rw [check]
  cases mode.forbidden.find? (Fragment.anyOf · fragments) with
  | none => simp
  | some category =>
    simp only [Except.error.injEq, Option.some.injEq, exists_eq_left', eq_comm]

theorem check_eq_ok_iff :
    mode.check fragments = .ok () ↔ ∀ f ∈ fragments, f.category ∉ mode.forbidden := by
  have hcheck : mode.check fragments = .ok () ↔
      mode.forbidden.find? (Fragment.anyOf · fragments) = none := by
    rw [check]
    cases mode.forbidden.find? (Fragment.anyOf · fragments) <;> simp
  rw [hcheck, List.find?_eq_none]
  constructor
  · intro h f hf hmem
    exact h _ hmem (Fragment.anyOf_eq_true_iff.mpr ⟨f, hf, rfl⟩)
  · intro h category hmem hany
    obtain ⟨f, hf, rfl⟩ := Fragment.anyOf_eq_true_iff.mp hany
    exact h f hf hmem

/-- The one category that a mode is for, if there is one. -/
def own? : BuildMode → Option Category
  | universal => some .standalone
  | system => some .system
  | archive => some .hibernation
  | default | persistent | instant => none

/-- The one operation for the fragments of a mode's own category, if there is one. In system mode
there are two. -/
def ownKind? : BuildMode → Option ArtifactKind
  | universal => some .universal
  | archive => some .hibernated
  | default | system | persistent | instant => none

/-- A mode that is for one category rules out all others but asset slices. -/
theorem not_mem_forbidden_iff {own category : Category} (h : mode.own? = some own) :
    category ∉ mode.forbidden ↔ category = own ∨ category = .assetSlice := by
  cases mode <;> cases h <;> cases category <;> decide

end BuildMode

/-- The operation for a fragment that such a mode lets through. -/
theorem WriteCall.kind_forFragment {mode : BuildMode} {kind : ArtifactKind} {f : Fragment}
    {path : ArchivePath} (hkind : mode.ownKind? = some kind) (h : f.category ∉ mode.forbidden) :
    (forFragment mode f path).kind = if f.category = .assetSlice then .assetSlice else kind := by
  rw [forFragment]
  cases mode <;> cases hkind <;> cases hcategory : f.category <;> first
    | rfl
    | exact absurd (by rw [hcategory]; decide) h

/-! ## Runs -/

namespace Serializer

variable {μ ℓ π ω : Type} {s : Serializer μ ℓ π} {writer : Writer ω}
  {schedule : (jobs : Nat) → Schedule jobs} {fragments : List Fragment} {mode : BuildMode}
  {device : Option Device} {variants : List Variant} {m m' : Memory μ ℓ π ω} {es : List Event}

/-- What is written was let through. -/
theorem check_of_writeFragments
    (h : s.writeFragments writer schedule fragments mode device m = ⟨.ok variants, m', es⟩) :
    mode.check fragments = .ok () := by
  obtain ⟨_, _, _, _, hcheck, -⟩ := Run.bind_ok_iff.mp h
  exact (Run.ofExcept_ok_iff.mp hcheck).1

/-- The forms that are written are of the categories of the fragments that survive. -/
theorem Tells.exists_category_iff {a : FragmentAccount}
    (h : s.Tells schedule fragments mode device es variants a) {category : Category} :
    (∃ c ∈ a.distinct, c.category = category) ↔
      ∃ f ∈ Fragment.survivors (mode.filtersFor device) fragments es, f.category = category := by
  have hform : ∀ k ∈ a.keys, ∀ c ∈ a.canonical k, c.category = k.category := by
    intro k hk c hc
    obtain ⟨f, hf, manifest, rfl⟩ := (h.canonical k hk).exists_eq hc
    exact congrArg VariantKey.category (of_decide_eq_true (List.mem_filter.mp hf).2)
  have hkept : ∀ k, k ∈ a.kept ↔ k ∈ a.keys ∧
      k ∈ (Fragment.survivors (mode.filtersFor device) fragments es).map (·.key) := by
    intro k
    rw [h.kept_eq, List.mem_filter, decide_eq_true_iff]
  constructor
  · rintro ⟨c, hc, rfl⟩
    obtain ⟨k, hk, hc⟩ := List.mem_flatMap.mp (List.mem_eraseDups.mp hc)
    have hkey : k ∈ a.kept := List.mem_filter.mpr ⟨hk, by
      rw [Bool.not_eq_true', List.isEmpty_eq_false_iff_exists_mem]
      exact ⟨c, hc⟩⟩
    obtain ⟨f, hf, rfl⟩ := List.mem_map.mp ((hkept k).mp hkey).2
    exact ⟨f, hf, (hform _ hk c hc).symm⟩
  · rintro ⟨f, hf, rfl⟩
    have hk : f.key ∈ a.keys := (h.mem_keys _).mpr ⟨f, h.mem_of_mem_survivors hf, rfl⟩
    have hkey := (List.mem_filter.mp ((hkept f.key).mpr ⟨hk, List.mem_map_of_mem hf⟩)).2
    rw [Bool.not_eq_true', List.isEmpty_eq_false_iff_exists_mem] at hkey
    obtain ⟨c, hc⟩ := hkey
    exact ⟨c, List.mem_eraseDups.mpr (List.mem_flatMap.mpr ⟨_, hk, hc⟩), hform _ hk c hc⟩

/-- **What the modes for one category let through.** The check admits fragments of the category of
the mode, and asset slices. So in universal and in archive mode a build that succeeds has two
operations for its ordinary fragments, that of the mode and the one for asset slices; and it needs
only the first of them exactly if no asset slice is among the fragments that survive filtering. -/
theorem exclusive_modes_admit_slices :
    (∀ (mode : BuildMode) (own : Category), mode.own? = some own → ∀ fragments : List Fragment,
      (mode.check fragments = .ok () ↔
        ∀ f ∈ fragments, f.category = own ∨ f.category = .assetSlice)) ∧
    ∀ (s : Serializer μ ℓ π) (writer : Writer ω) (timing : Timing) (request : BuildRequest)
      (m : Memory μ ℓ π ω) (kind : ArtifactKind) (toc : TableOfContents),
      request.mode.ownKind? = some kind → (s.build writer timing request m).result = .ok toc →
        let es := (s.fragmentPhase writer timing request m).events
        (∀ w ∈ Event.writes es, w.1.kind = kind ∨ w.1.kind = .assetSlice) ∧
          ((∀ w ∈ Event.writes es, w.1.kind = kind) ↔
            ∀ f ∈ Fragment.survivors (request.mode.filtersFor request.device) request.fragments es,
              f.category ≠ .assetSlice) := by
  refine ⟨fun mode own hown fragments ↦ ?_, ?_⟩
  · rw [BuildMode.check_eq_ok_iff]
    exact forall₂_congr fun f _ ↦ BuildMode.not_mem_forbidden_iff hown
  intro s writer timing request m kind toc hkind hbuild es
  obtain ⟨variants, m₁, es₁, _, _, _, hphase, -, -⟩ := phases_of_build hbuild
  obtain rfl : es = es₁ := congrArg Outcome.events hphase
  have hcheck := BuildMode.check_eq_ok_iff.mp (check_of_writeFragments hphase)
  obtain ⟨a, ha⟩ := exists_tells hphase
  have hadmitted : ∀ c ∈ a.distinct, c.category ∉ request.mode.forbidden := by
    intro c hc
    obtain ⟨f, hf, hcategory⟩ := ha.exists_category_iff.mp ⟨c, hc, rfl⟩
    rw [← hcategory]
    exact hcheck f (ha.mem_of_mem_survivors hf)
  have hne : kind ≠ .assetSlice := by
    revert hkind
    cases request.mode <;> rintro ⟨⟩ <;> decide
  have hwrite : ∀ w, w ∈ Event.writes es ↔ ∃ c ∈ a.distinct,
      (.forFragment request.mode c (a.path c), .ok (a.answer c)) = w := by
    intro w
    rw [ha.writes, List.mem_map]
    simp only [(Schedule.order_perm a.distinct _).mem_iff]
  constructor
  · intro w hw
    obtain ⟨c, hc, rfl⟩ := (hwrite w).mp hw
    rw [WriteCall.kind_forFragment hkind (hadmitted c hc)]
    split
    · exact .inr rfl
    · exact .inl rfl
  · constructor
    · intro hall f hf hslice
      obtain ⟨c, hc, hcategory⟩ := ha.exists_category_iff.mpr ⟨f, hf, hslice⟩
      have hkind' := hall _ ((hwrite _).mpr ⟨c, hc, rfl⟩)
      rw [WriteCall.kind_forFragment hkind (hadmitted c hc), if_pos hcategory] at hkind'
      exact hne hkind'.symm
    · intro hnone w hw
      obtain ⟨c, hc, rfl⟩ := (hwrite w).mp hw
      rw [WriteCall.kind_forFragment hkind (hadmitted c hc), if_neg]
      intro hslice
      obtain ⟨f, hf, hcategory⟩ := ha.exists_category_iff.mp ⟨c, hc, hslice⟩
      exact hnone f hf hcategory

/-- An asset slice among the ordinary fragments is let through in universal mode, and written as
one. -/
theorem slice_passes_universal_mode :
    let f : Fragment := .untargeted .base .assetSlice (.ofPackage "p")
    let s := plain { Bundle.ofPackage "p" with
      modules := [.independent .base .feature (.ofPackage "p")] }
    let request : BuildRequest := ⟨[f], [], .universal, none, default, []⟩
    let m : Memory Unit Unit Naming Unit := ⟨(), (), ∅, ()⟩
    BuildMode.universal.check [f] = .ok () ∧
      (∃ toc, (s.build Writer.echo .inOrder request m).result = .ok toc) ∧
      ¬∀ w ∈ Event.writes (s.fragmentPhase Writer.echo .inOrder request m).events,
        w.1.kind = .universal := by
  intro f s request m
  obtain ⟨toc, htoc⟩ : ∃ toc, (s.build Writer.echo .inOrder request m).result = .ok toc := ⟨_, rfl⟩
  obtain ⟨hadmits, hwrites⟩ :=
    exclusive_modes_admit_slices (μ := Unit) (ℓ := Unit) (π := Naming) (ω := Unit)
  refine ⟨(hadmits .universal .standalone rfl [f]).mpr fun g hg ↦ .inr ?_, ⟨toc, htoc⟩,
    fun hall ↦ ?_⟩
  · rw [List.mem_singleton.mp hg]
    rfl
  · have hnone := (hwrites s Writer.echo .inOrder request m .universal toc rfl htoc).2.mp hall
    exact hnone f List.mem_cons_self rfl

end Serializer

end FragmentArchive
