import FragmentArchive.Proofs.FinishedArchive

/-!
# One path for each artifact

A table of contents refers to its artifacts by paths, and several of its entries may have the same
path, since variants share canonical forms. That they share nothing else is not checked anywhere in
a build. It is the directory archive that sees to it: it stores under no path twice, and refuses
what would be a second artifact. So in a table that came of a build with such an archive, equal
paths are a sign of equal forms, and counting paths is counting forms.

The paths of a table are those that the archive was asked for. Whether they are the names that the
assigner gave is of no importance, and so is the order of storing; in particular universal builds,
where every standalone fragment has the same path, are no exception, because only one such form can
be stored.
-/

namespace FragmentArchive

/-- What differs in its values under a function is counted by counting the values. -/
theorem length_eraseDups_eq {α : Type} [BEq α] [LawfulBEq α] {as bs : List α} (hbs : bs.Nodup)
    (h : ∀ a, a ∈ as ↔ a ∈ bs) : as.eraseDups.length = bs.length := by
  have hperm : as.eraseDups.Perm bs :=
    (List.perm_ext_iff_of_nodup (nodup_eraseDups as) hbs).mpr fun a ↦ List.mem_eraseDups.trans (h a)
  exact hperm.length_eq

namespace Serializer

variable {μ ℓ π : Type} {s : Serializer μ ℓ π} {timing : Timing} {request : BuildRequest}
  {m : Memory μ ℓ π DirectoryArchive} {toc : TableOfContents}

/-- **What a finished archive was asked for.** In a build that succeeds every canonical form and
every slice that is kept is stored, and no two of them under the same path. -/
theorem exists_nodup_paths
    (hbuild : (s.build DirectoryArchive.writer timing request m).result = .ok toc) :
    ∃ a b,
      s.Tells timing.fragments request.fragments request.mode request.device
        (s.fragmentPhase DirectoryArchive.writer timing request m).events toc.variants a ∧
      s.TellsSlices timing.assetSlices request.assetSlices request.mode request.device
        (s.slicePhase DirectoryArchive.writer timing request m).events toc.assetSliceSets b ∧
      (Event.writes (s.build DirectoryArchive.writer timing request m).events).length =
        a.distinct.length + b.stored.length ∧
      ((a.distinct.map fun c ↦ (a.answer c).path) ++ b.stored.map (·.2.path)).Nodup := by
  obtain ⟨variants, m₁, es₁, sets, m₂, es₂, hfragments, hslices, rfl⟩ := phases_of_build hbuild
  obtain ⟨a, ha⟩ := exists_tells hfragments
  obtain ⟨b, hb⟩ := exists_tellsSlices hslices
  have hwrites := writes_of_phases hfragments hslices
  have horder := Schedule.order_perm a.distinct (timing.fragments a.distinct.length)
  have horder' := Schedule.order_perm b.stored (timing.assetSlices b.stored.length)
  rw [hfragments, hslices]
  refine ⟨a, b, ha, hb, ?_, ?_⟩
  · rw [hwrites, ha.writes, hb.writes, List.length_append, List.length_map, List.length_map,
      horder.length_eq, horder'.length_eq]
  · -- the archive saw the requests in the order of the schedules
    let ledger : DirectoryArchive.Ledger :=
      ((timing.fragments a.distinct.length).order a.distinct).map
          (fun c ↦ (.forFragment request.mode c (a.path c), a.answer c)) ++
        ((timing.assetSlices b.stored.length).order b.stored).map
          fun p ↦ (.forFragment request.mode p.1.1 p.1.2, p.2)
    have hstores : m.archive.Stores ledger m₂.archive := by
      have hanswers := (replays_phases hfragments hslices).archive
      rw [Event.writes_append, ha.writes, hb.writes] at hanswers
      rw [DirectoryArchive.Stores, List.map_append, List.map_map, List.map_map]
      exact hanswers
    have hnodup := hstores.nodup_paths
    rw [List.map_append, List.map_map, List.map_map] at hnodup
    exact ((horder.map _).append (horder'.map _)).nodup_iff.mp hnodup

/-- **Equal paths are a sign of equal forms.** In the table of a build with a directory archive the
entries of the variants stand for canonical forms, and two of them have the same path exactly if
their forms are equal. The path of a slice is the path of nothing else. So the number of different
paths in the variants is the number of different forms, and together with the number of slices it is
the number of artifacts that the archive was asked to store.

This holds of every archive that a build succeeds with, of all schedules and of all assigners. -/
theorem equal_paths_are_equal_forms
    (hbuild : (s.build DirectoryArchive.writer timing request m).result = .ok toc) :
    ∃ a b,
      s.Tells timing.fragments request.fragments request.mode request.device
        (s.fragmentPhase DirectoryArchive.writer timing request m).events toc.variants a ∧
      s.TellsSlices timing.assetSlices request.assetSlices request.mode request.device
        (s.slicePhase DirectoryArchive.writer timing request m).events toc.assetSliceSets b ∧
      (∀ k ∈ a.kept, (a.variant k).descriptors.length = (a.canonical k).length ∧
        ∀ name, (a.variant k).descriptorsOf name = (a.slots k name).map a.answer) ∧
      (∀ k ∈ a.kept, ∀ k' ∈ a.kept, ∀ (name name' : ModuleName) (i j : Nat) (c c' : Fragment)
        (d d' : ArtifactDescriptor),
        (a.slots k name)[i]? = some c → ((a.variant k).descriptorsOf name)[i]? = some d →
        (a.slots k' name')[j]? = some c' → ((a.variant k').descriptorsOf name')[j]? = some d' →
          (d.path = d'.path ↔ c = c')) ∧
      (toc.sliceArtifacts.map (·.path)).Nodup ∧
      (∀ d ∈ toc.sliceArtifacts, ∀ d' ∈ toc.variantArtifacts, d.path ≠ d'.path) ∧
      toc.artifactCount = a.distinct.length ∧
      toc.artifactCount + toc.sliceArtifacts.length =
        (Event.writes (s.build DirectoryArchive.writer timing request m).events).length := by
  obtain ⟨a, b, ha, hb, hcount, hnodup⟩ := exists_nodup_paths hbuild
  obtain ⟨hforms, hslices, hapart⟩ := List.nodup_append.mp hnodup
  have hlisted : ∀ k ∈ a.kept, ∀ name,
      (a.variant k).descriptorsOf name = (a.slots k name).map a.answer :=
    fun k hk name ↦ (ha.variant k hk).2.2.descriptorsOf_eq name
  have hdistinct : ∀ k ∈ a.kept, ∀ name, ∀ c ∈ a.slots k name, c ∈ a.distinct := by
    intro k hk name c hc
    refine List.mem_eraseDups.mpr (List.mem_flatMap.mpr ⟨k, (List.mem_filter.mp hk).1, ?_⟩)
    exact (List.mem_filter.mp hc).1
  -- the paths in the variants are those of the forms, and the paths of the sets those of the slices
  have hvariants : ∀ p, p ∈ toc.variantArtifacts.map (·.path) ↔
      p ∈ a.distinct.map fun c ↦ (a.answer c).path := by
    intro p
    have hkept : a.kept.flatMap a.canonical = a.all := flatMap_filter_isEmpty a.canonical a.keys
    have hperm : (toc.variantArtifacts.map (·.path)).Perm
        (a.all.map fun c ↦ (a.answer c).path) := by
      have hmap := ha.descriptors_perm.map (·.path)
      rwa [← List.map_flatMap, hkept, List.map_map] at hmap
    rw [hperm.mem_iff, List.mem_map, List.mem_map]
    exact exists_congr fun c ↦ and_congr_left fun _ ↦ List.mem_eraseDups.symm
  have hsets : (toc.sliceArtifacts.map (·.path)).Perm (b.stored.map (·.2.path)) := by
    have hmap := hb.descriptors_perm.map (·.path)
    rwa [List.map_map] at hmap
  have hartifacts : toc.artifactCount = a.distinct.length := by
    rw [TableOfContents.artifactCount, length_eraseDups_eq hforms hvariants, List.length_map]
  refine ⟨a, b, ha, hb, fun k hk ↦ ⟨?_, hlisted k hk⟩, ?_, hsets.nodup_iff.mpr hslices, ?_,
    hartifacts, ?_⟩
  · rw [(ha.variant k hk).2.2.descriptors_perm.length_eq, List.length_map]
  · intro k hk k' hk' name name' i j c c' d d' hc hd hc' hd'
    rw [hlisted k hk, List.getElem?_map, hc] at hd
    rw [hlisted k' hk', List.getElem?_map, hc'] at hd'
    obtain rfl := Option.some.inj hd
    obtain rfl := Option.some.inj hd'
    constructor
    · intro hpath
      exact eq_of_nodup_map hforms (hdistinct k hk name c (List.mem_of_getElem? hc))
        (hdistinct k' hk' name' c' (List.mem_of_getElem? hc')) hpath
    · rintro rfl
      rfl
  · intro d hd d' hd' hpath
    refine hapart d'.path ((hvariants _).mp (List.mem_map_of_mem hd')) d.path ?_ hpath.symm
    exact hsets.mem_iff.mp (List.mem_map_of_mem hd)
  · have hlength : toc.sliceArtifacts.length = b.stored.length := by
      simpa using hsets.length_eq
    rw [hartifacts, hlength, hcount]

/-- A master split of two variants has one path in both, and a slice of its module another one. -/
theorem master_and_slice_have_two_paths :
    let f : Fragment := { Fragment.untargeted .base .split (.ofPackage "p") with isMaster := true }
    let slice : Fragment := Fragment.untargeted .base .assetSlice (.ofPackage "p")
    let s := plain { Bundle.ofPackage "p" with
      modules := [.independent .base .feature (.ofPackage "p")] }
    let m : Memory Unit Unit Naming DirectoryArchive :=
      ⟨(), (), ∅, "/r", ["r"], .directory [("r", .directory [])], []⟩
    let out := s.build DirectoryArchive.writer .inOrder
      ⟨[{ f with variantTargeting := .sdk 21 }, { f with variantTargeting := .sdk 24 }], [slice],
        .default, none, default, []⟩ m
    ∃ toc, out.result = .ok toc ∧ toc.variantArtifacts.length = 2 ∧ toc.artifactCount = 1 ∧
      toc.sliceArtifacts.length = 1 ∧ (Event.writes out.events).length = 2 := by
  intro f slice s m out
  have hcounts : (out.result.toOption.map fun toc ↦ (toc.variantArtifacts.length,
      toc.artifactCount, toc.sliceArtifacts.length)) = some (2, 1, 1) := by
    decide +kernel
  generalize hresult : out.result = result at hcounts ⊢
  rcases result with e | toc
  · cases hcounts
  · obtain ⟨hvariants, hrest⟩ := Prod.mk.inj (Option.some.inj hcounts)
    obtain ⟨hcount, hslices⟩ := Prod.mk.inj hrest
    obtain ⟨a, b, -, -, -, -, -, -, -, hwrites⟩ := equal_paths_are_equal_forms hresult
    refine ⟨toc, rfl, hvariants, hcount, hslices, ?_⟩
    rw [← hwrites, hcount, hslices]

end Serializer

end FragmentArchive
