import FragmentArchive.Proofs.CommitPoint
import FragmentArchive.Proofs.DirectoryArchive

/-!
# Finished archives

After a successful run, the table of contents has a descriptor for every artifact, with the size and
the digest of the bytes that were stored for it. Whether these bytes are still there is another
matter. Paths are compared as text when an artifact is stored, and as places when it is read, so two
artifacts can be stored at one place under two spellings, and then the later one is read in place of
the earlier one. Nothing else can go wrong: an archive matches its table of contents exactly when no
two of its artifacts with different bytes share a place.
-/

namespace FragmentArchive

namespace Naming

/-! ## Names of packages -/

theorem isPackage_pathFor (stem : String) (earlier : Nat) : (pathFor stem earlier).IsPackage :=
  ⟨_, rfl⟩

theorem isPackage_of_mem_paths (naming : Naming) {fs : List Fragment} {p : ArchivePath}
    (h : p ∈ (standard.paths fs (standard.restart naming)).1) : p.IsPackage := by
  rw [paths_of_run] at h
  obtain ⟨f, -, rfl⟩ := List.mem_map.mp h
  exact isPackage_pathFor ..

/-- In a run of its own, the assigner names packages only. -/
theorem isPackage_of_replays {μ ℓ ω : Type} {writer : Writer ω} {m m' : Memory μ ℓ Naming ω}
    {es : List Event} (h : Memory.Replays standard writer
      { m with naming := standard.restart m.naming } es m')
    {job : Fragment × ArchivePath} (hjob : job ∈ Event.namings es) : job.2.IsPackage := by
  have hmem : job.2 ∈ (Event.namings es).map (·.2) := List.mem_map_of_mem hjob
  rw [← (Prod.mk.inj h.naming).1] at hmem
  exact isPackage_of_mem_paths m.naming hmem

end Naming

namespace WriteCall

variable (mode : BuildMode) (f : Fragment) (p : ArchivePath)

/-- Whatever an operation is given, it stores a package. -/
theorem isPackage_forFragment (hp : p.IsPackage) : (forFragment mode f p).target.IsPackage := by
  have huniversal : DirectoryArchive.universalPath.IsPackage := ⟨"universal", by decide⟩
  rw [forFragment]
  split
  all_goals try exact hp
  split
  · exact huniversal
  · exact hp

end WriteCall

namespace DirectoryArchive

variable {archive between : DirectoryArchive} {workingDirectory : Location} {ledger : Ledger}

/-! ## What is found in the end -/

/-- An archive holds an artifact as it is described: under its path stand the bytes that are stored
for the fragment, and they have the size and the digest of the descriptor. -/
structure Holds (workingDirectory : Location) (archive : DirectoryArchive)
    (slot : Fragment × ArtifactDescriptor) : Prop where
  bytes : archive.readFile workingDirectory slot.2.path = .ok (payload slot.1)
  size : slot.2.size = .ofNat (payload slot.1).size
  digest : slot.2.sha256 = Sha256.hexDigest (payload slot.1).toList

/-- A fragment is the one of the artifact that was stored last at the place of a path. -/
def LastAt (stored : List (Fragment × ArtifactDescriptor)) (p : ArchivePath) (f : Fragment) :
    Prop :=
  ∃ before d after, stored = before ++ (f, d) :: after ∧ d.path.place = p.place ∧
    ∀ later ∈ after, later.2.path.place ≠ p.place

/-- What was stored for each request. -/
def Ledger.artifacts (ledger : Ledger) : List (Fragment × ArtifactDescriptor) :=
  ledger.map fun w ↦ (w.1.fragment, w.2)

/-- **Of the artifacts at one place, the last one is read.** The table of contents is stored after
them and leaves them alone. -/
theorem Stores.exists_last (hstores : archive.Stores ledger between)
    (hrooted : archive.Rooted workingDirectory) (hpackages : ∀ w ∈ ledger, w.2.path.IsPackage)
    (toc : TableOfContents) {x : Fragment × ArtifactDescriptor} (hx : x ∈ ledger.artifacts) :
    ∃ f, LastAt ledger.artifacts x.2.path f ∧
      ∀ y ∈ ledger.artifacts, y.2.path.place = x.2.path.place →
        (publish toc between).memory.readFile workingDirectory y.2.path = .ok (payload f) := by
  obtain ⟨w, hw, rfl⟩ := List.mem_map.mp hx
  obtain ⟨hprecedes, hkeep⟩ := publish_keeps toc between
  obtain ⟨before, last, after, rfl, hplace, hafter⟩ :=
    exists_last_of_mem (fun w : WriteCall × ArtifactDescriptor ↦ w.2.path.place) hw
  -- a place has what was stored there last, whichever spelling was used for it
  have hlast : between.look last.2.path = some (.file (payload last.1.fragment)) := by
    refine hstores.look_last ?_ fun later hlater ↦ ?_
    · exact hpackages last (List.mem_append_right _ List.mem_cons_self)
    · rw [hplace]
      exact hafter later hlater
  refine ⟨last.1.fragment, ⟨Ledger.artifacts before, last.2, Ledger.artifacts after, ?_, hplace,
    fun later hlater ↦ ?_⟩, fun y hy hplace' ↦ ?_⟩
  · exact List.map_append
  · obtain ⟨w', hw', rfl⟩ := List.mem_map.mp hlater
    exact hafter w' hw'
  · obtain ⟨w', hw', rfl⟩ := List.mem_map.mp hy
    have hlook : between.look w'.2.path = some (.file (payload last.1.fragment)) := by
      rw [look, hplace', ← hplace]
      exact hlast
    have hspeakable : (publish toc between).memory.Speakable w'.2.path :=
      (hstores.precedes.trans hprecedes).speakable_iff.mpr (hstores.describes hw').2
    have hpackage := hpackages w' hw'
    obtain ⟨front, name, hname, hleads, -⟩ := hpackage.exists_name
    refine readFile_of_look (hrooted.mono (hstores.precedes.trans hprecedes)) hname hleads
      hspeakable ?_
    exact hkeep w'.2.path _ (hpackage.temporaryPlace_ne _)
      (fun _ ↦ hpackage.place_ne [] (by decide)) hlook

end DirectoryArchive

/-! ## Slots of a table -/

/-- The artifacts of a run in the order in which they were stored, each with its descriptor. -/
def storedArtifacts (a : FragmentAccount) (b : SliceAccount) :
    List (Fragment × ArtifactDescriptor) :=
  (a.distinct.map fun c ↦ (c, a.answer c)) ++ b.stored.map fun p ↦ (p.1.1, p.2)

/-- The descriptors of a table, each with the fragment for which it was issued: the canonical form
of a fragment, or a slice. -/
def slots (a : FragmentAccount) (b : SliceAccount) : List (Fragment × ArtifactDescriptor) :=
  (a.kept.flatMap fun k ↦ (a.canonical k).map fun c ↦ (c, a.answer c)) ++
    b.stored.map fun p ↦ (p.1.1, p.2)

theorem mem_slots_iff {a : FragmentAccount} {b : SliceAccount}
    {slot : Fragment × ArtifactDescriptor} : slot ∈ slots a b ↔ slot ∈ storedArtifacts a b := by
  have hkept : a.kept.flatMap a.canonical = a.all := flatMap_filter_isEmpty a.canonical a.keys
  rw [slots, storedArtifacts, List.mem_append, List.mem_append, ← List.map_flatMap, hkept]
  refine or_congr_left ?_
  rw [List.mem_map, List.mem_map]
  exact exists_congr fun c ↦ and_congr_left fun _ ↦ List.mem_eraseDups.symm

namespace Serializer

variable {μ ℓ : Type}

/-! ## The archive in a run -/

/-- The requests of a run as they came to the archive. -/
private def ledgerOf (mode : BuildMode) (a : FragmentAccount) (b : SliceAccount) :
    DirectoryArchive.Ledger :=
  (a.distinct.map fun c ↦ (.forFragment mode c (a.path c), a.answer c)) ++
    b.stored.map fun p ↦ (.forFragment mode p.1.1 p.1.2, p.2)

private theorem artifacts_ledgerOf (mode : BuildMode) (a : FragmentAccount) (b : SliceAccount) :
    (ledgerOf mode a b).artifacts = storedArtifacts a b := by
  rw [DirectoryArchive.Ledger.artifacts, ledgerOf, storedArtifacts, List.map_append, List.map_map,
    List.map_map]
  simp only [Function.comp_def, WriteCall.fragment_forFragment]

/-- A run that got to the table of contents, as the archive saw it. -/
private theorem exists_ledger {s : Serializer μ ℓ Naming} {request : BuildRequest}
    {m : Memory μ ℓ Naming DirectoryArchive} {toc : TableOfContents}
    (hassigner : s.assigner = Naming.standard)
    (hbuild : (s.build DirectoryArchive.writer .inOrder request m).result = .ok toc) :
    ∃ a b between,
      s.Tells Schedule.inOrder request.fragments request.mode request.device
        (s.fragmentPhase DirectoryArchive.writer .inOrder request m).events toc.variants a ∧
      s.TellsSlices Schedule.inOrder request.assetSlices request.mode request.device
        (s.slicePhase DirectoryArchive.writer .inOrder request m).events toc.assetSliceSets b ∧
      m.archive.Stores (ledgerOf request.mode a b) between ∧
      (∀ w ∈ ledgerOf request.mode a b, w.2.path.IsPackage) ∧
      (DirectoryArchive.publish toc between).answer = .ok () ∧
      (s.build DirectoryArchive.writer .inOrder request m).memory.archive =
        (DirectoryArchive.publish toc between).memory := by
  rcases s.build_outcome DirectoryArchive.writer .inOrder request m with
    ⟨e, m', es₁, -, heq⟩ | ⟨variants, m₁, es₁, e, m', es₂, -, -, heq⟩ |
    ⟨variants, m₁, es₁, sets, m₂, es₂, toc', reply, ns, hfragments, hslices, htoc, hreply, heq⟩
  · rw [heq] at hbuild
    cases hbuild
  · rw [heq] at hbuild
    cases hbuild
  rw [heq] at hbuild ⊢
  obtain ⟨_, hanswer, rfl⟩ := map_eq_ok_iff.mp hbuild
  obtain ⟨a, ha⟩ : ∃ a, s.Tells Schedule.inOrder request.fragments request.mode request.device
    es₁ variants a := exists_tells hfragments
  obtain ⟨b, hb⟩ : ∃ b, s.TellsSlices Schedule.inOrder request.assetSlices request.mode
    request.device es₂ sets b := exists_tellsSlices hslices
  have hreplays := replays_phases hfragments hslices
  have hstores : m.archive.Stores (ledgerOf request.mode a b) m₂.archive := by
    have hanswers := hreplays.archive
    rw [Event.writes_append, ha.writes, hb.writes, Schedule.order_inOrder, Schedule.order_inOrder]
      at hanswers
    rw [DirectoryArchive.Stores, ledgerOf, List.map_append, List.map_map, List.map_map]
    exact hanswers
  -- both phases are named in one run of the assigner, which names packages only
  have hpaths : ∀ job ∈ Event.namings (es₁ ++ es₂), job.2.IsPackage :=
    fun job hjob ↦ Naming.isPackage_of_replays (hassigner ▸ hreplays) hjob
  rw [Event.namings_append] at hpaths
  refine ⟨a, b, m₂.archive, ?_, ?_, hstores, fun w hw ↦ ?_, ?_, ?_⟩
  · rw [hfragments, htoc]
    exact ha
  · rw [hslices, htoc]
    exact hb
  · rw [(hstores.describes hw).1]
    rcases List.mem_append.mp hw with hw | hw
    · obtain ⟨c, hc, rfl⟩ := List.mem_map.mp hw
      refine WriteCall.isPackage_forFragment _ _ _ (hpaths (c, a.path c) ?_)
      exact List.mem_append_left _ (ha.namings ▸ List.mem_map_of_mem hc)
    · obtain ⟨p, hp, rfl⟩ := List.mem_map.mp hw
      refine WriteCall.isPackage_forFragment _ _ _ (hpaths p.1 ?_)
      exact List.mem_append_right _ (hb.namings ▸ List.mem_map_of_mem hp)
  · rw [← hanswer, hreply]
    rfl
  · rw [hreply]
    rfl

/-- The slots of a run are the descriptors of its table. -/
theorem slots_perm {s : Serializer μ ℓ Naming} {schedule schedule' : (jobs : Nat) → Schedule jobs}
    {request : BuildRequest} {toc : TableOfContents} {es es' : List Event} {a : FragmentAccount}
    {b : SliceAccount}
    (ha : s.Tells schedule request.fragments request.mode request.device es toc.variants a)
    (hb : s.TellsSlices schedule' request.assetSlices request.mode request.device es'
      toc.assetSliceSets b) :
    ((slots a b).map (·.2)).Perm (toc.variantArtifacts ++ toc.sliceArtifacts) := by
  have hslots : (slots a b).map (·.2) =
      (a.kept.flatMap fun k ↦ (a.canonical k).map a.answer) ++ b.stored.map (·.2) := by
    rw [slots, List.map_append, List.map_flatMap, List.map_map]
    simp only [List.map_map, Function.comp_def]
  rw [hslots]
  exact ha.descriptors_perm.symm.append hb.descriptors_perm.symm

/-- **When a finished archive matches its table of contents.** A successful run lists a descriptor
for every canonical form and every slice, with the size and the digest of its bytes. Under the path
of a descriptor stand the bytes of the artifact that was stored last at the place that the path
describes, so the archive matches the table exactly when artifacts at one place have the same
bytes. In particular it does when all paths are tidy, since no path is stored under twice. -/
theorem archive_matches_iff {s : Serializer μ ℓ Naming} {request : BuildRequest}
    {m : Memory μ ℓ Naming DirectoryArchive} {toc : TableOfContents} {workingDirectory : Location}
    {root : String} {tree tree' : FileTree} {notice : Notice}
    (hassigner : s.assigner = Naming.standard)
    (hopen : DirectoryArchive.establish workingDirectory root tree =
      (.ok (m.archive, notice), tree'))
    (hbuild : (s.build DirectoryArchive.writer .inOrder request m).result = .ok toc) :
    ∃ a b,
      s.Tells Schedule.inOrder request.fragments request.mode request.device
        (s.fragmentPhase DirectoryArchive.writer .inOrder request m).events toc.variants a ∧
      s.TellsSlices Schedule.inOrder request.assetSlices request.mode request.device
        (s.slicePhase DirectoryArchive.writer .inOrder request m).events toc.assetSliceSets b ∧
      ((slots a b).map (·.2)).Perm (toc.variantArtifacts ++ toc.sliceArtifacts) ∧
      (∀ x ∈ slots a b, x.2.size = .ofNat (DirectoryArchive.payload x.1).size ∧
        x.2.sha256 = Sha256.hexDigest (DirectoryArchive.payload x.1).toList) ∧
      (∀ x ∈ slots a b, ∃ f, DirectoryArchive.LastAt (storedArtifacts a b) x.2.path f ∧
        (s.build DirectoryArchive.writer .inOrder request m).memory.archive.readFile
          workingDirectory x.2.path = .ok (DirectoryArchive.payload f)) ∧
      ((∀ x ∈ slots a b,
          (s.build DirectoryArchive.writer .inOrder request m).memory.archive.Holds
            workingDirectory x) ↔
        ∀ x ∈ slots a b, ∀ y ∈ slots a b, x.2.path.place = y.2.path.place →
          DirectoryArchive.payload x.1 = DirectoryArchive.payload y.1) ∧
      ((∀ x ∈ slots a b, x.2.path.IsTidy) →
        ∀ x ∈ slots a b,
          (s.build DirectoryArchive.writer .inOrder request m).memory.archive.Holds
            workingDirectory x) := by
  obtain ⟨a, b, between, ha, hb, hstores, hpackages, hpublish, harchive⟩ :=
    exists_ledger hassigner hbuild
  have hslots : ∀ {x}, x ∈ slots a b ↔ x ∈ (ledgerOf request.mode a b).artifacts := by
    rw [artifacts_ledgerOf]
    exact mem_slots_iff
  have hlast : ∀ x ∈ slots a b, ∃ f, DirectoryArchive.LastAt (storedArtifacts a b) x.2.path f ∧
      ∀ y ∈ slots a b, y.2.path.place = x.2.path.place →
        (DirectoryArchive.publish toc between).memory.readFile workingDirectory y.2.path =
          .ok (DirectoryArchive.payload f) := by
    intro x hx
    obtain ⟨f, hf, hread⟩ := hstores.exists_last (DirectoryArchive.rooted_of_establish hopen)
      hpackages toc (hslots.mp hx)
    rw [artifacts_ledgerOf] at hf
    exact ⟨f, hf, fun y hy ↦ hread y (hslots.mp hy)⟩
  have hdescribed : ∀ x ∈ slots a b, x.2.size = .ofNat (DirectoryArchive.payload x.1).size ∧
      x.2.sha256 = Sha256.hexDigest (DirectoryArchive.payload x.1).toList := by
    intro x hx
    obtain ⟨w, hw, rfl⟩ := List.mem_map.mp (hslots.mp hx)
    obtain ⟨hd, -⟩ := hstores.describes hw
    exact ⟨congrArg (·.size) hd, congrArg (·.sha256) hd⟩
  have hpaths : ∀ x ∈ slots a b, ∀ y ∈ slots a b, x.2.path = y.2.path → x = y := by
    intro x hx y hy hpath
    obtain ⟨w, hw, rfl⟩ := List.mem_map.mp (hslots.mp hx)
    obtain ⟨w', hw', rfl⟩ := List.mem_map.mp (hslots.mp hy)
    rw [eq_of_nodup_map hstores.nodup_paths hw hw' hpath]
  have hholds : (∀ x ∈ slots a b, ∀ y ∈ slots a b, x.2.path.place = y.2.path.place →
      DirectoryArchive.payload x.1 = DirectoryArchive.payload y.1) →
      ∀ x ∈ slots a b, (DirectoryArchive.publish toc between).memory.Holds workingDirectory x := by
    intro hsame x hx
    obtain ⟨f, ⟨before, d, after, hstored, hplace, -⟩, hread⟩ := hlast x hx
    have hmem : (f, d) ∈ slots a b := by
      rw [mem_slots_iff, hstored]
      exact List.mem_append_right _ List.mem_cons_self
    obtain ⟨hsize, hdigest⟩ := hdescribed x hx
    refine ⟨?_, hsize, hdigest⟩
    rw [hread x hx rfl, hsame _ hmem x hx hplace]
  rw [harchive]
  refine ⟨a, b, ha, hb, slots_perm ha hb, hdescribed, fun x hx ↦ ?_, ⟨?_, hholds⟩, fun htidy ↦ ?_⟩
  · obtain ⟨f, hf, hread⟩ := hlast x hx
    exact ⟨f, hf, hread x hx rfl⟩
  · intro hholds x hx y hy hplace
    obtain ⟨f, -, hread⟩ := hlast y hy
    have hx' := (hholds x hx).bytes.symm.trans (hread x hx hplace)
    have hy' := (hholds y hy).bytes.symm.trans (hread y hy rfl)
    rw [Except.ok.inj hx', Except.ok.inj hy']
  · refine hholds fun x hx y hy hplace ↦ ?_
    rw [hpaths x hx y hy ((htidy x hx).eq_of_place_eq (htidy y hy) hplace)]

/-- A second spelling of a name takes the place of the first one. -/
theorem second_spelling_replaces_first :
    let first : Fragment :=
      { Fragment.untargeted ⟨"x//y"⟩ .split (.ofPackage "p") with isMaster := true }
    let second : Fragment := { first with module := ⟨"x/y"⟩ }
    let s := plain { Bundle.ofPackage "p" with modules :=
      [.independent ⟨"x//y"⟩ .feature (.ofPackage "p"),
        .independent ⟨"x/y"⟩ .feature (.ofPackage "p")] }
    let m : Memory Unit Unit Naming DirectoryArchive :=
      ⟨(), (), ∅, "/r", ["r"], .directory [("r", .directory [])], []⟩
    let out := s.build DirectoryArchive.writer .inOrder
      ⟨[first, second], [], .default, none, default, []⟩ m
    ∃ toc, out.result = .ok toc ∧ ∃ a b,
      ((slots a b).map (·.2)).Perm (toc.variantArtifacts ++ toc.sliceArtifacts) ∧
      ¬∀ x ∈ slots a b, out.memory.archive.Holds [] x := by
  intro first second s m out
  have hopen : DirectoryArchive.establish [] "/r" .empty =
      (.ok (m.archive, .opened "/r"), m.archive.tree) := by
    have hroute : Route.ofPath [] "/r" = ⟨[], [some "r"], .nothing, 2⟩ := by decide +kernel
    rw [DirectoryArchive.establish, hroute]
    rfl
  -- the first descriptor has the size of the artifact that was stored over
  have hsizes : (out.result.toOption.map fun toc ↦ toc.variantArtifacts.all fun d ↦
      (out.memory.archive.readFile [] d.path).toOption.map (UInt64.ofNat ·.size) = some d.size) =
        some false := by
    decide +kernel
  generalize hresult : out.result = result at hsizes ⊢
  cases result with
  | error e => cases hsizes
  | ok toc =>
    obtain ⟨a, b, -, -, hperm, -⟩ := archive_matches_iff rfl hopen hresult
    refine ⟨toc, rfl, a, b, hperm, fun hholds ↦ absurd (Option.some.inj hsizes) ?_⟩
    rw [Bool.not_eq_false, List.all_eq_true]
    intro d hd
    obtain ⟨x, hx, rfl⟩ := List.mem_map.mp (hperm.mem_iff.mpr (List.mem_append_left _ hd))
    rw [(hholds x hx).bytes, (hholds x hx).size]
    exact decide_eq_true rfl

end Serializer

end FragmentArchive
