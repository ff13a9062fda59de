import FragmentArchive.Proofs.FinishedArchive

/-!
# Failed runs

An archive is written in place. Nothing sets the artifacts of a run aside until its table of
contents is stored. An archive that is opened again allows everything to be written again, and when
a run fails on the way, the table is still the earlier one while some of the artifacts in it can
have been replaced.

What a run leaves behind is therefore told file by file. The artifacts that it stored are among its
events; a file at the place of one of them has the bytes of the last of these, and every other file
has the bytes that it had before. Beyond that, only files with a temporary name are in danger, and
neither the table of contents nor a package has one. Whether a table describes the directory is then
decided by what was stored at the places that it lists. This is the same for the earlier table after
a failed run and for its own table after a successful one.

## One file at a time

No file is found half written as long as a file is in its place before the next one is begun. So it
is with one worker, or with several that take turns. But workers are free to write at the same time,
and two artifacts can have one temporary file. Then one of them can be stored with bytes of the
other. Nothing is said about such runs: what a failed run leaves behind is stated for serial
schedules. The lemmas on the way to it hold of all schedules, but only because in a schedule every
request is carried out as a whole.
-/

namespace FragmentArchive

/-! ## Files below a root -/

/-- A descriptor has the size and the digest of some bytes. -/
def ArtifactDescriptor.Describes (d : ArtifactDescriptor) (bytes : ByteArray) : Prop :=
  d.size = .ofNat bytes.size ∧ d.sha256 = Sha256.hexDigest bytes.toList

/-- The artifacts that were stored, in this order, each with its descriptor. -/
def Event.stored (es : List Event) : List (Fragment × ArtifactDescriptor) :=
  (Event.writes es).filterMap fun w ↦ w.2.toOption.map fun d ↦ (w.1.fragment, d)

theorem Event.mem_stored {es : List Event} {x : Fragment × ArtifactDescriptor} :
    x ∈ Event.stored es ↔ ∃ call, (call, .ok x.2) ∈ Event.writes es ∧ call.fragment = x.1 := by
  rw [stored, List.mem_filterMap]
  constructor
  · rintro ⟨⟨call, answer⟩, hw, hx⟩
    cases answer with
    | error e => cases hx
    | ok d =>
      obtain rfl := Option.some.inj hx
      exact ⟨call, hw, rfl⟩
  · rintro ⟨call, hw, hfragment⟩
    exact ⟨_, hw, by rw [hfragment]; rfl⟩

namespace DirectoryArchive

/-- Reads the file at a path below a root. -/
def fileAt (workingDirectory : Location) (root : String) (tree : FileTree) (p : ArchivePath) :
    Except FileFault ByteArray :=
  tree.read (.ofPath workingDirectory (Route.join root p.text))

/-- A directory holds an archive with a table of contents: the table can be read there, all paths in
it lead below the root, and every descriptor describes the file that it names. -/
structure Published (workingDirectory : Location) (root : String) (tree : FileTree)
    (toc : TableOfContents) : Prop where
  table : fileAt workingDirectory root tree tableFile =
    .ok (TableOfContents.codec.indented toc).toUTF8
  inside : ∀ d ∈ toc.variantArtifacts ++ toc.sliceArtifacts,
    ∃ place, Destination.ofPath? d.path.text = some place
  files : ∀ d ∈ toc.variantArtifacts ++ toc.sliceArtifacts,
    ∃ bytes, fileAt workingDirectory root tree d.path = .ok bytes ∧ d.Describes bytes

/-- No temporary file of a run, be it for an artifact or for the table of contents, is at the place
of a path. -/
def Spared (es : List Event) (p : ArchivePath) : Prop :=
  tableDestination.temporaryPlace ≠ p.place ∧ ∀ w ∈ Event.writes es, w.1.Spares p

variable {es : List Event} {p : ArchivePath}

theorem spared_of_isPackage (h : p.IsPackage) (es : List Event) : Spared es p :=
  ⟨h.temporaryPlace_ne _, fun _ _ d _ ↦ h.temporaryPlace_ne d⟩

theorem spared_tableFile (es : List Event) : Spared es tableFile := by
  have hne : ∀ d : Destination, d.temporaryPlace ≠ tableFile.place := fun d ↦
    d.temporaryPlace_ne [] (by decide) (by decide)
  exact ⟨hne _, fun _ _ d _ ↦ hne d⟩

/-! ## What a run stores at a place -/

theorem exists_lastAt {stored : List (Fragment × ArtifactDescriptor)}
    {x : Fragment × ArtifactDescriptor} (hx : x ∈ stored) (hplace : x.2.path.place = p.place) :
    ∃ f, LastAt stored p f := by
  obtain ⟨before, last, after, rfl, heq, hafter⟩ :=
    exists_last_of_mem (fun x : Fragment × ArtifactDescriptor ↦ x.2.path.place) hx
  refine ⟨last.1, before, last.2, after, rfl, heq.trans hplace, fun later hlater ↦ ?_⟩
  rw [← hplace]
  exact hafter later hlater

/-- **Whether a table describes a directory** is decided by the artifacts that were stored last at
the places it lists, when they are found there and the other files fit. -/
theorem published_iff {workingDirectory : Location} {root : String} {tree : FileTree}
    {toc : TableOfContents} {stored : List (Fragment × ArtifactDescriptor)}
    (htable : fileAt workingDirectory root tree tableFile =
      .ok (TableOfContents.codec.indented toc).toUTF8)
    (hinside : ∀ d ∈ toc.variantArtifacts ++ toc.sliceArtifacts,
      ∃ place, Destination.ofPath? d.path.text = some place)
    (hlast : ∀ d ∈ toc.variantArtifacts ++ toc.sliceArtifacts, ∀ f, LastAt stored d.path f →
      fileAt workingDirectory root tree d.path = .ok (payload f))
    (hother : ∀ d ∈ toc.variantArtifacts ++ toc.sliceArtifacts,
      (∀ x ∈ stored, x.2.path.place ≠ d.path.place) →
        ∃ bytes, fileAt workingDirectory root tree d.path = .ok bytes ∧ d.Describes bytes) :
    Published workingDirectory root tree toc ↔
      ∀ d ∈ toc.variantArtifacts ++ toc.sliceArtifacts, ∀ f, LastAt stored d.path f →
        d.Describes (payload f) := by
  constructor
  · intro hpublished d hd f hf
    obtain ⟨bytes, hread, hdescribes⟩ := hpublished.files d hd
    rw [hlast d hd f hf] at hread
    rw [Except.ok.inj hread]
    exact hdescribes
  · intro hfits
    refine ⟨htable, hinside, fun d hd ↦ ?_⟩
    by_cases hne : ∀ x ∈ stored, x.2.path.place ≠ d.path.place
    · exact hother d hd hne
    · obtain ⟨x, hx⟩ := Classical.not_forall.mp hne
      obtain ⟨hmem, hsame⟩ := Classical.not_imp.mp hx
      obtain ⟨f, hf⟩ := exists_lastAt hmem (Classical.not_not.mp hsame)
      exact ⟨payload f, hlast d hd f hf, hfits d hd f hf⟩

/-- The requests of a run are divided at the artifact that was stored last at a place. -/
private theorem LastAt.exists_writes {f : Fragment} (h : LastAt (Event.stored es) p f) :
    ∃ before call d after, Event.writes es = before ++ (call, .ok d) :: after ∧
      call.fragment = f ∧ d.path.place = p.place ∧
      ∀ w ∈ after, ∀ d', w.2 = .ok d' → d'.path.place ≠ p.place := by
  -- refused requests leave no artifact, so they can stand anywhere between those that do
  obtain ⟨before, d, after, hstored, hplace, hafter⟩ := h
  obtain ⟨ws, ws', hws, -, hrest⟩ := List.filterMap_eq_append_iff.mp hstored
  obtain ⟨skipped, ⟨call, answer⟩, later, hws', -, hx, hlater⟩ :=
    List.filterMap_eq_cons_iff.mp hrest
  cases answer with
  | error e => cases hx
  | ok d' =>
    obtain ⟨rfl, rfl⟩ := Prod.mk.inj (Option.some.inj hx)
    refine ⟨ws ++ skipped, call, d', later, by rw [hws, hws', List.append_assoc], rfl, hplace, ?_⟩
    intro w hw d' hd'
    refine hafter (w.1.fragment, d') ?_
    rw [← hlater]
    exact List.mem_filterMap.mpr ⟨w, hw, by rw [hd']; rfl⟩

/-- **What is found after some requests.** -/
theorem look_of_answers {archive archive' : DirectoryArchive}
    (h : writer.Answers archive (Event.writes es) archive')
    (hspares : ∀ w ∈ Event.writes es, w.1.Spares p) :
    ((∀ x ∈ Event.stored es, x.2.path.place ≠ p.place) → ∀ bytes,
        archive.look p = some (.file bytes) → archive'.look p = some (.file bytes)) ∧
      ∀ f, LastAt (Event.stored es) p f → archive'.look p = some (.file (payload f)) := by
  constructor
  · intro hne bytes hlook
    refine look_of_forall_ne h hspares (fun w hw d hd ↦ ?_) hlook
    exact hne (w.1.fragment, d) (Event.mem_stored.mpr ⟨w.1, hd ▸ hw, rfl⟩)
  · intro f hf
    obtain ⟨before, call, d, after, hes, rfl, hplace, hafter⟩ := hf.exists_writes
    rw [hes] at h hspares
    rw [look, ← hplace]
    refine look_last h (fun w hw d' hd' ↦ ?_) (hplace ▸ hafter)
    rw [hplace]
    exact hspares w (List.mem_append_right _ (List.mem_cons_of_mem _ hw)) d' hd'

end DirectoryArchive

namespace Serializer

open DirectoryArchive (LastAt Published Spared fileAt payload tableFile)

variable {μ ℓ π : Type}

/-! ## What a build leaves behind -/

section

variable {s : Serializer μ ℓ π} {timing : Timing} {request : BuildRequest}
  {m : Memory μ ℓ π DirectoryArchive}

/-- **What is found after a build**, whether or not it succeeds. -/
theorem look_after_build {p : ArchivePath}
    (hspared : Spared (s.build DirectoryArchive.writer timing request m).events p)
    (htable : ∀ toc, (s.build DirectoryArchive.writer timing request m).result = .ok toc →
      p.place ≠ tableFile.place) :
    ((∀ x ∈ Event.stored (s.build DirectoryArchive.writer timing request m).events,
        x.2.path.place ≠ p.place) → ∀ bytes, m.archive.look p = some (.file bytes) →
          (s.build DirectoryArchive.writer timing request m).memory.archive.look p =
            some (.file bytes)) ∧
      ∀ f, LastAt (Event.stored (s.build DirectoryArchive.writer timing request m).events) p f →
        (s.build DirectoryArchive.writer timing request m).memory.archive.look p =
          some (.file (payload f)) := by
  obtain ⟨m', hreplays, hend⟩ := s.replays_build DirectoryArchive.writer timing request m
  obtain ⟨hkeep, hlast⟩ := DirectoryArchive.look_of_answers hreplays.archive hspared.2
  rcases hend with ⟨-, harchive⟩ | ⟨toc, hresult, harchive⟩
  · rw [harchive]
    exact ⟨hkeep, hlast⟩
  · -- the table of contents comes last, and leaves everything else alone
    have hlater : ∀ bytes, m'.archive.look p = some (.file bytes) →
        (DirectoryArchive.publish toc m'.archive).memory.look p = some (.file bytes) := by
      refine fun bytes ↦ (DirectoryArchive.publish_keeps toc m'.archive).2 p bytes hspared.1 ?_
      intro hok
      have hanswer : (DirectoryArchive.writer.publish toc m'.archive).answer = .ok () := hok
      rw [hanswer] at hresult
      exact htable toc hresult
    rw [harchive]
    exact ⟨fun hne bytes hlook ↦ hlater bytes (hkeep hne bytes hlook),
      fun f hf ↦ hlater _ (hlast f hf)⟩

theorem precedes_build :
    m.archive.Precedes (s.build DirectoryArchive.writer timing request m).memory.archive := by
  obtain ⟨m', hreplays, hend⟩ := s.replays_build DirectoryArchive.writer timing request m
  have hprecedes := DirectoryArchive.precedes_of_answers hreplays.archive
  rcases hend with ⟨-, harchive⟩ | ⟨toc, -, harchive⟩
  · rw [harchive]
    exact hprecedes
  · rw [harchive]
    exact hprecedes.trans (DirectoryArchive.publish_keeps toc m'.archive).1

/-- What is stored is described by its descriptor. -/
theorem describes_of_mem_stored {x : Fragment × ArtifactDescriptor}
    (hx : x ∈ Event.stored (s.build DirectoryArchive.writer timing request m).events) :
    x.2.Describes (payload x.1) ∧ m.archive.Speakable x.2.path ∧
      ((∀ job ∈ Event.namings (s.build DirectoryArchive.writer timing request m).events,
        job.2.IsPackage) → x.2.path.IsPackage) := by
  obtain ⟨m', hreplays, -⟩ := s.replays_build DirectoryArchive.writer timing request m
  obtain ⟨call, hw, hfragment⟩ := Event.mem_stored.mp hx
  obtain ⟨hd, hspeakable⟩ := DirectoryArchive.describes_of_answers hreplays.archive hw
  refine ⟨?_, hspeakable, fun hpackages ↦ ?_⟩
  · rw [hd, hfragment]
    exact ⟨rfl, rfl⟩
  · obtain ⟨job, hjob, rfl⟩ := s.exists_naming_of_mem_writes _ timing request m hw
    rw [hd]
    exact WriteCall.isPackage_forFragment _ _ _ (hpackages job hjob)

/-- A descriptor in the table of a successful run is that of an artifact which the run stored. -/
theorem exists_stored_of_listed {toc : TableOfContents}
    (hbuild : (s.build DirectoryArchive.writer timing request m).result = .ok toc)
    {d : ArtifactDescriptor} (hd : d ∈ toc.variantArtifacts ++ toc.sliceArtifacts) :
    ∃ f, (f, d) ∈ Event.stored (s.build DirectoryArchive.writer timing request m).events := by
  obtain ⟨es₁, es₂, hsplit⟩ := List.append_of_mem
    ((s.build_ok_iff DirectoryArchive.writer timing request m).mp hbuild)
  obtain ⟨-, -, -, hlisted⟩ := s.build_publishes DirectoryArchive.writer timing request m hsplit
  obtain ⟨call, hcall⟩ := hlisted d hd
  refine ⟨call.fragment, Event.mem_stored.mpr ⟨call, ?_, rfl⟩⟩
  rw [hsplit, Event.writes_append]
  exact List.mem_append_left _ hcall

/-- After a successful run, its table of contents can be read. -/
theorem readFile_tableFile {workingDirectory : Location} {toc : TableOfContents}
    (hbuild : (s.build DirectoryArchive.writer timing request m).result = .ok toc)
    (hrooted : (s.build DirectoryArchive.writer timing request m).memory.archive.Rooted
      workingDirectory) :
    (s.build DirectoryArchive.writer timing request m).memory.archive.readFile workingDirectory
      tableFile = .ok (TableOfContents.codec.indented toc).toUTF8 := by
  have hname : Route.pieces tableFile.text = [] ++ [DirectoryArchive.tableName] := by decide
  obtain ⟨m', -, ⟨⟨e, hfail⟩, -⟩ | ⟨toc', hresult, harchive⟩⟩ :=
    s.replays_build DirectoryArchive.writer timing request m
  · rw [hfail] at hbuild
    cases hbuild
  · rw [hbuild] at hresult
    obtain ⟨_, hanswer, rfl⟩ := map_eq_ok_iff.mp hresult.symm
    obtain ⟨hspeakable, hlook⟩ := DirectoryArchive.publish_ok hanswer
    obtain ⟨hprecedes, -⟩ := DirectoryArchive.publish_keeps toc' m'.archive
    rw [harchive] at hrooted ⊢
    exact DirectoryArchive.readFile_of_look hrooted hname (by decide)
      (hprecedes.speakable_iff.mpr hspeakable) hlook

/-- **What a successful run leaves behind.** When all names are packages, it is a published archive
exactly when the descriptors fit what was stored last at their places. -/
theorem published_build_iff {workingDirectory : Location} {root : String} {tree tree' : FileTree}
    {notice : Notice} {toc : TableOfContents}
    (hopen : DirectoryArchive.establish workingDirectory root tree =
      (.ok (m.archive, notice), tree'))
    (hbuild : (s.build DirectoryArchive.writer timing request m).result = .ok toc)
    (hpackages : ∀ job ∈ Event.namings (s.build DirectoryArchive.writer timing request m).events,
      job.2.IsPackage) :
    (∀ d ∈ toc.variantArtifacts ++ toc.sliceArtifacts, d.path.IsPackage) ∧
      (Published workingDirectory root
          (s.build DirectoryArchive.writer timing request m).memory.archive.tree toc ↔
        ∀ d ∈ toc.variantArtifacts ++ toc.sliceArtifacts, ∀ f,
          LastAt (Event.stored (s.build DirectoryArchive.writer timing request m).events) d.path f →
            d.Describes (payload f)) := by
  have hprecedes : m.archive.Precedes
      (s.build DirectoryArchive.writer timing request m).memory.archive := precedes_build
  have hrooted := (DirectoryArchive.rooted_of_establish hopen).mono hprecedes
  obtain ⟨-, harchive⟩ := DirectoryArchive.establish_ok hopen
  have hroot : (s.build DirectoryArchive.writer timing request m).memory.archive.root = root := by
    rw [hprecedes.root, harchive]
  have hlisted : ∀ d ∈ toc.variantArtifacts ++ toc.sliceArtifacts, ∃ g,
      (g, d) ∈ Event.stored (s.build DirectoryArchive.writer timing request m).events ∧
        m.archive.Speakable d.path ∧ d.path.IsPackage := by
    intro d hd
    obtain ⟨g, hg⟩ := exists_stored_of_listed hbuild hd
    obtain ⟨-, hspeakable, hpackage⟩ := describes_of_mem_stored hg
    exact ⟨g, hg, hspeakable, hpackage hpackages⟩
  -- whatever was stored last at a listed place outlives the table that was stored after it
  have hread : ∀ d ∈ toc.variantArtifacts ++ toc.sliceArtifacts, ∀ f,
      LastAt (Event.stored (s.build DirectoryArchive.writer timing request m).events) d.path f →
        fileAt workingDirectory root
          (s.build DirectoryArchive.writer timing request m).memory.archive.tree d.path =
            .ok (payload f) := by
    intro d hd f hf
    obtain ⟨-, -, hspeakable, hpackage⟩ := hlisted d hd
    obtain ⟨front, name, hname, hleads, -⟩ := hpackage.exists_name
    obtain ⟨-, hlast⟩ := look_after_build (DirectoryArchive.spared_of_isPackage hpackage _)
      fun _ _ ↦ hpackage.place_ne [] (by decide)
    rw [← hroot]
    exact DirectoryArchive.readFile_of_look hrooted hname hleads
      (hprecedes.speakable_iff.mpr hspeakable) (hlast f hf)
  constructor
  · intro d hd
    obtain ⟨-, -, -, hpackage⟩ := hlisted d hd
    exact hpackage
  · refine DirectoryArchive.published_iff ?_ (fun d hd ↦ ?_) hread fun d hd hne ↦ ?_
    · rw [← hroot]
      exact readFile_tableFile hbuild hrooted
    · obtain ⟨-, -, hspeakable, -⟩ := hlisted d hd
      exact hspeakable.inside
    · -- there is no other file in the table
      obtain ⟨g, hg, -⟩ := hlisted d hd
      exact absurd rfl (hne (g, d) hg)

end

/-- In a run of its own, the standard assigner names packages only. -/
theorem isPackage_of_mem_namings {s : Serializer μ ℓ Naming} {timing : Timing}
    {request : BuildRequest} {m : Memory μ ℓ Naming DirectoryArchive}
    (hassigner : s.assigner = Naming.standard) :
    ∀ job ∈ Event.namings (s.build DirectoryArchive.writer timing request m).events,
      job.2.IsPackage := by
  intro job hjob
  obtain ⟨m', hreplays, -⟩ := s.replays_build DirectoryArchive.writer timing request m
  exact Naming.isPackage_of_replays (hassigner ▸ hreplays) hjob

/-- In a run of its own, the writer is asked for packages only. -/
theorem isPackage_of_mem_writes {s : Serializer μ ℓ Naming} {timing : Timing}
    {request : BuildRequest} {m : Memory μ ℓ Naming DirectoryArchive}
    (hassigner : s.assigner = Naming.standard) :
    ∀ w ∈ Event.writes (s.build DirectoryArchive.writer timing request m).events,
      w.1.target.IsPackage := by
  intro w hw
  obtain ⟨job, hjob, hcall⟩ := s.exists_naming_of_mem_writes _ timing request m hw
  rw [hcall]
  exact WriteCall.isPackage_forFragment _ _ _ (isPackage_of_mem_namings hassigner job hjob)

/-- A run that stores one artifact leaves a published archive, since nothing was stored over. -/
theorem published_of_single {s : Serializer μ ℓ Naming} {timing : Timing}
    {request : BuildRequest} {m : Memory μ ℓ Naming DirectoryArchive}
    {workingDirectory : Location} {root : String} {tree tree' : FileTree} {notice : Notice}
    {toc : TableOfContents} (hassigner : s.assigner = Naming.standard)
    (hopen : DirectoryArchive.establish workingDirectory root tree =
      (.ok (m.archive, notice), tree'))
    (hbuild : (s.build DirectoryArchive.writer timing request m).result = .ok toc)
    (hone : (Event.stored (s.build DirectoryArchive.writer timing request m).events).length = 1) :
    Published workingDirectory root
      (s.build DirectoryArchive.writer timing request m).memory.archive.tree toc := by
  refine (published_build_iff hopen hbuild (isPackage_of_mem_namings hassigner)).2.mpr ?_
  rintro d hd f ⟨before, d', after, hstored, -⟩
  obtain ⟨g, hg⟩ := exists_stored_of_listed hbuild hd
  obtain ⟨x, hx⟩ := List.length_eq_one_iff.mp hone
  have hf : (f, d') ∈ [x] := by
    rw [← hx, hstored]
    exact List.mem_append_right _ List.mem_cons_self
  have hdescribes := (describes_of_mem_stored hg).1
  rw [hx] at hg
  have hsame : (f, d') = (g, d) :=
    (List.mem_singleton.mp hf).trans (List.mem_singleton.mp hg).symm
  rw [(Prod.mk.inj hsame).1]
  exact hdescribes

/-- The size of the file that a descriptor names. -/
private def sizeAt (tree : FileTree) (d : ArtifactDescriptor) : Option UInt64 :=
  (fileAt [] "/r" tree d.path).toOption.map (UInt64.ofNat ·.size)

/-- Two runs on one directory: the first one leaves a published archive, and the second one fails
and leaves a listed file with another size. That much can be computed; the rest is said of any two
runs, so that no digest is. -/
private theorem exists_replaced {s : Serializer μ ℓ Naming} {request request' : BuildRequest}
    {m : Memory μ ℓ Naming DirectoryArchive} {tree tree' : FileTree} {notice : Notice}
    {earlier : Outcome (Memory μ ℓ Naming DirectoryArchive) TableOfContents}
    (hearlier : s.build DirectoryArchive.writer .inOrder request m = earlier)
    (hassigner : s.assigner = Naming.standard)
    (hopen : DirectoryArchive.establish [] "/r" tree = (.ok (m.archive, notice), tree'))
    (hone : (Event.stored earlier.events).length = 1)
    (hruns : (earlier.result.toOption.bind fun toc ↦
      (DirectoryArchive.establish [] "/r" earlier.memory.archive.tree).1.toOption.map fun opened ↦
        let later :=
          s.build DirectoryArchive.writer .inOrder request' { m with archive := opened.1 }
        later.result.toOption.isNone && toc.variantArtifacts.any fun d ↦
          sizeAt later.memory.archive.tree d ≠ sizeAt earlier.memory.archive.tree d) =
      some true) :
    ∃ toc archive notice tree,
      earlier.result = .ok toc ∧ Published [] "/r" earlier.memory.archive.tree toc ∧
      DirectoryArchive.establish [] "/r" earlier.memory.archive.tree =
        (.ok (archive, notice), tree) ∧
      let later := s.build DirectoryArchive.writer .inOrder request' { m with archive }
      (∃ e, later.result = .error e) ∧ ¬Published [] "/r" later.memory.archive.tree toc ∧
        ∃ d ∈ toc.variantArtifacts, fileAt [] "/r" later.memory.archive.tree d.path ≠
          fileAt [] "/r" earlier.memory.archive.tree d.path := by
  subst hearlier
  obtain ⟨toc, htoc, hruns⟩ := Option.bind_eq_some_iff.mp hruns
  obtain ⟨⟨archive, notice⟩, hagain, hboth⟩ := Option.map_eq_some_iff.mp hruns
  rw [Bool.and_eq_true, List.any_eq_true] at hboth
  obtain ⟨hfailed, d, hd, hsizes⟩ := hboth
  have hne := of_decide_eq_true hsizes
  have hresult := toOption_eq_some_iff.mp htoc
  have hpublished := published_of_single hassigner hopen hresult hone
  refine ⟨toc, archive, notice, _, hresult, hpublished,
    Prod.ext (toOption_eq_some_iff.mp hagain) rfl, ?_, fun hstill ↦ ?_, d, hd, fun heq ↦ ?_⟩
  · exact exists_error_of_isNone hfailed
  · obtain ⟨bytes, hread, hsize, -⟩ := hpublished.files d (List.mem_append_left _ hd)
    obtain ⟨bytes', hread', hsize', -⟩ := hstill.files d (List.mem_append_left _ hd)
    refine hne ?_
    rw [sizeAt, sizeAt, hread, hread']
    exact congrArg some (hsize'.symm.trans hsize)
  · exact hne (congrArg (fun read ↦ read.toOption.map (UInt64.ofNat ·.size)) heq)

end Serializer

end FragmentArchive
