import FragmentArchive.Proofs.Requests

/-!
# What an archive keeps

An archive refuses to write a path twice, and is meant to keep what it has accepted. It compares
paths as text, though, and knows neither its own temporary names nor that of the table of contents,
so a file can be lost to a request for another path: one that spells the same place differently, or
one whose temporary file comes to stand there. These are the only ways. Whether a file is kept by a
sequence of requests is decided by each of them alone, and among packages with one spelling for each
place nothing is lost.
-/

namespace FragmentArchive.DirectoryArchive

/-! ## Requests that are in the way of a file -/

namespace Request

/-- A request takes the content of a file away: other bytes are stored at its place, or nothing is
stored there and the temporary file was. -/
def Spoils (r : Request) (archive : DirectoryArchive) (p : ArchivePath) (bytes : ByteArray) :
    Prop :=
  r.StoresAt archive p ∧ r.content ≠ bytes ∨ ¬r.StoresAt archive p ∧ r.PassesThrough archive p

/-- A request stores a table of contents. -/
def Publishes (r : Request) (archive : DirectoryArchive) : Prop :=
  (∃ toc, r = .publish toc) ∧ r.Succeeds archive

/-- A request that, if it is for an artifact, is for a package with the one spelling of its
place. -/
def IsPlain (r : Request) : Prop :=
  ∀ call, r = .add call → call.target.IsTidy ∧ call.target.IsPackage

end Request

variable {archive : DirectoryArchive} {p : ArchivePath} {bytes : ByteArray} {r : Request}
  {rs : List Request} {workingDirectory : Location}

/-- What stands at the place of a path is what is read under it. -/
structure Reads (workingDirectory : Location) (p : ArchivePath) (archive : DirectoryArchive) :
    Prop where
  reachable : archive.Reachable p
  rooted : archive.Rooted workingDirectory

theorem Reads.serve (h : archive.Reads workingDirectory p) (r : Request) :
    (r.serve archive).Reads workingDirectory p :=
  ⟨h.reachable.mono (precedes_serve r archive), h.rooted.mono (precedes_serve r archive)⟩

theorem Reads.readFile_iff (h : archive.Reads workingDirectory p) :
    archive.readFile workingDirectory p = .ok bytes ↔ archive.look p = some (.file bytes) :=
  h.reachable.readFile_iff h.rooted

/-! ## Artifacts -/

/-- A file that can be read is lost to the request that spoils it, and to no other. -/
theorem readFile_serve_iff (h : archive.Reads workingDirectory p)
    (hread : archive.readFile workingDirectory p = .ok bytes) :
    (r.serve archive).readFile workingDirectory p = .ok bytes ↔ ¬r.Spoils archive p bytes := by
  obtain ⟨hstores, hpasses, hkeeps⟩ := look_serve r h.reachable (h.readFile_iff.mp hread)
  rw [(h.serve r).readFile_iff, Request.Spoils, not_or]
  by_cases hstored : r.StoresAt archive p
  · rw [hstores hstored]
    constructor
    · intro heq
      have hcontent : r.content = bytes := FileTree.Node.file.inj (Option.some.inj heq)
      exact ⟨fun hspoils ↦ hspoils.2 hcontent, fun hspoils ↦ hspoils.1 hstored⟩
    · rintro ⟨hsame, -⟩
      rw [Classical.not_not.mp fun hne ↦ hsame ⟨hstored, hne⟩]
  · by_cases hpass : r.PassesThrough archive p
    · rw [hpasses hstored hpass]
      exact iff_of_false nofun fun hspoils ↦ hspoils.2 ⟨hstored, hpass⟩
    · rw [hkeeps hstored hpass]
      exact iff_of_true rfl ⟨fun hspoils ↦ hstored hspoils.1, fun hspoils ↦ hpass hspoils.2⟩

/-- **A file that was stored is kept by exactly those sequences in which no request spoils it.** -/
theorem throughout_readFile_iff (h : archive.Reads workingDirectory p)
    (hread : archive.readFile workingDirectory p = .ok bytes) (rs : List Request) :
    archive.Throughout (·.readFile workingDirectory p = .ok bytes) rs ↔
      ForEach (fun r archive ↦ ¬r.Spoils archive p bytes) archive rs :=
  throughout_iff_forEach (I := Reads workingDirectory p) (N := fun _ _ ↦ True)
    (fun r _ hreads ↦ hreads.serve r) (fun _ _ hreads _ hread ↦ readFile_serve_iff hreads hread) h
    (forEach_of_invariant (fun r _ hreads ↦ hreads.serve r) (fun _ _ _ _ ↦ trivial) h) hread

/-- A path that was asked for stays used up. -/
theorem mem_written_serve (r : Request) (h : p ∈ archive.written) :
    p ∈ (r.serve archive).written := by
  cases r with
  | add call => exact mem_written_add_iff.mpr (.inl h)
  | publish toc =>
    rw [Request.serve, written_publish]
    exact h

/-- A package with one spelling is not spoiled once its path is used up. -/
theorem not_spoils_of_isPlain (htidy : p.IsTidy) (hpackage : p.IsPackage) (hr : r.IsPlain)
    (hwritten : p ∈ archive.written) : ¬r.Spoils archive p bytes := by
  rintro (⟨⟨hsucceeds, hplace⟩, -⟩ | ⟨-, d, -, htemporary, -⟩)
  · cases r with
    | add call =>
      -- the place has no other spelling, and this one is refused
      obtain ⟨d, hd⟩ := hsucceeds
      obtain ⟨hdescribe, hfresh, -⟩ := add_ok hd
      have hpath : d.path = p := by
        rw [hdescribe]
        exact (hr call rfl).1.eq_of_place_eq htidy hplace
      exact hfresh (hpath ▸ hwritten)
    | publish toc =>
      have hne : p.place ≠ tableFile.place := hpackage.place_ne [] (by decide)
      exact hne hplace.symm
  · exact hpackage.temporaryPlace_ne d htemporary

/-! ## The table of contents -/

/-- A table of contents that can be read is lost to the artifact that is stored in its place, and to
no other. -/
theorem readTable_serve_iff {toc : TableOfContents}
    (h : archive.Reads workingDirectory tableFile) (hr : ¬r.Publishes archive)
    (hread : readTable workingDirectory archive.root archive.tree = .ok toc) :
    readTable workingDirectory archive.root (r.serve archive).tree = .ok toc ↔
      ¬r.StoresAt archive tableFile := by
  obtain ⟨bytes, hlook, hdocument⟩ := (h.reachable.readTable_iff h.rooted).mp hread
  obtain ⟨hstores, -, hkeeps⟩ := look_serve r h.reachable hlook
  rw [← (precedes_serve r archive).root, (h.serve r).reachable.readTable_iff (h.serve r).rooted]
  by_cases hstored : r.StoresAt archive tableFile
  · refine iff_of_false ?_ (not_not_intro hstored)
    rw [hstores hstored]
    rintro ⟨bytes', hbytes, hdocument'⟩
    cases r with
    | add call =>
      obtain rfl : payload call.fragment = bytes' :=
        FileTree.Node.file.inj (Option.some.inj hbytes)
      exact readDocument_payload_ne _ hdocument'
    | publish toc' => exact hr ⟨⟨toc', rfl⟩, hstored.1⟩
  · have hpass : ¬r.PassesThrough archive tableFile := fun ⟨d, _, htemporary, _⟩ ↦
      d.temporaryPlace_ne [] (by decide) (by decide) htemporary
    exact iff_of_true ⟨bytes, hkeeps hstored hpass, hdocument⟩ hstored

/-- **A table of contents is kept until an artifact is stored in its place**, or another table. -/
theorem throughout_readTable_iff {toc : TableOfContents} {root : String}
    (h : archive.Reads workingDirectory tableFile) (hroot : archive.root = root)
    (hrs : ForEach (fun r archive ↦ ¬r.Publishes archive) archive rs)
    (hread : readTable workingDirectory root archive.tree = .ok toc) :
    archive.Throughout (readTable workingDirectory root ·.tree = .ok toc) rs ↔
      ForEach (fun r archive ↦ ¬r.StoresAt archive tableFile) archive rs := by
  refine throughout_iff_forEach
    (I := fun archive ↦ archive.Reads workingDirectory tableFile ∧ archive.root = root)
    (fun r archive ⟨hreads, hroot⟩ ↦
      ⟨hreads.serve r, (precedes_serve r archive).root.trans hroot⟩) ?_ ⟨h, hroot⟩ hrs hread
  rintro r archive ⟨hreads, rfl⟩ hr hread
  exact readTable_serve_iff hreads hr hread

/-- No package is stored in the place of the table of contents. -/
theorem not_storesAt_tableFile (hr : r.IsPlain) (hpublish : ¬r.Publishes archive) :
    ¬r.StoresAt archive tableFile := by
  rintro ⟨hsucceeds, hplace⟩
  cases r with
  | add call => exact (hr call rfl).2.place_ne [] (by decide) hplace
  | publish toc => exact hpublish ⟨⟨toc, rfl⟩, hsucceeds⟩

/-! ## Everything that was accepted -/

/-- What can be read right after a request that succeeded. -/
private theorem reads_after (hrooted : archive.Rooted workingDirectory) (h : r.Succeeds archive) :
    (r.serve archive).Reads workingDirectory r.path ∧
      (r.serve archive).readFile workingDirectory r.path = .ok r.content := by
  obtain ⟨hreachable, hlook⟩ := stored_of_succeeds h
  have hreads : (r.serve archive).Reads workingDirectory r.path :=
    ⟨hreachable, hrooted.mono (precedes_serve r archive)⟩
  exact ⟨hreads, hreads.readFile_iff.mpr hlook⟩

/-- The file of an accepted artifact is unchanged after every prefix of some requests. -/
def KeepsArtifact (workingDirectory : Location) (archive : DirectoryArchive) (f : Fragment)
    (p : ArchivePath) (rs : List Request) : Prop :=
  archive.Throughout (·.readFile workingDirectory p = .ok (payload f)) rs

/-- A table of contents is read back from a root after every prefix of some requests. -/
def KeepsTable (workingDirectory : Location) (root : String) (archive : DirectoryArchive)
    (toc : TableOfContents) (rs : List Request) : Prop :=
  archive.Throughout (readTable workingDirectory root ·.tree = .ok toc) rs

private theorem keepsArtifact_iff (hrooted : archive.Rooted workingDirectory) {call : WriteCall}
    {d : ArtifactDescriptor} (h : (add call archive).answer = .ok d) :
    ((add call archive).memory.KeepsArtifact workingDirectory call.fragment d.path rs ↔
      ForEach (fun r archive ↦ ¬r.Spoils archive d.path (payload call.fragment))
        (add call archive).memory rs) ∧
    (d.path.IsTidy → d.path.IsPackage → (∀ r ∈ rs, r.IsPlain) →
      (add call archive).memory.KeepsArtifact workingDirectory call.fragment d.path rs) := by
  have hwritten : d.path ∈ (add call archive).memory.written := by
    rw [written_add h]
    exact List.mem_cons_self
  have hpath : d.path = call.target := by rw [(add_ok h).1, describe]
  obtain ⟨hreads, hread⟩ := reads_after (r := .add call) hrooted ⟨d, h⟩
  rw [hpath] at hwritten ⊢
  have hiff := throughout_readFile_iff hreads hread rs
  refine ⟨hiff, fun htidy hpackage hplain ↦ hiff.mpr ?_⟩
  exact forEach_of_invariant (I := (call.target ∈ ·.written))
    (fun r _ hmem ↦ mem_written_serve r hmem)
    (fun r hr _ hmem ↦ not_spoils_of_isPlain htidy hpackage (hplain r hr) hmem) hwritten

private theorem keepsTable_iff (hrooted : archive.Rooted workingDirectory) {root : String}
    (hroot : archive.root = root) {toc : TableOfContents}
    (h : (publish toc archive).answer = .ok ())
    (hlast : ForEach (fun r archive ↦ ¬r.Publishes archive) (publish toc archive).memory rs) :
    (KeepsTable workingDirectory root (publish toc archive).memory toc rs ↔
      ForEach (fun r archive ↦ ¬r.StoresAt archive tableFile) (publish toc archive).memory rs) ∧
    ((∀ r ∈ rs, r.IsPlain) →
      KeepsTable workingDirectory root (publish toc archive).memory toc rs) := by
  obtain ⟨hreads, hread⟩ := reads_after (r := .publish toc) hrooted h
  have htable := (hreads.reachable.readTable_iff hreads.rooted).mpr
    ⟨_, hreads.readFile_iff.mp hread, readDocument_indented toc⟩
  have hroot' := (precedes_serve (.publish toc) archive).root.trans hroot
  have hiff := throughout_readTable_iff hreads hroot' hlast (hroot' ▸ htable)
  refine ⟨hiff, fun hplain ↦ hiff.mpr ?_⟩
  exact hlast.imp fun r hr _ hpublish ↦ not_storesAt_tableFile (hplain r hr) hpublish

/-- **What becomes of the accepted artifacts and the last table of contents.** An artifact is found
unchanged under its path after every prefix of the later requests exactly when none of them spoils
it, and a table is read back exactly when no artifact is stored in its place. As long as all
artifacts are packages with one spelling for each place, this never happens. -/
theorem accepted_files_are_kept_iff {root : String} {tree tree' : FileTree} {notice : Notice}
    (hopen : establish workingDirectory root tree = (.ok (archive, notice), tree'))
    (before after : List Request) :
    (∀ call d, (add call (archive.after before)).answer = .ok d →
      ((add call (archive.after before)).memory.KeepsArtifact workingDirectory call.fragment d.path
          after ↔
        ForEach (fun r archive ↦ ¬r.Spoils archive d.path (payload call.fragment))
          (add call (archive.after before)).memory after) ∧
      (d.path.IsTidy → d.path.IsPackage → (∀ r ∈ after, r.IsPlain) →
        (add call (archive.after before)).memory.KeepsArtifact workingDirectory call.fragment d.path
          after)) ∧
    (∀ toc, (publish toc (archive.after before)).answer = .ok () →
      ForEach (fun r archive ↦ ¬r.Publishes archive) (publish toc (archive.after before)).memory
        after →
      (KeepsTable workingDirectory root (publish toc (archive.after before)).memory toc after ↔
        ForEach (fun r archive ↦ ¬r.StoresAt archive tableFile)
          (publish toc (archive.after before)).memory after) ∧
      ((∀ r ∈ after, r.IsPlain) →
        KeepsTable workingDirectory root (publish toc (archive.after before)).memory toc
          after)) := by
  have hearlier := precedes_after archive before
  have hrooted := (rooted_of_establish hopen).mono hearlier
  have hroot : (archive.after before).root = root := by
    rw [hearlier.root, (establish_ok hopen).2]
  exact ⟨fun _ _ h ↦ keepsArtifact_iff hrooted h,
    fun _ h hlast ↦ keepsTable_iff hrooted hroot h hlast⟩

/-- A second spelling of a path is accepted and takes the artifact away. -/
theorem respelt_path_loses_artifact :
    let first : WriteCall :=
      ⟨.split, .untargeted ⟨"base"⟩ .split (.ofPackage "p"), some ⟨"x//y.apk"⟩⟩
    let second : WriteCall :=
      ⟨.split, .untargeted ⟨"base"⟩ .split (.ofPackage "q"), some ⟨"x/y.apk"⟩⟩
    let archive : DirectoryArchive := ⟨"/r", ["r"], .directory [("r", .directory [])], []⟩
    establish [] "/r" .empty = (.ok (archive, .opened "/r"), archive.tree) ∧
      ∃ d, (add first archive).answer = .ok d ∧
        ¬(add first archive).memory.KeepsArtifact [] first.fragment d.path [.add second] := by
  intro first second archive
  have hopen : establish [] "/r" .empty = (.ok (archive, .opened "/r"), archive.tree) :=
    establish_empty
  have hfirst : (add first archive).answer.toOption.isSome := by decide +kernel
  have hsecond : (add second (add first archive).memory).answer.toOption.isSome := by
    decide +kernel
  obtain ⟨d, hd⟩ := Option.isSome_iff_exists.mp hfirst
  obtain ⟨d', hd'⟩ := Option.isSome_iff_exists.mp hsecond
  rw [toOption_eq_some_iff] at hd hd'
  have hplace : second.target.place = first.target.place := by decide +kernel
  have hpath : d.path = first.target := by rw [(add_ok hd).1, describe]
  have hcontent : payload second.fragment ≠ payload first.fragment := fun heq ↦
    absurd (congrArg (·.manifest.packageName) (payload_inj heq)) (by decide)
  refine ⟨hopen, d, hd, fun hkeeps ↦ ?_⟩
  obtain ⟨hspared, -⟩ :=
    ((accepted_files_are_kept_iff hopen [] [.add second]).1 first d hd).1.mp hkeeps
  exact hspared (.inl ⟨⟨⟨d', hd'⟩, hpath ▸ hplace⟩, hcontent⟩)

end FragmentArchive.DirectoryArchive
