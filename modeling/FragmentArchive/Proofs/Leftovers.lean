import FragmentArchive.Proofs.FailedRun

/-!
# Nothing but what was stored

A request that succeeds adds one file to an archive, at the place of its path; a request that fails
adds none, because its temporary file can be removed wherever it could be written. This is the one
half: whatever file is found after a run was there before or was stored. The other half is that what
was stored is not taken away again, and it needs the names. All artifacts are packages, and neither
a temporary file nor the table of contents is at the place of a package.

Directories are left out of account. Those that were made on the way to a file stay, whether or not
the file was written in the end. And as always in a schedule, a request is carried out as a whole;
it is so with a single worker, or with several that take turns.
-/

namespace FragmentArchive

/-! ## Where files come from -/

namespace DirectoryArchive

/-- There is a file at a place below the root. -/
def HasFile (archive : DirectoryArchive) (l : Location) : Prop :=
  ∃ bytes, archive.tree.look (archive.location ++ l) = some (.file bytes)

variable {archive archive' : DirectoryArchive} {l : Location}

/-- Opening an archive where there are no files gives one without files. -/
theorem not_hasFile_of_establish {workingDirectory : Location} {root : String}
    {tree tree' : FileTree} {notice : Notice}
    (h : establish workingDirectory root tree = (.ok (archive, notice), tree'))
    (hempty : ∀ l bytes, tree.look l ≠ some (.file bytes)) (l : Location) :
    ¬archive.HasFile l := by
  obtain ⟨hmade, rfl⟩ := establish_ok h
  obtain ⟨hgrows, -⟩ := FileTree.makeDirectories_ok hmade
  rintro ⟨bytes, hl⟩
  exact hempty _ bytes (hgrows.look_file hl)

private theorem hasFile_of_write {d : Destination} {content : ByteArray}
    {result : Except FileFault Unit} (hd : d.Proper)
    (h : archive.write d content = (result, archive')) (hl : archive'.HasFile l) :
    archive.HasFile l ∨ result = .ok () ∧ d.place = l := by
  obtain ⟨tree, hwrite, rfl⟩ := write_eq h
  obtain ⟨bytes, hbytes⟩ := hl
  rcases Destination.file_of_write hd hwrite hbytes with hlook | ⟨hok, hplace⟩
  · exact .inl ⟨bytes, hlook⟩
  · exact .inr ⟨hok, (List.append_cancel_left hplace).symm⟩

/-- **A request adds one file at most**, namely the artifact, when it succeeds. -/
theorem hasFile_of_add {call : WriteCall} (h : (add call archive).memory.HasFile l) :
    archive.HasFile l ∨ (∃ d, (add call archive).answer = .ok d) ∧ call.target.place = l := by
  rcases add_cases call archive with ⟨-, -, hsame⟩ |
    ⟨destination, result, hdestination, -, hwrite, hanswer⟩
  · rw [hsame] at h
    exact .inl h
  · obtain ⟨hproper, -⟩ := Destination.ofPath?_eq_some hdestination
    refine (hasFile_of_write hproper hwrite h).imp_right ?_
    rintro ⟨rfl, rfl⟩
    rcases hanswer with ⟨-, fault, hfault⟩ | ⟨hok, -⟩
    · cases hfault
    · exact ⟨⟨_, hok⟩, ArchivePath.place_eq_of_ofPath? hdestination⟩

/-- The table of contents is the only file that comes with it. -/
theorem hasFile_of_publish {toc : TableOfContents} (h : (publish toc archive).memory.HasFile l) :
    archive.HasFile l ∨ (publish toc archive).answer = .ok () ∧ l = tableFile.place := by
  obtain ⟨result, hwrite, hiff⟩ := publish_cases toc archive
  obtain ⟨hproper, -⟩ := Destination.ofPath?_eq_some ofPath?_tableFile
  refine (hasFile_of_write hproper hwrite h).imp_right ?_
  rintro ⟨hok, rfl⟩
  exact ⟨hiff.mp hok, (ArchivePath.place_eq_of_ofPath? ofPath?_tableFile).symm⟩

/-- After a sequence of requests, what is found was there before or is an artifact. -/
theorem hasFile_of_answers {ws : List (WriteCall × Except Error ArtifactDescriptor)}
    (h : writer.Answers archive ws archive') (hl : archive'.HasFile l) :
    archive.HasFile l ∨ ∃ call d, (call, .ok d) ∈ ws ∧ call.target.place = l := by
  induction ws generalizing archive with
  | nil =>
    obtain rfl : archive' = archive := h
    exact .inl hl
  | cons w ws ih =>
    obtain ⟨call, answer⟩ := w
    obtain ⟨hanswer, hrest⟩ := h
    rcases ih hrest with hl | ⟨call', d, hw, hplace⟩
    · refine (hasFile_of_add hl).imp_right ?_
      rintro ⟨⟨d, hd⟩, hplace⟩
      obtain rfl : answer = .ok d := hanswer.symm.trans hd
      exact ⟨call, d, List.mem_cons_self, hplace⟩
    · exact .inr ⟨call', d, List.mem_cons_of_mem _ hw, hplace⟩

end DirectoryArchive

/-! ## Runs -/

namespace Serializer

open DirectoryArchive (tableFile)

variable {μ ℓ π : Type}

section

variable {s : Serializer μ ℓ π} {timing : Timing} {request : BuildRequest}
  {m : Memory μ ℓ π DirectoryArchive} {l : Location}

/-- What is found after a build was there before, or it is an artifact that was stored, or the table
of contents of a build that succeeded. -/
theorem hasFile_of_build
    (h : (s.build DirectoryArchive.writer timing request m).memory.archive.HasFile l) :
    m.archive.HasFile l ∨
      (∃ call d, (call, .ok d) ∈
          Event.writes (s.build DirectoryArchive.writer timing request m).events ∧
        call.target.place = l) ∨
      l = tableFile.place ∧
        ∃ toc, (s.build DirectoryArchive.writer timing request m).result = .ok toc := by
  obtain ⟨m', hreplays, hend⟩ := s.replays_build DirectoryArchive.writer timing request m
  rcases hend with ⟨-, harchive⟩ | ⟨toc, hresult, harchive⟩
  · rw [harchive] at h
    exact (DirectoryArchive.hasFile_of_answers hreplays.archive h).imp_right .inl
  · rw [harchive] at h
    rcases DirectoryArchive.hasFile_of_publish h with h | ⟨hanswer, hplace⟩
    · exact (DirectoryArchive.hasFile_of_answers hreplays.archive h).imp_right .inl
    · have hok : (DirectoryArchive.writer.publish toc m'.archive).answer = .ok () := hanswer
      refine .inr (.inr ⟨hplace, toc, ?_⟩)
      rw [hresult, hok]
      rfl

/-- A build that succeeds leaves its table of contents behind. -/
theorem hasFile_tableFile {toc : TableOfContents}
    (h : (s.build DirectoryArchive.writer timing request m).result = .ok toc) :
    (s.build DirectoryArchive.writer timing request m).memory.archive.HasFile tableFile.place := by
  obtain ⟨m', -, ⟨⟨e, hfail⟩, -⟩ | ⟨toc', hresult, harchive⟩⟩ :=
    s.replays_build DirectoryArchive.writer timing request m
  · rw [hfail] at h
    cases h
  · rw [h] at hresult
    obtain ⟨_, hanswer, -⟩ := map_eq_ok_iff.mp hresult.symm
    rw [harchive]
    exact ⟨_, (DirectoryArchive.publish_ok hanswer).2⟩

end

/-- **Nothing is left but what was stored.** When there are no files below the root of an archive,
as in one that was opened on an empty directory, then after a build, whether or not it succeeds, the
files below the root are those at the paths of the artifacts that were stored, and the table of
contents if the build succeeded. In particular there are no temporary files, and neither an artifact
nor its temporary file is ever at the place of the table. -/
theorem only_stored_files_are_left {s : Serializer μ ℓ Naming}
    (hassigner : s.assigner = Naming.standard) (timing : Timing) (request : BuildRequest)
    (m : Memory μ ℓ Naming DirectoryArchive) (hempty : ∀ l, ¬m.archive.HasFile l) :
    let out := s.build DirectoryArchive.writer timing request m
    out.memory.archive.location = m.archive.location ∧
      (∀ l, out.memory.archive.HasFile l ↔
        (∃ call d, (call, .ok d) ∈ Event.writes out.events ∧ call.target.place = l) ∨
          l = tableFile.place ∧ ∃ toc, out.result = .ok toc) ∧
      (∀ d : Destination, ¬out.memory.archive.HasFile d.temporaryPlace) ∧
      ∀ w ∈ Event.writes out.events,
        w.1.target.place ≠ tableFile.place ∧ w.1.Spares tableFile := by
  intro out
  have hpackage : ∀ w ∈ Event.writes out.events, w.1.target.IsPackage :=
    isPackage_of_mem_writes hassigner
  have hfiles : ∀ l, out.memory.archive.HasFile l ↔
      (∃ call d, (call, .ok d) ∈ Event.writes out.events ∧ call.target.place = l) ∨
        l = tableFile.place ∧ ∃ toc, out.result = .ok toc := by
    intro l
    constructor
    · intro hl
      exact (hasFile_of_build hl).resolve_left (hempty l)
    · rintro (⟨call, d, hw, rfl⟩ | ⟨rfl, toc, htoc⟩)
      · -- the last artifact at this place is still there
        have hp := hpackage _ hw
        obtain ⟨m', hreplays, -⟩ := s.replays_build DirectoryArchive.writer timing request m
        obtain ⟨hd, -⟩ := DirectoryArchive.describes_of_answers hreplays.archive hw
        have hstored : (call.fragment, d) ∈ Event.stored out.events :=
          Event.mem_stored.mpr ⟨call, hw, rfl⟩
        have hplace : d.path.place = call.target.place := by rw [hd]; rfl
        obtain ⟨f, hf⟩ := DirectoryArchive.exists_lastAt hstored hplace
        obtain ⟨-, hlast⟩ := look_after_build (DirectoryArchive.spared_of_isPackage hp _)
          fun _ _ ↦ hp.place_ne [] (by decide)
        exact ⟨_, hlast f hf⟩
      · exact hasFile_tableFile htoc
  have htable : ∀ d : Destination, d.temporaryPlace ≠ tableFile.place := fun d ↦
    d.temporaryPlace_ne [] (by decide) (by decide)
  refine ⟨precedes_build.location, hfiles, fun d hd ↦ ?_, fun w hw ↦ ⟨?_, fun d _ ↦ htable d⟩⟩
  · rcases (hfiles _).mp hd with ⟨call, d', hw, hplace⟩ | ⟨hplace, -⟩
    · exact (hpackage _ hw).temporaryPlace_ne d hplace.symm
    · exact htable d hplace
  · exact (hpackage w hw).place_ne [] (by decide)

/-- The artifact of the second module would need a directory where the first one is a file. The run
fails, and the first artifact is all there is. -/
theorem file_in_the_way_leaves_the_first_artifact :
    let f : Fragment := { Fragment.untargeted .base .split (.ofPackage "p") with isMaster := true }
    let g : Fragment := { f with module := ⟨"base-master.apk/x"⟩, isBaseModule := false }
    let s := plain { Bundle.ofPackage "p" with
      modules := [.independent .base .feature (.ofPackage "p"),
        .independent ⟨"base-master.apk/x"⟩ .feature (.ofPackage "p")] }
    let m : Memory Unit Unit Naming DirectoryArchive :=
      ⟨(), (), ∅, "/r", ["r"], .directory [("r", .directory [])], []⟩
    let out := s.build DirectoryArchive.writer .inOrder ⟨[f, g], [], .default, none, default, []⟩ m
    (∃ e, out.result = .error e) ∧
      ∀ l, out.memory.archive.HasFile l ↔ l = ["splits", "base-master.apk"] := by
  intro f g s m out
  have hnone : ∀ l bytes, FileTree.empty.look l ≠ some (.file bytes) := by
    intro l bytes
    cases l <;> nofun
  have hempty := DirectoryArchive.not_hasFile_of_establish DirectoryArchive.establish_empty hnone
  have hfailed : out.result.toOption.isNone = true := by decide +kernel
  have hwrites : (Event.writes out.events).map (fun w ↦ (w.1.target.place, w.2.toOption.isSome)) =
      [(["splits", "base-master.apk"], true),
        (["splits", "base-master.apk", "x-master.apk"], false)] := by
    decide +kernel
  have hfiles : ∀ l, out.memory.archive.HasFile l ↔
      (∃ call d, (call, .ok d) ∈ Event.writes out.events ∧ call.target.place = l) ∨
        l = tableFile.place ∧ ∃ toc, out.result = .ok toc :=
    (only_stored_files_are_left (s := s) rfl .inOrder ⟨[f, g], [], .default, none, default, []⟩ m
      hempty).2.1
  -- what is needed of the run is known now, and it need not be looked at again
  clear_value out
  obtain ⟨e, hresult⟩ := exists_error_of_isNone hfailed
  refine ⟨⟨e, hresult⟩, fun l ↦ ?_⟩
  rw [hfiles, hresult]
  constructor
  · rintro (⟨call, d, hw, rfl⟩ | ⟨-, toc, htoc⟩)
    · have hmem : (call.target.place, true) ∈ (Event.writes out.events).map
          (fun w ↦ (w.1.target.place, w.2.toOption.isSome)) := List.mem_map.mpr ⟨_, hw, rfl⟩
      rw [hwrites] at hmem
      simpa using hmem
    · cases htoc
  · rintro rfl
    have hmem : (["splits", "base-master.apk"], true) ∈ (Event.writes out.events).map
        (fun w ↦ (w.1.target.place, w.2.toOption.isSome)) := by
      rw [hwrites]
      exact List.mem_cons_self
    obtain ⟨⟨call, answer⟩, hw, heq⟩ := List.mem_map.mp hmem
    obtain ⟨hplace, hsome⟩ := Prod.mk.inj heq
    obtain ⟨d, rfl⟩ := exists_ok_of_isSome hsome
    exact .inl ⟨call, d, hw, hplace⟩

end Serializer

end FragmentArchive
