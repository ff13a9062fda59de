import FragmentArchive.Proofs.Divergence
import FragmentArchive.Proofs.Leftovers

/-!
# Rebuilding

A build is made a second time, in an archive that is opened on the directory which the first build
left behind. Every step of the second build meets all that the first one has made in the end, not
only what was there when the first one came this far. Directories on the way are there already, and
a destination holds the artifact that was stored there last, so both are no obstacle. Temporary
files are another matter. The name of such a file is fixed by that of the artifact, and where the
first build has put it there can be a directory now, made on the way to a later artifact. Then the
file cannot be written and the second build fails. Nothing else can go wrong.

## How the directories are compared

While the second build goes on, the directory looks as it will in the end, except that an artifact
can be an earlier one that was stored at its place. That one is what the first build had there at
the same moment. So when both builds have come to their ends, nothing is left of the difference.
-/

namespace FragmentArchive

namespace DirectoryArchive

variable {archive archive' between again : DirectoryArchive} {last : FileTree}

/-! ## Opening again -/

/-- An archive can be opened again as long as no directory goes, and nothing is made. -/
theorem establish_again {workingDirectory : Location} {root : String} {tree tree' : FileTree}
    {notice : Notice}
    (h : establish workingDirectory root tree = (.ok (archive, notice), tree'))
    (hlater : archive.Precedes archive') :
    establish workingDirectory root archive'.tree =
      (.ok (⟨root, archive'.location, archive'.tree, []⟩, .opened root), archive'.tree) := by
  obtain ⟨hmade, rfl⟩ := establish_ok h
  rw [establish, FileTree.makeDirectories_again hmade hlater.directory, hlater.location]

/-! ## Temporary places -/

/-- What was written is there, and its temporary file is not. -/
theorem look_of_write {d : Destination} {content : ByteArray} (hd : d.Proper)
    (h : archive.write d content = (.ok (), archive')) (hne : d.temporaryPlace ≠ d.place) :
    archive'.tree.look (archive.location ++ d.place) = some (.file content) ∧
      archive'.tree.look (archive.location ++ d.temporaryPlace) = none := by
  obtain ⟨tree, hwrite, rfl⟩ := write_eq h
  obtain ⟨-, -, -, made, -, hlook⟩ := Destination.write_ok hd hwrite
  constructor
  · rw [hlook, if_pos rfl]
  · rw [hlook, if_neg fun heq ↦ hne (List.append_cancel_left heq), if_pos rfl]

/-- When a package was stored, its file is there, and its temporary file is not. -/
theorem look_of_add {call : WriteCall} {d : ArtifactDescriptor}
    (hok : (add call archive).answer = .ok d) (hpackage : d.path.IsPackage) {place : Destination}
    (hinside : Destination.ofPath? d.path.text = some place) :
    (add call archive).memory.tree.look (archive.location ++ d.path.place) =
        some (.file (payload call.fragment)) ∧
      (add call archive).memory.tree.look (archive.location ++ place.temporaryPlace) = none := by
  obtain ⟨place', -, hinside', -, hwrite⟩ := add_eq hok
  obtain rfl : place = place' := Option.some.inj (hinside.symm.trans hinside')
  obtain ⟨hproper, -⟩ := Destination.ofPath?_eq_some hinside
  have hplace := ArchivePath.place_eq_of_ofPath? hinside
  have hlook := look_of_write hproper hwrite (hplace ▸ hpackage.temporaryPlace_ne place)
  rw [hplace]
  exact hlook

section

variable {ws : List (WriteCall × Except Error ArtifactDescriptor)} {p : ArchivePath}

/-- The place of a package keeps a file, if not always the same one. -/
theorem hasFile_answers (h : writer.Answers archive ws archive') (hp : p.IsPackage)
    (hfile : archive.HasFile p.place) : archive'.HasFile p.place := by
  induction ws generalizing archive with
  | nil =>
    obtain rfl : archive' = archive := h
    exact hfile
  | cons w ws ih =>
    obtain ⟨-, hrest⟩ := h
    refine ih hrest ?_
    obtain ⟨bytes, hbytes⟩ := hfile
    by_cases hover : ∃ d, (add w.1 archive).answer = .ok d ∧ d.path.place = p.place
    · obtain ⟨d, hd, hplace⟩ := hover
      rw [← hplace]
      exact ⟨_, (add_ok hd).2.2.2⟩
    · refine ⟨bytes, (add_keeps w.1 archive).2 p bytes (fun d _ ↦ hp.temporaryPlace_ne d) ?_ hbytes⟩
      exact fun d hd hplace ↦ hover ⟨d, hd, hplace⟩

variable (hpackages : ∀ w ∈ ws, ∀ d, w.2 = .ok d → d.path.IsPackage)

include hpackages

/-- **What is left of the artifacts that were stored.** After all requests, and after the table of
contents, each of them has a file at its place and none at its temporary place. -/
theorem hasFile_of_stored (h : writer.Answers archive ws archive') (toc : TableOfContents)
    {call : WriteCall} {d : ArtifactDescriptor} (hw : (call, .ok d) ∈ ws) :
    (publish toc archive').memory.HasFile d.path.place ∧
      ∀ place, Destination.ofPath? d.path.text = some place →
        ¬(publish toc archive').memory.HasFile place.temporaryPlace := by
  have hpackage := hpackages _ hw d rfl
  obtain ⟨before, after, rfl⟩ := List.append_of_mem hw
  obtain ⟨between, -, hanswer, hlater⟩ := Writer.answers_append.mp h
  have hafter : writer.Answers (add call between).memory after archive' := hlater
  have hlocation : (add call between).memory.location = between.location :=
    (add_keeps call between).1.location
  obtain ⟨place, hd⟩ := (describes_of_answers h hw).2.inside
  obtain ⟨hfile, hnone⟩ := look_of_add hanswer hpackage hd
  constructor
  · obtain ⟨bytes, hbytes⟩ := hasFile_answers hafter hpackage ⟨_, by rw [hlocation]; exact hfile⟩
    exact ⟨bytes, (publish_keeps toc archive').2 d.path bytes (hpackage.temporaryPlace_ne _)
      (fun _ ↦ hpackage.place_ne [] (by decide)) hbytes⟩
  · intro place' hd' htemporary
    obtain rfl : place = place' := Option.some.inj (hd.symm.trans hd')
    have htable : place.temporaryPlace ≠ tableFile.place :=
      place.temporaryPlace_ne [] (by decide) (by decide)
    have hgone := (hasFile_of_publish htemporary).resolve_right fun heq ↦ htable heq.2
    rcases hasFile_of_answers hafter hgone with ⟨bytes, hbytes⟩ | ⟨call', d', hw', heq⟩
    · rw [hlocation, hnone] at hbytes
      cases hbytes
    · have hmem : (call', .ok d') ∈ before ++ (call, .ok d) :: after :=
        List.mem_append_right _ (List.mem_cons_of_mem _ hw')
      have hpath : d'.path = call'.target := by
        rw [(describes_of_answers h hmem).1]
        rfl
      exact (hpackages _ hmem d' rfl).temporaryPlace_ne place (hpath ▸ heq.symm)

/-- Where an artifact is stored, there has never been a directory at the temporary place. -/
theorem look_ne_of_stored (h : writer.Answers archive ws archive') {call : WriteCall}
    {d : ArtifactDescriptor} (hw : (call, .ok d) ∈ ws) {place : Destination}
    (hd : Destination.ofPath? d.path.text = some place) :
    archive.tree.look (archive.location ++ place.temporaryPlace) ≠ some .directory := by
  intro hl
  have hpackage := hpackages _ hw d rfl
  obtain ⟨before, after, rfl⟩ := List.append_of_mem hw
  obtain ⟨between, hbefore, hanswer, -⟩ := Writer.answers_append.mp h
  have hprecedes := precedes_of_answers hbefore
  obtain ⟨-, hnone⟩ := look_of_add hanswer hpackage hd
  have hlater := (add_keeps call between).1.directory _ (hprecedes.directory _ hl)
  rw [← hprecedes.location, hnone] at hlater
  cases hlater

end

/-! ## Going over a directory again -/

/-- An archive is written a second time, where it was left as it is in the end. Wherever it does not
look as in the end, there is a file now and in the end, and now it is the one that was there when
the first archive had come this far. -/
structure Retraces (last : FileTree) (archive again : DirectoryArchive) : Prop where
  root : again.root = archive.root
  location : again.location = archive.location
  written : again.written = archive.written
  look : ∀ l, again.tree.look l = last.look l ∨ ∃ bytes bytes',
    archive.tree.look l = some (.file bytes) ∧ again.tree.look l = some (.file bytes) ∧
      last.look l = some (.file bytes')

namespace Retraces

theorem directory_iff (h : Retraces last archive again) (l : Location) :
    again.tree.look l = some .directory ↔ last.look l = some .directory := by
  rcases h.look l with heq | ⟨bytes, bytes', -, hagain, hlast⟩
  · rw [heq]
  · rw [hagain, hlast]
    constructor <;> nofun

/-- **What was written once can be written again**, when the temporary place is empty in the end,
and the file is there. -/
theorem write (h : Retraces last archive again) {d : Destination} (hd : d.Proper)
    {content old : ByteArray} (hwrite : archive.write d content = (.ok (), archive'))
    (hlater : ∀ l, archive'.tree.look l = some .directory → last.look l = some .directory)
    (htemporary : last.look (archive.location ++ d.temporaryPlace) = none)
    (hplace : last.look (archive.location ++ d.place) = some (.file old)) :
    ∃ again', again.write d content = (.ok (), again') ∧ Retraces last archive' again' := by
  obtain ⟨tree, hfirst, rfl⟩ := write_eq hwrite
  obtain ⟨-, -, -, made, hgrows, hlook⟩ := Destination.write_ok hd hfirst
  have hwritable := Destination.writable_of_write hd hfirst
  have hfolder : tree.look (archive.location ++ Route.names d.above) = some .directory := by
    refine FileTree.look_of_look_append (List.cons_ne_nil d.name []) ?_
    rw [List.append_assoc, ← Destination.place, hlook, if_pos rfl]
    exact Option.some_ne_none _
  obtain ⟨tree', hsecond, hlook'⟩ := hwritable.write hd content
    ((h.directory_iff _).mpr (hlater _ hfolder))
    (fun hl ↦ by rw [h.directory_iff, htemporary] at hl; cases hl)
    (fun hl ↦ by rw [h.directory_iff, hplace] at hl; cases hl)
  refine ⟨{ again with tree := tree' }, ?_, h.root, h.location, h.written, fun l ↦ ?_⟩
  · have hsize : again.rootSize = archive.rootSize := by
      rw [DirectoryArchive.rootSize, DirectoryArchive.rootSize, h.root]
    rw [DirectoryArchive.write, h.location, hsize, hsecond]
  · dsimp only
    rw [hlook', hlook]
    split
    · next heq => exact .inr ⟨content, old, rfl, rfl, heq ▸ hplace⟩
    · split
      · next heq => exact .inl (heq ▸ htemporary.symm)
      · rcases h.look l with heq | ⟨bytes, bytes', hl, hl', hlast⟩
        · exact .inl heq
        · exact .inr ⟨bytes, bytes', hgrows.look_of_some hl, hl', hlast⟩

/-- An artifact that was stored can be stored again. -/
theorem add (h : Retraces last archive again) {call : WriteCall} {d : ArtifactDescriptor}
    (hok : (add call archive).answer = .ok d)
    (hlater : ∀ l, (DirectoryArchive.add call archive).memory.tree.look l = some .directory →
      last.look l = some .directory)
    (htemporary : ∀ place, Destination.ofPath? d.path.text = some place →
      last.look (archive.location ++ place.temporaryPlace) = none)
    (hplace : ∃ old, last.look (archive.location ++ d.path.place) = some (.file old)) :
    (DirectoryArchive.add call again).answer = .ok d ∧
      Retraces last (DirectoryArchive.add call archive).memory
        (DirectoryArchive.add call again).memory := by
  obtain ⟨place, hd, hinside, hfresh, hwrite⟩ := add_eq hok
  obtain ⟨hproper, -⟩ := Destination.ofPath?_eq_some hinside
  obtain ⟨old, hold⟩ := hplace
  rw [ArchivePath.place_eq_of_ofPath? hinside] at hold
  have hpath : d.path = call.target := by rw [hd]; rfl
  have hasked : Retraces last { archive with written := d.path :: archive.written }
      { again with written := d.path :: again.written } :=
    ⟨h.root, h.location, by rw [h.written], h.look⟩
  obtain ⟨again', hwrite', hretraces⟩ :=
    hasked.write hproper hwrite hlater (htemporary place hinside) hold
  rw [hpath] at hinside hfresh hwrite'
  rcases add_cases call again with ⟨hnone | hwritten, -⟩ |
    ⟨place', result, hinside', -, hwrite'', hanswer⟩
  · rw [hinside] at hnone
    cases hnone
  · exact absurd (h.written ▸ hwritten) hfresh
  · obtain rfl : place = place' := Option.some.inj (hinside.symm.trans hinside')
    obtain ⟨rfl, rfl⟩ := Prod.mk.inj (hwrite'.symm.trans hwrite'')
    rcases hanswer with ⟨-, fault, hfault⟩ | ⟨hanswer, -⟩
    · cases hfault
    · exact ⟨hanswer.trans (congrArg Except.ok hd.symm), hretraces⟩

/-- A table of contents that was stored can be stored again. -/
theorem publish (h : Retraces last archive again) {toc : TableOfContents}
    (hok : (publish toc archive).answer = .ok ())
    (hlast : last = (DirectoryArchive.publish toc archive).memory.tree) :
    (DirectoryArchive.publish toc again).answer = .ok () ∧
      Retraces last (DirectoryArchive.publish toc archive).memory
        (DirectoryArchive.publish toc again).memory := by
  obtain ⟨hproper, -⟩ := Destination.ofPath?_eq_some ofPath?_tableFile
  obtain ⟨result, hwrite, hiff⟩ := publish_cases toc archive
  obtain ⟨result', hwrite', hiff'⟩ := publish_cases toc again
  obtain rfl := hiff.mpr hok
  have hne : tableDestination.temporaryPlace ≠ tableDestination.place :=
    Destination.temporaryPlace_ne [] (by decide) (by decide)
  obtain ⟨hfile, hgone⟩ := look_of_write hproper hwrite hne
  obtain ⟨again', hagain, hretraces⟩ := h.write hproper hwrite (fun l hl ↦ hlast ▸ hl)
    (hlast ▸ hgone) (hlast ▸ hfile)
  obtain ⟨rfl, rfl⟩ := Prod.mk.inj (hagain.symm.trans hwrite')
  exact ⟨hiff'.mp rfl, hretraces⟩

/-- Requests that succeeded succeed again. -/
theorem answers {ws : List (WriteCall × Except Error ArtifactDescriptor)}
    (h : Retraces last archive again) (hanswers : writer.Answers archive ws archive')
    (hlater : ∀ l, archive'.tree.look l = some .directory → last.look l = some .directory)
    (hok : ∀ w ∈ ws, ∃ d, w.2 = .ok d ∧
      (∀ place, Destination.ofPath? d.path.text = some place →
        last.look (archive.location ++ place.temporaryPlace) = none) ∧
      ∃ old, last.look (archive.location ++ d.path.place) = some (.file old)) :
    ∃ again', writer.Answers again ws again' ∧ Retraces last archive' again' := by
  induction ws generalizing archive again with
  | nil =>
    obtain rfl : archive' = archive := hanswers
    exact ⟨again, rfl, h⟩
  | cons w ws ih =>
    obtain ⟨hanswer, hrest⟩ := hanswers
    obtain ⟨d, hd, htemporary, hplace⟩ := hok w List.mem_cons_self
    have hprecedes := precedes_of_answers hrest
    obtain ⟨hagain, hretraces⟩ := h.add (hanswer.trans hd)
      (fun l hl ↦ hlater l (hprecedes.directory l hl)) htemporary hplace
    obtain ⟨again', hanswers', hretraces'⟩ := ih hretraces hrest (fun w' hw' ↦ by
      rw [(add_keeps w.1 archive).1.location]
      exact hok w' (List.mem_cons_of_mem w hw'))
    exact ⟨again', ⟨hagain.trans hd.symm, hanswers'⟩, hretraces'⟩

end Retraces

/-- **What a writer can do again.** All that it has stored, and the table of contents behind it, can
be stored again in the directory that it left behind, if there is no directory at the place of a
temporary file. This leads to the same files. -/
theorem publish_again {ws : List (WriteCall × Except Error ArtifactDescriptor)}
    {toc : TableOfContents} (hanswers : writer.Answers archive ws archive')
    (hpackages : ∀ w ∈ ws, ∀ d, w.2 = .ok d → d.path.IsPackage)
    (hstored : ∀ w ∈ ws, ∃ d, w.2 = .ok d) (hpublish : (publish toc archive').answer = .ok ())
    (hstart : Retraces (publish toc archive').memory.tree archive again)
    (hclear : ∀ call d, (call, .ok d) ∈ ws → ∀ place,
      Destination.ofPath? d.path.text = some place →
        (publish toc archive').memory.tree.look (archive.location ++ place.temporaryPlace) ≠
          some .directory) :
    ∃ again', writer.Answers again ws again' ∧ (publish toc again').answer = .ok () ∧
      ∀ l, (publish toc again').memory.tree.look l = (publish toc archive').memory.tree.look l := by
  have hlast := (publish_keeps toc archive').1
  have hlocation : (publish toc archive').memory.location = archive.location :=
    hlast.location.trans (precedes_of_answers hanswers).location
  obtain ⟨again', hanswers', hretraces⟩ := hstart.answers hanswers
    (fun l hl ↦ hlast.directory l hl) fun w hw ↦ by
      obtain ⟨call, answer⟩ := w
      obtain ⟨d, rfl⟩ : ∃ d, answer = .ok d := hstored _ hw
      obtain ⟨⟨old, hold⟩, htemporary⟩ := hasFile_of_stored hpackages hanswers toc hw
      rw [hlocation] at hold
      refine ⟨d, rfl, fun place hplace ↦ ?_, old, hold⟩
      -- neither a file is left at the temporary place, nor is there a directory
      rcases hnode : (publish toc archive').memory.tree.look
        (archive.location ++ place.temporaryPlace) with _ | _ | _
      · rfl
      · exact absurd ⟨_, by rw [hlocation]; exact hnode⟩ (htemporary place hplace)
      · exact absurd hnode (hclear call d hw place hplace)
  obtain ⟨hpublish', hretraces'⟩ := hretraces.publish hpublish rfl
  refine ⟨again', hanswers', hpublish', fun l ↦ ?_⟩
  rcases hretraces'.look l with heq | ⟨bytes, bytes', hl, hl', -⟩
  · exact heq
  · rw [hl, hl']

/-- A directory stands where the temporary file was of an artifact that was stored. -/
def Obstructed (archive : DirectoryArchive) (es : List Event) : Prop :=
  ∃ x ∈ Event.stored es, ∃ place, Destination.ofPath? x.2.path.text = some place ∧
    archive.tree.look (archive.location ++ place.temporaryPlace) = some .directory

/-- Only a directory with the name of a temporary file is in the way. -/
theorem Obstructed.exists_directory {es : List Event}
    (h : Obstructed archive' es) (hanswers : writer.Answers archive (Event.writes es) between) :
    ∃ l name, archive'.tree.look (l ++ [name]) = some .directory ∧
      ".tmp".toList <:+ name.toList := by
  obtain ⟨x, hx, place, hplace, hdirectory⟩ := h
  obtain ⟨call, hw, -⟩ := Event.mem_stored.mp hx
  obtain ⟨before, after, hes⟩ := List.append_of_mem hw
  rw [hes] at hanswers
  obtain ⟨earlier, -, hanswer, -⟩ := Writer.answers_append.mp hanswers
  obtain ⟨place', -, hplace', -, hwrite⟩ := add_eq hanswer
  obtain rfl : place = place' := Option.some.inj (hplace.symm.trans hplace')
  obtain ⟨hproper, -⟩ := Destination.ofPath?_eq_some hplace
  obtain ⟨tree, hwritten, -⟩ := write_eq hwrite
  rw [Destination.temporaryPlace, ← List.append_assoc] at hdirectory
  refine ⟨_, _, hdirectory, Destination.suffix_temporaryName.resolve_left ?_⟩
  exact (Destination.writable_of_write hproper hwritten).temporaryName_ne

end DirectoryArchive

namespace Serializer

open DirectoryArchive (Obstructed)

variable {μ ℓ : Type} {s : Serializer μ ℓ Naming} {timing : Timing} {request : BuildRequest}
  {archive again : DirectoryArchive} {toc : TableOfContents}

/-- Two successful builds have asked for the same. -/
theorem writes_eq_of_ok {standing : Standing μ ℓ Naming} {toc' : TableOfContents}
    (h : (s.build DirectoryArchive.writer timing request (standing.meeting archive)).result =
      .ok toc)
    (h' : (s.build DirectoryArchive.writer timing request (standing.meeting again)).result =
      .ok toc') :
    Event.writes
        (s.build DirectoryArchive.writer timing request (standing.meeting again)).events =
      Event.writes
        (s.build DirectoryArchive.writer timing request (standing.meeting archive)).events := by
  obtain ⟨results, m, es, hphases, -, hwrites, hstored, hanswers, -⟩ := s.exists_phases_of_ok _ h
  obtain ⟨results', m', es', hphases', -, hwrites', hstored', hanswers', -⟩ :=
    s.exists_phases_of_ok _ h'
  have hpart := s.phases_part_by_answer DirectoryArchive.writer DirectoryArchive.writer timing
    request { standing with naming := s.assigner.restart standing.naming } archive again
  rw [hphases, hphases'] at hpart
  rcases hpart with ⟨hsame, -⟩ | ⟨before, call, answer, answer', after, after', hes, hes', hne⟩
  · rw [hwrites, hwrites']
    exact hsame
  · -- a request that is answered is answered with its one descriptor
    have hmem : (call, answer) ∈ Event.writes es := by
      rw [hes]
      exact List.mem_append_right _ List.mem_cons_self
    have hmem' : (call, answer') ∈ Event.writes es' := by
      rw [hes']
      exact List.mem_append_right _ List.mem_cons_self
    obtain ⟨d, rfl⟩ : ∃ d, answer = .ok d := hstored _ hmem
    obtain ⟨d', rfl⟩ : ∃ d', answer' = .ok d' := hstored' _ hmem'
    obtain ⟨hd, -⟩ := DirectoryArchive.describes_of_answers hanswers hmem
    obtain ⟨hd', -⟩ := DirectoryArchive.describes_of_answers hanswers' hmem'
    exact absurd (by rw [hd, hd']) hne

/-- **When a build succeeds again** on the directory that it left behind. It does, and leaves the
same directory behind, unless there is a directory in the way of a temporary file. -/
theorem build_on_own_directory (hassigner : s.assigner = Naming.standard)
    {standing : Standing μ ℓ Naming}
    (h : (s.build DirectoryArchive.writer timing request (standing.meeting archive)).result =
      .ok toc) (again : DirectoryArchive)
    (hroot : again.root = archive.root) (hlocation : again.location = archive.location)
    (hwritten : again.written = archive.written)
    (htree : again.tree = (s.build DirectoryArchive.writer timing request
      (standing.meeting archive)).memory.archive.tree) :
    let first := s.build DirectoryArchive.writer timing request (standing.meeting archive)
    let second := s.build DirectoryArchive.writer timing request (standing.meeting again)
    (¬Obstructed first.memory.archive first.events → second.result = .ok toc ∧
      ∀ l, second.memory.archive.tree.look l = first.memory.archive.tree.look l) ∧
    (Obstructed first.memory.archive first.events → ∃ e, second.result = .error e) := by
  intro first second
  have hpackages : ∀ w ∈ Event.writes first.events, ∀ d, w.2 = .ok d → d.path.IsPackage := by
    intro w hw d hd
    obtain ⟨call, answer⟩ := w
    obtain rfl : answer = .ok d := hd
    obtain ⟨m', hreplays, -⟩ := s.replays_build DirectoryArchive.writer timing request
      (standing.meeting archive)
    rw [(DirectoryArchive.describes_of_answers hreplays.archive hw).1]
    exact isPackage_of_mem_writes hassigner _ hw
  have hfirst : first.memory.archive.location = archive.location := precedes_build.location
  constructor
  · intro hclear
    obtain ⟨results, m, es, hphases, htoc, hwrites, hstored, hanswers, hpublish, harchive⟩ :=
      s.exists_phases_of_ok _ h
    change Event.writes first.events = _ at hwrites
    change first.memory.archive = (DirectoryArchive.publish toc m.archive).memory at harchive
    rw [hwrites] at hpackages
    have hstart : DirectoryArchive.Retraces (DirectoryArchive.publish toc m.archive).memory.tree
        archive again :=
      ⟨hroot, hlocation, hwritten, fun l ↦ .inl (by rw [← harchive, htree])⟩
    obtain ⟨again', hanswers', hpublish', hsame⟩ := DirectoryArchive.publish_again hanswers
      hpackages hstored hpublish hstart fun call d hw place hplace hdirectory ↦ by
        have hmem : (call.fragment, d) ∈ Event.stored first.events :=
          Event.mem_stored.mpr ⟨call, hwrites ▸ hw, rfl⟩
        rw [← harchive, ← hfirst] at hdirectory
        exact hclear ⟨_, hmem, place, hplace, hdirectory⟩
    obtain ⟨m', es', hphases', rfl⟩ := s.phases_of_answers hphases hanswers'
    obtain ⟨ns, hsecond⟩ := build_of_results (m := standing.meeting again) hphases' htoc
    refine ⟨?_, fun l ↦ ?_⟩
    · refine (congrArg Outcome.result hsecond).trans ?_
      exact congrArg (Except.map fun _ ↦ toc) hpublish'
    · have hend : second.memory.archive = (DirectoryArchive.publish toc m'.archive).memory :=
        congrArg (·.memory.archive) hsecond
      rw [hend, harchive]
      exact hsame l
  · rintro ⟨x, hx, place, hplace, hdirectory⟩
    rcases hsecond : second.result with e | toc'
    · exact ⟨e, rfl⟩
    · -- the artifact was stored in the second build, too, and the directory was there before
      have hwrites : Event.writes second.events = Event.writes first.events :=
        writes_eq_of_ok h hsecond
      obtain ⟨call, hw, -⟩ := Event.mem_stored.mp hx
      rw [← hwrites] at hw hpackages
      obtain ⟨m', hreplays, -⟩ := s.replays_build DirectoryArchive.writer timing request
        (standing.meeting again)
      refine absurd ?_ (DirectoryArchive.look_ne_of_stored hpackages hreplays.archive hw hplace)
      change again.tree.look (again.location ++ _) = _
      rw [htree, hlocation, ← hfirst]
      exact hdirectory

/-- **When rebuilding changes nothing.** A build by collaborators that keep no state has succeeded
in an archive, and the same build is made again, whatever calls the serializer has served in between
or before. The archive can be opened again, and nothing is made by that. If no directory is in the
way of a temporary file, then the second build leads to the same table of contents and leaves the
directory as it was, file by file; otherwise it fails. In particular it succeeds when no directory
has the name of a temporary file. -/
theorem rebuilding_changes_nothing_unless_obstructed (s : Serializer μ ℓ Naming)
    (hassigner : s.assigner = Naming.standard) (hforgetful : s.Forgetful) (policy : μ)
    (listener : ℓ) (history history' : List Call) (timing : Timing) (request : BuildRequest)
    {workingDirectory : Location} {root : String} {tree tree' : FileTree} {notice : Notice}
    (hopen : DirectoryArchive.establish workingDirectory root tree =
      (.ok (archive, notice), tree'))
    (hbuild : (s.build DirectoryArchive.writer timing request
      ((s.afterAll ⟨policy, listener, ∅⟩ history).meeting archive)).result = .ok toc) :
    let new : Standing μ ℓ Naming := ⟨policy, listener, ∅⟩
    let first := s.build DirectoryArchive.writer timing request
      ((s.afterAll new history).meeting archive)
    let left := first.memory.archive
    ∃ again, DirectoryArchive.establish workingDirectory root left.tree =
        (.ok (again, .opened root), left.tree) ∧
      let second := s.build DirectoryArchive.writer timing request
        ((s.afterAll new history').meeting again)
      (¬Obstructed left first.events →
        second.result = .ok toc ∧ ∀ l, second.memory.archive.tree.look l = left.tree.look l) ∧
      (Obstructed left first.events → ∃ e, second.result = .error e) ∧
      ((∀ l name, left.tree.look (l ++ [name]) = some .directory →
        ¬".tmp".toList <:+ name.toList) → ¬Obstructed left first.events) := by
  intro new first left
  -- the histories do not matter, since the names are all that they leave behind
  have hrestart : ∀ naming naming', s.assigner.restart naming = s.assigner.restart naming' :=
    fun _ _ ↦ by rw [hassigner]; rfl
  have hnew : ∀ (history : List Call) (archive : DirectoryArchive),
      s.build DirectoryArchive.writer timing request ((s.afterAll new history).meeting archive) =
        s.build DirectoryArchive.writer timing request (new.meeting archive) :=
    fun history archive ↦ hforgetful.build_afterAll hrestart new history DirectoryArchive.writer
      archive timing request
  have hfirst : s.build DirectoryArchive.writer timing request (new.meeting archive) = first :=
    (hnew history archive).symm
  have hresult : (s.build DirectoryArchive.writer timing request (new.meeting archive)).result =
      .ok toc := by
    rw [hfirst]
    exact hbuild
  have hprecedes : archive.Precedes left := by
    have hprecedes : (new.meeting archive).archive.Precedes (s.build DirectoryArchive.writer timing
      request (new.meeting archive)).memory.archive := precedes_build
    rwa [hfirst] at hprecedes
  obtain ⟨-, harchive⟩ := DirectoryArchive.establish_ok hopen
  refine ⟨_, DirectoryArchive.establish_again hopen hprecedes, ?_⟩
  intro second
  have hagain := build_on_own_directory hassigner hresult ⟨root, left.location, left.tree, []⟩
    (by rw [harchive]) hprecedes.location (by rw [harchive]) (by rw [hfirst])
  rw [hfirst, ← hnew history' ⟨root, left.location, left.tree, []⟩] at hagain
  obtain ⟨hsame, hfails⟩ := hagain
  refine ⟨hsame, hfails, fun hnames hobstructed ↦ ?_⟩
  obtain ⟨m', hreplays, -⟩ := s.replays_build DirectoryArchive.writer timing request
    (new.meeting archive)
  rw [hfirst] at hreplays
  obtain ⟨l, name, hdirectory, htmp⟩ := hobstructed.exists_directory hreplays.archive
  exact hnames l name hdirectory htmp

/-- A master split is built twice in a directory that was empty, by one serializer. -/
theorem master_split_is_rebuilt :
    let master : Fragment :=
      { Fragment.untargeted .base .split (.ofPackage "p") with isMaster := true }
    let s := plain { Bundle.ofPackage "p" with
      modules := [.independent .base .feature (.ofPackage "p")] }
    let request : BuildRequest := ⟨[master], [], .default, none, default, []⟩
    let archive : DirectoryArchive := ⟨"/r", ["r"], .directory [("r", .directory [])], []⟩
    let earlier : Call := .build DirectoryArchive.writer archive .inOrder request
    let first := s.build DirectoryArchive.writer .inOrder request
      ((s.afterAll ⟨(), (), ∅⟩ []).meeting archive)
    ∃ toc again, first.result = .ok toc ∧
      DirectoryArchive.establish [] "/r" first.memory.archive.tree =
        (.ok (again, .opened "/r"), first.memory.archive.tree) ∧
      let second := s.build DirectoryArchive.writer .inOrder request
        ((s.afterAll ⟨(), (), ∅⟩ [earlier]).meeting again)
      second.result = .ok toc ∧
        ∀ l, second.memory.archive.tree.look l = first.memory.archive.tree.look l := by
  intro master s request archive earlier first
  have hsome : first.result.toOption.isSome = true := by decide +kernel
  have hstored : (Event.stored first.events).map (·.2.path) = [⟨"splits/base-master.apk"⟩] := by
    decide +kernel
  have hinside : Destination.ofPath? "splits/base-master.apk" =
      some ⟨["splits"], "base-master.apk", []⟩ := by
    decide +kernel
  have hnone : first.memory.archive.tree.look (first.memory.archive.location ++
      Destination.temporaryPlace ⟨["splits"], "base-master.apk", []⟩) = none := by
    decide +kernel
  -- what is needed of the run is known now, and it need not be looked at again
  have hfirst : s.build DirectoryArchive.writer .inOrder request
      ((s.afterAll ⟨(), (), ∅⟩ []).meeting archive) = first := rfl
  clear_value first
  obtain ⟨toc, hbuild⟩ := exists_ok_of_isSome hsome
  have hclear : ¬Obstructed first.memory.archive first.events := by
    rintro ⟨x, hx, place, hplace, hdirectory⟩
    have hpath : x.2.path ∈ (Event.stored first.events).map (·.2.path) := List.mem_map_of_mem hx
    rw [hstored, List.mem_singleton] at hpath
    rw [hpath] at hplace
    obtain rfl := Option.some.inj (hinside.symm.trans hplace)
    cases hnone.symm.trans hdirectory
  have hopen : DirectoryArchive.establish [] "/r" .empty =
      (.ok (archive, .opened "/r"), archive.tree) := by
    have hroute : Route.ofPath [] "/r" = ⟨[], [some "r"], .nothing, 2⟩ := by decide +kernel
    rw [DirectoryArchive.establish, hroute]
    rfl
  have hagain := rebuilding_changes_nothing_unless_obstructed s rfl
    ⟨fun _ _ _ ↦ rfl, fun _ _ _ ↦ rfl, fun _ _ ↦ rfl⟩ () () [] [earlier] .inOrder request hopen
    (hfirst ▸ hbuild)
  dsimp only at hagain
  rw [hfirst] at hagain
  obtain ⟨again, hopened, hsame, -⟩ := hagain
  exact ⟨toc, again, hbuild, hopened, hsame hclear⟩

/-- The temporary file of the first module has the name of a directory that the second one needs.
The first build makes that directory when it is done with the file, and the second build meets
it. -/
theorem directory_of_later_artifact_is_met_again :
    let master (module : String) : Fragment :=
      { Fragment.untargeted ⟨module⟩ .split (.ofPackage "p") with isMaster := true }
    let s := plain { Bundle.ofPackage "p" with
      modules := [.independent ⟨"a"⟩ .feature (.ofPackage "p"),
        .independent ⟨"a-master.tmp/b"⟩ .feature (.ofPackage "p")] }
    let request : BuildRequest :=
      ⟨[master "a", master "a-master.tmp/b"], [], .default, none, default, []⟩
    let archive : DirectoryArchive := ⟨"/r", ["r"], .directory [("r", .directory [])], []⟩
    let new : Standing Unit Unit Naming := ⟨(), (), ∅⟩
    let first := s.build DirectoryArchive.writer .inOrder request (new.meeting archive)
    DirectoryArchive.establish [] "/r" .empty = (.ok (archive, .opened "/r"), archive.tree) ∧
      ∃ toc again notice tree, first.result = .ok toc ∧
        DirectoryArchive.establish [] "/r" first.memory.archive.tree =
          (.ok (again, notice), tree) ∧
        ∃ e, (s.build DirectoryArchive.writer .inOrder request (new.meeting again)).result =
          .error e := by
  intro master s request archive new first
  refine ⟨DirectoryArchive.establish_empty, ?_⟩
  have hruns : (first.result.toOption.bind fun _ ↦
      (DirectoryArchive.establish [] "/r" first.memory.archive.tree).1.toOption.map fun opened ↦
        (s.build DirectoryArchive.writer .inOrder request
          (new.meeting opened.1)).result.toOption.isNone) = some true := by
    decide +kernel
  obtain ⟨toc, htoc, hruns⟩ := Option.bind_eq_some_iff.mp hruns
  obtain ⟨⟨again, notice⟩, hagain, hfails⟩ := Option.map_eq_some_iff.mp hruns
  exact ⟨toc, again, notice, _, toOption_eq_some_iff.mp htoc,
    Prod.ext (toOption_eq_some_iff.mp hagain) rfl, exists_error_of_isNone hfails⟩

end Serializer

end FragmentArchive
