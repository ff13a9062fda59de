import FragmentArchive.DirectoryArchive
import FragmentArchive.Proofs.Destination
import FragmentArchive.Proofs.Lists
import FragmentArchive.Proofs.Replay

/-!
# Archives in directories

An artifact is stored at the place that its path describes, and every later request leaves it there,
also one that is refused, unless its own path describes the same place. The archive does not see
that: it refuses a path that it was asked for before, but compares paths as text, while the file
system compares places. Hence what is found at a place is the artifact that was stored there last.

## Names of packages

All artifacts have the extension `apk`. Temporary files and the table of contents have another one,
which is why they never get into the way of an artifact.
-/

namespace FragmentArchive

/-! ## Packages -/

namespace ArchivePath

/-- The place below the root of an archive that a path describes. -/
def place (p : ArchivePath) : Location := Route.names (Route.pieces p.text)

/-- Whether a path names a package. -/
def IsPackage (p : ArchivePath) : Prop := ∃ front : String, p.text = front ++ ".apk"

/-- The path of a package ends with its name. -/
theorem IsPackage.exists_name {p : ArchivePath} (h : p.IsPackage) :
    ∃ front name, Route.pieces p.text = front ++ [name] ∧ Route.isRedundant name = false ∧
      ".apk".toList <:+ name.toList := by
  obtain ⟨path, hpath⟩ := h
  have hname : '/' ∉ ".apk".toList := by decide
  obtain ⟨front, last, hpieces⟩ := Route.exists_pieces_append path hname
  have hsuffix : ".apk".toList <:+ (last ++ ".apk").toList := by
    rw [String.toList_append]
    exact List.suffix_append ..
  have hapk : 1 < ".apk".toList.length := by decide
  exact ⟨front, last ++ ".apk", by rw [hpath, hpieces],
    Route.isRedundant_of_length (Nat.lt_of_lt_of_le hapk hsuffix.length_le), hsuffix⟩

theorem IsPackage.place_eq {p : ArchivePath} (h : p.IsPackage) :
    ∃ above name, p.place = above ++ [name] ∧ ".apk".toList <:+ name.toList := by
  obtain ⟨front, name, hpieces, hleads, hsuffix⟩ := h.exists_name
  refine ⟨Route.names front, name, ?_, hsuffix⟩
  rw [place, hpieces, Route.names_append, Route.names_singleton hleads]

/-- The place of a package is not that of a file with another extension. -/
theorem IsPackage.place_ne {p : ArchivePath} (h : p.IsPackage) (above : Location) {other : String}
    (hother : ¬".apk".toList <:+ other.toList) : p.place ≠ above ++ [other] := by
  obtain ⟨above', name, hplace, hsuffix⟩ := h.place_eq
  intro heq
  rw [hplace] at heq
  obtain ⟨-, hlast⟩ := List.append_inj' heq rfl
  rw [(List.cons.inj hlast).1] at hsuffix
  exact hother hsuffix

/-- The place of a path is that of the destination it names. -/
theorem place_eq_of_ofPath? {p : ArchivePath} {d : Destination}
    (h : Destination.ofPath? p.text = some d) : p.place = d.place := by
  obtain ⟨hproper, hpieces, -⟩ := Destination.ofPath?_eq_some h
  rw [place, hpieces, hproper.names_pieces]

/-- Every piece of a path is a name. -/
def IsTidy (p : ArchivePath) : Prop :=
  ∀ piece ∈ Route.pieces p.text, Route.isRedundant piece = false

/-- Tidy paths are the one spelling of their place. -/
theorem IsTidy.eq_of_place_eq {p q : ArchivePath} (hp : p.IsTidy) (hq : q.IsTidy)
    (h : p.place = q.place) : p = q := by
  have hpieces : Route.pieces p.text = Route.pieces q.text := by
    rw [place, place, Route.names_eq_self hp, Route.names_eq_self hq] at h
    exact h
  have htext : p.text = q.text := by
    rw [← Route.intercalate_pieces p.text, hpieces, Route.intercalate_pieces]
  exact congrArg ArchivePath.mk htext

end ArchivePath

/-! ## Temporary files -/

namespace WriteCall

/-- The path under which an artifact is stored. -/
def target (call : WriteCall) : ArchivePath := call.path.getD DirectoryArchive.universalPath

/-- The temporary file of a request is not at the place of a path. -/
def Spares (call : WriteCall) (p : ArchivePath) : Prop :=
  ∀ d, Destination.ofPath? call.target.text = some d → d.temporaryPlace ≠ p.place

end WriteCall

/-- No temporary file is at the place of a package. -/
theorem ArchivePath.IsPackage.temporaryPlace_ne {p : ArchivePath} (h : p.IsPackage)
    (d : Destination) : d.temporaryPlace ≠ p.place := by
  -- the name of a package is not that of the directory above and does not end like a temporary one
  obtain ⟨above, name, hplace, hapk⟩ := h.place_eq
  rw [hplace]
  refine Destination.temporaryPlace_ne above ?_ fun htmp ↦ ?_
  · rintro rfl
    exact absurd hapk (by decide)
  · exact absurd (List.suffix_of_suffix_length_le hapk htmp (by decide)) (by decide)

namespace DirectoryArchive

variable {archive archive' : DirectoryArchive}

/-! ## Single requests -/

/-- What stands at the place of a path. -/
def look (archive : DirectoryArchive) (p : ArchivePath) : Option FileTree.Node :=
  archive.tree.look (archive.location ++ p.place)

/-- A later state of an archive: root and location are the same, and no directory is gone. -/
structure Precedes (archive archive' : DirectoryArchive) : Prop where
  root : archive'.root = archive.root
  location : archive'.location = archive.location
  directory : ∀ l, archive.tree.look l = some .directory → archive'.tree.look l = some .directory

theorem Precedes.refl (archive : DirectoryArchive) : archive.Precedes archive :=
  ⟨rfl, rfl, fun _ h ↦ h⟩

theorem Precedes.trans {archive'' : DirectoryArchive} (h : archive.Precedes archive')
    (h' : archive'.Precedes archive'') : archive.Precedes archive'' where
  root := h'.root.trans h.root
  location := h'.location.trans h.location
  directory l hl := h'.directory l (h.directory l hl)

theorem Precedes.rootSize_eq (h : archive.Precedes archive') :
    archive'.rootSize = archive.rootSize := by
  rw [DirectoryArchive.rootSize, DirectoryArchive.rootSize, h.root]

/-- The path can be given to the operating system. -/
structure Speakable (archive : DirectoryArchive) (p : ArchivePath) : Prop where
  inside : ∃ d, Destination.ofPath? p.text = some d
  accepted : FileTree.refusal?
    (.below archive.location archive.rootSize (Route.pieces p.text)) = none
  short : ∀ name ∈ p.place, name.utf8ByteSize ≤ FileTree.nameLimit

theorem Precedes.speakable_iff (h : archive.Precedes archive') {p : ArchivePath} :
    archive'.Speakable p ↔ archive.Speakable p := by
  constructor
  · rintro ⟨hinside, haccepted, hshort⟩
    rw [h.location, h.rootSize_eq] at haccepted
    exact ⟨hinside, haccepted, hshort⟩
  · rintro ⟨hinside, haccepted, hshort⟩
    rw [← h.location, ← h.rootSize_eq] at haccepted
    exact ⟨hinside, haccepted, hshort⟩

/-- Nothing but the tree changes when a file is written. -/
theorem write_eq {d : Destination} {content : ByteArray} {result : Except FileFault Unit}
    (h : archive.write d content = (result, archive')) :
    ∃ tree, d.write archive.location archive.rootSize content archive.tree = (result, tree) ∧
      archive' = { archive with tree } := by
  rcases hwrite : d.write archive.location archive.rootSize content archive.tree with ⟨_, tree⟩
  rw [write, hwrite] at h
  obtain ⟨rfl, rfl⟩ := Prod.mk.inj h
  exact ⟨tree, rfl, rfl⟩

/-- **What writing a file leaves alone**, whether or not it succeeds: every file that is neither at
the temporary place nor at the place of what was written. -/
theorem write_keeps {d : Destination} {content : ByteArray} {result : Except FileFault Unit}
    (hd : d.Proper) (h : archive.write d content = (result, archive')) :
    archive.Precedes archive' ∧ ∀ p bytes, d.temporaryPlace ≠ p.place →
      (result = .ok () → d.place ≠ p.place) →
        archive.look p = some (.file bytes) → archive'.look p = some (.file bytes) := by
  obtain ⟨tree, hwrite, rfl⟩ := write_eq h
  obtain ⟨hdirectory, hkeep⟩ := Destination.write_keeps hd hwrite
  refine ⟨⟨rfl, rfl, hdirectory⟩, fun p bytes htemporary hplace hlook ↦ hkeep _ bytes hlook ?_ ?_⟩
  · exact fun heq ↦ htemporary (List.append_cancel_left heq).symm
  · exact fun hok heq ↦ hplace hok (List.append_cancel_left heq).symm

/-- **What writing the file of a path comes to.** -/
theorem write_ok {p : ArchivePath} {d : Destination} {content : ByteArray}
    (hp : Destination.ofPath? p.text = some d)
    (h : archive.write d content = (.ok (), archive')) :
    archive.Speakable p ∧ archive'.look p = some (.file content) := by
  obtain ⟨hproper, hpieces, -⟩ := Destination.ofPath?_eq_some hp
  have hplace := ArchivePath.place_eq_of_ofPath? hp
  obtain ⟨tree, hwrite, rfl⟩ := write_eq h
  obtain ⟨haccepted, hshort, -, made, -, hlook⟩ := Destination.write_ok hproper hwrite
  refine ⟨⟨⟨d, hp⟩, hpieces ▸ haccepted, hplace ▸ hshort⟩, ?_⟩
  rw [look, hplace, hlook, if_pos rfl]

section

variable {call : WriteCall}

/-- A path that leads out of the root is refused, and nothing else happens. -/
theorem add_of_escaping (h : Destination.ofPath? call.target.text = none)
    (archive : DirectoryArchive) :
    add call archive = .silent (.error (.serialization call.target.text .escaping)) archive := by
  rw [WriteCall.target] at h
  rw [add]
  dsimp only
  rw [h]
  rfl

/-- A path that was asked for before is refused, and nothing else happens. -/
theorem add_of_taken {d : Destination} (h : Destination.ofPath? call.target.text = some d)
    (htaken : call.target ∈ archive.written) :
    add call archive = .silent (.error (.serialization call.target.text .taken)) archive := by
  rw [WriteCall.target] at h htaken ⊢
  rw [add]
  dsimp only
  rw [h]
  dsimp only
  rw [if_pos htaken]

/-- Any other path is used up, and the answer tells how writing the file ended. -/
theorem add_of_fresh {d : Destination} (h : Destination.ofPath? call.target.text = some d)
    (hfresh : call.target ∉ archive.written) :
    ∃ result, write d (payload call.fragment)
        { archive with written := call.target :: archive.written } =
          (result, (add call archive).memory) ∧
      (add call archive).answer =
        (result.mapError fun fault ↦ .serialization call.target.text (.file fault)).map
          fun _ ↦ describe call.fragment call.kind call.target := by
  rw [WriteCall.target] at h hfresh ⊢
  rw [add]
  dsimp only
  rw [h]
  dsimp only
  rw [if_neg hfresh]
  rcases write d (payload call.fragment)
    { archive with written := call.path.getD universalPath :: archive.written } with
    ⟨fault | _, archive'⟩
  · exact ⟨.error fault, rfl, rfl⟩
  · exact ⟨.ok (), rfl, rfl⟩

theorem written_add_of_fresh {d : Destination} (h : Destination.ofPath? call.target.text = some d)
    (hfresh : call.target ∉ archive.written) :
    (add call archive).memory.written = call.target :: archive.written := by
  obtain ⟨result, hwrite, -⟩ := add_of_fresh h hfresh
  exact congrArg (·.2.written) hwrite.symm

/-- **Which paths a request uses up**: its own, whatever becomes of it, if it leads to a place
inside. -/
theorem mem_written_add_iff {p : ArchivePath} : p ∈ (add call archive).memory.written ↔
    p ∈ archive.written ∨ call.target = p ∧ ∃ d, Destination.ofPath? p.text = some d := by
  rcases hd : Destination.ofPath? call.target.text with _ | d
  · rw [add_of_escaping hd]
    refine (or_iff_left ?_).symm
    rintro ⟨rfl, d, hsome⟩
    rw [hd] at hsome
    cases hsome
  by_cases htaken : call.target ∈ archive.written
  · rw [add_of_taken hd htaken]
    refine (or_iff_left_of_imp ?_).symm
    rintro ⟨rfl, -⟩
    exact htaken
  · rw [written_add_of_fresh hd htaken, List.mem_cons, or_comm]
    refine or_congr_right ⟨?_, fun h ↦ h.1.symm⟩
    rintro rfl
    exact ⟨rfl, d, hd⟩

end

/-- A request to store an artifact is refused before anything is touched, or the file is written and
the answer tells how that ended. -/
theorem add_cases (call : WriteCall) (archive : DirectoryArchive) :
    ((Destination.ofPath? call.target.text = none ∨ call.target ∈ archive.written) ∧
      (∃ e, (add call archive).answer = .error e) ∧ (add call archive).memory = archive) ∨
    ∃ destination result, Destination.ofPath? call.target.text = some destination ∧
      call.target ∉ archive.written ∧
      write destination (payload call.fragment)
          { archive with written := call.target :: archive.written } =
        (result, (add call archive).memory) ∧
      ((∃ e, (add call archive).answer = .error e) ∧ (∃ fault, result = .error fault) ∨
        (add call archive).answer = .ok (describe call.fragment call.kind call.target) ∧
          result = .ok ()) := by
  -- a path is refused for its spelling, or because it was asked for before, or by the file system
  rcases hdestination : Destination.ofPath? call.target.text with _ | destination
  · rw [add_of_escaping hdestination]
    exact .inl ⟨.inl rfl, ⟨_, rfl⟩, rfl⟩
  by_cases htaken : call.target ∈ archive.written
  · rw [add_of_taken hdestination htaken]
    exact .inl ⟨.inr htaken, ⟨_, rfl⟩, rfl⟩
  · obtain ⟨result, hwrite, hanswer⟩ := add_of_fresh hdestination htaken
    refine .inr ⟨destination, result, rfl, htaken, hwrite, ?_⟩
    rw [hanswer]
    cases result with
    | error fault => exact .inl ⟨⟨_, rfl⟩, fault, rfl⟩
    | ok _ => exact .inr ⟨rfl, rfl⟩

/-- A request that succeeds has written its file. -/
theorem add_eq {call : WriteCall} {d : ArtifactDescriptor}
    (h : (add call archive).answer = .ok d) :
    ∃ destination, d = describe call.fragment call.kind call.target ∧
      Destination.ofPath? d.path.text = some destination ∧ d.path ∉ archive.written ∧
      write destination (payload call.fragment)
          { archive with written := d.path :: archive.written } =
        (.ok (), (add call archive).memory) := by
  rcases add_cases call archive with ⟨-, ⟨e, herror⟩, -⟩ |
    ⟨destination, result, hdestination, hwritten, hwrite, ⟨⟨e, herror⟩, -⟩ | ⟨hanswer, rfl⟩⟩
  · rw [herror] at h
    cases h
  · rw [herror] at h
    cases h
  · rw [hanswer] at h
    obtain rfl := Except.ok.inj h
    exact ⟨destination, rfl, hdestination, hwritten, hwrite⟩

/-- **What storing an artifact comes to.** -/
theorem add_ok {call : WriteCall} {d : ArtifactDescriptor}
    (h : (add call archive).answer = .ok d) :
    d = describe call.fragment call.kind call.target ∧
      d.path ∉ archive.written ∧ archive.Speakable d.path ∧
      (add call archive).memory.look d.path = some (.file (payload call.fragment)) := by
  obtain ⟨destination, hd, hdestination, hwritten, hwrite⟩ := add_eq h
  obtain ⟨hspeakable, hlook⟩ := write_ok hdestination hwrite
  exact ⟨hd, hwritten, ⟨hspeakable.inside, hspeakable.accepted, hspeakable.short⟩, hlook⟩

/-- **What a request to store an artifact leaves alone**, whatever the answer: every file that is
neither at its temporary place nor, when it succeeds, at the place of the artifact. -/
theorem add_keeps (call : WriteCall) (archive : DirectoryArchive) :
    archive.Precedes (add call archive).memory ∧ ∀ p bytes, call.Spares p →
      (∀ d, (add call archive).answer = .ok d → d.path.place ≠ p.place) →
        archive.look p = some (.file bytes) →
          (add call archive).memory.look p = some (.file bytes) := by
  rcases add_cases call archive with ⟨-, -, hsame⟩ |
    ⟨destination, result, hdestination, -, hwrite, hanswer⟩
  · rw [hsame]
    exact ⟨.refl archive, fun _ _ _ _ hlook ↦ hlook⟩
  · obtain ⟨hproper, -⟩ := Destination.ofPath?_eq_some hdestination
    obtain ⟨hprecedes, hkeep⟩ := write_keeps hproper hwrite
    refine ⟨⟨hprecedes.root, hprecedes.location, hprecedes.directory⟩,
      fun p bytes hspares hne ↦ hkeep p bytes (hspares destination hdestination) ?_⟩
    rintro rfl
    rcases hanswer with ⟨-, fault, hfault⟩ | ⟨hanswer, -⟩
    · cases hfault
    · have hpath : (describe call.fragment call.kind call.target).path = call.target := rfl
      rw [← ArchivePath.place_eq_of_ofPath? hdestination, ← hpath]
      exact hne _ hanswer

/-- The path of the table of contents. -/
def tableFile : ArchivePath := ⟨tableName⟩

theorem ofPath?_tableFile : Destination.ofPath? tableFile.text = some tableDestination := by
  decide

/-- The table of contents is written, and the answer tells whether that worked. -/
theorem publish_cases (toc : TableOfContents) (archive : DirectoryArchive) :
    ∃ result, archive.write tableDestination (TableOfContents.codec.indented toc).toUTF8 =
        (result, (publish toc archive).memory) ∧
      (result = .ok () ↔ (publish toc archive).answer = .ok ()) := by
  rw [publish]
  rcases archive.write tableDestination (TableOfContents.codec.indented toc).toUTF8 with
    ⟨fault | _, archive'⟩
  · exact ⟨.error fault, rfl, nofun, nofun⟩
  · exact ⟨.ok (), rfl, fun _ ↦ rfl, fun _ ↦ rfl⟩

theorem written_publish (toc : TableOfContents) (archive : DirectoryArchive) :
    (publish toc archive).memory.written = archive.written := by
  obtain ⟨result, hwrite, -⟩ := publish_cases toc archive
  exact congrArg (·.2.written) hwrite.symm

/-- **What storing the table of contents comes to.** -/
theorem publish_ok {toc : TableOfContents} (h : (publish toc archive).answer = .ok ()) :
    archive.Speakable tableFile ∧ (publish toc archive).memory.look tableFile =
      some (.file (TableOfContents.codec.indented toc).toUTF8) := by
  obtain ⟨result, hwrite, hiff⟩ := publish_cases toc archive
  rw [hiff.mpr h] at hwrite
  exact write_ok ofPath?_tableFile hwrite

/-- **What storing the table of contents leaves alone**, whatever the answer. -/
theorem publish_keeps (toc : TableOfContents) (archive : DirectoryArchive) :
    archive.Precedes (publish toc archive).memory ∧ ∀ p bytes,
      tableDestination.temporaryPlace ≠ p.place →
      ((publish toc archive).answer = .ok () → p.place ≠ tableFile.place) →
        archive.look p = some (.file bytes) →
          (publish toc archive).memory.look p = some (.file bytes) := by
  obtain ⟨result, hwrite, hiff⟩ := publish_cases toc archive
  obtain ⟨hproper, -⟩ := Destination.ofPath?_eq_some ofPath?_tableFile
  obtain ⟨hprecedes, hkeep⟩ := write_keeps hproper hwrite
  refine ⟨hprecedes, fun p bytes htemporary hne ↦ hkeep p bytes htemporary fun hok ↦ ?_⟩
  rw [← ArchivePath.place_eq_of_ofPath? ofPath?_tableFile]
  exact (hne (hiff.mp hok)).symm

/-! ## Sequences of requests -/

section

variable {ws ws' : List (WriteCall × Except Error ArtifactDescriptor)}

theorem precedes_of_answers (h : writer.Answers archive ws archive') :
    archive.Precedes archive' := by
  induction ws generalizing archive with
  | nil =>
    obtain rfl : archive' = archive := h
    exact .refl _
  | cons w ws ih =>
    obtain ⟨-, hrest⟩ := h
    exact (add_keeps w.1 archive).1.trans (ih hrest)

/-- **What is not stored over stays**, whatever was refused in between. -/
theorem look_of_forall_ne (h : writer.Answers archive ws archive') {p : ArchivePath}
    (hspares : ∀ w ∈ ws, w.1.Spares p)
    (hne : ∀ w ∈ ws, ∀ d, w.2 = .ok d → d.path.place ≠ p.place) {bytes : ByteArray}
    (hlook : archive.look p = some (.file bytes)) : archive'.look p = some (.file bytes) := by
  induction ws generalizing archive with
  | nil =>
    obtain rfl : archive' = archive := h
    exact hlook
  | cons w ws ih =>
    obtain ⟨hanswer, hrest⟩ := h
    have hmem : w ∈ w :: ws := List.mem_cons_self
    refine ih hrest (fun w' hw' ↦ hspares w' (List.mem_cons_of_mem w hw'))
      (fun w' hw' ↦ hne w' (List.mem_cons_of_mem w hw')) ?_
    refine (add_keeps w.1 archive).2 p bytes (hspares w hmem) (fun d hd ↦ ?_) hlook
    exact hne w hmem d (hanswer.symm.trans hd)

/-- **The last artifact at a place is found there.** -/
theorem look_last {call : WriteCall} {d : ArtifactDescriptor}
    (h : writer.Answers archive (ws ++ (call, .ok d) :: ws') archive')
    (hspares : ∀ w ∈ ws', w.1.Spares d.path)
    (hlast : ∀ w ∈ ws', ∀ d', w.2 = .ok d' → d'.path.place ≠ d.path.place) :
    archive'.look d.path = some (.file (payload call.fragment)) := by
  obtain ⟨between, -, hanswer, hafter⟩ := Writer.answers_append.mp h
  obtain ⟨-, -, -, hlook⟩ := add_ok hanswer
  exact look_of_forall_ne hafter hspares hlast hlook

/-- Every artifact that was stored is described by its descriptor. -/
theorem describes_of_answers (h : writer.Answers archive ws archive') {call : WriteCall}
    {d : ArtifactDescriptor} (hw : (call, .ok d) ∈ ws) :
    d = describe call.fragment call.kind call.target ∧ archive.Speakable d.path := by
  obtain ⟨before, after, rfl⟩ := List.append_of_mem hw
  obtain ⟨between, hbefore, hanswer, -⟩ := Writer.answers_append.mp h
  obtain ⟨hd, -, hspeakable, -⟩ := add_ok hanswer
  exact ⟨hd, (precedes_of_answers hbefore).speakable_iff.mp hspeakable⟩

end

/-- Artifacts that were stored one after the other, with their descriptors. -/
abbrev Ledger : Type := List (WriteCall × ArtifactDescriptor)

/-- An archive was asked to store some artifacts and stored them all. -/
def Stores (archive : DirectoryArchive) (ledger : Ledger) (archive' : DirectoryArchive) : Prop :=
  writer.Answers archive (ledger.map fun w ↦ (w.1, .ok w.2)) archive'

variable {ledger : Ledger}

theorem stores_cons {w : WriteCall × ArtifactDescriptor} :
    archive.Stores (w :: ledger) archive' ↔
      (add w.1 archive).answer = .ok w.2 ∧ (add w.1 archive).memory.Stores ledger archive' :=
  .rfl

theorem Stores.precedes (h : archive.Stores ledger archive') : archive.Precedes archive' :=
  precedes_of_answers h

/-- Every artifact that was stored is described by its descriptor. -/
theorem Stores.describes (h : archive.Stores ledger archive') {w : WriteCall × ArtifactDescriptor}
    (hw : w ∈ ledger) :
    w.2 = describe w.1.fragment w.1.kind w.1.target ∧ archive.Speakable w.2.path :=
  describes_of_answers h (List.mem_map.mpr ⟨w, hw, rfl⟩)

/-- A path that was asked for is used up. -/
theorem written_add {call : WriteCall} {d : ArtifactDescriptor}
    (h : (add call archive).answer = .ok d) :
    (add call archive).memory.written = d.path :: archive.written := by
  obtain ⟨destination, -, -, -, hwrite⟩ := add_eq h
  exact congrArg (·.2.written) hwrite.symm

theorem Stores.path_not_mem_written (h : archive.Stores ledger archive')
    {w : WriteCall × ArtifactDescriptor} (hw : w ∈ ledger) : w.2.path ∉ archive.written := by
  induction ledger generalizing archive with
  | nil => cases hw
  | cons w' ledger ih =>
    obtain ⟨hanswer, hrest⟩ := stores_cons.mp h
    rcases List.mem_cons.mp hw with rfl | hw
    · exact (add_ok hanswer).2.1
    · have hlater := ih hrest hw
      rw [written_add hanswer, List.mem_cons, not_or] at hlater
      exact hlater.2

/-- No path is stored under twice. -/
theorem Stores.nodup_paths (h : archive.Stores ledger archive') :
    (ledger.map (·.2.path)).Nodup := by
  induction ledger generalizing archive with
  | nil => exact .nil
  | cons w ledger ih =>
    obtain ⟨hanswer, hrest⟩ := stores_cons.mp h
    rw [List.map_cons, List.nodup_cons]
    refine ⟨fun hmem ↦ ?_, ih hrest⟩
    obtain ⟨w', hw', hpath⟩ := List.mem_map.mp hmem
    refine hrest.path_not_mem_written hw' ?_
    rw [written_add hanswer, hpath]
    exact List.mem_cons_self

/-- **The last artifact at a place is found there.** -/
theorem Stores.look_last {before after : Ledger} {w : WriteCall × ArtifactDescriptor}
    (h : archive.Stores (before ++ w :: after) archive') (hw : w.2.path.IsPackage)
    (hlast : ∀ w' ∈ after, w'.2.path.place ≠ w.2.path.place) :
    archive'.look w.2.path = some (.file (payload w.1.fragment)) := by
  rw [Stores, List.map_append, List.map_cons] at h
  refine DirectoryArchive.look_last h (fun _ _ d _ ↦ hw.temporaryPlace_ne d) ?_
  intro w' hw' d' hd'
  obtain ⟨entry, hentry, rfl⟩ := List.mem_map.mp hw'
  obtain rfl := Except.ok.inj hd'
  exact hlast entry hentry

/-! ## Reading artifacts -/

/-- The path of a root still leads to the directory that was opened. -/
structure Rooted (workingDirectory : Location) (archive : DirectoryArchive) : Prop where
  location : archive.location = (Route.ofPath workingDirectory archive.root).location
  passable : archive.tree.Passable (Route.ofPath workingDirectory archive.root).start
    (Route.ofPath workingDirectory archive.root).steps
  hasNul : (Route.ofPath workingDirectory archive.root).hasNul = false

/-- Reads the file at a path below the root, in the spelling of the root. -/
def readFile (workingDirectory : Location) (archive : DirectoryArchive) (p : ArchivePath) :
    Except FileFault ByteArray :=
  archive.tree.read (.ofPath workingDirectory (Route.join archive.root p.text))

variable {workingDirectory : Location}

section

variable {root : String} {tree tree' : FileTree} {notice : Notice}

/-- **What opening an archive comes to.** -/
theorem establish_ok
    (h : establish workingDirectory root tree = (.ok (archive, notice), tree')) :
    tree.makeDirectories (.ofPath workingDirectory root) = (.ok (), tree') ∧
      archive = ⟨root, (Route.ofPath workingDirectory root).location, tree', []⟩ := by
  rw [establish] at h
  rcases hmade : tree.makeDirectories (.ofPath workingDirectory root) with ⟨_ | _, made⟩
  · rw [hmade] at h
    cases h
  · rw [hmade] at h
    obtain ⟨hok, rfl⟩ := Prod.mk.inj h
    obtain ⟨rfl, -⟩ := Prod.mk.inj (Except.ok.inj hok)
    exact ⟨rfl, rfl⟩

theorem rooted_of_establish
    (h : establish workingDirectory root tree = (.ok (archive, notice), tree')) :
    archive.Rooted workingDirectory := by
  obtain ⟨hmade, rfl⟩ := establish_ok h
  obtain ⟨-, hleads⟩ := FileTree.makeDirectories_ok hmade
  by_cases hsteps : (Route.ofPath workingDirectory root).steps = []
  · refine ⟨rfl, ?_, ?_⟩
    · rw [hsteps]
      trivial
    · rw [Route.hasNul, hsteps]
      rfl
  · obtain ⟨hrefusal, hpass, -⟩ := hleads hsteps rfl
    exact ⟨rfl, hpass, (FileTree.refusal?_eq_none_iff.mp hrefusal).1⟩

/-- Opening an archive leaves its files as they are. -/
theorem readFile_of_establish
    (h : establish workingDirectory root tree = (.ok (archive, notice), tree')) {p : ArchivePath}
    {bytes : ByteArray}
    (hread : tree.read (.ofPath workingDirectory (Route.join root p.text)) = .ok bytes) :
    archive.readFile workingDirectory p = .ok bytes := by
  obtain ⟨hmade, rfl⟩ := establish_ok h
  obtain ⟨hgrows, -⟩ := FileTree.makeDirectories_ok hmade
  obtain ⟨-, -, hlook⟩ := FileTree.read_ok hread
  exact FileTree.read_again hread (fun _ ↦ hgrows.look_of_some) (hgrows.look_of_some hlook)

/-- A root is made where there is nothing yet. -/
theorem establish_empty : establish [] "/r" .empty =
    (.ok (⟨"/r", ["r"], .directory [("r", .directory [])], []⟩, .opened "/r"),
      .directory [("r", .directory [])]) := by
  have hroute : Route.ofPath [] "/r" = ⟨[], [some "r"], .nothing, 2⟩ := by decide +kernel
  rw [establish, hroute]
  rfl

end

theorem Rooted.mono (h : archive.Rooted workingDirectory) (hlater : archive.Precedes archive') :
    archive'.Rooted workingDirectory where
  location := by rw [hlater.location, hlater.root, h.location]
  passable := by
    rw [hlater.root]
    exact h.passable.mono hlater.directory
  hasNul := by rw [hlater.root, h.hasNul]

/-- The path of a file leads from the root to its place. -/
theorem Rooted.location_join (h : archive.Rooted workingDirectory) {p : ArchivePath}
    {d : Destination} (hd : Destination.ofPath? p.text = some d) :
    (Route.ofPath workingDirectory (Route.join archive.root p.text)).location =
      archive.location ++ p.place := by
  obtain ⟨hproper, hpieces, hstarts⟩ := Destination.ofPath?_eq_some hd
  obtain ⟨hstart, hjoin⟩ := Route.ofPath_join archive.root hstarts workingDirectory
  rw [Route.filterMap_stepOf? (hpieces ▸ hproper.not_mem_pieces)] at hjoin
  rw [Route.location, hstart, hjoin, List.foldl_append, Route.foldl_advance_names,
    ← Route.location, ← h.location, ArchivePath.place]

/-- **What stands at the place of an artifact can be read under its path.** -/
theorem readFile_of_look (h : archive.Rooted workingDirectory) {p : ArchivePath}
    {front : List String} {name : String} (hname : Route.pieces p.text = front ++ [name])
    (hleads : Route.isRedundant name = false) (hspeakable : archive.Speakable p)
    {bytes : ByteArray} (hlook : archive.look p = some (.file bytes)) :
    archive.readFile workingDirectory p = .ok bytes := by
  obtain ⟨d, hd⟩ := hspeakable.inside
  obtain ⟨hproper, hpieces, hstarts⟩ := Destination.ofPath?_eq_some hd
  have hsteps : (Route.pieces p.text).filterMap Route.stepOf? = p.place.map some :=
    Route.filterMap_stepOf? (hpieces ▸ hproper.not_mem_pieces)
  obtain ⟨hstart, hjoin⟩ := Route.ofPath_join archive.root hstarts workingDirectory
  rw [hsteps] at hjoin
  -- the route goes along the root first, and from there on as it did when the file was written
  obtain ⟨hnul, hsize⟩ := FileTree.refusal?_eq_none_iff.mp hspeakable.accepted
  refine FileTree.read_of_look (FileTree.refusal?_eq_none_iff.mpr ⟨?_, ?_⟩) ?_ ?_ ?_
  · rw [Route.hasNul, Route.below, hsteps, List.any_append, Bool.or_eq_false_iff] at hnul
    rw [Route.hasNul, hjoin, List.any_append, ← Route.hasNul, h.hasNul, hnul.2]
    rfl
  · rw [Route.below, Route.intercalate_pieces, rootSize] at hsize
    rw [Route.ofPath, Route.utf8ByteSize_join archive.root hstarts]
    exact hsize
  · obtain ⟨front', hfront, -⟩ := Route.exists_pieces_join archive.root hstarts
    rw [Route.ofPath, hfront, hname, ← List.append_assoc]
    exact Route.endOf_concat hleads
  · rw [hstart, hjoin, FileTree.passable_append, ← Route.location, ← h.location]
    refine ⟨h.passable, FileTree.passable_names ?_ hspeakable.short⟩
    rw [look] at hlook
    simp [hlook]
  · rw [h.location_join hd]
    exact hlook

/-- What is read under the path of a file stands at its place. -/
theorem look_of_readFile (h : archive.Rooted workingDirectory) {p : ArchivePath} {d : Destination}
    (hd : Destination.ofPath? p.text = some d) {bytes : ByteArray}
    (hread : archive.readFile workingDirectory p = .ok bytes) :
    archive.look p = some (.file bytes) := by
  obtain ⟨-, -, hlook⟩ := FileTree.read_ok hread
  rw [h.location_join hd] at hlook
  exact hlook

/-- **A file can be read as long as one stands at its place.** -/
theorem readFile_again (h : archive.Rooted workingDirectory) {p : ArchivePath} {d : Destination}
    (hd : Destination.ofPath? p.text = some d) {bytes bytes' : ByteArray}
    (hread : archive.readFile workingDirectory p = .ok bytes) (hlater : archive.Precedes archive')
    (hlook : archive'.look p = some (.file bytes')) :
    archive'.readFile workingDirectory p = .ok bytes' := by
  rw [readFile, hlater.root]
  refine FileTree.read_again hread hlater.directory ?_
  rw [h.location_join hd, ← hlater.location]
  exact hlook

end DirectoryArchive

end FragmentArchive
