import FragmentArchive.Proofs.DirectoryArchive
import FragmentArchive.Proofs.Documents

/-!
# Requests to an opened archive

An opened archive can be asked to store artifacts and tables of contents in any order. Each request
writes one file, through a temporary one beside it, and what it does to any other file is known from
the places of these two alone: a file at the place of what was stored now has that content, a file
at the temporary place is gone, and every other file is as it was. This is the only statement about
single requests. What a sequence of them does to a file follows from it by induction, whatever the
requests are.
-/

namespace FragmentArchive.DirectoryArchive

/-! ## Requests -/

/-- What an opened archive can be asked for. -/
inductive Request
  | add (call : WriteCall)
  | publish (toc : TableOfContents)

namespace Request

/-- The archive after a request. -/
def serve : Request → DirectoryArchive → DirectoryArchive
  | .add call, archive => (DirectoryArchive.add call archive).memory
  | .publish toc, archive => (DirectoryArchive.publish toc archive).memory

/-- Whether a request succeeds. -/
def Succeeds : Request → DirectoryArchive → Prop
  | .add call, archive => ∃ d, (DirectoryArchive.add call archive).answer = .ok d
  | .publish toc, archive => (DirectoryArchive.publish toc archive).answer = .ok ()

/-- The path that a request is to store something under. -/
def path : Request → ArchivePath
  | .add call => call.target
  | .publish _ => tableFile

/-- What a request is to store. -/
def content : Request → ByteArray
  | .add call => payload call.fragment
  | .publish toc => (TableOfContents.codec.indented toc).toUTF8

/-- The destination that a request tries to write to, unless its path is refused before. -/
def destination? : Request → DirectoryArchive → Option Destination
  | .add call, archive =>
    if call.target ∈ archive.written then none else Destination.ofPath? call.target.text
  | .publish _, _ => some tableDestination

/-- A request stores its content at the place of a path. -/
def StoresAt (r : Request) (archive : DirectoryArchive) (p : ArchivePath) : Prop :=
  r.Succeeds archive ∧ r.path.place = p.place

/-- A request gets as far as writing its temporary file, and does so at the place of a path. -/
def PassesThrough (r : Request) (archive : DirectoryArchive) (p : ArchivePath) : Prop :=
  ∃ d ∈ r.destination? archive, d.temporaryPlace = p.place ∧
    FileTree.refusal? (d.temporaryRoute archive.location archive.rootSize) = none

end Request

/-- The archive after some requests. -/
def after (archive : DirectoryArchive) (rs : List Request) : DirectoryArchive :=
  rs.foldl (fun archive r ↦ r.serve archive) archive

/-! ## Stored files -/

/-- Whatever stands at the place of a path can be read under it. That depends on the path and the
root alone, not on the files. -/
structure Reachable (archive : DirectoryArchive) (p : ArchivePath) : Prop where
  speakable : archive.Speakable p
  named : ∃ front name, Route.pieces p.text = front ++ [name] ∧ Route.isRedundant name = false
  short : ∀ name ∈ archive.location, name.utf8ByteSize ≤ FileTree.nameLimit

variable {archive archive' : DirectoryArchive} {p : ArchivePath} {r : Request}

theorem Reachable.mono (h : archive.Reachable p) (hlater : archive.Precedes archive') :
    archive'.Reachable p :=
  ⟨hlater.speakable_iff.mpr h.speakable, h.named, by rw [hlater.location]; exact h.short⟩

/-- A path below the root never goes up. -/
theorem Reachable.not_mem_place (h : archive.Reachable p) : ".." ∉ p.place := by
  obtain ⟨d, hd⟩ := h.speakable.inside
  obtain ⟨hproper, hpieces, -⟩ := Destination.ofPath?_eq_some hd
  exact fun hmem ↦ hproper.not_mem_pieces (hpieces ▸ (List.mem_filter.mp hmem).1)

/-- A file at the place of a reachable path is what is read under it. -/
theorem Reachable.readFile_iff (h : archive.Reachable p) {workingDirectory : Location}
    (hrooted : archive.Rooted workingDirectory) {bytes : ByteArray} :
    archive.readFile workingDirectory p = .ok bytes ↔ archive.look p = some (.file bytes) := by
  obtain ⟨d, hd⟩ := h.speakable.inside
  obtain ⟨front, name, hname, hleads⟩ := h.named
  exact ⟨look_of_readFile hrooted hd, readFile_of_look hrooted hname hleads h.speakable⟩

theorem reachable_of_write {d : Destination} {content : ByteArray} {tree : FileTree}
    (hp : Destination.ofPath? p.text = some d)
    (h : d.write archive.location archive.rootSize content archive.tree = (.ok (), tree)) :
    archive.Reachable p := by
  obtain ⟨hproper, hpieces, -⟩ := Destination.ofPath?_eq_some hp
  obtain ⟨hbehind, hshort⟩ := Destination.behind_eq_nil_of_write hproper h
  have hwrite : archive.write d content = (.ok (), { archive with tree }) := by rw [write, h]
  refine ⟨(write_ok hp hwrite).1, ⟨d.above, d.name, ?_, hproper.name_leads⟩, hshort⟩
  rw [hpieces, Destination.pieces, hbehind]

/-! ## Single requests -/

theorem precedes_serve (r : Request) (archive : DirectoryArchive) :
    archive.Precedes (r.serve archive) := by
  cases r with
  | add call => exact (add_keeps call archive).1
  | publish toc => exact (publish_keeps toc archive).1

/-- A request is refused before anything is touched, or it writes to its destination, and succeeds
when that does. -/
private theorem serve_cases (r : Request) (archive : DirectoryArchive) :
    (r.destination? archive = none ∧ r.serve archive = archive ∧ ¬r.Succeeds archive) ∨
    ∃ d result, r.destination? archive = some d ∧ Destination.ofPath? r.path.text = some d ∧
      d.write archive.location archive.rootSize r.content archive.tree =
        (result, (r.serve archive).tree) ∧
      (r.Succeeds archive ↔ result = .ok ()) := by
  cases r with
  | add call =>
    rcases add_cases call archive with ⟨hrefused, ⟨e, herror⟩, hsame⟩ |
      ⟨d, result, hd, hwritten, hwrite, hanswer⟩
    · refine .inl ⟨?_, hsame, ?_⟩
      · rw [Request.destination?]
        rcases hrefused with hnone | hwritten
        · rw [hnone, ite_self]
        · rw [if_pos hwritten]
      · rintro ⟨d, hd⟩
        rw [herror] at hd
        cases hd
    · refine .inr ⟨d, result, ?_, hd, ?_, ?_⟩
      · rw [Request.destination?, if_neg hwritten, hd]
      · obtain ⟨hresult, htree⟩ := Prod.mk.inj hwrite
        exact Prod.ext hresult (congrArg (·.tree) htree)
      · rcases hanswer with ⟨⟨e, herror⟩, fault, rfl⟩ | ⟨hok, rfl⟩
        · constructor
          · rintro ⟨d, hd⟩
            rw [herror] at hd
            cases hd
          · intro hok
            cases hok
        · exact ⟨fun _ ↦ rfl, fun _ ↦ ⟨_, hok⟩⟩
  | publish toc =>
    rcases hwrite : tableDestination.write archive.location archive.rootSize
      (TableOfContents.codec.indented toc).toUTF8 archive.tree with ⟨result, tree⟩
    have hstored : archive.write tableDestination (TableOfContents.codec.indented toc).toUTF8 =
        (result, { archive with tree }) := by rw [write, hwrite]
    refine .inr ⟨tableDestination, result, rfl, ofPath?_tableFile, ?_, ?_⟩
    · rw [Request.content, hwrite, Request.serve, publish, hstored]
      cases result <;> rfl
    · rw [Request.Succeeds, publish, hstored]
      cases result with
      | error fault => constructor <;> intro hok <;> cases hok
      | ok _ => exact ⟨fun _ ↦ rfl, fun _ ↦ rfl⟩

/-- What succeeds can be read under its path. -/
theorem stored_of_succeeds (h : r.Succeeds archive) :
    (r.serve archive).Reachable r.path ∧
      (r.serve archive).look r.path = some (.file r.content) := by
  rcases serve_cases r archive with ⟨-, -, hnot⟩ | ⟨d, result, -, hd, hwrite, hsucceeds⟩
  · exact absurd h hnot
  · obtain rfl := hsucceeds.mp h
    obtain ⟨hproper, -⟩ := Destination.ofPath?_eq_some hd
    obtain ⟨-, -, -, made, -, hlook⟩ := Destination.write_ok hproper hwrite
    have hprecedes := precedes_serve r archive
    refine ⟨(reachable_of_write hd hwrite).mono hprecedes, ?_⟩
    rw [look, hprecedes.location, ArchivePath.place_eq_of_ofPath? hd, hlook, if_pos rfl]

/-- **What a request does to a file.** It is replaced when something is stored at its place, it is
gone when the temporary file was there, and otherwise it is as it was. -/
theorem look_serve (r : Request) (hp : archive.Reachable p) {bytes : ByteArray}
    (hlook : archive.look p = some (.file bytes)) :
    (r.StoresAt archive p → (r.serve archive).look p = some (.file r.content)) ∧
    (¬r.StoresAt archive p → r.PassesThrough archive p → (r.serve archive).look p = none) ∧
    (¬r.StoresAt archive p → ¬r.PassesThrough archive p →
      (r.serve archive).look p = some (.file bytes)) := by
  have hlater : ∀ {node}, (r.serve archive).look p = node ↔
      (r.serve archive).tree.look (archive.location ++ p.place) = node := by
    rw [look, (precedes_serve r archive).location]
  refine ⟨?_, ?_⟩
  · rintro ⟨hsucceeds, hplace⟩
    have hstored := (stored_of_succeeds hsucceeds).2
    rw [look, hplace] at hstored
    exact hstored
  rcases serve_cases r archive with ⟨hnone, hsame, -⟩ | ⟨d, result, hd, hpath, hwrite, hsucceeds⟩
  · refine ⟨fun _ hpasses ↦ ?_, fun _ _ ↦ by rw [hsame, hlook]⟩
    obtain ⟨d, hd, -⟩ := hpasses
    rw [hnone] at hd
    cases hd
  obtain ⟨hproper, -⟩ := Destination.ofPath?_eq_some hpath
  have hne : ¬r.StoresAt archive p → result = .ok () → d.place ≠ p.place := by
    intro hnot hok heq
    exact hnot ⟨hsucceeds.mpr hok, (ArchivePath.place_eq_of_ofPath? hpath).trans heq⟩
  constructor
  · rintro hnot ⟨d', hd', htemporary, haccepted⟩
    obtain rfl : d = d' := Option.some.inj (hd.symm.trans hd')
    have hup : d.temporaryName ≠ ".." := by
      intro heq
      refine hp.not_mem_place (htemporary ▸ ?_)
      rw [Destination.temporaryPlace, heq]
      exact List.mem_append_right _ (List.mem_singleton_self _)
    have hshort : ∀ name ∈ archive.location ++ d.temporaryPlace,
        name.utf8ByteSize ≤ FileTree.nameLimit := by
      rw [htemporary]
      exact fun name hname ↦ (List.mem_append.mp hname).elim (hp.short name)
        (hp.speakable.short name)
    have hthere : archive.tree.look (archive.location ++ d.temporaryPlace) =
        some (.file bytes) := by
      rw [htemporary]
      exact hlook
    rw [hlater, ← htemporary]
    refine Destination.write_over_temporary hproper ⟨hup, haccepted, hshort⟩ hthere hwrite ?_
    rw [htemporary]
    exact hne hnot
  · intro hnot hpasses
    rw [hlater]
    by_cases htemporary : d.temporaryPlace = p.place
    · -- the path was too long to get that far
      have hunreached : ¬d.ReachesTemporary archive.location archive.rootSize :=
        fun hreaches ↦ hpasses ⟨d, hd, htemporary, hreaches.temporary_accepted⟩
      exact (Destination.write_of_unreached hproper hunreached hwrite).2.look_of_some hlook
    · obtain ⟨-, hkeep⟩ := Destination.write_keeps hproper hwrite
      refine hkeep _ bytes hlook (fun heq ↦ ?_) fun hok heq ↦ ?_
      · exact htemporary (List.append_cancel_left heq).symm
      · exact hne hnot hok (List.append_cancel_left heq).symm

/-! ## Sequences of requests -/

theorem precedes_after (archive : DirectoryArchive) (rs : List Request) :
    archive.Precedes (archive.after rs) := by
  induction rs generalizing archive with
  | nil => exact .refl archive
  | cons r rs ih => exact (precedes_serve r archive).trans (ih _)

/-- Something is the case after every prefix of a sequence of requests. -/
def Throughout (Q : DirectoryArchive → Prop) (archive : DirectoryArchive) (rs : List Request) :
    Prop :=
  ∀ served, served <+: rs → Q (archive.after served)

/-- Something is the case for every request and the archive that it comes to. -/
def ForEach (P : Request → DirectoryArchive → Prop) : DirectoryArchive → List Request → Prop
  | _, [] => True
  | archive, r :: rs => P r archive ∧ ForEach P (r.serve archive) rs

section

variable {I Q : DirectoryArchive → Prop} {N P : Request → DirectoryArchive → Prop}
  {rs : List Request}

theorem throughout_cons :
    archive.Throughout Q (r :: rs) ↔ Q archive ∧ (r.serve archive).Throughout Q rs := by
  constructor
  · intro h
    refine ⟨h [] List.nil_prefix, fun served hserved ↦ ?_⟩
    exact h (r :: served) (List.cons_prefix_cons.mpr ⟨rfl, hserved⟩)
  · rintro ⟨hnow, hlater⟩ served hserved
    cases served with
    | nil => exact hnow
    | cons r' served =>
      obtain ⟨rfl, hserved'⟩ := List.cons_prefix_cons.mp hserved
      exact hlater served hserved'

theorem ForEach.imp {P' : Request → DirectoryArchive → Prop} (h : ForEach P archive rs)
    (himp : ∀ r ∈ rs, ∀ archive, P r archive → P' r archive) : ForEach P' archive rs := by
  induction rs generalizing archive with
  | nil => trivial
  | cons r rs ih =>
    refine ⟨himp r List.mem_cons_self archive h.1, ?_⟩
    exact ih h.2 fun r' hr' ↦ himp r' (List.mem_cons_of_mem r hr')

/-- What an invariant ensures for each of the requests. -/
theorem forEach_of_invariant (hinvariant : ∀ (r : Request) archive, I archive → I (r.serve archive))
    (h : ∀ r ∈ rs, ∀ archive, I archive → P r archive) (hI : I archive) :
    ForEach P archive rs := by
  induction rs generalizing archive with
  | nil => trivial
  | cons r rs ih =>
    refine ⟨h r List.mem_cons_self archive hI, ?_⟩
    exact ih (fun r' hr' ↦ h r' (List.mem_cons_of_mem r hr')) (hinvariant r archive hI)

/-- **What holds throughout a sequence is decided request by request**, when it is decided for a
single one wherever it comes. -/
theorem throughout_iff_forEach
    (hinvariant : ∀ (r : Request) archive, I archive → I (r.serve archive))
    (hstep : ∀ (r : Request) archive, I archive → N r archive → Q archive →
      (Q (r.serve archive) ↔ P r archive))
    (hI : I archive) (hN : ForEach N archive rs) (hQ : Q archive) :
    archive.Throughout Q rs ↔ ForEach P archive rs := by
  induction rs generalizing archive with
  | nil =>
    refine iff_of_true (fun served hserved ↦ ?_) trivial
    rw [List.prefix_nil.mp hserved]
    exact hQ
  | cons r rs ih =>
    obtain ⟨hnow, hlater⟩ := hN
    have hr := hstep r archive hI hnow hQ
    have hrest := fun hQ' ↦ ih (hinvariant r archive hI) hlater hQ'
    rw [throughout_cons, ForEach]
    constructor
    · rintro ⟨-, h⟩
      have hQ' : Q (r.serve archive) := h [] List.nil_prefix
      exact ⟨hr.mp hQ', (hrest hQ').mp h⟩
    · rintro ⟨hP, h⟩
      exact ⟨hQ, (hrest (hr.mpr hP)).mpr h⟩

end

/-! ## The table of contents -/

section

variable {workingDirectory : Location} {toc : TableOfContents}

/-- The table of contents is read from what its file holds. -/
private theorem readTable_eq_ok_iff {root : String} {tree : FileTree} :
    readTable workingDirectory root tree = .ok toc ↔
      ∃ bytes, tree.read (.ofPath workingDirectory (tablePath root)) = .ok bytes ∧
        readDocument TableOfContents.codec (.file bytes) = .ok toc := by
  rw [readTable, FileTree.read]
  cases tree.openRoute (.ofPath workingDirectory (tablePath root)) with
  | error fault =>
    constructor
    · intro htable
      cases htable
    · rintro ⟨bytes, hread, -⟩
      cases hread
  | ok node =>
    refine mapError_eq_ok_iff.trans ?_
    cases node with
    | directory entries =>
      constructor
      · intro htable
        cases htable
      · rintro ⟨bytes, hread, -⟩
        cases hread
    | file bytes =>
      refine ⟨fun hread ↦ ⟨bytes, rfl, hread⟩, ?_⟩
      rintro ⟨bytes', hbytes, hread⟩
      obtain rfl : bytes = bytes' := Except.ok.inj hbytes
      exact hread

theorem Reachable.readTable_iff (h : archive.Reachable tableFile)
    (hrooted : archive.Rooted workingDirectory) :
    readTable workingDirectory archive.root archive.tree = .ok toc ↔
      ∃ bytes, archive.look tableFile = some (.file bytes) ∧
        readDocument TableOfContents.codec (.file bytes) = .ok toc := by
  refine readTable_eq_ok_iff.trans (exists_congr fun bytes ↦ and_congr_left' ?_)
  exact h.readFile_iff hrooted

private theorem fromUTF8?_toUTF8 (text : String) : String.fromUTF8? text.toUTF8 = some text := by
  rw [String.fromUTF8?, String.toUTF8_eq_toByteArray, dif_pos text.isValidUTF8]
  rfl

/-- A table of contents is read from the bytes that are stored for it. -/
theorem readDocument_indented (toc : TableOfContents) :
    readDocument TableOfContents.codec (.file (TableOfContents.codec.indented toc).toUTF8) =
      .ok toc := by
  rw [readDocument, fromUTF8?_toUTF8]
  dsimp only
  rw [TableOfContents.faithful_codec.parse_indented]
  rfl

/-- No table of contents is read from an artifact, since a fragment has no member that names a
package. -/
theorem readDocument_payload_ne (f : Fragment) :
    readDocument TableOfContents.codec (.file (payload f)) ≠ .ok toc := by
  rw [readDocument, payload, fromUTF8?_toUTF8]
  dsimp only
  rw [Json.Codec.compact, Json.Value.compact, Json.Codec.parse_chars Json.Layout.blank_compact]
  intro h
  exact Json.Record.read_write_ne_ok List.mem_cons_self rfl (by decide) f toc
    (mapError_eq_ok_iff.mp h)

/-- **A table of contents that was stored is read back**, whatever was stored before. -/
theorem published_table_is_read {root : String} {tree tree' : FileTree} {notice : Notice}
    (hopen : establish workingDirectory root tree = (.ok (archive, notice), tree'))
    (before : List Request)
    (h : (publish toc (archive.after before)).answer = .ok ()) :
    readTable workingDirectory root (publish toc (archive.after before)).memory.tree = .ok toc := by
  obtain ⟨hreachable, hlook⟩ := stored_of_succeeds (r := .publish toc) h
  have hlater := (precedes_after archive before).trans
    (precedes_serve (.publish toc) (archive.after before))
  have hrooted := (rooted_of_establish hopen).mono hlater
  have hroot : archive.root = root := by rw [(establish_ok hopen).2]
  rw [← hroot, ← hlater.root]
  exact (hreachable.readTable_iff hrooted).mpr ⟨_, hlook, readDocument_indented toc⟩

/-- A table with an unusual name takes the place of an earlier one. -/
theorem second_table_is_read :
    let toc : TableOfContents := { TableOfContents.blank with
      packageName := "\"p\" \\ \n", assetModulesInfo := some ⟨[], ""⟩ }
    let archive : DirectoryArchive := ⟨"/r", ["r"], .directory [("r", .directory [])], []⟩
    establish [] "/r" .empty = (.ok (archive, .opened "/r"), archive.tree) ∧
      (publish toc (archive.after [.publish .blank])).answer = .ok () ∧
      readTable [] "/r" (publish toc (archive.after [.publish .blank])).memory.tree = .ok toc := by
  intro toc archive
  have hopen : establish [] "/r" .empty = (.ok (archive, .opened "/r"), archive.tree) :=
    establish_empty
  have hstored : (publish toc (archive.after [.publish .blank])).answer = .ok () :=
    toOption_eq_some_iff.mp (by decide +kernel)
  exact ⟨hopen, hstored, published_table_is_read hopen [.publish .blank] hstored⟩

end

end FragmentArchive.DirectoryArchive
