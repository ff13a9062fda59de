import FragmentArchive.DirectoryArchive.Destination
import FragmentArchive.Proofs.Files
import FragmentArchive.Proofs.Route

/-!
# Writing to a destination

Writing touches two places: the destination itself, and the temporary name beside it, where nothing
is left in the end. The name of a temporary file ends differently from the names of all artifacts
and of the table of contents, so of all that is stored in an archive only the destination changes,
and not even the destination does when writing fails.
-/

namespace FragmentArchive

namespace Destination

/-! ## Places -/

/-- A destination that does not go up and has a name. -/
structure Proper (d : Destination) : Prop where
  above : ".." ∉ d.above
  name_leads : Route.isRedundant d.name = false
  name_ne : d.name ≠ ".."
  behind : ∀ piece ∈ d.behind, Route.isRedundant piece = true

/-- All pieces of a destination. -/
def pieces (d : Destination) : List String := d.above ++ d.name :: d.behind

/-- The place of a destination below the root. -/
def place (d : Destination) : Location := Route.names d.above ++ [d.name]

/-- The place of the temporary file. -/
def temporaryPlace (d : Destination) : Location := Route.names d.above ++ [d.temporaryName]

variable {d : Destination}

theorem Proper.not_mem_pieces (hd : d.Proper) : ".." ∉ d.pieces := by
  intro h
  rcases List.mem_append.mp h with h | h
  · exact hd.above h
  rcases List.mem_cons.mp h with h | h
  · exact hd.name_ne h.symm
  · exact absurd (hd.behind _ h) (by decide)

theorem Proper.names_pieces (hd : d.Proper) : Route.names d.pieces = d.place := by
  have hsplit : d.pieces = (d.above ++ [d.name]) ++ d.behind := by simp [pieces]
  rw [hsplit, Route.names_append, Route.names_append, Route.names_singleton hd.name_leads,
    Route.names_eq_nil hd.behind, List.append_nil, place]

/-- What a path has to be like to stay inside. -/
theorem staysInside_iff {path : String} : staysInside path = true ↔
    path ≠ "" ∧ path.startsWith "/" = false ∧ ".." ∉ Route.pieces path ∧
      (Route.pieces path).head? ≠ some "." := by
  have hhead : (Route.pieces path).head? ≠ some "" ↔ path ≠ "" ∧ path.startsWith "/" = false := by
    rw [ne_eq, Route.head?_pieces_eq_empty_iff, not_or, Bool.not_eq_true]
  have hup : (!(Route.pieces path).contains "..") = true ↔ ".." ∉ Route.pieces path := by
    rw [Bool.not_eq_true', ← Bool.not_eq_true, List.contains_iff_mem]
  rw [staysInside, Bool.and_eq_true, Bool.and_eq_true, decide_eq_true_iff, decide_eq_true_iff,
    hhead, hup, and_assoc, and_assoc, and_comm (a := _ ≠ some ".")]

/-- **Paths that are accepted.** -/
theorem ofPath?_eq_some {path : String} (h : ofPath? path = some d) :
    d.Proper ∧ Route.pieces path = d.pieces ∧ path.startsWith "/" = false := by
  rw [ofPath?] at h
  by_cases hinside : staysInside path = true
  · rw [if_pos hinside] at h
    dsimp only at h
    obtain ⟨-, hstarts, hup, -⟩ := staysInside_iff.mp hinside
    have hreversed := List.takeWhile_append_dropWhile (p := Route.isRedundant)
      (l := (Route.pieces path).reverse)
    have hleads := List.head?_dropWhile_not Route.isRedundant (Route.pieces path).reverse
    rcases hdrop : (Route.pieces path).reverse.dropWhile Route.isRedundant with _ | ⟨name, above⟩
    · rw [hdrop] at h
      cases h
    · -- the pieces are cut at the last name, the first one from the end
      rw [hdrop] at h hreversed hleads
      obtain rfl := Option.some.inj h
      have hpieces : Route.pieces path = above.reverse ++ name ::
          ((Route.pieces path).reverse.takeWhile Route.isRedundant).reverse := by
        rw [← List.reverse_inj, ← hreversed]
        simp [hreversed]
      have hup' : ∀ piece ∈ above.reverse ++ [name], piece ≠ ".." := by
        rintro piece hpiece rfl
        rw [hpieces, List.append_cons] at hup
        exact hup (List.mem_append_left _ hpiece)
      refine ⟨⟨fun hmem ↦ ?_, hleads, ?_, fun piece hpiece ↦ ?_⟩, hpieces, hstarts⟩
      · exact hup' _ (List.mem_append_left _ hmem) rfl
      · exact hup' name (List.mem_append_right _ (List.mem_singleton_self name))
      · exact List.all_eq_true.mp List.all_takeWhile piece (List.mem_reverse.mp hpiece)
  · rw [if_neg hinside] at h
    cases h

/-- **Which paths are accepted.** A path that stays inside has a name, if only its first piece. -/
theorem exists_ofPath?_iff {path : String} :
    (∃ d, ofPath? path = some d) ↔ staysInside path = true := by
  rw [ofPath?]
  by_cases hinside : staysInside path = true
  · rw [if_pos hinside]
    refine iff_of_true ?_ hinside
    rcases hdrop : (Route.pieces path).reverse.dropWhile Route.isRedundant with _ | ⟨name, above⟩
    · -- the first piece does not lead nowhere
      have hall := List.takeWhile_append_dropWhile (p := Route.isRedundant)
        (l := (Route.pieces path).reverse)
      rw [hdrop, List.append_nil] at hall
      rcases hpieces : Route.pieces path with _ | ⟨piece, rest⟩
      · exact absurd (List.map_eq_nil_iff.mp hpieces) (List.splitOn_ne_nil '/' path.toList)
      · have hmem : piece ∈ (Route.pieces path).reverse.takeWhile Route.isRedundant := by
          rw [hall, hpieces]
          simp
        have hredundant : Route.isRedundant piece = true :=
          List.all_eq_true.mp List.all_takeWhile piece hmem
        rw [Route.isRedundant, Bool.or_eq_true, decide_eq_true_eq, decide_eq_true_eq] at hredundant
        rw [staysInside, hpieces] at hinside
        rcases hredundant with rfl | rfl
        · simp at hinside
        · simp at hinside
    · dsimp only
      rw [hdrop]
      exact ⟨_, rfl⟩
  · rw [if_neg hinside]
    refine iff_of_false ?_ hinside
    rintro ⟨d, hd⟩
    cases hd

/-! ## Temporary names -/

/-- A temporary name has the extension of temporary files, or is that of the directory above. -/
theorem suffix_temporaryName :
    d.temporaryName = ".." ∨ ".tmp".toList <:+ d.temporaryName.toList := by
  have htmp : ".tmp".toList = ['.', 't', 'm', 'p'] := by decide
  rw [temporaryName, htmp]
  split
  · exact .inl rfl
  · rw [String.toList_ofList]
    exact .inr (List.suffix_append ..)

/-- A name with another extension is not temporary. -/
theorem temporaryPlace_ne (above : Location) {name : String} (hname : name ≠ "..")
    (htmp : ¬".tmp".toList <:+ name.toList) : d.temporaryPlace ≠ above ++ [name] := by
  intro heq
  obtain ⟨-, hlast⟩ := List.append_inj' heq rfl
  rw [← (List.cons.inj hlast).1] at hname htmp
  exact htmp (suffix_temporaryName.resolve_left hname)

/-- A temporary name is a name, or that of the directory above. -/
theorem isRedundant_temporaryName (h : d.temporaryName ≠ "..") :
    Route.isRedundant d.temporaryName = false := by
  have htmp : 1 < ".tmp".toList.length := by decide
  exact Route.isRedundant_of_length
    (Nat.lt_of_lt_of_le htmp (suffix_temporaryName.resolve_left h).length_le)

/-! ## Writing -/

open FileTree (refusal? nameLimit)

section

variable {root : Location} {rootSize : Nat} {content : ByteArray} {t t' : FileTree}

/-- The route to the temporary file below a root. -/
abbrev temporaryRoute (d : Destination) (root : Location) (rootSize : Nat) : Route :=
  .below root rootSize (d.above ++ [d.temporaryName])

theorem steps_ne_nil {ps : List String} {name : String}
    (hname : Route.isRedundant name = false) (ps' : List String) :
    (Route.below root rootSize (ps ++ name :: ps')).steps ≠ [] := by
  have hstep : Route.stepOf? name ≠ none := by
    rw [Route.stepOf?, hname, if_neg Bool.false_ne_true]
    split <;> simp
  obtain ⟨step, hstep⟩ := Option.ne_none_iff_exists'.mp hstep
  simp [Route.below, List.filterMap_append, List.filterMap_cons_some hstep]

/-- A file that was written under its temporary name has one: the directory above, which the name
can be otherwise, is no file. -/
theorem temporaryName_ne {made prepared : FileTree} (hd : d.Proper)
    (h : made.write (.below root rootSize (d.above ++ [d.temporaryName])) content = .ok prepared) :
    d.temporaryName ≠ ".." := by
  intro heq
  have hsteps : (Route.below root rootSize (d.above ++ [d.temporaryName])).steps =
      (root ++ Route.names d.above).map some ++ [none] := by
    simp [Route.below, heq, Route.filterMap_stepOf? hd.above, Route.stepOf?, Route.isRedundant]
  -- going up leads to a directory, which is never written as a file
  obtain ⟨-, hpass, hlook, -⟩ := FileTree.write_ok h (by simp [hsteps])
  rw [hsteps, FileTree.passable_append, Route.foldl_advance_names] at hpass
  rw [Route.location, hsteps, List.foldl_append, Route.foldl_advance_names] at hlook
  exact hlook (FileTree.look_dropLast hpass.2.1)

theorem Proper.location_pieces (hd : d.Proper) :
    (Route.below root rootSize d.pieces).location = root ++ d.place := by
  rw [Route.location_below root rootSize hd.not_mem_pieces, hd.names_pieces]

theorem Proper.location_temporary (hd : d.Proper) (htemporary : d.temporaryName ≠ "..") :
    (Route.below root rootSize (d.above ++ [d.temporaryName])).location =
      root ++ d.temporaryPlace := by
  have hup : ".." ∉ d.above ++ [d.temporaryName] := by
    intro hmem
    rcases List.mem_append.mp hmem with hmem | hmem
    · exact hd.above hmem
    · exact htemporary (List.mem_singleton.mp hmem).symm
  rw [Route.location_below root rootSize hup, Route.names_append,
    Route.names_singleton (isRedundant_temporaryName htemporary), temporaryPlace]

/-- Writing succeeds in three steps. -/
theorem exists_steps (h : d.write root rootSize content t = (.ok (), t')) :
    ∃ made prepared, t.makeDirectories (.below root rootSize d.folder) = (.ok (), made) ∧
      made.write (.below root rootSize (d.above ++ [d.temporaryName])) content = .ok prepared ∧
      prepared.moveFile (.below root rootSize (d.above ++ [d.temporaryName]))
        (.below root rootSize d.pieces) = .ok t' := by
  rw [write] at h
  rcases hmade : t.makeDirectories (.below root rootSize d.folder) with ⟨_ | _, made⟩
  · rw [hmade] at h
    cases h
  rw [hmade] at h
  dsimp only at h
  rcases hwrite : made.write (.below root rootSize (d.above ++ [d.temporaryName])) content with
    _ | prepared
  · rw [hwrite] at h
    cases h
  rw [hwrite] at h
  dsimp only at h
  rcases hmove : prepared.moveFile (.below root rootSize (d.above ++ [d.temporaryName]))
      (.below root rootSize d.pieces) with _ | done
  · rw [← pieces, hmove] at h
    cases h
  rw [← pieces, hmove] at h
  obtain rfl : done = t' := (Prod.mk.inj h).2
  exact ⟨made, prepared, rfl, hwrite, hmove⟩

/-- Once the directories on the way are made, writing changes nothing but two places. -/
private theorem look_write (hd : d.Proper) {made : FileTree}
    (hmade : t.makeDirectories (.below root rootSize d.folder) = (.ok (), made))
    (h : d.write root rootSize content t = (.ok (), t')) (l : Location) : t'.look l =
      if l = root ++ d.place then some (.file content)
      else if l = root ++ d.temporaryPlace then none else made.look l := by
  obtain ⟨made', prepared, hmade', hwrite, hmove⟩ := exists_steps h
  obtain rfl : made' = made := (Prod.mk.inj (hmade'.symm.trans hmade)).2
  have htemporary := temporaryName_ne hd hwrite
  have hleads := isRedundant_temporaryName htemporary
  obtain ⟨-, -, -, hprepared⟩ := FileTree.write_ok hwrite (steps_ne_nil hleads [])
  obtain ⟨-, -, -, -, content', hfile, hmoved⟩ :=
    FileTree.moveFile_ok hmove (steps_ne_nil hleads []) (steps_ne_nil hd.name_leads d.behind)
  rw [hprepared, if_pos rfl] at hfile
  obtain rfl := FileTree.Node.file.inj (Option.some.inj hfile)
  rw [hmoved, hprepared, hd.location_pieces, hd.location_temporary htemporary]
  split
  · rfl
  · split <;> rfl

/-- **What writing to a destination comes to.** -/
theorem write_ok (hd : d.Proper) (h : d.write root rootSize content t = (.ok (), t')) :
    refusal? (Route.below root rootSize d.pieces) = none ∧
      (∀ name ∈ d.place, name.utf8ByteSize ≤ nameLimit) ∧
      (∀ l, t.look l = some .directory → t'.look l = some .directory) ∧
      ∃ made, t.Grows made ∧ ∀ l, t'.look l =
        if l = root ++ d.place then some (.file content)
        else if l = root ++ d.temporaryPlace then none else made.look l := by
  obtain ⟨made, prepared, hmade, hwrite, hmove⟩ := exists_steps h
  have hgrows : t.Grows made := (FileTree.makeDirectories_ok hmade).1
  have htemporary := temporaryName_ne hd hwrite
  have hleads := isRedundant_temporaryName htemporary
  obtain ⟨-, -, hlook, hprepared⟩ := FileTree.write_ok hwrite (steps_ne_nil hleads [])
  obtain ⟨-, hrefusal, hpass, hlook', -⟩ :=
    FileTree.moveFile_ok hmove (steps_ne_nil hleads []) (steps_ne_nil hd.name_leads d.behind)
  rw [hd.location_temporary htemporary] at hlook hprepared
  rw [hd.location_pieces] at hlook'
  have hwritten := look_write hd hmade h
  refine ⟨hrefusal, fun name hname ↦ hpass.short ?_, fun l hl ↦ ?_, made, hgrows, hwritten⟩
  · rw [Route.below, Route.filterMap_stepOf? hd.not_mem_pieces, hd.names_pieces]
    exact List.mem_append_right _ (List.mem_map_of_mem hname)
  · -- neither the temporary file nor the one that it replaces was a directory
    have hl' : made.look l = some .directory := hgrows.look_of_some hl
    have hne : l ≠ root ++ d.temporaryPlace := by
      rintro rfl
      exact hlook hl'
    rw [hwritten, if_neg ?_, if_neg hne, hl']
    rintro rfl
    exact hlook' (by rw [hprepared, if_neg hne, hl'])

/-- What was written has nothing behind its name, and the root could be walked to. -/
theorem behind_eq_nil_of_write (hd : d.Proper)
    (h : d.write root rootSize content t = (.ok (), t')) :
    d.behind = [] ∧ ∀ name ∈ root, name.utf8ByteSize ≤ nameLimit := by
  obtain ⟨made, prepared, -, hwrite, hmove⟩ := exists_steps h
  have hleads := isRedundant_temporaryName (temporaryName_ne hd hwrite)
  obtain ⟨hending, -, hpass, -⟩ :=
    FileTree.moveFile_ok hmove (steps_ne_nil hleads []) (steps_ne_nil hd.name_leads d.behind)
  constructor
  · have hpieces : d.pieces = (d.above ++ [d.name]) ++ d.behind := by simp [pieces]
    rw [Route.below, hpieces] at hending
    exact Route.eq_nil_of_endOf hd.behind hending
  · intro name hname
    refine hpass.short ?_
    rw [Route.below]
    exact List.mem_append_left _ (List.mem_map_of_mem hname)

/-- When writing fails, what it leaves behind are directories on the way, and nothing where the
temporary file was. -/
theorem write_error (hd : d.Proper) {fault : FileFault}
    (h : d.write root rootSize content t = (.error fault, t')) :
    ∃ made, t.Grows made ∧ ∀ l, t'.look l = made.look l ∨
      l = root ++ d.temporaryPlace ∧ made.look l ≠ some .directory ∧ t'.look l = none := by
  rw [write] at h
  rcases hmade : t.makeDirectories (.below root rootSize d.folder) with ⟨_ | _, made⟩
  · rw [hmade] at h
    obtain ⟨-, rfl⟩ := Prod.mk.inj h
    exact ⟨made, (FileTree.makeDirectories_ok hmade).1, fun l ↦ .inl rfl⟩
  rw [hmade] at h
  dsimp only at h
  refine ⟨made, (FileTree.makeDirectories_ok hmade).1, fun l ↦ ?_⟩
  rcases hwrite : made.write (d.temporaryRoute root rootSize) content with _ | prepared
  · rw [hwrite] at h
    obtain ⟨-, rfl⟩ := Prod.mk.inj h
    exact .inl rfl
  rw [hwrite] at h
  dsimp only at h
  rcases hmove : prepared.moveFile (d.temporaryRoute root rootSize)
      (.below root rootSize (d.above ++ d.name :: d.behind)) with _ | done
  · have htemporary := temporaryName_ne hd hwrite
    have hleads := isRedundant_temporaryName htemporary
    obtain ⟨hrefusal, hpass, hlook, hprepared⟩ := FileTree.write_ok hwrite (steps_ne_nil hleads [])
    have hlocation : (d.temporaryRoute root rootSize).location = root ++ d.temporaryPlace :=
      hd.location_temporary htemporary
    rw [hlocation] at hlook hprepared
    -- the temporary file can be removed, since nothing is in the way that was not there before
    have hpass' : prepared.Passable (d.temporaryRoute root rootSize).start
        (d.temporaryRoute root rootSize).steps := by
      refine hpass.mono fun l' hl' ↦ ?_
      rw [hprepared, if_neg ?_, hl']
      rintro rfl
      exact hlook hl'
    have hfile : prepared.look (d.temporaryRoute root rootSize).location =
        some (.file content) := by
      rw [hlocation, hprepared, if_pos rfl]
    obtain ⟨removed, hremove⟩ := FileTree.removeFile_of_file hrefusal
      (Route.endOf_concat hleads) hpass' hfile
    have hremoved := FileTree.removeFile_ok hremove (steps_ne_nil hleads []) l
    rw [hmove, hremove] at h
    obtain ⟨-, rfl⟩ := Prod.mk.inj h
    change removed.look l = _ ∨ _ ∧ _ ∧ removed.look l = _
    rw [hremoved, hlocation, hprepared]
    by_cases heq : l = root ++ d.temporaryPlace
    · exact .inr ⟨heq, heq ▸ hlook, if_pos heq⟩
    · exact .inl (by rw [if_neg heq, if_neg heq])
  · rw [hmove] at h
    cases (Prod.mk.inj h).1

/-! ## Writing over something

A file that stands at the temporary place is overwritten first, and afterwards either moved to the
destination or removed, so it is gone in any case. Only a path that is too long under its temporary
name does not get that far. -/

/-- The path of the temporary file is such that one can write to it. -/
structure ReachesTemporary (d : Destination) (root : Location) (rootSize : Nat) : Prop where
  temporaryName_ne : d.temporaryName ≠ ".."
  temporary_accepted : refusal? (d.temporaryRoute root rootSize) = none
  temporary_short : ∀ name ∈ root ++ d.temporaryPlace, name.utf8ByteSize ≤ nameLimit

theorem Proper.steps_temporary (hd : d.Proper) (hup : d.temporaryName ≠ "..") :
    (d.temporaryRoute root rootSize).steps = (root ++ d.temporaryPlace).map some := by
  have hnotup : ".." ∉ d.above ++ [d.temporaryName] := by
    rw [List.mem_append, List.mem_singleton, not_or]
    exact ⟨hd.above, hup.symm⟩
  change root.map some ++ (d.above ++ [d.temporaryName]).filterMap Route.stepOf? = _
  rw [Route.filterMap_stepOf? hnotup, Route.names_append,
    Route.names_singleton (isRedundant_temporaryName hup), ← temporaryPlace, List.map_append]

/-- The folder is the path above without what leads nowhere at its end. -/
theorem folder_cases :
    (∃ rest, d.above = d.folder ++ rest) ∧ Route.names d.folder = Route.names d.above ∧
      Route.endOf d.folder = .nothing := by
  have hcut := List.takeWhile_append_dropWhile (p := Route.isRedundant) (l := d.above.reverse)
  have hleads := List.head?_dropWhile_not Route.isRedundant d.above.reverse
  have habove : d.folder ++ (d.above.reverse.takeWhile Route.isRedundant).reverse = d.above := by
    rw [folder, ← List.reverse_append, hcut, List.reverse_reverse]
  have hrest : Route.names (d.above.reverse.takeWhile Route.isRedundant).reverse = [] :=
    Route.names_eq_nil fun piece hpiece ↦
      List.all_eq_true.mp List.all_takeWhile piece (List.mem_reverse.mp hpiece)
  refine ⟨⟨_, habove.symm⟩, ?_, ?_⟩
  · rw [← List.append_nil (Route.names d.folder), ← hrest, ← Route.names_append, habove]
  · rw [folder]
    rcases hdrop : d.above.reverse.dropWhile Route.isRedundant with _ | ⟨name, above⟩
    · decide
    · rw [hdrop] at hleads
      rw [List.reverse_cons]
      exact Route.endOf_concat hleads

theorem endOf_folder : Route.endOf d.folder = .nothing := folder_cases.2.2

theorem Proper.steps_folder (hd : d.Proper) : (Route.below root rootSize d.folder).steps =
    (root ++ Route.names d.above).map some := by
  obtain ⟨⟨rest, habove⟩, hnames, -⟩ := folder_cases (d := d)
  have hup : ".." ∉ d.folder := fun hmem ↦ hd.above (habove ▸ List.mem_append_left rest hmem)
  rw [Route.below, Route.filterMap_stepOf? hup, hnames, List.map_append]

/-- A temporary file was written under its path. -/
theorem reachesTemporary_of_write {made prepared : FileTree} (hd : d.Proper)
    (h : made.write (d.temporaryRoute root rootSize) content = .ok prepared) :
    d.ReachesTemporary root rootSize ∧
      made.look (root ++ Route.names d.above) = some .directory ∧
      made.look (root ++ d.temporaryPlace) ≠ some .directory ∧
      ∀ l, prepared.look l =
        if l = root ++ d.temporaryPlace then some (.file content) else made.look l := by
  have hup := temporaryName_ne hd h
  obtain ⟨haccepted, hpass, hlook, hprepared⟩ :=
    FileTree.write_ok h (steps_ne_nil (isRedundant_temporaryName hup) [])
  rw [hd.steps_temporary hup] at hpass
  rw [hd.location_temporary hup] at hlook hprepared
  refine ⟨⟨hup, haccepted, fun name hname ↦ hpass.short (List.mem_map_of_mem hname)⟩, ?_, hlook,
    hprepared⟩
  rw [temporaryPlace, ← List.append_assoc, List.map_append, FileTree.passable_append,
    Route.foldl_advance_names] at hpass
  exact hpass.2.1

/-- Where the path of the temporary file is accepted, that of the folder is. -/
theorem ReachesTemporary.folder_accepted (h : d.ReachesTemporary root rootSize) (hd : d.Proper) :
    refusal? (.below root rootSize d.folder) = none := by
  obtain ⟨⟨rest, habove⟩, -⟩ := folder_cases (d := d)
  obtain ⟨hnul, hsize⟩ := FileTree.refusal?_eq_none_iff.mp h.temporary_accepted
  refine FileTree.refusal?_eq_none_iff.mpr ⟨?_, Nat.le_trans ?_ hsize⟩
  · rw [Route.hasNul, hd.steps_temporary h.temporaryName_ne, temporaryPlace, ← List.append_assoc,
      List.map_append, List.any_append, Bool.or_eq_false_iff] at hnul
    rw [Route.hasNul, hd.steps_folder]
    exact hnul.1
  · have hlonger := Route.utf8ByteSize_intercalate_le d.folder (rest ++ [d.temporaryName])
    rw [← List.append_assoc, ← habove] at hlonger
    exact Nat.add_le_add_left hlonger rootSize

theorem ReachesTemporary.folder_short (h : d.ReachesTemporary root rootSize) :
    ∀ name ∈ root ++ Route.names d.above, name.utf8ByteSize ≤ nameLimit := by
  intro name hname
  refine h.temporary_short name ?_
  rw [temporaryPlace, ← List.append_assoc]
  exact List.mem_append_left _ hname

/-- Where the folder is there, and the path of the temporary file is accepted, no directory is
made. -/
private theorem makeDirectories_folder (hd : d.Proper) (h : d.ReachesTemporary root rootSize)
    (hfolder : t.look (root ++ Route.names d.above) = some .directory) :
    t.makeDirectories (.below root rootSize d.folder) = (.ok (), t) := by
  have hthere : t.look ([] ++ (root ++ Route.names d.above)) ≠ none := by
    rw [List.nil_append, hfolder]
    exact Option.some_ne_none _
  refine FileTree.makeDirectories_of_directory ⟨h.folder_accepted hd, ?_, ?_⟩
  · rw [hd.steps_folder]
    exact FileTree.passable_names hthere h.folder_short
  · rw [Route.location, hd.steps_folder, Route.foldl_advance_names]
    exact hfolder

/-- **What becomes of a file at the temporary place.** -/
theorem write_over_temporary (hd : d.Proper) (hreaches : d.ReachesTemporary root rootSize)
    {old : ByteArray} (hlook : t.look (root ++ d.temporaryPlace) = some (.file old))
    {result : Except FileFault Unit} (h : d.write root rootSize content t = (result, t'))
    (hne : result = .ok () → d.place ≠ d.temporaryPlace) :
    t'.look (root ++ d.temporaryPlace) = none := by
  obtain ⟨hup, haccepted, hshort⟩ := hreaches
  have hleads := isRedundant_temporaryName hup
  have hlocation : (d.temporaryRoute root rootSize).location = root ++ d.temporaryPlace :=
    hd.location_temporary hup
  have hending : (d.temporaryRoute root rootSize).ending = .nothing := Route.endOf_concat hleads
  have hpass : ∀ {u : FileTree}, u.look (root ++ d.temporaryPlace) ≠ none →
      u.Passable (d.temporaryRoute root rootSize).start (d.temporaryRoute root rootSize).steps := by
    intro u hu
    rw [hd.steps_temporary hup]
    exact FileTree.passable_names hu hshort
  have hthere : t.look (root ++ d.temporaryPlace) ≠ none := by
    rw [hlook]
    nofun
  obtain ⟨prepared, hwrite⟩ :
      ∃ prepared, t.write (d.temporaryRoute root rootSize) content = .ok prepared :=
    FileTree.exists_write haccepted hending (hpass hthere) (by rw [hlocation, hlook]; nofun)
  obtain ⟨-, -, -, hprepared⟩ := FileTree.write_ok hwrite (steps_ne_nil hleads [])
  rw [hlocation] at hprepared
  have hfile : prepared.look (root ++ d.temporaryPlace) = some (.file content) := by
    rw [hprepared, if_pos rfl]
  cases result with
  | ok _ =>
    obtain ⟨-, -, -, made, -, hlook'⟩ := write_ok hd h
    rw [hlook', if_neg fun heq ↦ hne rfl (List.append_cancel_left heq).symm, if_pos rfl]
  | error fault =>
    obtain ⟨removed, hremove⟩ := FileTree.removeFile_of_file haccepted hending
      (hpass (by rw [hfile]; nofun)) (hlocation ▸ hfile)
    have hfolder : t.look (root ++ Route.names d.above) = some .directory := by
      rw [temporaryPlace, ← List.append_assoc] at hthere
      exact FileTree.look_of_look_append (List.cons_ne_nil d.temporaryName []) hthere
    rw [write, makeDirectories_folder hd ⟨hup, haccepted, hshort⟩ hfolder] at h
    dsimp only at h
    rw [hwrite] at h
    dsimp only at h
    rcases hmove : prepared.moveFile (d.temporaryRoute root rootSize)
        (.below root rootSize (d.above ++ d.name :: d.behind)) with _ | done
    · rw [hmove, hremove] at h
      obtain ⟨-, rfl⟩ := Prod.mk.inj h
      have hremoved := FileTree.removeFile_ok hremove (steps_ne_nil hleads [])
        (root ++ d.temporaryPlace)
      change removed.look _ = none
      rw [hremoved, if_pos hlocation.symm]
    · rw [hmove] at h
      cases (Prod.mk.inj h).1

/-! ## Writing again

Whether a destination can be written to is settled by three looks, once the folder is there and the
paths are accepted; and the paths are accepted by all trees or by none.
-/

/-- The paths of a destination and of its temporary file are such that one can write to them. -/
structure Writable (d : Destination) (root : Location) (rootSize : Nat) : Prop
    extends d.ReachesTemporary root rootSize where
  ending : Route.endOf d.pieces = .nothing
  accepted : refusal? (.below root rootSize d.pieces) = none
  short : ∀ name ∈ root ++ d.place, name.utf8ByteSize ≤ nameLimit

private theorem Proper.steps_pieces (hd : d.Proper) :
    (Route.below root rootSize d.pieces).steps = (root ++ d.place).map some := by
  rw [Route.below, Route.filterMap_stepOf? hd.not_mem_pieces, hd.names_pieces, List.map_append]

/-- What was written to once is writable. -/
theorem writable_of_write (hd : d.Proper)
    (h : d.write root rootSize content t = (.ok (), t')) : d.Writable root rootSize := by
  obtain ⟨made, prepared, -, hwrite, hmove⟩ := exists_steps h
  obtain ⟨hreaches, -⟩ := reachesTemporary_of_write hd hwrite
  have hleads := isRedundant_temporaryName hreaches.temporaryName_ne
  obtain ⟨hending, haccepted, hpass, -⟩ :=
    FileTree.moveFile_ok hmove (steps_ne_nil hleads []) (steps_ne_nil hd.name_leads d.behind)
  rw [hd.steps_pieces] at hpass
  exact ⟨hreaches, hending, haccepted, fun name hname ↦ hpass.short (List.mem_map_of_mem hname)⟩

/-- **Writing into a folder that is there.** It succeeds where there is no directory at the two
places that it touches, and nothing else changes. -/
theorem Writable.write (h : d.Writable root rootSize) (hd : d.Proper) (content : ByteArray)
    (hfolder : t.look (root ++ Route.names d.above) = some .directory)
    (htemporary : t.look (root ++ d.temporaryPlace) ≠ some .directory)
    (hplace : t.look (root ++ d.place) ≠ some .directory) :
    ∃ t', d.write root rootSize content t = (.ok (), t') ∧ ∀ l, t'.look l =
      if l = root ++ d.place then some (.file content)
      else if l = root ++ d.temporaryPlace then none else t.look l := by
  have hup := h.temporaryName_ne
  have hleads := isRedundant_temporaryName hup
  have hlocation : (d.temporaryRoute root rootSize).location = root ++ d.temporaryPlace :=
    hd.location_temporary hup
  have hending : (d.temporaryRoute root rootSize).ending = .nothing := Route.endOf_concat hleads
  have hmade : t.makeDirectories (.below root rootSize d.folder) = (.ok (), t) :=
    makeDirectories_folder hd h.toReachesTemporary hfolder
  -- both places are in the folder, so that they are reached as long as it is there
  have hreach : ∀ {u : FileTree}, u.look (root ++ Route.names d.above) = some .directory →
      u.Passable [] (d.temporaryRoute root rootSize).steps ∧
        u.Passable [] (Route.below root rootSize d.pieces).steps := by
    intro u hu
    have hshort := h.temporary_short
    have hshort' := h.short
    rw [temporaryPlace, ← List.append_assoc] at hshort
    rw [place, ← List.append_assoc] at hshort'
    rw [hd.steps_temporary hup, hd.steps_pieces, temporaryPlace, place, ← List.append_assoc,
      ← List.append_assoc]
    exact ⟨FileTree.passable_concat hu hshort, FileTree.passable_concat hu hshort'⟩
  obtain ⟨prepared, hwrite⟩ : ∃ prepared,
      t.write (d.temporaryRoute root rootSize) content = .ok prepared :=
    FileTree.exists_write h.temporary_accepted hending (hreach hfolder).1 (hlocation ▸ htemporary)
  obtain ⟨-, -, -, hprepared⟩ := FileTree.write_ok hwrite (steps_ne_nil hleads [])
  rw [hlocation] at hprepared
  have hfolder' : prepared.look (root ++ Route.names d.above) = some .directory := by
    rw [hprepared, if_neg ?_, hfolder]
    intro heq
    exact htemporary (heq ▸ hfolder)
  have hread : prepared.read (d.temporaryRoute root rootSize) = .ok content := by
    refine FileTree.read_of_look h.temporary_accepted hending (hreach hfolder').1 ?_
    rw [hlocation, hprepared, if_pos rfl]
  obtain ⟨t', hmove⟩ : ∃ t', prepared.moveFile (d.temporaryRoute root rootSize)
      (.below root rootSize d.pieces) = .ok t' := by
    refine FileTree.exists_moveFile hread h.accepted h.ending (hreach hfolder').2 ?_
    rw [hd.location_pieces, hprepared]
    split
    · nofun
    · exact hplace
  have hwritten : d.write root rootSize content t = (.ok (), t') := by
    rw [Destination.write, hmade]
    dsimp only
    rw [hwrite]
    dsimp only
    rw [← pieces, hmove]
  exact ⟨t', hwritten, look_write hd hmade hwritten⟩

/-- Where the path of the temporary file is not accepted, writing does not get that far. -/
theorem write_of_unreached (hd : d.Proper) (hunreached : ¬d.ReachesTemporary root rootSize)
    {result : Except FileFault Unit} (h : d.write root rootSize content t = (result, t')) :
    result ≠ .ok () ∧ t.Grows t' := by
  rw [write] at h
  rcases hmade : t.makeDirectories (.below root rootSize d.folder) with ⟨_ | _, made⟩
  · rw [hmade] at h
    obtain ⟨rfl, rfl⟩ := Prod.mk.inj h
    exact ⟨nofun, (FileTree.makeDirectories_ok hmade).1⟩
  · rw [hmade] at h
    dsimp only at h
    rcases hwrite : made.write (d.temporaryRoute root rootSize) content with fault | prepared
    · rw [hwrite] at h
      obtain ⟨rfl, rfl⟩ := Prod.mk.inj h
      exact ⟨nofun, (FileTree.makeDirectories_ok hmade).1⟩
    · exact absurd (reachesTemporary_of_write hd hwrite).1 hunreached

/-- **What writing to a destination leaves alone**, whether or not it succeeds: all directories, and
every file that is neither at the temporary place nor at the place of what was written. -/
theorem write_keeps (hd : d.Proper) {result : Except FileFault Unit}
    (h : d.write root rootSize content t = (result, t')) :
    (∀ l, t.look l = some .directory → t'.look l = some .directory) ∧
      ∀ l bytes, t.look l = some (.file bytes) → l ≠ root ++ d.temporaryPlace →
        (result = .ok () → l ≠ root ++ d.place) → t'.look l = some (.file bytes) := by
  cases result with
  | ok _ =>
    obtain ⟨-, -, hdirectory, made, hgrows, hlook⟩ := write_ok hd h
    refine ⟨hdirectory, fun l bytes hl htemporary hplace ↦ ?_⟩
    rw [hlook, if_neg (hplace rfl), if_neg htemporary, hgrows.look_of_some hl]
  | error fault =>
    obtain ⟨made, hgrows, hlook⟩ := write_error hd h
    constructor
    · intro l hl
      rcases hlook l with heq | ⟨-, hnot, -⟩
      · rw [heq, hgrows.look_of_some hl]
      · exact absurd (hgrows.look_of_some hl) hnot
    · intro l bytes hl htemporary _
      rcases hlook l with heq | ⟨heq, -, -⟩
      · rw [heq, hgrows.look_of_some hl]
      · exact absurd heq htemporary

/-- A file that is found after writing was there before, or it is the one that was written. -/
theorem file_of_write {bytes : ByteArray} {result : Except FileFault Unit} {l : Location}
    (hd : d.Proper) (h : d.write root rootSize content t = (result, t'))
    (hl : t'.look l = some (.file bytes)) :
    t.look l = some (.file bytes) ∨ result = .ok () ∧ l = root ++ d.place := by
  cases result with
  | ok _ =>
    obtain ⟨-, -, -, made, hgrows, hlook⟩ := write_ok hd h
    by_cases hplace : l = root ++ d.place
    · exact .inr ⟨rfl, hplace⟩
    · rw [hlook, if_neg hplace] at hl
      split at hl
      · cases hl
      · exact .inl (hgrows.look_file hl)
  | error fault =>
    obtain ⟨made, hgrows, hlook⟩ := write_error hd h
    rcases hlook l with heq | ⟨-, -, hnone⟩
    · exact .inl (hgrows.look_file (heq.symm.trans hl))
    · rw [hnone] at hl
      cases hl

end

end Destination

end FragmentArchive
