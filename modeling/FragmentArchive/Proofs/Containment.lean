import FragmentArchive.Proofs.Requests

/-!
# Nothing outside the root

A request to store an artifact makes directories, writes a temporary file, and moves it away or
removes it. The tree that it leaves behind does not show all of this: a temporary file comes and
goes. So the single changes are written down in a journal, in the order in which they are made, and
replaying the journal gives the tree that is left behind.

Whatever the path of the artifact, every change in the journal is at a place strictly below the root
of the archive. For the temporary file and the destination this is because an accepted path starts
with a name and never goes up. For the directories on the way it is because the root is there: a
directory is only made when something is missing, and on the way to the root nothing is.
-/

namespace FragmentArchive

namespace FileTree

/-! ## Changes -/

/-- A single change of a file tree. -/
inductive Change
  | made (directory : Location)
  | wrote (file : Location) (content : ByteArray)
  | moved (source destination : Location)
  | removed (file : Location)

/-- The places where a change happens. -/
def Change.places : Change → List Location
  | .made place | .wrote place _ | .removed place => [place]
  | .moved source destination => [source, destination]

/-- Makes a change. -/
def change (t : FileTree) : Change → FileTree
  | .made place => t.put place empty
  | .wrote place content => t.put place (.file content)
  | .moved source destination =>
    match t.node? source with
    | some node => (t.remove source).put destination node
    | none => t
  | .removed place => t.remove place

/-- Makes some changes, one after the other. -/
def replay (t : FileTree) (changes : List Change) : FileTree := changes.foldl change t

theorem replay_append (t : FileTree) (changes changes' : List Change) :
    t.replay (changes ++ changes') = (t.replay changes).replay changes' := List.foldl_append

/-! ## Away from the changes -/

/-- One place is strictly below another one. -/
def IsBelow (place root : Location) : Prop := ∃ rest, rest ≠ [] ∧ place = root ++ rest

/-- What is not below a root does not go on from a place that is. -/
theorem IsBelow.not_prefix_of_not {place root l : Location} (h : IsBelow place root)
    (hl : ¬IsBelow l root) : ¬place <+: l := by
  rintro ⟨rest', rfl⟩
  obtain ⟨rest, hne, rfl⟩ := h
  exact hl ⟨rest ++ rest', by simp [hne], List.append_assoc ..⟩

/-- A change at a place shows only from there on. -/
private theorem look_alter_apart {f : Option FileTree → Option FileTree}
    {place l : Location} (h : ¬place <+: l) (t : Option FileTree) :
    (alter f place t).bind (·.look l) = t.bind (·.look l) := by
  induction place generalizing l t with
  | nil => exact absurd List.nil_prefix h
  | cons name place ih =>
    rcases t with _ | _ | entries
    · rfl
    · rfl
    · cases l with
      | nil => rfl
      | cons name' l =>
        rw [alter, Option.bind_some, Option.bind_some, look_cons, look_cons, lookup_setEntry]
        by_cases heq : name' = name
        · subst heq
          rw [if_pos rfl]
          exact ih (fun hprefix ↦ h (List.cons_prefix_cons.mpr ⟨rfl, hprefix⟩)) _
        · rw [if_neg heq]

variable {t : FileTree} {place l : Location}

private theorem look_getD_alter {f : Option FileTree → Option FileTree} (h : ¬place <+: l)
    (t : FileTree) : ((alter f place (some t)).getD t).look l = t.look l := by
  have hlook := look_alter_apart (f := f) h (some t)
  cases halter : alter f place (some t) with
  | none => rfl
  | some t' =>
    rw [halter] at hlook
    exact hlook

theorem look_put_apart (h : ¬place <+: l) (t node : FileTree) :
    (t.put place node).look l = t.look l := look_getD_alter h t

theorem look_remove_apart (h : ¬place <+: l) (t : FileTree) :
    (t.remove place).look l = t.look l := look_getD_alter h t

theorem look_change {c : Change} (h : ∀ place ∈ c.places, ¬place <+: l) (t : FileTree) :
    (t.change c).look l = t.look l := by
  cases c with
  | made place => exact look_put_apart (h place (List.mem_singleton_self place)) t _
  | wrote place content =>
    exact look_put_apart (h place (List.mem_singleton_self place)) t _
  | moved source destination =>
    have hsource : ¬source <+: l := h source List.mem_cons_self
    have hdestination : ¬destination <+: l :=
      h destination (List.mem_cons_of_mem source (List.mem_singleton_self destination))
    rw [change]
    split
    · rw [look_put_apart hdestination, look_remove_apart hsource]
    · rfl
  | removed place => exact look_remove_apart (h place (List.mem_singleton_self place)) t

/-- **What is not below a change stays as it is.** -/
theorem look_replay {changes : List Change}
    (h : ∀ c ∈ changes, ∀ place ∈ c.places, ¬place <+: l) (t : FileTree) :
    (t.replay changes).look l = t.look l := by
  induction changes generalizing t with
  | nil => rfl
  | cons c changes ih =>
    refine (ih (fun c' hc' ↦ h c' (List.mem_cons_of_mem c hc')) (t.change c)).trans ?_
    exact look_change (h c List.mem_cons_self) t

/-! ## Directories that are made -/

/-- The directory that is made at the end of a route, unless there is one. -/
def ensured (t : FileTree) (r : Route) : List Change :=
  match t.makeDirectory r with
  | .ok _ => [.made r.location]
  | .error _ => []

/-- The directories that are made on a way, whose steps are given in reverse. -/
def madeReversed (t : FileTree) (r : Route) : List (Option String) → List Change
  | [] => []
  | step :: above =>
    let route := { r with steps := (step :: above).reverse }
    match t.makeDirectory route with
    | .error .missing =>
      let before := t.madeReversed { r with ending := .nothing } above
      match t.makeReversed { r with ending := .nothing } above with
      | (.ok (), made) => before ++ made.ensured route
      | _ => before
    | _ => t.ensured route

/-- The directories that are made together with all that are missing above. -/
def madeDirectories (t : FileTree) (r : Route) : List Change :=
  match refusal? r with
  | some _ => []
  | none => t.madeReversed r r.steps.reverse

theorem replay_ensured (t : FileTree) (r : Route) :
    t.replay (t.ensured r) = (t.ensureDirectory r).2 := by
  rw [ensured, ensureDirectory]
  rcases hmake : t.makeDirectory r with fault | made
  · dsimp only
    split
    · next hok => cases hok
    · split <;> rfl
    · rfl
  · obtain ⟨-, -, -, rfl⟩ := makeDirectory_eq hmake
    rfl

theorem replay_madeReversed (t : FileTree) (r : Route) (steps : List (Option String)) :
    t.replay (t.madeReversed r steps) = (t.makeReversed r steps).2 := by
  induction steps generalizing r with
  | nil => rfl
  | cons step above ih =>
    by_cases hmissing :
        t.makeDirectory { r with steps := (step :: above).reverse } = .error .missing
    · have habove := ih { r with ending := .nothing }
      rw [madeReversed, makeReversed]
      dsimp only
      rw [hmissing]
      rcases hmade : t.makeReversed { r with ending := .nothing } above with ⟨_ | _, made⟩
      · rw [hmade] at habove
        exact habove
      · rw [hmade] at habove
        dsimp only at habove ⊢
        rw [replay_append, habove, replay_ensured]
    · have hjournal : t.madeReversed r (step :: above) =
          t.ensured { r with steps := (step :: above).reverse } := by
        rw [madeReversed]
        dsimp only
        split
        · next hmake => exact absurd hmake hmissing
        · rfl
      have hmade : t.makeReversed r (step :: above) =
          t.ensureDirectory { r with steps := (step :: above).reverse } := by
        rw [makeReversed]
        split
        · next hmake => exact absurd hmake hmissing
        · rfl
      rw [hjournal, hmade, replay_ensured]

theorem replay_madeDirectories (t : FileTree) (r : Route) :
    t.replay (t.madeDirectories r) = (t.makeDirectories r).2 := by
  rw [madeDirectories, makeDirectories]
  cases refusal? r with
  | some fault => rfl
  | none => exact replay_madeReversed t r _

/-- A directory is made at the end of the way, or further above when something is missing there. -/
private theorem mem_madeReversed {r : Route} {steps : List (Option String)} {step : Option String}
    {c : Change} (h : c ∈ t.madeReversed r (step :: steps)) :
    (t.makeDirectory { r with steps := (step :: steps).reverse } = .error .missing ∧
        c ∈ t.madeReversed { r with ending := .nothing } steps) ∨
      c = .made (Route.location { r with steps := (step :: steps).reverse }) ∧
        ∀ fault, t.makeDirectory { r with steps := (step :: steps).reverse } = .error fault →
          fault = .missing := by
  have hensured : ∀ {u : FileTree} {r : Route}, c ∈ u.ensured r →
      c = .made r.location ∧ ∀ fault, u.makeDirectory r ≠ .error fault := by
    intro u r hc
    rw [ensured] at hc
    split at hc
    · next made hmake =>
      refine ⟨List.mem_singleton.mp hc, fun fault hfault ↦ ?_⟩
      rw [hmake] at hfault
      cases hfault
    · cases hc
  rw [madeReversed] at h
  dsimp only at h
  split at h
  · next hmissing =>
    split at h
    · rcases List.mem_append.mp h with h | h
      · exact .inl ⟨hmissing, h⟩
      · refine .inr ⟨(hensured h).1, fun fault hfault ↦ ?_⟩
        rw [hmissing] at hfault
        exact (Except.error.inj hfault).symm
    · exact .inl ⟨hmissing, h⟩
  · obtain ⟨hc, hnot⟩ := hensured h
    exact .inr ⟨hc, fun fault hfault ↦ absurd hfault (hnot fault)⟩

/-- Where the root is a directory, directories are made below it only. The names on the way from
there come in reverse. -/
private theorem madeReversed_below {r : Route} (hstart : r.start = [])
    (hending : r.ending = .nothing) {root : Location} (hroot : t.look root = some .directory)
    (names : List String) {c : Change}
    (h : c ∈ t.madeReversed r (names.map some ++ (root.map some).reverse)) :
    ∃ place, IsBelow place root ∧ c = .made place := by
  induction names generalizing r with
  | nil =>
    -- nothing is missing on the way to the root, and it is not made itself
    rw [List.map_nil, List.nil_append] at h
    rcases List.eq_nil_or_concat root with rfl | ⟨front, name, rfl⟩
    · cases h
    · rw [List.concat_eq_append] at h hroot
      have hreverse : ((front ++ [name]).map some).reverse = some name :: (front.map some).reverse := by
        simp
      have hsteps : (some name :: (front.map some).reverse).reverse = (front ++ [name]).map some := by
        simp
      rw [hreverse] at h
      have hthere : ∃ fault, fault ≠ .missing ∧ t.makeDirectory
          { r with steps := (some name :: (front.map some).reverse).reverse } = .error fault :=
        makeDirectory_of_directory hstart hending hsteps hroot
      obtain ⟨fault, hne, hfault⟩ := hthere
      rcases mem_madeReversed h with ⟨hmissing, -⟩ | ⟨-, hall⟩
      · rw [hfault] at hmissing
        exact absurd (Except.error.inj hmissing) hne
      · exact absurd (hall fault hfault) hne
  | cons name names ih =>
    rw [List.map_cons, List.cons_append] at h
    rcases mem_madeReversed h with ⟨-, h⟩ | ⟨rfl, -⟩
    · exact ih (r := { r with ending := .nothing }) hstart rfl h
    · have hsteps : (some name :: (names.map some ++ (root.map some).reverse)).reverse =
          (root ++ (name :: names).reverse).map some := by simp
      refine ⟨_, ⟨(name :: names).reverse, by simp, rfl⟩, ?_⟩
      dsimp only [Route.location]
      rw [hsteps, hstart, Route.foldl_advance_names, List.nil_append]

/-- **Where directories are made.** -/
theorem madeDirectories_below {r : Route} (hstart : r.start = []) (hending : r.ending = .nothing)
    {root names : Location} (hsteps : r.steps = (root ++ names).map some)
    (hroot : t.look root = some .directory) {c : Change} (h : c ∈ t.madeDirectories r) :
    ∃ place, IsBelow place root ∧ c = .made place := by
  rw [madeDirectories] at h
  split at h
  · cases h
  · have hreverse : r.steps.reverse = names.reverse.map some ++ (root.map some).reverse := by
      simp [hsteps]
    rw [hreverse] at h
    exact madeReversed_below hstart hending hroot names.reverse h

end FileTree

/-! ## Writing a file -/

namespace Destination

/-- The changes by which a file is written to a destination. -/
def journal (d : Destination) (root : Location) (rootSize : Nat) (content : ByteArray)
    (t : FileTree) : List FileTree.Change :=
  let folder := Route.below root rootSize d.folder
  let temporary := d.temporaryRoute root rootSize
  let destination := Route.below root rootSize d.pieces
  match t.makeDirectories folder with
  | (.error _, _) => t.madeDirectories folder
  | (.ok (), made) =>
    match made.write temporary content with
    | .error _ => t.madeDirectories folder
    | .ok prepared =>
      let written := t.madeDirectories folder ++ [.wrote temporary.location content]
      match prepared.moveFile temporary destination with
      | .ok _ => written ++ [.moved temporary.location destination.location]
      | .error _ =>
        match prepared.removeFile temporary with
        | .ok _ => written ++ [.removed temporary.location]
        | .error _ => written

variable {d : Destination} {root : Location} {rootSize : Nat} {content : ByteArray} {t : FileTree}

/-- **The journal tells everything that is done to the tree.** -/
theorem replay_journal (d : Destination) (root : Location) (rootSize : Nat) (content : ByteArray)
    (t : FileTree) :
    t.replay (d.journal root rootSize content t) = (d.write root rootSize content t).2 := by
  have hfolder := FileTree.replay_madeDirectories t (.below root rootSize d.folder)
  rw [journal, write]
  dsimp only
  rcases hmade : t.makeDirectories (.below root rootSize d.folder) with ⟨_ | _, made⟩
  · rw [hmade] at hfolder
    exact hfolder
  rw [hmade] at hfolder
  dsimp only at hfolder ⊢
  rcases hwrite : made.write (d.temporaryRoute root rootSize) content with _ | prepared
  · exact hfolder
  have hwritten : t.replay (t.madeDirectories (.below root rootSize d.folder) ++
      [.wrote (d.temporaryRoute root rootSize).location content]) = prepared := by
    obtain ⟨-, -, -, rfl⟩ := FileTree.write_eq hwrite
    rw [FileTree.replay_append, hfolder]
    rfl
  dsimp only
  rcases hmove : prepared.moveFile (d.temporaryRoute root rootSize)
      (.below root rootSize d.pieces) with _ | done
  · rw [← pieces, hmove]
    dsimp only
    rcases hremove : prepared.removeFile (d.temporaryRoute root rootSize) with _ | removed
    · exact hwritten
    · obtain ⟨-, -, rfl⟩ := FileTree.removeFile_eq hremove
      dsimp only
      rw [FileTree.replay_append, hwritten]
      rfl
  · obtain ⟨-, -, -, -, -, moved, hfile, rfl⟩ := FileTree.moveFile_eq hmove
    rw [← pieces, hmove]
    dsimp only
    rw [FileTree.replay_append, hwritten]
    change prepared.change (.moved _ _) = _
    rw [FileTree.change, FileTree.node?_eq_file_iff.mpr hfile]

/-- **Writing happens below the root.** -/
theorem journal_below (hd : d.Proper) (hroot : t.look root = some .directory)
    {c : FileTree.Change} (hc : c ∈ d.journal root rootSize content t) :
    ∀ place ∈ c.places, FileTree.IsBelow place root := by
  have hfolder : c ∈ t.madeDirectories (.below root rootSize d.folder) →
      ∀ place ∈ c.places, FileTree.IsBelow place root := by
    intro hc
    obtain ⟨directory, hbelow, rfl⟩ :=
      FileTree.madeDirectories_below rfl endOf_folder hd.steps_folder hroot hc
    simpa [FileTree.Change.places] using hbelow
  have hdestination : FileTree.IsBelow (Route.below root rootSize d.pieces).location root :=
    ⟨d.place, by simp [place], hd.location_pieces⟩
  rw [journal] at hc
  dsimp only at hc
  split at hc
  · exact hfolder hc
  next made hmade =>
  split at hc
  · exact hfolder hc
  next prepared hwrite =>
  have htemporary : FileTree.IsBelow (d.temporaryRoute root rootSize).location root :=
    ⟨d.temporaryPlace, by simp [temporaryPlace],
      hd.location_temporary (temporaryName_ne hd hwrite)⟩
  have hwritten : c ∈ t.madeDirectories (.below root rootSize d.folder) ++
      [.wrote (d.temporaryRoute root rootSize).location content] →
        ∀ place ∈ c.places, FileTree.IsBelow place root := by
    intro hc
    rcases List.mem_append.mp hc with hc | hc
    · exact hfolder hc
    · obtain rfl := List.mem_singleton.mp hc
      simpa [FileTree.Change.places] using htemporary
  split at hc
  · rcases List.mem_append.mp hc with hc | hc
    · exact hwritten hc
    · obtain rfl := List.mem_singleton.mp hc
      simpa [FileTree.Change.places] using ⟨htemporary, hdestination⟩
  · split at hc
    · rcases List.mem_append.mp hc with hc | hc
      · exact hwritten hc
      · obtain rfl := List.mem_singleton.mp hc
        simpa [FileTree.Change.places] using htemporary
    · exact hwritten hc

end Destination

/-! ## Requests -/

namespace DirectoryArchive

/-- The changes by which a request to store an artifact is served. -/
def journal (call : WriteCall) (archive : DirectoryArchive) : List FileTree.Change :=
  match Destination.ofPath? call.target.text with
  | none => []
  | some d =>
    if call.target ∈ archive.written then []
    else d.journal archive.location archive.rootSize (payload call.fragment) archive.tree

/-- A path that leads to a place inside is refused for other reasons only. -/
theorem answer_add_ne {call : WriteCall} {d : Destination}
    (h : Destination.ofPath? call.target.text = some d) (archive : DirectoryArchive) :
    (add call archive).answer ≠ .error (.serialization call.target.text .escaping) := by
  by_cases hwritten : call.target ∈ archive.written
  · rw [add_of_taken h hwritten]
    intro hanswer
    cases hanswer
  · obtain ⟨result, -, hanswer⟩ := add_of_fresh h hwritten
    rw [hanswer]
    cases result with
    | error fault =>
      intro hescaping
      cases hescaping
    | ok _ =>
      intro hescaping
      cases hescaping

theorem replay_journal (call : WriteCall) (archive : DirectoryArchive) :
    archive.tree.replay (journal call archive) = (add call archive).memory.tree := by
  rw [journal]
  rcases add_cases call archive with ⟨hrefused, -, hsame⟩ | ⟨d, result, hd, hwritten, hwrite, -⟩
  · rw [hsame]
    split
    · rfl
    · next d hd =>
      rcases hrefused with hnone | hwritten
      · rw [hd] at hnone
        cases hnone
      · rw [if_pos hwritten]
        rfl
  · rw [hd]
    dsimp only
    rw [if_neg hwritten, Destination.replay_journal]
    exact congrArg (·.2.tree) hwrite

/-- The root of an opened archive is a directory. -/
theorem look_location_of_establish {workingDirectory : Location} {root : String}
    {tree tree' : FileTree} {opened : DirectoryArchive} {notice : Notice}
    (h : establish workingDirectory root tree = (.ok (opened, notice), tree'))
    (hworking : tree.look workingDirectory = some .directory) :
    opened.tree.look opened.location = some .directory := by
  obtain ⟨hmade, rfl⟩ := establish_ok h
  obtain ⟨hgrows, hleads⟩ := FileTree.makeDirectories_ok hmade
  by_cases hsteps : (Route.ofPath workingDirectory root).steps = []
  · -- a path without steps is that of the working directory or of the top
    refine hgrows.look_of_some ?_
    rw [Route.location, hsteps, List.foldl_nil, Route.ofPath]
    dsimp only
    split
    · cases workingDirectory with
      | nil => exact hworking
      | cons name rest =>
        refine FileTree.look_of_look_append (l := []) (List.cons_ne_nil name rest) ?_
        rw [List.nil_append, hworking]
        exact Option.some_ne_none _
    · exact hworking
  · exact (hleads hsteps rfl).2.2

/-- **Nothing outside the root.** After any requests to an archive that was opened, a path is
refused as leading out of the root exactly when it is empty, starts at the top, goes up, or begins
with the directory itself, and then archive and files are as before. Whatever the path and the
outcome, every directory and file that is made, written, moved or removed is strictly below the
root, so everything else is as before. -/
theorem requests_stay_below_the_root {workingDirectory : Location} {root : String}
    {tree tree' : FileTree} {opened : DirectoryArchive} {notice : Notice}
    (hopen : establish workingDirectory root tree = (.ok (opened, notice), tree'))
    (hworking : tree.look workingDirectory = some .directory) (earlier : List Request)
    (call : WriteCall) :
    let archive := opened.after earlier
    let path := call.target.text
    let reply := add call archive
    let escaping : Except Error ArtifactDescriptor := .error (.serialization path .escaping)
    (reply.answer ≠ escaping ↔ path ≠ "" ∧ path.startsWith "/" = false ∧
        ".." ∉ Route.pieces path ∧ (Route.pieces path).head? ≠ some ".") ∧
      (reply.answer = escaping → reply.memory = archive) ∧
      archive.tree.replay (journal call archive) = reply.memory.tree ∧
      (∀ c ∈ journal call archive, ∀ place ∈ c.places,
        FileTree.IsBelow place archive.location) ∧
      ∀ l, ¬FileTree.IsBelow l archive.location →
        reply.memory.tree.look l = archive.tree.look l := by
  intro archive path reply escaping
  have hlater : opened.Precedes archive := precedes_after opened earlier
  have hroot : archive.tree.look archive.location = some .directory := by
    rw [hlater.location]
    exact hlater.directory _ (look_location_of_establish hopen hworking)
  have hbelow : ∀ c ∈ journal call archive, ∀ place ∈ c.places,
      FileTree.IsBelow place archive.location := by
    intro c hc
    rw [journal] at hc
    split at hc
    · cases hc
    · next d hd =>
      split at hc
      · cases hc
      · exact Destination.journal_below (Destination.ofPath?_eq_some hd).1 hroot hc
  refine ⟨?_, fun hescaping ↦ ?_, replay_journal call archive, hbelow, fun l hl ↦ ?_⟩
  · rw [← Destination.staysInside_iff, ← Destination.exists_ofPath?_iff]
    constructor
    · intro hanswer
      rcases hd : Destination.ofPath? path with _ | d
      · exact absurd (congrArg (·.answer) (add_of_escaping hd archive)) hanswer
      · exact ⟨d, rfl⟩
    · rintro ⟨d, hd⟩
      exact answer_add_ne hd archive
  · rcases hd : Destination.ofPath? path with _ | d
    · exact congrArg (·.memory) (add_of_escaping hd archive)
    · exact absurd hescaping (answer_add_ne hd archive)
  · change (add call archive).memory.tree.look l = _
    rw [← replay_journal]
    exact FileTree.look_replay (fun c hc place hplace ↦
      (hbelow c hc place hplace).not_prefix_of_not hl) archive.tree

/-- A path with a directory makes that directory first; a path that goes up is refused. -/
theorem directory_is_made_below_the_root :
    let opened : DirectoryArchive := ⟨"/r", ["r"], .directory [("r", .directory [])], []⟩
    let f := Fragment.untargeted .base .split (.ofPackage "p")
    let call : WriteCall := ⟨.split, f, some ⟨"a//./b.c"⟩⟩
    let outside : WriteCall := ⟨.split, f, some ⟨"a/../../b.c"⟩⟩
    (journal call opened).map (·.places) =
        [[["r", "a"]], [["r", "a", "b.tmp"]], [["r", "a", "b.tmp"], ["r", "a", "b.c"]]] ∧
      (∀ c ∈ journal call opened, ∀ place ∈ c.places, FileTree.IsBelow place ["r"]) ∧
      (add outside opened).answer = .error (.serialization "a/../../b.c" .escaping) ∧
      (add outside opened).memory = opened := by
  intro opened f call outside
  have hinside := requests_stay_below_the_root establish_empty rfl [] call
  have hup : Destination.ofPath? outside.target.text = none := by decide +kernel
  have hrefused : (add outside opened).answer =
      .error (.serialization "a/../../b.c" .escaping) :=
    congrArg (·.answer) (add_of_escaping hup opened)
  have houtside := requests_stay_below_the_root establish_empty rfl [] outside
  exact ⟨by decide +kernel, hinside.2.2.2.1, hrefused, houtside.2.1 hrefused⟩

end DirectoryArchive

end FragmentArchive
