import FragmentArchive.Proofs.Destination

/-!
# What is in the way of a file

A file can be written when its paths are accepted, no file stands where a directory is needed, and
no directory stands where the file or its temporary file is to be. These are all the obstacles there
are: what is missing of the directories on the way is made. The paths are accepted by all trees or
by none, so it takes a few looks to tell whether writing will succeed.

The temporary file is a place of its own. When a file stands there already, and the attempt gets
that far, it is overwritten and then removed even if the attempt fails in the end.
-/

namespace FragmentArchive

namespace FileTree

variable {t t' : FileTree} {l : Location} {r : Route}

/-! ## Ways without files -/

/-- No file stands on the way down to a place, nor at the place itself. -/
def Clear (t : FileTree) (l : Location) : Prop :=
  ∀ l', l' <+: l → ∀ bytes, t.look l' ≠ some (.file bytes)

theorem Clear.mono {l' : Location} (h : t.Clear l) (hl' : l' <+: l) : t.Clear l' :=
  fun l'' hl'' ↦ h l'' (hl''.trans hl')

/-- Where no file is, there is a directory or nothing. -/
theorem Clear.look_eq (h : t.Clear l) : t.look l = some .directory ∨ t.look l = none := by
  rcases hl : t.look l with _ | bytes | _
  · exact .inr rfl
  · exact absurd hl (h l List.prefix_rfl bytes)
  · exact .inl rfl

/-- Above a directory there are directories only. -/
theorem look_of_isPrefix {l' : Location} (h : t.look l = some .directory) (hl' : l' <+: l) :
    t.look l' = some .directory := by
  obtain ⟨rest, rfl⟩ := hl'
  by_cases hrest : rest = []
  · rw [hrest, List.append_nil] at h
    exact h
  · exact look_of_look_append hrest (by rw [h]; exact Option.some_ne_none _)

/-- On the way to something that is missing, it is missing that stops the walk, when no file does
and the names are short enough. -/
private theorem walkOn_of_missing {names rest : List String} (hnone : t.look (l ++ names) = none)
    (hclear : ∀ names', names' <+: names → ∀ bytes, t.look (l ++ names') ≠ some (.file bytes))
    (hshort : ∀ name ∈ names, name.utf8ByteSize ≤ nameLimit) (hrest : rest ≠ []) :
    t.walkOn l.reverse (t.node? l) ((names ++ rest).map some) = .error .missing := by
  induction names generalizing l with
  | nil =>
    obtain ⟨name, rest, rfl⟩ := List.exists_cons_of_ne_nil hrest
    rw [List.append_nil, ← node?_eq_none_iff] at hnone
    rw [hnone]
    rfl
  | cons name names ih =>
    rw [List.cons_append, List.map_cons]
    rcases hl : t.node? l with _ | bytes | entries
    · rfl
    · have hfile : t.look (l ++ []) = some (.file bytes) := by
        rw [List.append_nil]
        exact node?_eq_file_iff.mp hl
      exact absurd hfile (hclear [] List.nil_prefix bytes)
    · rw [← hl, walkOn_name hl, if_neg (Nat.not_lt.mpr (hshort name List.mem_cons_self))]
      rw [List.append_cons] at hnone
      refine ih hnone (fun names' hnames' bytes ↦ ?_) fun n hn ↦
        hshort n (List.mem_cons_of_mem name hn)
      rw [← List.append_cons]
      exact hclear _ (List.cons_prefix_cons.mpr ⟨rfl, hnames'⟩) bytes

/-! ## Making directories -/

section

variable {above : Location} {name : String} (hstart : r.start = []) (hending : r.ending = .nothing)
  (hrefusal : refusal? r = none) (hsteps : r.steps = (above ++ [name]).map some)
  (hshort : ∀ n ∈ above ++ [name], n.utf8ByteSize ≤ nameLimit)

include hstart hending hrefusal hsteps hshort

/-- A directory is made in one that is there, or it is there itself. -/
private theorem ensureDirectory_of_directory_above (habove : t.look above = some .directory)
    (hfile : ∀ bytes, t.look (above ++ [name]) ≠ some (.file bytes)) :
    t.makeDirectory r ≠ .error .missing ∧
      ∃ t', t.ensureDirectory r = (.ok (), t') ∧
        ∀ l, t'.look l = if l = above ++ [name] then some .directory else t.look l := by
  have hlocation : r.location = above ++ [name] := by
    rw [Route.location, hstart, hsteps, Route.foldl_advance_names, List.nil_append]
  have hpass : t.Passable r.start r.steps := by
    rw [hstart, hsteps]
    exact passable_concat (l := []) habove hshort
  have hfollow := follow_of_passable hrefusal hending hpass
  rw [hlocation] at hfollow
  rcases hnode : t.node? (above ++ [name]) with _ | bytes | entries
  · have hmade : t.makeDirectory r = .ok (t.put (above ++ [name]) empty) := by
      rw [makeDirectory, hfollow, hnode]
    have hnone : t.look (above ++ [name]) ≠ some .directory := by
      rw [node?_eq_none_iff.mp hnode]
      exact (Option.some_ne_none _).symm
    refine ⟨fun hmissing ↦ ?_, t.put (above ++ [name]) empty, ?_, ?_⟩
    · cases hmade.symm.trans hmissing
    · rw [ensureDirectory, hmade]
    · exact look_put habove hnone isLeaf_empty
  · exact absurd (node?_eq_file_iff.mp hnode) (hfile bytes)
  · have hexists : t.makeDirectory r = .error .exists := by rw [makeDirectory, hfollow, hnode]
    refine ⟨fun hmissing ↦ ?_, t, ?_, fun l ↦ ?_⟩
    · cases hexists.symm.trans hmissing
    · rw [ensureDirectory, hexists, hfollow, hnode]
    · by_cases hl : l = above ++ [name]
      · rw [if_pos hl, hl]
        exact exists_node?_iff.mp ⟨entries, hnode⟩
      · rw [if_neg hl]

omit hending in
/-- No directory is made in one that is missing. -/
private theorem makeDirectory_of_missing_above (hnone : t.look above = none)
    (hclear : t.Clear above) : t.makeDirectory r = .error .missing := by
  have hwalk : t.walk r = .error .missing := by
    rw [walk, hstart, hsteps]
    refine walkOn_of_missing (l := []) hnone hclear (fun n hn ↦ ?_) (List.cons_ne_nil name [])
    exact hshort n (List.mem_append_left _ hn)
  have hfollow : t.follow r = .error .missing := by
    rw [follow, hrefusal, hwalk]
    rfl
  rw [makeDirectory, hfollow]

end

/-- All directories on the way down to a place are made, and nothing else changes. -/
structure Opens (t : FileTree) (place : Location) (t' : FileTree) : Prop where
  directory : ∀ l, l <+: place → t'.look l = some .directory
  elsewhere : ∀ l, ¬l <+: place → t'.look l = t.look l

theorem Opens.of_directory (h : t.look l = some .directory) : t.Opens l t :=
  ⟨fun _ hl' ↦ look_of_isPrefix h hl', fun _ _ ↦ rfl⟩

/-- A further directory. -/
theorem Opens.concat {t'' : FileTree} {name : String} (h : t.Opens l t')
    (hlook : ∀ l', t''.look l' = if l' = l ++ [name] then some .directory else t'.look l') :
    t.Opens (l ++ [name]) t'' := by
  constructor
  · intro l' hl'
    rw [hlook]
    rcases List.prefix_concat_iff.mp hl' with rfl | hl'
    · exact if_pos rfl
    · rw [h.directory l' hl', ite_self]
  · intro l' hl'
    rw [List.prefix_concat_iff, not_or] at hl'
    rw [hlook, if_neg hl'.1, h.elsewhere l' hl'.2]

private theorem makeReversed_cons {step : Option String} {steps : List (Option String)}
    {route : Route} (hroute : { r with steps := (step :: steps).reverse } = route) :
    (t.makeDirectory route ≠ .error .missing →
      t.makeReversed r (step :: steps) = t.ensureDirectory route) ∧
    (t.makeDirectory route = .error .missing →
      ∀ made, t.makeReversed { r with ending := .nothing } steps = (.ok (), made) →
        t.makeReversed r (step :: steps) = made.ensureDirectory route) := by
  constructor
  · intro hne
    rw [makeReversed, hroute]
    split
    · next hmissing => exact absurd hmissing hne
    · rfl
  · intro hmissing made hmade
    rw [makeReversed, hroute, hmissing]
    dsimp only
    rw [hmade]

/-- **On a way without files all directories are made.** -/
private theorem makeReversed_of_clear {names : List String} (hstart : r.start = [])
    (hending : r.ending = .nothing) (hsize : r.size ≤ pathLimit)
    (hnul : ∀ name ∈ names, name.toList.contains '\x00' = false)
    (hshort : ∀ name ∈ names, name.utf8ByteSize ≤ nameLimit) (hclear : t.Clear names.reverse) :
    ∃ t', t.makeReversed r (names.map some) = (.ok (), t') ∧ t.Opens names.reverse t' := by
  induction names generalizing r with
  | nil =>
    -- the top is there in any case
    refine ⟨t, rfl, .of_directory (hclear.look_eq.resolve_right fun hnone ↦ ?_)⟩
    rw [List.reverse_nil, ← node?_eq_none_iff] at hnone
    cases hnone
  | cons name names ih =>
    have hcons : (name :: names).reverse = names.reverse ++ [name] := List.reverse_cons
    generalize hroute : { r with steps := (some name :: names.map some).reverse } = route
    have hsteps : route.steps = (names.reverse ++ [name]).map some := by
      rw [← hroute, ← hcons, List.map_reverse]
      rfl
    have hrefusal : refusal? route = none := by
      refine refusal?_eq_none_iff.mpr ⟨?_, hroute ▸ hsize⟩
      rw [Route.hasNul, hsteps, ← hcons, List.any_map, List.any_reverse, List.any_eq_false]
      intro n hn
      rw [Function.comp_apply, Option.any_some, hnul n hn]
      exact Bool.false_ne_true
    have hshort' : ∀ n ∈ names.reverse ++ [name], n.utf8ByteSize ≤ nameLimit := by
      rw [← hcons]
      exact fun n hn ↦ hshort n (List.mem_reverse.mp hn)
    have hstart' : route.start = [] := hroute ▸ hstart
    have hending' : route.ending = .nothing := hroute ▸ hending
    rw [hcons] at hclear ⊢
    have habove : t.Clear names.reverse := hclear.mono (List.prefix_append _ _)
    have hfile := hclear _ List.prefix_rfl
    obtain ⟨hpresent, hmissing⟩ := makeReversed_cons (t := t) hroute
    rcases habove.look_eq with hdirectory | hnone
    · obtain ⟨hne, t', hensure, hlook⟩ := ensureDirectory_of_directory_above hstart' hending'
        hrefusal hsteps hshort' hdirectory hfile
      exact ⟨t', (hpresent hne).trans hensure, (Opens.of_directory hdirectory).concat hlook⟩
    · -- the directories above are made first, and this one in what comes of them
      obtain ⟨made, hmade, hopens⟩ := ih (r := { r with ending := .nothing }) hstart rfl hsize
        (fun n hn ↦ hnul n (List.mem_cons_of_mem name hn))
        (fun n hn ↦ hshort n (List.mem_cons_of_mem name hn)) habove
      have hfile' : ∀ bytes, made.look (names.reverse ++ [name]) ≠ some (.file bytes) := by
        rw [hopens.elsewhere _ fun hlong ↦ absurd hlong.length_le (by simp)]
        exact hfile
      obtain ⟨-, t', hensure, hlook⟩ := ensureDirectory_of_directory_above hstart' hending'
        hrefusal hsteps hshort' (hopens.directory _ List.prefix_rfl) hfile'
      have hstop := makeDirectory_of_missing_above hstart' hrefusal hsteps hshort' hnone habove
      exact ⟨t', (hmissing hstop made hmade).trans hensure, hopens.concat hlook⟩

/-- **What making directories comes to where no file is in the way.** -/
theorem makeDirectories_of_clear {names : List String} (hstart : r.start = [])
    (hending : r.ending = .nothing) (hsteps : r.steps = names.map some)
    (hrefusal : refusal? r = none) (hshort : ∀ name ∈ names, name.utf8ByteSize ≤ nameLimit)
    (hclear : t.Clear names) :
    ∃ t', t.makeDirectories r = (.ok (), t') ∧ t.Opens names t' := by
  obtain ⟨hnul, hsize⟩ := refusal?_eq_none_iff.mp hrefusal
  rw [Route.hasNul, hsteps, List.any_map, List.any_eq_false] at hnul
  rw [← List.reverse_reverse names] at hclear
  obtain ⟨t', hmade, hopens⟩ := makeReversed_of_clear hstart hending hsize
    (fun name hname ↦ Bool.not_eq_true _ ▸ hnul name (List.mem_reverse.mp hname))
    (fun name hname ↦ hshort name (List.mem_reverse.mp hname)) hclear
  rw [List.reverse_reverse] at hopens
  refine ⟨t', ?_, hopens⟩
  rw [makeDirectories, hrefusal, hsteps, ← List.map_reverse]
  exact hmade

end FileTree

/-! ## Writing -/

namespace Destination

open FileTree (refusal? nameLimit)

variable {d : Destination} {root : Location} {rootSize : Nat} {content : ByteArray}
  {t t' : FileTree}

/-- Nothing stands in the way of a file: no file where a directory is needed, and no directory where
the file or its temporary file is to be. -/
structure Unobstructed (d : Destination) (root : Location) (t : FileTree) : Prop where
  folder : t.Clear (root ++ Route.names d.above)
  temporary : t.look (root ++ d.temporaryPlace) ≠ some .directory
  place : t.look (root ++ d.place) ≠ some .directory

/-- What was in the way would still be. -/
private theorem unobstructed_of_write (hd : d.Proper)
    (h : d.write root rootSize content t = (.ok (), t')) : d.Unobstructed root t := by
  obtain ⟨made, prepared, hmade, hwrite, hmove⟩ := exists_steps h
  have hgrows : t.Grows made := (FileTree.makeDirectories_ok hmade).1
  obtain ⟨hreaches, hfolder, htemporary, hprepared⟩ := reachesTemporary_of_write hd hwrite
  have hleads := isRedundant_temporaryName hreaches.temporaryName_ne
  obtain ⟨-, -, -, hplace, -⟩ :=
    FileTree.moveFile_ok hmove (steps_ne_nil hleads []) (steps_ne_nil hd.name_leads d.behind)
  rw [hd.location_pieces, hprepared] at hplace
  refine ⟨fun l hl bytes hfile ↦ ?_, fun hdirectory ↦ htemporary (hgrows.look_of_some hdirectory),
    fun hdirectory ↦ ?_⟩
  · have hmade' := hgrows.look_of_some hfile
    rw [FileTree.look_of_isPrefix hfolder hl] at hmade'
    cases hmade'
  · have hmade' := hgrows.look_of_some hdirectory
    by_cases hsame : root ++ d.place = root ++ d.temporaryPlace
    · exact htemporary (hsame ▸ hmade')
    · rw [if_neg hsame] at hplace
      exact hplace hmade'

/-- Directories that are made first need not be made when the file is written. -/
private theorem write_of_made {made : FileTree}
    (h : t.makeDirectories (.below root rootSize d.folder) = (.ok (), made)) :
    d.write root rootSize content t = d.write root rootSize content made := by
  rw [write, write, h, FileTree.makeDirectories_again h fun _ hl ↦ hl]

/-- **When a file can be written.** -/
theorem exists_write_iff (hd : d.Proper) (content : ByteArray) :
    (∃ t', d.write root rootSize content t = (.ok (), t')) ↔
      d.Writable root rootSize ∧ d.Unobstructed root t := by
  constructor
  · rintro ⟨t', h⟩
    exact ⟨writable_of_write hd h, unobstructed_of_write hd h⟩
  · rintro ⟨hwritable, hclear, htemporary, hplace⟩
    obtain ⟨made, hmade, hopens⟩ := FileTree.makeDirectories_of_clear
      (r := .below root rootSize d.folder) rfl endOf_folder hd.steps_folder
      (hwritable.folder_accepted hd) hwritable.folder_short hclear
    -- both places are in the folder, so no directory was made there
    have hbelow : ∀ name, made.look (root ++ (Route.names d.above ++ [name])) =
        t.look (root ++ (Route.names d.above ++ [name])) := fun name ↦
      hopens.elsewhere _ fun hlong ↦ absurd hlong.length_le (by simp)
    rw [temporaryPlace, ← hbelow] at htemporary
    rw [place, ← hbelow] at hplace
    obtain ⟨t', hwrite, -⟩ := hwritable.write hd content
      (hopens.directory _ List.prefix_rfl) htemporary hplace
    exact ⟨t', (write_of_made hmade).trans hwrite⟩

/-- **What a failed attempt does to the files.** The one at the temporary place is lost if the
attempt gets that far; all others are as they were, and there are no new ones. -/
theorem look_file_of_write_error (hd : d.Proper) {fault : FileFault}
    (h : d.write root rootSize content t = (.error fault, t')) (l : Location) (bytes : ByteArray) :
    t'.look l = some (.file bytes) ↔ t.look l = some (.file bytes) ∧
      ¬(l = root ++ d.temporaryPlace ∧ d.ReachesTemporary root rootSize) := by
  constructor
  · intro hl
    have hbefore := (file_of_write hd h hl).resolve_right fun hok ↦ by cases hok.1
    refine ⟨hbefore, ?_⟩
    rintro ⟨rfl, hreaches⟩
    rw [write_over_temporary hd hreaches hbefore h nofun] at hl
    cases hl
  · rintro ⟨hl, hnot⟩
    by_cases hreaches : d.ReachesTemporary root rootSize
    · exact (write_keeps hd h).2 l bytes hl (fun heq ↦ hnot ⟨heq, hreaches⟩) nofun
    · exact (write_of_unreached hd hreaches h).2.look_of_some hl

end Destination

end FragmentArchive
