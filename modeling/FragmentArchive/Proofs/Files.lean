import FragmentArchive.Fallible
import FragmentArchive.Proofs.FileTree
import FragmentArchive.Proofs.Route

/-!
# Files and directories

What the operations on files come to when they succeed, in terms of looks. A walk either fails or
ends at the location that its route spells, so the tree decides only whether one gets there; and it
decides this by its directories alone. Operations that add directories and change files can
therefore not close a way that was open.
-/

namespace FragmentArchive.FileTree

open Route (advance)

/-! ## Walking -/

/-- Whether every step leaves a directory, and no name on the way is too long. -/
def Passable (t : FileTree) : Location → List (Option String) → Prop
  | _, [] => True
  | l, step :: steps => t.look l = some .directory ∧
    (∀ name ∈ step, name.utf8ByteSize ≤ nameLimit) ∧ t.Passable (advance l step) steps

variable {t t' : FileTree} {l : Location} {r : Route}

theorem passable_append {steps steps' : List (Option String)} :
    t.Passable l (steps ++ steps') ↔
      t.Passable l steps ∧ t.Passable (steps.foldl advance l) steps' := by
  induction steps generalizing l with
  | nil => exact (iff_of_eq (true_and _)).symm
  | cons step steps ih =>
    rw [List.cons_append, Passable, Passable, ih, and_assoc, and_assoc]
    rfl

/-- A way stays open as long as no directory goes. -/
theorem Passable.mono {steps : List (Option String)} (h : t.Passable l steps)
    (hkeep : ∀ l, t.look l = some .directory → t'.look l = some .directory) :
    t'.Passable l steps := by
  induction steps generalizing l with
  | nil => trivial
  | cons step steps ih =>
    obtain ⟨hl, hshort, hrest⟩ := h
    exact ⟨hkeep l hl, hshort, ih hrest⟩

theorem Passable.short {steps : List (Option String)} (h : t.Passable l steps) {name : String}
    (hname : some name ∈ steps) : name.utf8ByteSize ≤ nameLimit := by
  induction steps generalizing l with
  | nil => cases hname
  | cons step steps ih =>
    obtain ⟨-, hshort, hrest⟩ := h
    rcases List.mem_cons.mp hname with rfl | hname
    · exact hshort name rfl
    · exact ih hrest hname

/-- The way down to something that is there is open. -/
theorem passable_names {names : List String} (hlook : t.look (l ++ names) ≠ none)
    (hshort : ∀ name ∈ names, name.utf8ByteSize ≤ nameLimit) : t.Passable l (names.map some) := by
  induction names generalizing l with
  | nil => trivial
  | cons name names ih =>
    have hassoc : l ++ name :: names = (l ++ [name]) ++ names := by simp
    refine ⟨look_of_look_append (List.cons_ne_nil name names) hlook, ?_, ?_⟩
    · intro n hn
      rw [← Option.some.inj hn]
      exact hshort name List.mem_cons_self
    · rw [hassoc] at hlook
      exact ih hlook fun n hn ↦ hshort n (List.mem_cons_of_mem name hn)

/-- The way down to a name in a directory is open, whatever stands there. -/
theorem passable_concat {names : List String} {name : String}
    (hlook : t.look (l ++ names) = some .directory)
    (hshort : ∀ n ∈ names ++ [name], n.utf8ByteSize ≤ nameLimit) :
    t.Passable l ((names ++ [name]).map some) := by
  rw [List.map_append, passable_append, Route.foldl_advance_names]
  refine ⟨passable_names ?_ fun n hn ↦ hshort n (List.mem_append_left _ hn), hlook, ?_, trivial⟩
  · rw [hlook]
    nofun
  · intro n hn
    rw [← Option.some.inj hn]
    exact hshort name (List.mem_append_right _ (List.mem_singleton_self name))

/-- A step down from a directory. -/
theorem walkOn_name {entries : List (String × FileTree)}
    (hl : t.node? l = some (.directory entries)) (name : String) (steps : List (Option String)) :
    t.walkOn l.reverse (t.node? l) (some name :: steps) =
      if nameLimit < name.utf8ByteSize then .error .nameTooLong
      else t.walkOn (l ++ [name]).reverse (t.node? (l ++ [name])) steps := by
  have hnode : t.node? (l ++ [name]) = entries.lookup name := by
    rw [node?_append, hl, Option.bind_some, node?]
    cases entries.lookup name <;> rfl
  rw [hl, walkOn, hnode, List.reverse_append]
  rfl

theorem walkOn_ok_iff {steps : List (Option String)} {found : Location × Option FileTree} :
    t.walkOn l.reverse (t.node? l) steps = .ok found ↔
      t.Passable l steps ∧
        found = (steps.foldl advance l, t.node? (steps.foldl advance l)) := by
  induction steps generalizing l with
  | nil =>
    rw [walkOn, List.reverse_reverse, Except.ok.injEq, eq_comm]
    exact (iff_of_eq (true_and _)).symm
  | cons step steps ih =>
    rw [Passable, ← exists_node?_iff, List.foldl_cons]
    rcases hl : t.node? l with _ | _ | entries
    · simp [walkOn]
    · simp [walkOn]
    · cases step with
      | none =>
        -- the way so far comes in reverse, so going up drops its head
        have hback : t.walkOn l.reverse (some (directory entries)) (none :: steps) =
            t.walkOn l.dropLast.reverse (t.node? l.dropLast) steps := by
          rw [walkOn, List.tail_reverse, List.reverse_reverse]
        rw [hback, ih]
        simp [advance]
      | some name =>
        rw [← hl, walkOn_name hl]
        by_cases hsize : nameLimit < name.utf8ByteSize
        · rw [if_pos hsize]
          simp only [reduceCtorEq, Option.mem_def, Option.some.injEq, forall_eq', false_iff]
          omega
        · rw [if_neg hsize, ih]
          simp [advance, hl, Nat.le_of_not_lt hsize]

/-- On the way down to a directory that is there only a name can be in the way. -/
private theorem walkOn_of_directory {names : List String}
    (hlook : t.look (l ++ names) = some .directory) :
    t.walkOn l.reverse (t.node? l) (names.map some) =
        .ok (l ++ names, t.node? (l ++ names)) ∨
      t.walkOn l.reverse (t.node? l) (names.map some) = .error .nameTooLong := by
  induction names generalizing l with
  | nil => exact .inl (by rw [List.map_nil, walkOn, List.reverse_reverse, List.append_nil])
  | cons name names ih =>
    have hthere : t.look (l ++ name :: names) ≠ none := by
      rw [hlook]
      nofun
    obtain ⟨entries, hl⟩ :=
      exists_node?_iff.mpr (look_of_look_append (List.cons_ne_nil name names) hthere)
    rw [List.map_cons, walkOn_name hl]
    split
    · exact .inr rfl
    · rw [List.append_cons l name names] at hlook ⊢
      exact ih hlook

/-- **Where a walk ends.** -/
theorem walk_ok_iff {found : Location × Option FileTree} : t.walk r = .ok found ↔
    t.Passable r.start r.steps ∧ found = (r.location, t.node? r.location) := walkOn_ok_iff

theorem refusal?_eq_none_iff : refusal? r = none ↔ r.hasNul = false ∧ r.size ≤ pathLimit := by
  rw [refusal?]
  by_cases hnul : r.hasNul = true
  · simp [hnul]
  · by_cases hsize : pathLimit < r.size
    · simp [hsize, hnul]
    · simp [hsize, hnul, Nat.le_of_not_lt hsize]

theorem follow_ok {found : Location × Option FileTree} (h : t.follow r = .ok found) :
    refusal? r = none ∧ t.Passable r.start r.steps ∧ found = (r.location, t.node? r.location) := by
  rw [follow] at h
  rcases hrefusal : refusal? r with _ | fault
  · rw [hrefusal] at h
    obtain ⟨found', hwalk, hfound⟩ := bind_eq_ok_iff.mp h
    obtain ⟨hpass, rfl⟩ := walk_ok_iff.mp hwalk
    refine ⟨rfl, hpass, ?_⟩
    split at hfound
    · cases hfound
    · cases hfound
    · cases hfound
    · exact (Except.ok.inj hfound).symm
  · rw [hrefusal] at h
    cases h

/-- A route with nothing behind its last step is followed to its end. -/
theorem follow_of_passable (hrefusal : refusal? r = none) (hending : r.ending = .nothing)
    (hpass : t.Passable r.start r.steps) : t.follow r = .ok (r.location, t.node? r.location) := by
  rw [follow, hrefusal]
  refine bind_eq_ok_iff.mpr ⟨_, walk_ok_iff.mpr ⟨hpass, rfl⟩, ?_⟩
  rw [hending]
  rcases t.node? r.location with _ | _ | _ <;> rfl

/-- What is no directory, but could be reached, is in one. -/
theorem exists_place (hsteps : r.steps ≠ []) (hpass : t.Passable r.start r.steps)
    (hlook : t.look r.location ≠ some .directory) :
    ∃ place name, r.location = place ++ [name] ∧ t.look place = some .directory := by
  obtain ⟨steps, step, heq⟩ := (List.eq_nil_or_concat r.steps).resolve_left hsteps
  rw [List.concat_eq_append] at heq
  rw [heq, passable_append] at hpass
  have hdir := hpass.2.1
  have hlocation : r.location = advance (steps.foldl advance r.start) step := by
    rw [Route.location, heq, List.foldl_append]
    rfl
  rw [hlocation] at hlook ⊢
  cases step with
  | none => exact absurd (look_dropLast hdir) hlook
  | some name => exact ⟨_, name, rfl, hdir⟩

/-! ## Files -/

theorem read_of_look {content : ByteArray} (hrefusal : refusal? r = none)
    (hending : r.ending = .nothing) (hpass : t.Passable r.start r.steps)
    (hlook : t.look r.location = some (.file content)) : t.read r = .ok content := by
  have hopen : t.openRoute r = .ok (.file content) := by
    rw [openRoute, follow_of_passable hrefusal hending hpass]
    exact bind_eq_ok_iff.mpr ⟨_, rfl, by rw [node?_eq_file_iff.mpr hlook]; rfl⟩
  rw [read, hopen]
  rfl

theorem read_ok {content : ByteArray} (h : t.read r = .ok content) : refusal? r = none ∧
    t.Passable r.start r.steps ∧ t.look r.location = some (.file content) := by
  obtain ⟨node, hopen, h⟩ := bind_eq_ok_iff.mp h
  obtain ⟨found, hfollow, hnode⟩ := bind_eq_ok_iff.mp hopen
  obtain ⟨hrefusal, hpass, rfl⟩ := follow_ok hfollow
  refine ⟨hrefusal, hpass, ?_⟩
  rcases hlocation : t.node? r.location with _ | node'
  · rw [hlocation] at hnode
    cases hnode
  · rw [hlocation] at hnode
    obtain rfl : node' = node := Except.ok.inj hnode
    cases node' with
    | directory _ => cases h
    | file content' => rw [look, hlocation, ← Except.ok.inj h]; rfl

/-- A file is read under its name, with nothing written behind. -/
private theorem ending_of_read_ok {content : ByteArray} (h : t.read r = .ok content) :
    r.ending = .nothing := by
  obtain ⟨hrefusal, hpass, hlook⟩ := read_ok h
  obtain ⟨node, hopen, -⟩ := bind_eq_ok_iff.mp h
  obtain ⟨found, hfollow, -⟩ := bind_eq_ok_iff.mp hopen
  have hwalk : t.walk r = .ok (r.location, some (.file content)) :=
    walk_ok_iff.mpr ⟨hpass, by rw [node?_eq_file_iff.mpr hlook]⟩
  rw [follow, hrefusal, hwalk] at hfollow
  cases hending : r.ending with
  | nothing => rfl
  | separator =>
    rw [hending] at hfollow
    cases hfollow
  | sameDirectory =>
    rw [hending] at hfollow
    cases hfollow

/-- **What could be read can be read again**, with the content that stands there now, as long as no
directory goes. -/
theorem read_again {content content' : ByteArray} (h : t.read r = .ok content)
    (hkeep : ∀ l, t.look l = some .directory → t'.look l = some .directory)
    (hlook : t'.look r.location = some (.file content')) : t'.read r = .ok content' := by
  obtain ⟨hrefusal, hpass, -⟩ := read_ok h
  exact read_of_look hrefusal (ending_of_read_ok h) (hpass.mono hkeep) hlook

/-- A file is put where the route ends. -/
theorem write_eq {content : ByteArray} (h : t.write r content = .ok t') :
    refusal? r = none ∧ t.Passable r.start r.steps ∧ t.look r.location ≠ some .directory ∧
      t' = t.put r.location (.file content) := by
  rw [write] at h
  rcases hrefusal : refusal? r with _ | fault
  · rw [hrefusal] at h
    by_cases hending : r.ending = .separator
    · rw [if_pos hending] at h
      obtain ⟨_, -, h⟩ := bind_eq_ok_iff.mp h
      obtain ⟨_, h, -⟩ := bind_eq_ok_iff.mp h
      cases h
    · rw [if_neg hending] at h
      obtain ⟨_, hfollow, h⟩ := bind_eq_ok_iff.mp h
      obtain ⟨-, hpass, rfl⟩ := follow_ok hfollow
      rcases hnode : t.node? r.location with _ | _ | entries
      · rw [hnode] at h
        exact ⟨rfl, hpass, by simp [look, hnode], (Except.ok.inj h).symm⟩
      · rw [hnode] at h
        exact ⟨rfl, hpass, by simp [look, hnode, top], (Except.ok.inj h).symm⟩
      · rw [hnode] at h
        cases h
  · rw [hrefusal] at h
    cases h

/-- **What writing a file comes to.** -/
theorem write_ok {content : ByteArray} (h : t.write r content = .ok t') (hsteps : r.steps ≠ []) :
    refusal? r = none ∧ t.Passable r.start r.steps ∧ t.look r.location ≠ some .directory ∧
      ∀ l, t'.look l = if l = r.location then some (.file content) else t.look l := by
  obtain ⟨hrefusal, hpass, hlook, rfl⟩ := write_eq h
  refine ⟨hrefusal, hpass, hlook, ?_⟩
  obtain ⟨place, name, hlocation, hplace⟩ := exists_place hsteps hpass hlook
  rw [hlocation] at hlook ⊢
  exact look_put hplace hlook (isLeaf_file content)

/-- A file can be written wherever there is no directory. -/
theorem exists_write {content : ByteArray} (hrefusal : refusal? r = none)
    (hending : r.ending = .nothing) (hpass : t.Passable r.start r.steps)
    (hlook : t.look r.location ≠ some .directory) : ∃ t', t.write r content = .ok t' := by
  refine ⟨t.put r.location (.file content), ?_⟩
  rw [write, hrefusal, hending, follow_of_passable hrefusal hending hpass]
  rcases hnode : t.node? r.location with _ | _ | entries
  · rfl
  · rfl
  · exact absurd (exists_node?_iff.mp ⟨entries, hnode⟩) hlook

/-- A file can be removed. -/
theorem removeFile_of_file {content : ByteArray} (hrefusal : refusal? r = none)
    (hending : r.ending = .nothing) (hpass : t.Passable r.start r.steps)
    (hlook : t.look r.location = some (.file content)) : ∃ t', t.removeFile r = .ok t' := by
  refine ⟨t.remove r.location, ?_⟩
  rw [removeFile, follow_of_passable hrefusal hending hpass, node?_eq_file_iff.mpr hlook]
  rfl

/-- What stands where the route ends is taken away. -/
theorem removeFile_eq (h : t.removeFile r = .ok t') : t.Passable r.start r.steps ∧
    t.look r.location ≠ some .directory ∧ t' = t.remove r.location := by
  obtain ⟨_, hfollow, h⟩ := bind_eq_ok_iff.mp h
  obtain ⟨-, hpass, rfl⟩ := follow_ok hfollow
  rcases hnode : t.node? r.location with _ | content | _
  · rw [hnode] at h
    cases h
  · rw [hnode] at h
    exact ⟨hpass, by simp [look, hnode, top], (Except.ok.inj h).symm⟩
  · rw [hnode] at h
    cases h

/-- **What removing a file comes to.** -/
theorem removeFile_ok (h : t.removeFile r = .ok t') (hsteps : r.steps ≠ []) :
    ∀ l, t'.look l = if l = r.location then none else t.look l := by
  obtain ⟨hpass, hlook, rfl⟩ := removeFile_eq h
  obtain ⟨place, name, hlocation, hplace⟩ := exists_place hsteps hpass hlook
  rw [hlocation] at hlook ⊢
  exact look_remove hplace hlook

/-- A file is taken from one place and put at another one. -/
theorem moveFile_eq {source destination : Route} (h : t.moveFile source destination = .ok t') :
    t.Passable source.start source.steps ∧ destination.ending = .nothing ∧
      refusal? destination = none ∧ t.Passable destination.start destination.steps ∧
      t.look destination.location ≠ some .directory ∧
      ∃ content, t.look source.location = some (.file content) ∧
        t' = (t.remove source.location).put destination.location (.file content) := by
  obtain ⟨content, hread, h⟩ := bind_eq_ok_iff.mp h
  obtain ⟨-, hpass, hfile⟩ := read_ok hread
  cases hending : destination.ending with
  | separator =>
    rw [hending] at h
    obtain ⟨_, -, h⟩ := bind_eq_ok_iff.mp h
    cases h
  | sameDirectory =>
    rw [hending] at h
    obtain ⟨_, -, h⟩ := bind_eq_ok_iff.mp h
    cases h
  | nothing =>
    rw [hending] at h
    obtain ⟨_, hfollow, h⟩ := bind_eq_ok_iff.mp h
    obtain ⟨hrefusal', hpass', rfl⟩ := follow_ok hfollow
    refine ⟨hpass, rfl, hrefusal', hpass', ?_⟩
    rcases hnode : t.node? destination.location with _ | _ | entries
    · rw [hnode] at h
      obtain ⟨_, hfollow, h⟩ := bind_eq_ok_iff.mp h
      obtain ⟨-, -, rfl⟩ := follow_ok hfollow
      exact ⟨by simp [look, hnode], content, hfile, (Except.ok.inj h).symm⟩
    · rw [hnode] at h
      obtain ⟨_, hfollow, h⟩ := bind_eq_ok_iff.mp h
      obtain ⟨-, -, rfl⟩ := follow_ok hfollow
      exact ⟨by simp [look, hnode, top], content, hfile, (Except.ok.inj h).symm⟩
    · rw [hnode] at h
      cases h

/-- A file can be moved wherever there is no directory. -/
theorem exists_moveFile {source destination : Route} {content : ByteArray}
    (hread : t.read source = .ok content) (hrefusal : refusal? destination = none)
    (hending : destination.ending = .nothing)
    (hpass : t.Passable destination.start destination.steps)
    (hlook : t.look destination.location ≠ some .directory) :
    ∃ t', t.moveFile source destination = .ok t' := by
  refine ⟨(t.remove source.location).put destination.location (.file content), ?_⟩
  obtain ⟨hrefusal', hpass', -⟩ := read_ok hread
  have hsource := follow_of_passable hrefusal' (ending_of_read_ok hread) hpass'
  rw [moveFile, hread, hending, follow_of_passable hrefusal hending hpass, hsource]
  rcases hnode : t.node? destination.location with _ | _ | entries
  · rfl
  · rfl
  · exact absurd (exists_node?_iff.mp ⟨entries, hnode⟩) hlook

/-- **What moving a file comes to.** -/
theorem moveFile_ok {source destination : Route} (h : t.moveFile source destination = .ok t')
    (hsource : source.steps ≠ []) (hdestination : destination.steps ≠ []) :
    destination.ending = .nothing ∧ refusal? destination = none ∧
      t.Passable destination.start destination.steps ∧
      t.look destination.location ≠ some .directory ∧
      ∃ content, t.look source.location = some (.file content) ∧
        ∀ l, t'.look l = if l = destination.location then some (.file content)
          else if l = source.location then none else t.look l := by
  obtain ⟨hpass, hending, hrefusal', hpass', hlook', content, hfile, rfl⟩ := moveFile_eq h
  refine ⟨hending, hrefusal', hpass', hlook', content, hfile, ?_⟩
  have hlook : t.look source.location ≠ some .directory := by simp [hfile]
  obtain ⟨place, name, hlocation, hplace⟩ := exists_place hsource hpass hlook
  obtain ⟨place', name', hlocation', hplace'⟩ := exists_place hdestination hpass' hlook'
  rw [hlocation] at hlook
  have hremoved : ∀ l, (t.remove source.location).look l =
      if l = source.location then none else t.look l := by
    rw [hlocation]
    exact look_remove hplace hlook
  -- taking the file away removes no directory, in particular not the one it is moved to
  have hplace'' : (t.remove source.location).look place' = some .directory := by
    rw [hremoved, if_neg ?_, hplace']
    rintro rfl
    rw [hfile] at hplace'
    cases hplace'
  have hlook'' : (t.remove source.location).look destination.location ≠ some .directory := by
    rw [hremoved]
    split
    · simp
    · exact hlook'
  intro l
  rw [hlocation'] at hlook'' ⊢
  rw [look_put hplace'' hlook'' (isLeaf_file content), hremoved]
  rfl

/-! ## Making directories -/

/-- One tree is another one with directories added. -/
def Grows (t t' : FileTree) : Prop :=
  ∀ l, t'.look l = t.look l ∨ t.look l = none ∧ t'.look l = some .directory

theorem Grows.refl (t : FileTree) : t.Grows t := fun _ ↦ .inl rfl

theorem Grows.trans {t'' : FileTree} (h : t.Grows t') (h' : t'.Grows t'') : t.Grows t'' := by
  intro l
  rcases h l with heq | ⟨hnone, hdir⟩
  · rw [← heq]
    exact h' l
  · rcases h' l with heq' | ⟨hnone', -⟩
    · exact .inr ⟨hnone, heq'.trans hdir⟩
    · rw [hdir] at hnone'
      cases hnone'

theorem Grows.look_of_some {node : Node} (h : t.Grows t') (hl : t.look l = some node) :
    t'.look l = some node := by
  rcases h l with heq | ⟨hnone, -⟩
  · rw [heq, hl]
  · rw [hl] at hnone
    cases hnone

/-- No file is added. -/
theorem Grows.look_file {bytes : ByteArray} (h : t.Grows t') (hl : t'.look l = some (.file bytes)) :
    t.look l = some (.file bytes) := by
  rcases h l with heq | ⟨-, hdir⟩
  · rw [← heq, hl]
  · rw [hdir] at hl
    cases hl

/-- A route can be followed to a directory. -/
def LeadsToDirectory (t : FileTree) (r : Route) : Prop :=
  refusal? r = none ∧ t.Passable r.start r.steps ∧ t.look r.location = some .directory

/-- A directory is put where nothing stands. -/
theorem makeDirectory_eq (h : t.makeDirectory r = .ok t') :
    refusal? r = none ∧ t.Passable r.start r.steps ∧ t.look r.location = none ∧
      t' = t.put r.location empty := by
  rw [makeDirectory] at h
  split at h
  · next location hfollow =>
    obtain ⟨hrefusal, hpass, hfound⟩ := follow_ok hfollow
    obtain ⟨rfl, hnode⟩ := Prod.mk.inj hfound
    exact ⟨hrefusal, hpass, node?_eq_none_iff.mp hnode.symm, (Except.ok.inj h).symm⟩
  · cases h
  · split at h
    · cases h
    · cases h
  · cases h

theorem makeDirectory_ok (h : t.makeDirectory r = .ok t') (hsteps : r.steps ≠ []) :
    t.Grows t' ∧ t'.LeadsToDirectory r := by
  obtain ⟨hrefusal, hpass, hnone, rfl⟩ := makeDirectory_eq h
  have hlook : t.look r.location ≠ some .directory := by
    rw [hnone]
    nofun
  obtain ⟨place, name, hlocation, hplace⟩ := exists_place hsteps hpass hlook
  have hput : ∀ l, (t.put r.location empty).look l =
      if l = r.location then some .directory else t.look l := by
    rw [hlocation] at hlook ⊢
    exact look_put hplace hlook isLeaf_empty
  have hgrows : t.Grows (t.put r.location empty) := by
    intro l
    by_cases heq : l = r.location
    · exact .inr ⟨heq ▸ hnone, by rw [hput, if_pos heq]⟩
    · exact .inl (by rw [hput, if_neg heq])
  exact ⟨hgrows, hrefusal, hpass.mono fun _ ↦ hgrows.look_of_some, by rw [hput, if_pos rfl]⟩

theorem ensureDirectory_ok {result : Except FileFault Unit}
    (h : t.ensureDirectory r = (result, t')) (hsteps : r.steps ≠ []) :
    t.Grows t' ∧ (result = .ok () → t'.LeadsToDirectory r) := by
  rw [ensureDirectory] at h
  split at h
  · next made hmade =>
    obtain ⟨rfl, rfl⟩ := Prod.mk.inj h
    obtain ⟨hgrows, hleads⟩ := makeDirectory_ok hmade hsteps
    exact ⟨hgrows, fun _ ↦ hleads⟩
  · split at h
    · next location entries hfollow =>
      obtain ⟨rfl, rfl⟩ := Prod.mk.inj h
      obtain ⟨hrefusal, hpass, hfound⟩ := follow_ok hfollow
      obtain ⟨rfl, hnode⟩ := Prod.mk.inj hfound
      exact ⟨.refl t, fun _ ↦ ⟨hrefusal, hpass, exists_node?_iff.mp ⟨entries, hnode.symm⟩⟩⟩
    · obtain ⟨rfl, rfl⟩ := Prod.mk.inj h
      exact ⟨.refl t, nofun⟩
  · obtain ⟨rfl, rfl⟩ := Prod.mk.inj h
    exact ⟨.refl t, nofun⟩

theorem makeReversed_ok {steps : List (Option String)} {result : Except FileFault Unit}
    (h : t.makeReversed r steps = (result, t')) :
    t.Grows t' ∧ (steps ≠ [] → result = .ok () →
      t'.LeadsToDirectory { r with steps := steps.reverse }) := by
  induction steps generalizing r result t' with
  | nil =>
    obtain ⟨-, rfl⟩ := Prod.mk.inj h
    exact ⟨.refl t, nofun⟩
  | cons step above ih =>
    have hsteps : (step :: above).reverse ≠ [] := by simp
    rw [makeReversed] at h
    split at h
    · split at h
      · next made habove =>
        -- the directories above are made first, and this one in what comes of them
        obtain ⟨hgrows, -⟩ := ih habove
        obtain ⟨hgrows', hleads⟩ := ensureDirectory_ok h hsteps
        exact ⟨hgrows.trans hgrows', fun _ ↦ hleads⟩
      · next hfailed =>
        obtain ⟨hgrows, -⟩ := ih h
        refine ⟨hgrows, fun _ hok ↦ ?_⟩
        exact absurd (hok ▸ h) (hfailed t')
    · obtain ⟨hgrows, hleads⟩ := ensureDirectory_ok h hsteps
      exact ⟨hgrows, fun _ ↦ hleads⟩

/-- Where a directory is, none is made, and nothing is missing on the way. -/
theorem makeDirectory_of_directory (hstart : r.start = []) (hending : r.ending = .nothing)
    {names : List String} (hsteps : r.steps = names.map some)
    (hlook : t.look names = some .directory) :
    ∃ fault, fault ≠ .missing ∧ t.makeDirectory r = .error fault := by
  obtain ⟨entries, hnode⟩ := exists_node?_iff.mpr hlook
  have hwalk := walkOn_of_directory (l := []) hlook
  rw [List.nil_append, hnode, ← hsteps] at hwalk
  have hroute : t.walk r = t.walkOn ([] : Location).reverse (t.node? []) r.steps := by
    rw [walk, hstart]
  rw [← hroute] at hwalk
  have hfollow : t.follow r = .ok (names, some (.directory entries)) ∨
      t.follow r = .error .nameTooLong ∨ t.follow r = .error .nameWithNul := by
    rw [follow, refusal?]
    by_cases hnul : r.hasNul = true
    · exact .inr (.inr (by rw [if_pos hnul]))
    by_cases hsize : pathLimit < r.size
    · exact .inr (.inl (by rw [if_neg hnul, if_pos hsize]))
    rw [if_neg hnul, if_neg hsize]
    rcases hwalk with hwalk | hwalk
    · exact .inl (by rw [hwalk, hending]; rfl)
    · exact .inr (.inl (by rw [hwalk]; rfl))
  rw [makeDirectory]
  rcases hfollow with hfollow | hfollow | hfollow
  · exact ⟨.exists, nofun, by rw [hfollow]⟩
  · exact ⟨.nameTooLong, nofun, by rw [hfollow]⟩
  · exact ⟨.nameWithNul, nofun, by rw [hfollow]⟩

/-- **What making directories comes to.** Whether or not it succeeds, it only adds directories. -/
theorem makeDirectories_ok {result : Except FileFault Unit}
    (h : t.makeDirectories r = (result, t')) :
    t.Grows t' ∧ (r.steps ≠ [] → result = .ok () → t'.LeadsToDirectory r) := by
  rw [makeDirectories] at h
  split at h
  · obtain ⟨rfl, rfl⟩ := Prod.mk.inj h
    exact ⟨.refl t, nofun⟩
  · obtain ⟨hgrows, hleads⟩ := makeReversed_ok h
    rw [List.reverse_reverse] at hleads
    exact ⟨hgrows, fun hsteps ↦ hleads (by simpa using hsteps)⟩

/-- A directory that is there is not made again. -/
theorem makeDirectories_of_directory (h : t.LeadsToDirectory r) :
    t.makeDirectories r = (.ok (), t) := by
  obtain ⟨hrefusal, hpass, hlook⟩ := h
  obtain ⟨entries, hnode⟩ := exists_node?_iff.mpr hlook
  have hwalk : t.walk r = .ok (r.location, some (.directory entries)) :=
    walk_ok_iff.mpr ⟨hpass, by rw [hnode]⟩
  have hfollow : t.follow r = .ok (r.location, some (.directory entries)) := by
    rw [follow, hrefusal, hwalk]
    rfl
  have hexists : t.makeDirectory r = .error .exists := by rw [makeDirectory, hfollow]
  have hensure : t.ensureDirectory r = (.ok (), t) := by rw [ensureDirectory, hexists, hfollow]
  rw [makeDirectories, hrefusal]
  dsimp only
  rcases hsteps : r.steps.reverse with _ | ⟨step, above⟩
  · rfl
  · have hroute : { r with steps := (step :: above).reverse } = r := by
      rw [← hsteps, List.reverse_reverse]
    rw [makeReversed, hroute, hexists]
    exact hensure

/-- Directories that were made need not be made again as long as no directory goes. -/
theorem makeDirectories_again {t'' : FileTree} (h : t.makeDirectories r = (.ok (), t'))
    (hkeep : ∀ l, t'.look l = some .directory → t''.look l = some .directory) :
    t''.makeDirectories r = (.ok (), t'') := by
  obtain ⟨-, hleads⟩ := makeDirectories_ok h
  by_cases hsteps : r.steps = []
  · -- nothing is looked at for a route without steps
    rw [makeDirectories] at h ⊢
    rcases hrefusal : refusal? r with _ | fault
    · rw [hsteps]
      rfl
    · rw [hrefusal] at h
      cases h
  · obtain ⟨hrefusal, hpass, hlook⟩ := hleads hsteps rfl
    exact makeDirectories_of_directory ⟨hrefusal, hpass.mono hkeep, hkeep _ hlook⟩

end FragmentArchive.FileTree
