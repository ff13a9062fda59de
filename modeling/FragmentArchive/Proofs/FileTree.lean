import FragmentArchive.FileTree

/-!
# What an operation leaves as it was

A tree is looked at place by place, and a look tells what stands at a place without what is below.
This is all that can be observed of a tree, and the operations on files are described by what they
do to it: each of them puts a leaf at one place, or takes one away, and everywhere else a look
tells the same as before. Directories that are made on the way are added and never taken away, so
whatever led somewhere still leads there.

## Walking

Where a route ends does not depend on the tree: a walk either fails, or ends at the location that
the route spells. Hence routes are compared by their locations, without walking.
-/

namespace FragmentArchive.FileTree

/-! ## Looking -/

/-- What stands at a location, without what is below. -/
def look (t : FileTree) (l : Location) : Option Node := (t.node? l).map top

theorem look_cons (entries : List (String × FileTree)) (name : String) (l : Location) :
    (directory entries).look (name :: l) = (entries.lookup name).bind (·.look l) := by
  rw [look, node?, Option.map_bind]
  rfl

theorem node?_append (t : FileTree) (l l' : Location) :
    t.node? (l ++ l') = (t.node? l).bind (·.node? l') := by
  induction l generalizing t with
  | nil => rfl
  | cons name l ih =>
    cases t with
    | file _ => rfl
    | directory entries =>
      rw [List.cons_append, node?, node?, Option.bind_assoc]
      exact Option.bind_congr fun t' _ ↦ ih t'

theorem node?_eq_file_iff {t : FileTree} {l : Location} {content : ByteArray} :
    t.node? l = some (.file content) ↔ t.look l = some (.file content) := by
  rw [look, Option.map_eq_some_iff]
  constructor
  · intro h
    exact ⟨_, h, rfl⟩
  · rintro ⟨_ | _, h, htop⟩
    · rw [h, Node.file.inj htop]
    · cases htop

theorem exists_node?_iff {t : FileTree} {l : Location} :
    (∃ entries, t.node? l = some (.directory entries)) ↔ t.look l = some .directory := by
  rw [look, Option.map_eq_some_iff]
  constructor
  · rintro ⟨entries, h⟩
    exact ⟨_, h, rfl⟩
  · rintro ⟨_ | entries, h, htop⟩
    · cases htop
    · exact ⟨entries, h⟩

theorem node?_eq_none_iff {t : FileTree} {l : Location} : t.node? l = none ↔ t.look l = none :=
  Option.map_eq_none_iff.symm

/-- Only in a directory there can be something. -/
theorem look_of_look_append {t : FileTree} {l l' : Location} (hl' : l' ≠ [])
    (h : t.look (l ++ l') ≠ none) : t.look l = some .directory := by
  rw [ne_eq, ← node?_eq_none_iff, node?_append] at h
  rcases hl : t.node? l with _ | _ | entries
  · exact absurd (by rw [hl]; rfl) h
  · obtain ⟨name, l', rfl⟩ := List.exists_cons_of_ne_nil hl'
    exact absurd (by rw [hl]; rfl) h
  · exact exists_node?_iff.mp ⟨entries, hl⟩

theorem look_dropLast {t : FileTree} {l : Location} (h : t.look l = some .directory) :
    t.look l.dropLast = some .directory := by
  rcases List.eq_nil_or_concat l with rfl | ⟨l, name, rfl⟩
  · exact h
  · rw [List.concat_eq_append] at h ⊢
    rw [List.dropLast_concat]
    exact look_of_look_append (List.cons_ne_nil name []) (by rw [h]; nofun)

/-! ## Changing an entry -/

private theorem lookup_filter {q : String → Bool} (entries : List (String × FileTree))
    (name : String) : (entries.filter fun e ↦ q e.1).lookup name =
      if q name then entries.lookup name else none := by
  induction entries with
  | nil => simp
  | cons e entries ih =>
    obtain ⟨name', t⟩ := e
    rw [List.filter_cons, List.lookup_cons]
    by_cases heq : name = name'
    · subst heq
      by_cases hq : q name
      · simp [hq]
      · rw [if_neg hq, ih, if_neg hq, if_neg hq]
    · rw [beq_eq_false_iff_ne.mpr heq]
      by_cases hq : q name'
      · rw [if_pos hq, List.lookup_cons, beq_eq_false_iff_ne.mpr heq]
        exact ih
      · rw [if_neg hq]
        exact ih

/-- What is found after an entry was changed. -/
theorem lookup_setEntry (name name' : String) (t : Option FileTree)
    (entries : List (String × FileTree)) :
    (setEntry name t entries).lookup name' = if name' = name then t else entries.lookup name' := by
  have hbefore := lookup_filter (q := fun n ↦ n < name) entries name'
  have hbehind := lookup_filter (q := fun n ↦ name < n) entries name'
  rw [setEntry, List.lookup_append, List.lookup_append, hbefore, hbehind]
  by_cases heq : name' = name
  · subst heq
    have hirrefl : decide (name' < name') = false := decide_eq_false (String.lt_irrefl name')
    rw [hirrefl, if_neg Bool.false_ne_true, if_pos rfl]
    cases t with
    | none => rfl
    | some t => simp
  · have hnone : ((t.map fun t ↦ (name, t)).toList).lookup name' = none := by
      cases t with
      | none => rfl
      | some t =>
        change List.lookup name' [(name, t)] = none
        rw [List.lookup_cons, beq_eq_false_iff_ne.mpr heq]
        rfl
    rw [if_neg heq, hnone]
    rcases Std.lt_trichotomy name' name with hlt | heq' | hlt
    · have hnot : ¬name < name' := String.lt_asymm hlt
      simp [hlt, hnot]
    · exact absurd heq' heq
    · have hnot : ¬name' < name := String.lt_asymm hlt
      simp [hlt, hnot]

/-! ## Changing a leaf -/

/-- A node with nothing below it. -/
def IsLeaf (t : FileTree) : Prop := ∀ name l, t.node? (name :: l) = none

theorem isLeaf_file (content : ByteArray) : IsLeaf (.file content) := fun _ _ ↦ rfl

theorem isLeaf_empty : IsLeaf empty := fun _ _ ↦ rfl

/-- A change at a place in a directory where there is no directory itself shows nowhere else. -/
private theorem look_alter {new : Option FileTree} (hnew : ∀ t ∈ new, IsLeaf t) {t : FileTree}
    {place : Location} {name : String} (hplace : t.look place = some .directory)
    (hold : t.look (place ++ [name]) ≠ some .directory) :
    ∃ t', alter (fun _ ↦ new) (place ++ [name]) (some t) = some t' ∧
      ∀ l, t'.look l = if l = place ++ [name] then new.map top else t.look l := by
  induction place generalizing t with
  | nil =>
    obtain ⟨entries, hentries⟩ := exists_node?_iff.mpr hplace
    obtain rfl := Option.some.inj hentries
    refine ⟨.directory (setEntry name new entries), by rw [List.nil_append, alter, alter], ?_⟩
    intro l
    match l with
    | [] => rfl
    | name' :: rest =>
      rw [look_cons, look_cons, lookup_setEntry]
      by_cases heq : name' = name
      · subst heq
        rw [if_pos rfl]
        match rest with
        | [] =>
          rw [List.nil_append, if_pos rfl]
          cases new <;> rfl
        | name'' :: rest =>
          -- below the place there was nothing before and there is nothing now
          have hnone : new.bind (·.look (name'' :: rest)) = none := by
            cases new with
            | none => rfl
            | some t => exact node?_eq_none_iff.mp (hnew t rfl name'' rest)
          have hnone' : (entries.lookup name').bind (·.look (name'' :: rest)) = none := by
            rw [← look_cons, ← Classical.not_not (a := _ = none)]
            exact fun h ↦ hold (look_of_look_append (List.cons_ne_nil name'' rest) h)
          rw [hnone, hnone', if_neg (by simp)]
      · rw [if_neg heq, if_neg (by simp [heq])]
  | cons name' place ih =>
    have htop : t.look [] = some .directory :=
      look_of_look_append (l := []) (List.cons_ne_nil name' place) (by
        rw [List.nil_append, hplace]
        nofun)
    obtain ⟨entries, hentries⟩ := exists_node?_iff.mpr htop
    obtain rfl := Option.some.inj hentries
    rw [look_cons] at hplace
    rw [List.cons_append, look_cons] at hold
    rcases hlookup : entries.lookup name' with _ | child
    · rw [hlookup] at hplace
      cases hplace
    · rw [hlookup] at hplace hold
      obtain ⟨child', hchild', hlook⟩ := ih hplace hold
      refine ⟨.directory (setEntry name' (some child') entries), ?_, ?_⟩
      · rw [List.cons_append, alter, hlookup, hchild']
      · intro l
        match l with
        | [] => rfl
        | name'' :: rest =>
          rw [look_cons, look_cons, lookup_setEntry]
          by_cases heq : name'' = name'
          · subst heq
            rw [if_pos rfl, hlookup, List.cons_append]
            simpa using hlook rest
          · rw [if_neg heq, if_neg (by simp [heq])]

section

variable {t node : FileTree} {place : Location} {name : String}
  (hplace : t.look place = some .directory) (hold : t.look (place ++ [name]) ≠ some .directory)

include hplace hold

/-- **What putting a leaf changes.** -/
theorem look_put (hnode : node.IsLeaf) (l : Location) : (t.put (place ++ [name]) node).look l =
    if l = place ++ [name] then some node.top else t.look l := by
  obtain ⟨t', halter, hlook⟩ := look_alter (fun t (ht : t ∈ some node) ↦ Option.some.inj ht ▸ hnode)
    hplace hold
  rw [put, halter]
  exact hlook l

/-- **What taking a leaf away changes.** -/
theorem look_remove (l : Location) : (t.remove (place ++ [name])).look l =
    if l = place ++ [name] then none else t.look l := by
  obtain ⟨t', halter, hlook⟩ := look_alter (fun t (ht : t ∈ none) ↦ nomatch ht) hplace hold
  rw [remove, halter]
  exact hlook l

end

end FragmentArchive.FileTree
