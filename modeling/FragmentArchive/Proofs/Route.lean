import FragmentArchive.Route

/-!
# Where paths lead

What counts of a path are the names among its pieces: pieces that lead nowhere are dropped, wherever
they stand. Paths that never go up and have the same names lead to the same place from everywhere,
although they may be spelt differently.
-/

namespace FragmentArchive.Route

/-! ## Pieces -/

theorem pieces_append (path path' : String) :
    pieces (path ++ "/" ++ path') = pieces path ++ pieces path' := by
  have hchars : (path ++ "/" ++ path').toList = path.toList ++ '/' :: path'.toList := by simp
  rw [pieces, hchars, List.splitOn_append_cons_self, List.map_append, ← pieces, ← pieces]

/-- The first piece is empty when there is nothing in front of a separator. -/
theorem head?_pieces_eq_empty_iff (path : String) :
    (pieces path).head? = some "" ↔ path = "" ∨ path.startsWith "/" = true := by
  rw [String.startsWith_string_iff, ← String.toList_eq_nil_iff, pieces]
  cases path.toList with
  | nil => simp
  | cons c l =>
    rw [List.splitOn_cons_eq_if_modifyHead]
    by_cases hc : c = '/'
    · simp [hc]
    · rcases hl : l.splitOn '/' with _ | ⟨piece, rest⟩
      · exact absurd hl (List.splitOn_ne_nil '/' l)
      · have hne : (c == '/') = false := beq_eq_false_iff_ne.mpr hc
        simp [hne, Ne.symm hc]

theorem intercalate_pieces (path : String) : "/".intercalate (pieces path) = path := by
  have hchars : (pieces path).map String.toList = path.toList.splitOn '/' := by
    rw [pieces, List.map_map]
    exact (List.map_congr_left fun l _ ↦ String.toList_ofList).trans (List.map_id _)
  rw [← String.toList_inj, String.toList_intercalate, hchars]
  exact List.intercalate_splitOn '/'

private theorem splitOn_append_of_not_mem {c : Char} {l l' : List Char} (hl' : c ∉ l') :
    ∃ front last, l.splitOn c = front ++ [last] ∧ (l ++ l').splitOn c = front ++ [last ++ l'] := by
  induction l with
  | nil => exact ⟨[], [], List.splitOn_nil c, List.splitOn_eq_singleton hl'⟩
  | cons x l ih =>
    obtain ⟨front, last, hl, happend⟩ := ih
    rw [List.cons_append, List.splitOn_cons_eq_if_modifyHead, List.splitOn_cons_eq_if_modifyHead,
      hl, happend]
    by_cases hx : (x == c) = true
    · rw [if_pos hx, if_pos hx]
      exact ⟨[] :: front, last, rfl, rfl⟩
    · rw [if_neg hx, if_neg hx]
      cases front with
      | nil => exact ⟨[], x :: last, rfl, rfl⟩
      | cons piece front => exact ⟨(x :: piece) :: front, last, rfl, rfl⟩

/-- Text without separators at the end of a path belongs to its last piece. -/
theorem exists_pieces_append (path : String) {ending : String} (h : '/' ∉ ending.toList) :
    ∃ front last, pieces (path ++ ending) = front ++ [last ++ ending] := by
  obtain ⟨front, last, -, happend⟩ := splitOn_append_of_not_mem (l := path.toList) h
  refine ⟨front.map String.ofList, String.ofList last, ?_⟩
  rw [pieces, String.toList_append, happend, List.map_append, List.map_singleton]
  congr 2
  rw [← String.toList_inj]
  simp

theorem isRedundant_of_length {name : String} (h : 1 < name.toList.length) :
    isRedundant name = false := by
  rw [isRedundant, Bool.or_eq_false_iff, decide_eq_false_iff_not, decide_eq_false_iff_not]
  constructor
  · rintro rfl
    exact absurd h (by decide)
  · rintro rfl
    exact absurd h (by decide)

/-- Behind a name, nothing is left to be asked for. -/
theorem endOf_concat {ps : List String} {name : String} (h : isRedundant name = false) :
    endOf (ps ++ [name]) = .nothing := by
  rw [isRedundant, Bool.or_eq_false_iff, decide_eq_false_iff_not, decide_eq_false_iff_not] at h
  rw [endOf, List.filter_append, List.filter_cons_of_pos (by simpa using h.1)]
  simp [h.1, h.2]

/-- When nothing is asked for, nothing is written behind the last name. -/
theorem eq_nil_of_endOf {ps behind : List String}
    (hbehind : ∀ piece ∈ behind, isRedundant piece = true) (h : endOf (ps ++ behind) = .nothing) :
    behind = [] := by
  rcases List.eq_nil_or_concat behind with hnil | ⟨front, last, rfl⟩
  · exact hnil
  rw [List.concat_eq_append] at hbehind h
  have hlast := hbehind last (List.mem_append_right _ (List.mem_singleton_self last))
  rw [isRedundant, Bool.or_eq_true, decide_eq_true_eq, decide_eq_true_eq] at hlast
  rw [← List.append_assoc, endOf] at h
  rcases hlast with rfl | rfl
  · rw [List.getLast?_concat, if_pos rfl] at h
    split at h <;> cases h
  · rw [List.filter_append, List.filter_cons_of_pos (by decide), List.filter_nil,
      List.getLast?_concat, if_pos rfl] at h
    cases h

/-- Further pieces make a path longer. -/
theorem utf8ByteSize_intercalate_le (ps rest : List String) :
    ("/".intercalate ps).utf8ByteSize ≤ ("/".intercalate (ps ++ rest)).utf8ByteSize := by
  by_cases hps : ps = []
  · rw [hps, String.intercalate_nil]
    exact Nat.zero_le _
  by_cases hrest : rest = []
  · exact Nat.le_of_eq (by rw [hrest, List.append_nil])
  · rw [String.intercalate_append_of_ne_nil hps hrest, String.utf8ByteSize_append,
      String.utf8ByteSize_append]
    omega

/-! ## Names -/

/-- The pieces that lead somewhere. -/
def names (ps : List String) : List String := ps.filter fun piece ↦ !isRedundant piece

theorem names_append (ps ps' : List String) : names (ps ++ ps') = names ps ++ names ps' :=
  List.filter_append ..

theorem names_singleton {name : String} (h : isRedundant name = false) : names [name] = [name] := by
  rw [names, List.filter_cons_of_pos (by rw [h]; rfl), List.filter_nil]

theorem names_eq_nil {ps : List String} (h : ∀ piece ∈ ps, isRedundant piece = true) :
    names ps = [] := by
  rw [names, List.filter_eq_nil_iff]
  intro piece hpiece
  simp [h piece hpiece]

theorem names_eq_self {ps : List String} (h : ∀ piece ∈ ps, isRedundant piece = false) :
    names ps = ps := by
  rw [names, List.filter_eq_self]
  intro piece hpiece
  simp [h piece hpiece]

/-- The steps of a path that never goes up. -/
theorem filterMap_stepOf? {ps : List String} (h : ".." ∉ ps) :
    ps.filterMap stepOf? = (names ps).map some := by
  induction ps with
  | nil => rfl
  | cons piece ps ih =>
    rw [List.mem_cons, not_or] at h
    rw [names, List.filter_cons, ← names]
    by_cases hpiece : isRedundant piece = true
    · rw [List.filterMap_cons_none (by rw [stepOf?, if_pos hpiece]), ih h.2, hpiece]
      rfl
    · have hstep : stepOf? piece = some (some piece) := by
        rw [stepOf?, if_neg hpiece, if_neg (Ne.symm h.1)]
      rw [List.filterMap_cons_some hstep, ih h.2, Bool.eq_false_iff.mpr hpiece]
      rfl

theorem foldl_advance_names (l : Location) (names : List String) :
    (names.map some).foldl advance l = l ++ names := by
  induction names generalizing l with
  | nil => exact (List.append_nil l).symm
  | cons name names ih =>
    rw [List.map_cons, List.foldl_cons, ih, advance, List.append_assoc, List.singleton_append]

/-- **The place of a path below a root.** -/
theorem location_below (root : Location) (rootSize : Nat) {ps : List String} (h : ".." ∉ ps) :
    (below root rootSize ps).location = root ++ names ps := by
  rw [location, below, filterMap_stepOf? h, ← List.map_append, foldl_advance_names]
  rfl

/-! ## Joined paths -/

section

variable (root : String) {path : String} (hpath : path.startsWith "/" = false)

include hpath

theorem exists_pieces_join : ∃ front, pieces (join root path) = front ++ pieces path ∧
    front.filterMap stepOf? = (pieces root).filterMap stepOf? := by
  rw [join, hpath, if_neg Bool.false_ne_true]
  by_cases hroot : root = ""
  · rw [if_pos (.inl hroot), hroot, String.empty_append]
    exact ⟨[], rfl, by decide⟩
  by_cases hend : root.endsWith "/" = true
  · -- a separator at the end is not doubled, and the empty piece behind it leads nowhere
    have hor : root = "" ∨ root.endsWith "/" = true := .inr hend
    rw [← String.endsWith_toSlice, String.Slice.endsWith_string_iff, String.copy_toSlice] at hend
    obtain ⟨l, hl⟩ := hend
    have heq : root = String.ofList l ++ "/" := by
      rw [← String.toList_inj, ← hl]
      simp
    have hnone : (pieces "").filterMap stepOf? = [] := by decide
    have hpieces : pieces root = pieces (String.ofList l) ++ pieces "" := by
      rw [heq, ← pieces_append, String.append_empty]
    rw [if_pos hor, hpieces, List.filterMap_append, hnone, List.append_nil]
    exact ⟨pieces (String.ofList l), by rw [heq, pieces_append], rfl⟩
  · rw [if_neg (not_or.mpr ⟨hroot, hend⟩), pieces_append]
    exact ⟨pieces root, rfl, rfl⟩

theorem utf8ByteSize_join :
    (join root path).utf8ByteSize = (join root "").utf8ByteSize + path.utf8ByteSize := by
  have hempty : "".startsWith "/" = false := by decide
  rw [join, join, hpath, hempty, if_neg Bool.false_ne_true, if_neg Bool.false_ne_true]
  by_cases hroot : root = "" ∨ root.endsWith "/" = true
  · rw [if_pos hroot, if_pos hroot]
    simp
  · rw [if_neg hroot, if_neg hroot]
    simp

theorem startsWith_join : (join root path).startsWith "/" = root.startsWith "/" := by
  rw [join, hpath, if_neg Bool.false_ne_true]
  by_cases hroot : root = ""
  · rw [if_pos (.inl hroot), hroot, String.empty_append, hpath]
    decide
  · have hchars : root.toList ≠ [] := by
      rw [ne_eq, String.toList_eq_nil_iff]
      exact hroot
    obtain ⟨c, l, hl⟩ := List.exists_cons_of_ne_nil hchars
    rw [Bool.eq_iff_iff]
    split <;> simp [hl]

/-- The route to something below a root goes on from the root. -/
theorem ofPath_join (workingDirectory : Location) :
    (ofPath workingDirectory (join root path)).start = (ofPath workingDirectory root).start ∧
      (ofPath workingDirectory (join root path)).steps =
        (ofPath workingDirectory root).steps ++ (pieces path).filterMap stepOf? := by
  obtain ⟨front, hpieces, hfront⟩ := exists_pieces_join root hpath
  constructor
  · rw [ofPath, ofPath, startsWith_join root hpath]
  · rw [ofPath, ofPath, hpieces, List.filterMap_append, hfront]

end

end FragmentArchive.Route
