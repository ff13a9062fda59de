import FragmentArchive.Fallible

/-!
# Lists of entries and of fallible steps

Two forms in which lists come up everywhere: as entries that are looked up by their keys, and as
what a fallible step makes of every element of another list. The second is said as an equation
between mapped lists, so that it can be rewritten with, appended and indexed like any other
equation.
-/

namespace FragmentArchive

variable {ε α β κ ν : Type}

/-! ## Entries -/

/-- Under different keys every entry is found. -/
theorem lookup_eq_some_of_mem [BEq κ] [LawfulBEq κ] {entries : List (κ × ν)} {k : κ} {v : ν}
    (hkeys : (entries.map (·.1)).Nodup) (h : (k, v) ∈ entries) : entries.lookup k = some v := by
  induction entries with
  | nil => cases h
  | cons head rest ih =>
    obtain ⟨k', v'⟩ := head
    obtain ⟨hk', hrest⟩ := List.nodup_cons.mp hkeys
    rcases List.mem_cons.mp h with heq | h
    · obtain ⟨rfl, rfl⟩ := Prod.mk.inj heq
      rw [List.lookup_cons_self]
    · have hne : (k == k') = false := by
        refine beq_eq_false_iff_ne.mpr fun heq ↦ hk' ?_
        exact List.mem_map.mpr ⟨(k, v), h, heq⟩
      rw [List.lookup_cons, hne]
      exact ih hrest h

theorem mem_of_lookup_eq_some [BEq κ] [LawfulBEq κ] {entries : List (κ × ν)} {k : κ} {v : ν}
    (h : entries.lookup k = some v) : (k, v) ∈ entries := by
  obtain ⟨l, r, rfl, -⟩ := List.lookup_eq_some_iff.mp h
  simp

/-- Entries with different keys are the graph of a function. -/
theorem exists_eq_map [DecidableEq κ] [Inhabited ν] {entries : List (κ × ν)}
    (hkeys : (entries.map (·.1)).Nodup) :
    ∃ g : κ → ν, entries = (entries.map (·.1)).map fun k ↦ (k, g k) := by
  refine ⟨fun k ↦ (entries.lookup k).getD default, ?_⟩
  rw [List.map_map]
  refine (List.map_id _).symm.trans (List.map_congr_left fun e he ↦ Prod.ext rfl ?_)
  change e.2 = (entries.lookup e.1).getD default
  rw [lookup_eq_some_of_mem hkeys he, Option.getD_some]

theorem lookup_map_of_mem [DecidableEq κ] {k : κ} {ks : List κ} (g : κ → ν) (hk : k ∈ ks) :
    (ks.map fun k ↦ (k, g k)).lookup k = some (g k) := by
  induction ks with
  | nil => cases hk
  | cons k' ks ih =>
    rw [List.map_cons, List.lookup_cons]
    by_cases heq : k = k'
    · rw [heq, beq_self_eq_true]
    · rw [beq_eq_false_iff_ne.mpr heq]
      exact ih ((List.mem_cons.mp hk).resolve_left heq)

/-- A function can be given a value at a new place and left as it is at the old ones. -/
theorem exists_extend [DecidableEq κ] {k : κ} {ks : List κ} (hk : k ∉ ks) (b : β) (g : κ → β) :
    ∃ g' : κ → β, g' k = b ∧ ∀ k' ∈ ks, g' k' = g k' := by
  refine ⟨fun k' ↦ if k' = k then b else g k', if_pos rfl, fun k' hk' ↦ if_neg ?_⟩
  rintro rfl
  exact hk hk'

theorem flatMap_eq_filterMap {f : α → List β} {g : α → Option β} {as : List α}
    (h : ∀ a ∈ as, ∃ b, f a = [b] ∧ g a = some b) : as.flatMap f = as.filterMap g := by
  induction as with
  | nil => rfl
  | cons a as ih =>
    obtain ⟨b, hf, hg⟩ := h a List.mem_cons_self
    rw [List.flatMap_cons, hf, ih fun a' ha' ↦ h a' (List.mem_cons_of_mem a ha'),
      List.filterMap_cons_some hg, List.singleton_append]

/-- Nothing is lost when elements that yield nothing are left out before. -/
theorem filterMap_filter_of_none {p : α → Bool} {g : α → Option β}
    (h : ∀ a, p a = false → g a = none) (as : List α) :
    (as.filter p).filterMap g = as.filterMap g := by
  have hg : (fun a ↦ if p a = true then g a else none) = g := by
    funext a
    cases ha : p a with
    | false => rw [if_neg Bool.false_ne_true, h a ha]
    | true => rw [if_pos rfl]
  rw [List.filterMap_filter, hg]

/-- What leads to nothing can as well be left out. -/
theorem flatMap_filter_isEmpty (f : α → List β) (as : List α) :
    (as.filter fun a ↦ !(f a).isEmpty).flatMap f = as.flatMap f := by
  induction as with
  | nil => rfl
  | cons a as ih =>
    rw [List.filter_cons, List.flatMap_cons]
    cases hf : f a with
    | nil => exact ih
    | cons b bs =>
      change (a :: _).flatMap f = _
      rw [List.flatMap_cons, hf, ih]

theorem flatMap_perm {f g : α → List β} {as : List α} (h : ∀ a ∈ as, (f a).Perm (g a)) :
    (as.flatMap f).Perm (as.flatMap g) := by
  induction as with
  | nil => exact .refl _
  | cons a as ih =>
    rw [List.flatMap_cons, List.flatMap_cons]
    exact (h a List.mem_cons_self).append (ih fun a' ha' ↦ h a' (List.mem_cons_of_mem a ha'))

theorem nodup_eraseDups [BEq α] [LawfulBEq α] (as : List α) : as.eraseDups.Nodup := by
  match as with
  | [] => exact .nil
  | a :: as =>
    rw [List.eraseDups_cons, List.nodup_cons]
    refine ⟨fun h ↦ ?_, nodup_eraseDups _⟩
    simpa using (List.mem_filter.mp (List.mem_eraseDups.mp h)).2
termination_by as.length
decreasing_by exact Nat.lt_succ_of_le (List.length_filter_le _ _)

theorem eraseDups_cons_of_not_mem [BEq α] [LawfulBEq α] {a : α} {as : List α} (h : a ∉ as) :
    (a :: as).eraseDups = a :: as.eraseDups := by
  have hself : as.filter (fun b ↦ !b == a) = as := by
    refine List.filter_eq_self.mpr fun b hb ↦ ?_
    have hne : b ≠ a := fun heq ↦ h (heq ▸ hb)
    simpa using hne
  rw [List.eraseDups_cons, hself]

theorem eraseDups_of_nodup [BEq α] [LawfulBEq α] {as : List α} (h : as.Nodup) :
    as.eraseDups = as := by
  induction as with
  | nil => rfl
  | cons a as ih =>
    obtain ⟨ha, has⟩ := List.nodup_cons.mp h
    rw [eraseDups_cons_of_not_mem ha, ih has]

theorem eraseDups_map [BEq α] [LawfulBEq α] [BEq β] [LawfulBEq β] {f : α → β}
    (hf : Function.Injective f) (as : List α) : (as.map f).eraseDups = as.eraseDups.map f := by
  match as with
  | [] => rfl
  | a :: as =>
    have hsame : (fun b ↦ !b == f a) ∘ f = fun b ↦ !b == a := by
      funext b
      by_cases h : b = a
      · simp [h]
      · simp [beq_false_of_ne h, beq_false_of_ne (hf.ne h)]
    rw [List.map_cons, List.eraseDups_cons, List.eraseDups_cons, List.filter_map, hsame,
      eraseDups_map hf, List.map_cons]
termination_by as.length
decreasing_by exact Nat.lt_succ_of_le (List.length_filter_le _ _)

/-- What is filtered out plays no part when repetitions are erased. -/
theorem eraseDups_filter [BEq α] [LawfulBEq α] (p : α → Bool) (as : List α) :
    (as.filter p).eraseDups = as.eraseDups.filter p := by
  match as with
  | [] => rfl
  | a :: as =>
    have hrest := eraseDups_filter p (as.filter fun b ↦ !b == a)
    rw [List.eraseDups_cons]
    by_cases ha : p a = true
    · have hswap : (as.filter p).filter (fun b ↦ !b == a) =
          (as.filter fun b ↦ !b == a).filter p := by
        rw [List.filter_filter, List.filter_filter]
        exact List.filter_congr fun b _ ↦ Bool.and_comm ..
      rw [List.filter_cons_of_pos ha, List.filter_cons_of_pos ha, List.eraseDups_cons, hswap, hrest]
    · -- the element itself is filtered out, so it does no harm
      have hsame : (as.filter fun b ↦ !b == a).filter p = as.filter p := by
        rw [List.filter_filter]
        refine List.filter_congr fun b _ ↦ ?_
        by_cases hb : b = a
        · rw [hb, Bool.eq_false_iff.mpr ha, Bool.false_and]
        · rw [beq_false_of_ne hb, Bool.not_false, Bool.and_true]
      rw [List.filter_cons_of_neg ha, List.filter_cons_of_neg ha, ← hrest, hsame]
termination_by as.length
decreasing_by exact Nat.lt_succ_of_le (List.length_filter_le _ _)

theorem eraseDups_sublist [BEq α] (as : List α) : as.eraseDups.Sublist as := by
  match as with
  | [] => exact .slnil
  | a :: as =>
    rw [List.eraseDups_cons]
    exact ((eraseDups_sublist _).trans List.filter_sublist).cons_cons a
termination_by as.length
decreasing_by exact Nat.lt_succ_of_le (List.length_filter_le _ _)

private theorem eraseRepsLoop_eq [BEq α] [LawfulBEq α] {r : α → α → Prop}
    (hantisymm : ∀ a b, r a b → r b a → a = b) {a : α} {as : List α} (h : (a :: as).Pairwise r)
    (done : List α) :
    List.eraseRepsBy.loop (· == ·) a as done = done.reverse ++ (a :: as).eraseDups := by
  induction as generalizing a done with
  | nil => simp [List.eraseRepsBy.loop, List.eraseDups_cons]
  | cons b as ih =>
    obtain ⟨ha, hbas⟩ := List.pairwise_cons.mp h
    rw [List.eraseRepsBy.loop]
    by_cases hab : a = b
    · subst hab
      rw [beq_self_eq_true]
      have hsame : (a :: a :: as).eraseDups = (a :: as).eraseDups := by
        simp [List.eraseDups_cons]
      rw [hsame]
      exact ih hbas done
    · rw [beq_false_of_ne hab, ih hbas]
      -- behind a different element the first one does not come again
      have hnot : a ∉ b :: as := by
        intro hmem
        rcases List.mem_cons.mp hmem with heq | hmem
        · exact hab heq
        · exact hab (hantisymm a b (ha b List.mem_cons_self)
            ((List.pairwise_cons.mp hbas).1 a hmem))
      rw [eraseDups_cons_of_not_mem hnot, List.reverse_cons, List.append_assoc,
        List.singleton_append]

/-- In an ordered list repetitions stand beside each other. -/
theorem eraseReps_eq_eraseDups [BEq α] [LawfulBEq α] {r : α → α → Prop}
    (hantisymm : ∀ a b, r a b → r b a → a = b) {as : List α} (h : as.Pairwise r) :
    as.eraseReps = as.eraseDups := by
  cases as with
  | nil => rfl
  | cons a as => exact eraseRepsLoop_eq hantisymm h []

/-- Elements with different images are told apart by them. -/
theorem eq_of_nodup_map {f : α → β} {as : List α} (h : (as.map f).Nodup) {a a' : α} (ha : a ∈ as)
    (ha' : a' ∈ as) (heq : f a = f a') : a = a' := by
  induction as with
  | nil => cases ha
  | cons b as ih =>
    obtain ⟨hb, has⟩ := List.nodup_cons.mp h
    by_cases hab : a = b
    · rw [← hab, heq] at hb
      by_cases hab' : a' = b
      · rw [hab, hab']
      · exact absurd (List.mem_map_of_mem ((List.mem_cons.mp ha').resolve_left hab')) hb
    · have hmem := (List.mem_cons.mp ha).resolve_left hab
      refine ih has hmem ((List.mem_cons.mp ha').resolve_left ?_)
      rintro rfl
      exact hb (heq ▸ List.mem_map_of_mem hmem)

/-- Elements of a sort are cut off a list up to the first one of another sort. -/
theorem takeWhile_dropWhile_append {p : α → Bool} {l r : List α} (hl : ∀ a ∈ l, p a = true)
    (hr : ∀ a ∈ r.head?, p a = false) :
    (l ++ r).takeWhile p = l ∧ (l ++ r).dropWhile p = r := by
  have hstop : r.takeWhile p = [] ∧ r.dropWhile p = r := by
    cases r with
    | nil => exact ⟨rfl, rfl⟩
    | cons a r =>
      have ha := Bool.eq_false_iff.mp (hr a rfl)
      exact ⟨List.takeWhile_cons_of_neg ha, List.dropWhile_cons_of_neg ha⟩
  rw [List.takeWhile_append_of_pos hl, List.dropWhile_append_of_pos hl, hstop.1, hstop.2,
    List.append_nil]
  exact ⟨rfl, rfl⟩

/-- A list is taken apart in one way only at the one element of a sort. -/
theorem append_cons_inj {p : α → Prop} {l l' r r' : List α} {a a' : α} (hl : ∀ x ∈ l, ¬p x)
    (hr : ∀ x ∈ r, ¬p x) (ha' : p a') (h : l ++ a :: r = l' ++ a' :: r') :
    l = l' ∧ a = a' ∧ r = r' := by
  induction l generalizing l' with
  | nil =>
    cases l' with
    | nil =>
      obtain ⟨ha, hr'⟩ := List.cons.inj h
      exact ⟨rfl, ha, hr'⟩
    | cons b l' =>
      obtain ⟨-, rfl⟩ := List.cons.inj h
      exact absurd ha' (hr a' (by simp))
  | cons b l ih =>
    cases l' with
    | nil =>
      obtain ⟨rfl, -⟩ := List.cons.inj h
      exact absurd ha' (hl b List.mem_cons_self)
    | cons b' l' =>
      obtain ⟨rfl, h'⟩ := List.cons.inj h
      obtain ⟨rfl, rest⟩ := ih (fun x hx ↦ hl x (List.mem_cons_of_mem b hx)) h'
      exact ⟨rfl, rest⟩

/-- Of the elements that agree with a given one in some respect, one is the last. -/
theorem exists_last_of_mem [DecidableEq β] (g : α → β) {a : α} {as : List α} (h : a ∈ as) :
    ∃ before b after, as = before ++ b :: after ∧ g b = g a ∧ ∀ c ∈ after, g c ≠ g a := by
  -- the last one is the first one from the end
  have hsome : (as.reverse.find? fun c ↦ decide (g c = g a)).isSome := by
    rw [List.find?_isSome]
    exact ⟨a, List.mem_reverse.mpr h, decide_eq_true rfl⟩
  obtain ⟨b, hb⟩ := Option.isSome_iff_exists.mp hsome
  obtain ⟨heq, after, before, hreverse, hafter⟩ := List.find?_eq_some_iff_append.mp hb
  refine ⟨before.reverse, b, after.reverse, ?_, of_decide_eq_true heq, fun c hc ↦ ?_⟩
  · rw [← List.reverse_inj, hreverse]
    simp
  · simpa using hafter c (List.mem_reverse.mp hc)

/-- A set is listed in strictly increasing order in one way only. -/
theorem eq_of_pairwise_of_mem_iff {r : α → α → Prop} (hirrefl : ∀ a, ¬r a a)
    (hasymm : ∀ a b, r a b → ¬r b a) {as bs : List α} (has : as.Pairwise r) (hbs : bs.Pairwise r)
    (hmem : ∀ a, a ∈ as ↔ a ∈ bs) : as = bs := by
  have hne : ∀ {a b}, r a b → a ≠ b := by
    rintro a b hab rfl
    exact hirrefl a hab
  have hperm := (List.perm_ext_iff_of_nodup (has.imp hne) (hbs.imp hne)).mpr hmem
  refine hperm.eq_of_pairwise (fun a b _ _ hab hba ↦ ?_) has hbs
  exact absurd hba (hasymm a b hab)

/-! ## Fallible steps -/

/-- Values that exist for every element of a list make up a list. -/
theorem exists_map_eq_map {γ : Type} {f : α → γ} {g : β → γ} {as : List α}
    (h : ∀ a ∈ as, ∃ b, f a = g b) : ∃ bs : List β, as.map f = bs.map g := by
  induction as with
  | nil => exact ⟨[], rfl⟩
  | cons a as ih =>
    obtain ⟨b, hb⟩ := h a List.mem_cons_self
    obtain ⟨bs, hbs⟩ := ih fun a' ha' ↦ h a' (List.mem_cons_of_mem a ha')
    exact ⟨b :: bs, by rw [List.map_cons, List.map_cons, hb, hbs]⟩

/-- A fallible step succeeds on a list exactly when it does on every element. -/
theorem mapM_eq_ok_iff {f : α → Except ε β} {as : List α} {bs : List β} :
    as.mapM f = .ok bs ↔ as.map f = bs.map .ok := by
  induction as generalizing bs with
  | nil =>
    rw [List.mapM_nil, List.map_nil, eq_comm (a := []), List.map_eq_nil_iff]
    exact ⟨fun h ↦ (Except.ok.inj h).symm, fun h ↦ by rw [h]; rfl⟩
  | cons a as ih =>
    rw [List.mapM_cons, bind_eq_ok_iff]
    constructor
    · rintro ⟨b, hb, h⟩
      obtain ⟨bs', hbs, h⟩ := bind_eq_ok_iff.mp h
      obtain rfl := Except.ok.inj h
      rw [List.map_cons, List.map_cons, hb, ih.mp hbs]
    · intro h
      cases bs with
      | nil => cases h
      | cons b bs =>
        obtain ⟨hb, hbs⟩ := List.cons.inj h
        exact ⟨b, hb, bind_eq_ok_iff.mpr ⟨bs, ih.mpr hbs, rfl⟩⟩

theorem mapM_congr_left {f g : α → Except ε β} {as : List α} (h : ∀ a ∈ as, f a = g a) :
    as.mapM f = as.mapM g := by
  induction as with
  | nil => rfl
  | cons a as ih =>
    rw [List.mapM_cons, List.mapM_cons, h a List.mem_cons_self,
      ih fun a' ha' ↦ h a' (List.mem_cons_of_mem a ha')]

/-- A fallible step fails on a list only when it does on some element. -/
theorem exists_of_mapM_error {f : α → Except ε β} {as : List α} {e : ε}
    (h : as.mapM f = .error e) : ∃ a ∈ as, f a = .error e := by
  induction as with
  | nil => cases h
  | cons a as ih =>
    rw [List.mapM_cons] at h
    rcases bind_eq_error_iff.mp h with ha | ⟨b, -, h⟩
    · exact ⟨a, List.mem_cons_self, ha⟩
    · rcases bind_eq_error_iff.mp h with has | ⟨bs, -, h⟩
      · obtain ⟨a', ha', he⟩ := ih has
        exact ⟨a', List.mem_cons_of_mem a ha', he⟩
      · cases h

/-- What a fallible step makes of a list, when it succeeds, is what a function makes of it. -/
theorem exists_eq_map_of_mapM [Inhabited β] {f : α → Except ε β} {as : List α} {bs : List β}
    (h : as.mapM f = .ok bs) : ∃ g : α → β, bs = as.map g ∧ ∀ a ∈ as, f a = .ok (g a) := by
  rw [mapM_eq_ok_iff] at h
  let g (a : α) : β := (f a).toOption.getD default
  have hg : ∀ a ∈ as, f a = .ok (g a) := by
    intro a ha
    obtain ⟨b, -, hb⟩ := List.mem_map.mp (h ▸ List.mem_map_of_mem ha : f a ∈ bs.map .ok)
    simp only [g, ← hb, Except.toOption, Option.getD_some]
  have hmap : as.map f = (as.map g).map .ok := by
    rw [List.map_map]
    exact List.map_congr_left hg
  refine ⟨g, ?_, hg⟩
  rw [hmap] at h
  exact ((List.map_inj_right fun _ _ ↦ Except.ok.inj).mp h).symm

end FragmentArchive
