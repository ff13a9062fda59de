import FragmentArchive.Proofs.Canonical
import FragmentArchive.Proofs.Filing
import FragmentArchive.Proofs.Numbering

/-!
# The dialogue about fragments

`Fragment.Canonical` says what is asked about the fragments of one variant when nothing fails. Here
the dialogue is told for all variants at once and up to any failure. It is a walk along a list of
*visits*, a fragment each, with the key of its variant: the keys come in their order, and below a
key the fragments come in theirs. Every visit is over in one of four ways that go on, or in one of
two that end the walk.

A walk that is cut off says nothing about the fragments behind the failure, so walks are put
together in two ways: one that came to its end is followed by any other, and one that failed
swallows whatever would have come after it.
-/

open Std

namespace FragmentArchive

namespace Fragment

open SortedMap (valuesAt)

/-! ## Walks -/

/-- The fragments of all variants one after the other, each with the key of its variant. -/
def visits (groups : List (VariantKey × List Fragment)) : List (VariantKey × Fragment) :=
  groups.flatMap fun group ↦ group.2.map (group.1, ·)

/-- How fragments are examined, up to the end or to a failure: the visits, the questions that are
asked with their answers, the canonical forms with their keys, and the failure, if there is one.

The matcher is asked first, if there is a device to ask about. The modifier is asked about what is
accepted, and nothing else, right after that. It sees the variant targeting, which is cleared only
in the form. -/
inductive Examined (filter : DeviceFilter) (numbers : SortedMap VariantKey UInt32) :
    List (VariantKey × Fragment) → List Event → List (VariantKey × Fragment) → Option Error → Prop
  | nil : Examined filter numbers [] [] [] none
  | unmatched {k : VariantKey} {f : Fragment} {device : Device}
      {rest : List (VariantKey × Fragment)} {e : Error} (hdevice : filter.device = some device) :
      Examined filter numbers ((k, f) :: rest) [.asked f device (.error e)] [] (some e)
  | unedited {k : VariantKey} {f : Fragment} {number : UInt32}
      {rest : List (VariantKey × Fragment)} {e : Error} (hnumber : numbers.get? k = some number) :
      Examined filter numbers ((k, f) :: rest)
        (filter.acceptance f ++ [.modified f.manifest
          ⟨f.isBaseModule, .ofFragment f, number, f.variantTargeting, f.targeting⟩ (.error e)])
        [] (some e)
  | dropped {k : VariantKey} {f : Fragment} {device : Device}
      {rest : List (VariantKey × Fragment)} {es : List Event}
      {forms : List (VariantKey × Fragment)} {failure : Option Error}
      (hdevice : filter.device = some device)
      (hrest : Examined filter numbers rest es forms failure) :
      Examined filter numbers ((k, f) :: rest) (.asked f device (.ok false) :: es) forms failure
  | kept {k : VariantKey} {f : Fragment} {number : UInt32} {manifest : Manifest}
      {rest : List (VariantKey × Fragment)} {es : List Event}
      {forms : List (VariantKey × Fragment)} {failure : Option Error}
      (hnumber : numbers.get? k = some number)
      (hrest : Examined filter numbers rest es forms failure) :
      Examined filter numbers ((k, f) :: rest)
        (filter.acceptance f ++ .modified f.manifest
          ⟨f.isBaseModule, .ofFragment f, number, f.variantTargeting, f.targeting⟩
          (.ok manifest) :: es)
        ((k, { f with manifest, variantTargeting := .everyDevice }) :: forms) failure

variable {filter : DeviceFilter} {numbers : SortedMap VariantKey UInt32}
  {vs vs' forms forms' : List (VariantKey × Fragment)} {es es' : List Event}
  {failure : Option Error}

/-- Behind a walk that came to its end there can be another one. -/
theorem Examined.append {failure' : Option Error} (h : Examined filter numbers vs es forms failure')
    (hend : failure' = none) (h' : Examined filter numbers vs' es' forms' failure) :
    Examined filter numbers (vs ++ vs') (es ++ es') (forms ++ forms') failure := by
  induction h with
  | nil => exact h'
  | unmatched hdevice => cases hend
  | unedited hnumber => cases hend
  | dropped hdevice _ ih => exact .dropped hdevice (ih hend)
  | kept hnumber _ ih =>
    rw [List.append_assoc]
    exact .kept hnumber (ih hend)

/-- A walk that failed takes no notice of what would have come. -/
theorem Examined.append_of_failure (h : Examined filter numbers vs es forms failure)
    (hfailed : failure ≠ none) (vs' : List (VariantKey × Fragment)) :
    Examined filter numbers (vs ++ vs') es forms failure := by
  induction h with
  | nil => cases hfailed rfl
  | unmatched hdevice => exact .unmatched hdevice
  | unedited hnumber => exact .unedited hnumber
  | dropped hdevice _ ih => exact .dropped hdevice (ih hfailed)
  | kept hnumber _ ih => exact .kept hnumber (ih hfailed)

/-- Forms have the keys of fragments that were visited. -/
theorem Examined.mem_keys (h : Examined filter numbers vs es forms failure) {k : VariantKey}
    (hk : k ∈ forms.map (·.1)) : k ∈ vs.map (·.1) := by
  induction h with
  | nil => cases hk
  | unmatched _ => cases hk
  | unedited _ => cases hk
  | dropped _ _ ih => exact List.mem_cons_of_mem _ (ih hk)
  | kept _ _ ih =>
    rcases List.mem_cons.mp hk with rfl | hk
    · exact List.mem_cons_self
    · exact List.mem_cons_of_mem _ (ih hk)

/-- A walk fails with the error with which it is refused an answer. -/
theorem Examined.refused_iff (h : Examined filter numbers vs es forms failure) {e : Error} :
    Event.Refused e es ↔ failure = some e := by
  induction h with
  | nil => simp
  | unmatched _ => simp [Event.refusal?]
  | unedited _ => simp [Event.refusal?]
  | dropped _ _ ih => simpa [Event.refusal?] using ih
  | kept _ _ ih => simpa [Event.refusal?] using ih

/-- Every fragment is visited once, with its own key. -/
theorem visits_byVariant_perm_keyed (fragments : List Fragment) :
    (visits (byVariant fragments).toList).Perm (fragments.map fun f ↦ (f.key, f)) := by
  have hkeyed : ∀ k, (fragments.filter (·.key = k)).map (k, ·) =
      (fragments.filter (·.key = k)).map fun f ↦ (f.key, f) := by
    intro k
    refine List.map_congr_left fun f hf ↦ ?_
    rw [of_decide_eq_true (List.mem_filter.mp hf).2]
  have hvisits : visits (byVariant fragments).toList =
      ((byVariant fragments).keys.flatMap fun k ↦ fragments.filter (·.key = k)).map
        fun f ↦ (f.key, f) := by
    rw [visits, toList_byVariant, List.flatMap_map, List.map_flatMap]
    simp only [hkeyed]
  rw [hvisits]
  refine (flatMap_filter_perm (byVariant fragments).keys_nodup fun f hf ↦ ?_).map _
  exact mem_keys_byVariant.mpr ⟨f, hf, rfl⟩

/-- All fragments are visited. -/
theorem visits_byVariant_perm (fragments : List Fragment) :
    ((visits (byVariant fragments).toList).map (·.2)).Perm fragments := by
  have h := (visits_byVariant_perm_keyed fragments).map (·.2)
  rw [List.map_map] at h
  exact h.trans (.of_eq (List.map_id fragments))

/-! ## Variants -/

variable {μ ℓ π ω : Type} {matcher : Matcher μ} {modifier : Modifier μ} {m m' : Memory μ ℓ π ω}

/-- The fragments of one variant are examined in their order. -/
private theorem examined_canonicalForms {k : VariantKey} {number : UInt32}
    (hnumber : numbers.get? k = some number) {fs : List Fragment} {r : Except Error (List Fragment)}
    (h : canonicalForms filter matcher modifier number fs m = ⟨r, m', es⟩) :
    ∃ forms failure, Examined filter numbers (fs.map (k, ·)) (Event.questions es)
        (forms.map (k, ·)) failure ∧ r = failure.elim (.ok forms) .error := by
  induction fs generalizing r m m' es with
  | nil =>
    obtain ⟨rfl, -, rfl⟩ := Outcome.mk.inj h
    exact ⟨[], none, .nil, rfl⟩
  | cons f fs ih =>
    rw [canonicalForms] at h
    rcases hkeeps : filter.keeps matcher f m with ⟨e | kept, m₁, es₁⟩
    · rw [Run.bind_of_error hkeeps] at h
      obtain ⟨rfl, -, rfl⟩ := Outcome.mk.inj h
      obtain ⟨device, hdevice, hasked⟩ := DeviceFilter.questions_keeps_error hkeeps
      rw [hasked]
      exact ⟨[], some e, .unmatched hdevice, rfl⟩
    obtain ⟨es₂, hrest, rfl⟩ := Run.exists_rest_of_bind hkeeps h
    rw [Event.questions_append]
    cases kept with
    | false =>
      rw [if_neg Bool.false_ne_true] at hrest
      obtain ⟨device, hdevice, hasked⟩ := DeviceFilter.questions_keeps_false hkeeps
      obtain ⟨forms, failure, hexamined, hr⟩ := ih hrest
      rw [hasked]
      exact ⟨forms, failure, .dropped hdevice hexamined, hr⟩
    | true =>
      rw [if_pos rfl] at hrest
      rw [DeviceFilter.questions_keeps_true hkeeps]
      rcases hform : f.canonicalForm modifier number m₁ with ⟨r₁, m₂, es₃⟩
      obtain ⟨answer, hedited, rfl⟩ := canonicalForm_outcome hform
      cases answer with
      | error e =>
        rw [Run.bind_of_error hform] at hrest
        obtain ⟨rfl, -, rfl⟩ := Outcome.mk.inj hrest
        rw [hedited]
        exact ⟨[], some e, .unedited hnumber, rfl⟩
      | ok manifest =>
        obtain ⟨es₄, hothers, rfl⟩ := Run.exists_rest_of_bind hform hrest
        rw [Event.questions_append, hedited]
        rcases hforms : canonicalForms filter matcher modifier number fs m₂ with ⟨r₂, m₃, es₅⟩
        obtain ⟨forms, failure, hexamined, rfl⟩ := ih hforms
        cases failure with
        | some e =>
          rw [Run.bind_of_error hforms] at hothers
          obtain ⟨rfl, -, rfl⟩ := Outcome.mk.inj hothers
          exact ⟨_ :: forms, some e, .kept hnumber hexamined, rfl⟩
        | none =>
          rw [Run.bind_of_ok hforms, Run.pure_apply, List.append_nil] at hothers
          obtain ⟨rfl, -, rfl⟩ := Outcome.mk.inj hothers
          exact ⟨_ :: forms, none, .kept hnumber hexamined, rfl⟩

/-- The keys that have forms, each with its forms. -/
def formsByKey (keys : List VariantKey) (forms : List (VariantKey × Fragment)) :
    List (VariantKey × List Fragment) :=
  (keys.filter (· ∈ forms.map (·.1))).map fun k ↦ (k, valuesAt k forms)

/-- The forms of a key that comes first stand in front of the others, if there are any. -/
private theorem formsByKey_cons {k : VariantKey} {keys : List VariantKey} (hk : k ∉ keys)
    (hforms : ∀ k' ∈ forms.map (·.1), k' ∈ keys) (cs : List Fragment) :
    formsByKey (k :: keys) (cs.map (k, ·) ++ forms) =
      if cs.isEmpty then formsByKey keys forms else (k, cs) :: formsByKey keys forms := by
  have hself : valuesAt k (cs.map (k, ·) ++ forms) = cs := by
    have hown := SortedMap.valuesAt_map (fun _ ↦ k) id k cs
    rw [List.filter_eq_self.mpr fun _ _ ↦ decide_eq_true rfl, List.map_id] at hown
    rw [SortedMap.valuesAt_append, SortedMap.valuesAt_eq_nil fun h ↦ hk (hforms k h),
      List.append_nil]
    exact hown
  have hothers : formsByKey keys (cs.map (k, ·) ++ forms) = formsByKey keys forms := by
    have hcs : ∀ k' ∈ keys, k' ∉ (cs.map (k, ·)).map (·.1) := by
      intro k' hk' hmem
      rw [List.map_map] at hmem
      obtain ⟨_, -, rfl⟩ := List.mem_map.mp hmem
      exact hk hk'
    have hmem : ∀ k' ∈ keys, (k' ∈ (cs.map (k, ·) ++ forms).map (·.1) ↔ k' ∈ forms.map (·.1)) := by
      intro k' hk'
      rw [List.map_append, List.mem_append, or_iff_right (hcs k' hk')]
    have hvalues : ∀ k' ∈ keys, valuesAt k' (cs.map (k, ·) ++ forms) = valuesAt k' forms := by
      intro k' hk'
      rw [SortedMap.valuesAt_append, SortedMap.valuesAt_eq_nil (hcs k' hk'), List.nil_append]
    rw [formsByKey, formsByKey, List.filter_congr fun k' hk' ↦ decide_eq_decide.mpr (hmem k' hk')]
    exact List.map_congr_left fun k' hk' ↦ by rw [hvalues k' (List.mem_filter.mp hk').1]
  rw [formsByKey] at hothers
  rw [formsByKey, List.filter_cons]
  cases cs with
  | nil =>
    have hnot : k ∉ forms.map (·.1) := fun h ↦ hk (hforms k h)
    rw [if_neg (by simpa using hnot), hothers]
    rfl
  | cons c cs =>
    rw [if_pos (by simp), List.map_cons, hself, hothers]
    rfl

/-- The variants are examined in their order. -/
theorem examined_canonicalGroups {groups : List (VariantKey × List Fragment)}
    {r : Except Error (List (VariantKey × List Fragment))} (hkeys : (groups.map (·.1)).Nodup)
    (hnumbers : ∀ g ∈ groups, ∃ number, numbers.get? g.1 = some number)
    (h : canonicalGroups filter matcher modifier numbers groups m = ⟨r, m', es⟩) :
    ∃ forms failure, Examined filter numbers (visits groups) (Event.questions es) forms failure ∧
      r = failure.elim (.ok (formsByKey (groups.map (·.1)) forms)) .error := by
  induction groups generalizing r m m' es with
  | nil =>
    obtain ⟨rfl, -, rfl⟩ := Outcome.mk.inj h
    exact ⟨[], none, .nil, rfl⟩
  | cons group groups ih =>
    obtain ⟨k, fs⟩ := group
    obtain ⟨hk, hkeys⟩ := List.nodup_cons.mp hkeys
    obtain ⟨number, hnumber⟩ := hnumbers (k, fs) List.mem_cons_self
    have hvisits : visits ((k, fs) :: groups) = fs.map (k, ·) ++ visits groups := List.flatMap_cons
    rw [hvisits]
    simp only [canonicalGroups, hnumber] at h
    rcases hfs : canonicalForms filter matcher modifier number fs m with ⟨r₁, m₁, es₁⟩
    obtain ⟨cs, failure₁, hfirst, rfl⟩ := examined_canonicalForms hnumber hfs
    cases failure₁ with
    | some e =>
      rw [Run.bind_of_error hfs] at h
      obtain ⟨rfl, -, rfl⟩ := Outcome.mk.inj h
      exact ⟨_, some e, hfirst.append_of_failure (by simp) _, rfl⟩
    | none =>
      obtain ⟨es₂, hrest, rfl⟩ := Run.exists_rest_of_bind hfs h
      rw [Event.questions_append]
      rcases hgroups : canonicalGroups filter matcher modifier numbers groups m₁ with ⟨r₂, m₂, es₃⟩
      obtain ⟨forms, failure, hothers, rfl⟩ :=
        ih hkeys (fun g hg ↦ hnumbers g (List.mem_cons_of_mem _ hg)) hgroups
      have hboth := hfirst.append rfl hothers
      cases failure with
      | some e =>
        rw [Run.bind_of_error hgroups] at hrest
        obtain ⟨rfl, -, rfl⟩ := Outcome.mk.inj hrest
        exact ⟨_, some e, hboth, rfl⟩
      | none =>
        rw [Run.bind_of_ok hgroups, Run.pure_apply, List.append_nil] at hrest
        obtain ⟨rfl, -, rfl⟩ := Outcome.mk.inj hrest
        refine ⟨_, none, hboth, congrArg Except.ok ?_⟩
        refine (formsByKey_cons hk (fun k' hk' ↦ ?_) cs).symm
        -- forms have keys of fragments that were visited, and these are among the keys
        obtain ⟨v, hv, rfl⟩ := List.mem_map.mp (hothers.mem_keys hk')
        obtain ⟨g, hg, hv⟩ := List.mem_flatMap.mp hv
        obtain ⟨f, -, rfl⟩ := List.mem_map.mp hv
        exact List.mem_map_of_mem hg

/-- When every key has a number, only the collaborators can fail. -/
theorem refused_of_canonicalGroups_error {groups : List (VariantKey × List Fragment)} {e : Error}
    (hkeys : (groups.map (·.1)).Nodup)
    (hnumbers : ∀ g ∈ groups, ∃ number, numbers.get? g.1 = some number)
    (h : canonicalGroups filter matcher modifier numbers groups m = ⟨.error e, m', es⟩) :
    Event.Refused e es := by
  obtain ⟨forms, failure, hexamined, hr⟩ := examined_canonicalGroups hkeys hnumbers h
  cases failure with
  | none => cases hr
  | some e' =>
    obtain rfl := Except.error.inj hr
    exact Event.refused_questions.mp (hexamined.refused_iff.mpr rfl)

end Fragment

end FragmentArchive
