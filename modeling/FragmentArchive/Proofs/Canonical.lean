import FragmentArchive.Fragment
import FragmentArchive.Proofs.Lists
import FragmentArchive.Proofs.Run
import FragmentArchive.Proofs.SortedMap
import FragmentArchive.Variant.Canonical

/-!
# The canonical forms of fragments

Bringing fragments into canonical form is a dialogue with the matcher and the modifier, who may
remember what they were asked. What the dialogue amounts to is therefore not a function of the
fragments. It is a relation between the fragments, the questions with their answers, and the forms
that come of it, with one rule for each way in which a fragment can be dealt with. The rules say all
that the dialogue does: nothing is asked twice, and nothing is asked about a fragment before the
fragments in front of it are done.
-/

open Std

namespace FragmentArchive

/-! ## Refusals -/

namespace Event

/-- The error with which the matcher or the modifier answered. -/
def refusal? : Event → Option Error
  | asked _ _ (.error e) => some e
  | modified _ _ (.error e) => some e
  | _ => none

/-- Matcher or modifier answered a question with an error. -/
def Refused (e : Error) (es : List Event) : Prop := ∃ event ∈ es, event.refusal? = some e

variable {e : Error} {es : List Event}

/-- Only questions are refused an answer. -/
theorem refused_questions : Refused e (questions es) ↔ Refused e es := by
  have hkind : ∀ event : Event, event.refusal? = some e → event.kind = .question := by
    intro event h
    cases event <;> first | rfl | cases h
  constructor
  · rintro ⟨event, hmem, hrefusal⟩
    exact ⟨event, (List.mem_filter.mp hmem).1, hrefusal⟩
  · rintro ⟨event, hmem, hrefusal⟩
    exact ⟨event, List.mem_filter.mpr ⟨hmem, decide_eq_true (hkind event hrefusal)⟩, hrefusal⟩

@[simp] theorem not_refused_nil : ¬Refused e [] := fun ⟨_, hmem, _⟩ ↦ List.not_mem_nil hmem

@[simp] theorem refused_cons {event : Event} :
    Refused e (event :: es) ↔ event.refusal? = some e ∨ Refused e es := by
  simp only [Refused, List.mem_cons, exists_eq_or_imp]

end Event

/-! ## Asking whether a fragment is kept -/

namespace DeviceFilter

variable {μ ℓ π ω : Type} {matcher : Matcher μ}

/-- The question to which a fragment owes that it is kept; without a device there is none. -/
def acceptance (filter : DeviceFilter) (f : Fragment) : List Event :=
  match filter.device with
  | some device => [.asked f device (.ok true)]
  | none => []

/-- To accept a fragment is not to refuse an answer. -/
@[simp] theorem refused_acceptance {filter : DeviceFilter} {f : Fragment} {e : Error}
    {es : List Event} : Event.Refused e (filter.acceptance f ++ es) ↔ Event.Refused e es := by
  rw [acceptance]
  split
  · simp [Event.refusal?]
  · exact Iff.rfl

theorem only_keeps (filter : DeviceFilter) (f : Fragment) :
    Run.Only [.question, .notice] (filter.keeps matcher f : Run (Memory μ ℓ π ω) Bool) := by
  rw [keeps]
  split
  · exact Run.only_ask matcher f _
  · exact Run.only_pure true

theorem questions_keeps_true {filter : DeviceFilter} {f : Fragment} {m m' : Memory μ ℓ π ω}
    {es : List Event} (h : filter.keeps matcher f m = ⟨.ok true, m', es⟩) :
    Event.questions es = filter.acceptance f := by
  cases hdevice : filter.device with
  | some device =>
    simp only [keeps, hdevice, Run.ask] at h
    obtain ⟨hanswer, -, rfl⟩ := Outcome.mk.inj h
    rw [hanswer, acceptance, hdevice]
    exact congrArg (_ :: ·) (Event.questions_noticed _)
  | none =>
    simp only [keeps, hdevice] at h
    obtain ⟨-, -, rfl⟩ := Outcome.mk.inj h
    rw [acceptance, hdevice]
    rfl

theorem questions_keeps_false {filter : DeviceFilter} {f : Fragment} {m m' : Memory μ ℓ π ω}
    {es : List Event} (h : filter.keeps matcher f m = ⟨.ok false, m', es⟩) :
    ∃ device, filter.device = some device ∧
      Event.questions es = [.asked f device (.ok false)] := by
  cases hdevice : filter.device with
  | some device =>
    simp only [keeps, hdevice, Run.ask] at h
    obtain ⟨hanswer, -, rfl⟩ := Outcome.mk.inj h
    rw [hanswer]
    exact ⟨device, rfl, congrArg (_ :: ·) (Event.questions_noticed _)⟩
  | none =>
    simp only [keeps, hdevice] at h
    cases (Outcome.mk.inj h).1

theorem questions_keeps_error {filter : DeviceFilter} {f : Fragment} {m m' : Memory μ ℓ π ω}
    {es : List Event} {e : Error} (h : filter.keeps matcher f m = ⟨.error e, m', es⟩) :
    ∃ device, filter.device = some device ∧
      Event.questions es = [.asked f device (.error e)] := by
  cases hdevice : filter.device with
  | some device =>
    simp only [keeps, hdevice, Run.ask] at h
    obtain ⟨hanswer, -, rfl⟩ := Outcome.mk.inj h
    rw [hanswer]
    exact ⟨device, rfl, congrArg (_ :: ·) (Event.questions_noticed _)⟩
  | none =>
    simp only [keeps, hdevice] at h
    cases (Outcome.mk.inj h).1

end DeviceFilter

namespace Fragment

/-! ## Grouping -/

theorem mem_keys_byVariant {fragments : List Fragment} {k : VariantKey} :
    k ∈ (byVariant fragments).keys ↔ ∃ f ∈ fragments, f.key = k := by
  rw [byVariant, SortedMap.mem_keys_group, List.map_map, List.mem_map]
  exact Iff.rfl

/-- The group of a key holds the fragments with this key, in their given order. -/
theorem toList_byVariant (fragments : List Fragment) :
    (byVariant fragments).toList =
      (byVariant fragments).keys.map fun k ↦ (k, fragments.filter (·.key = k)) := by
  rw [byVariant, SortedMap.toList_group]
  refine List.map_congr_left fun k _ ↦ congrArg (Prod.mk k) ?_
  rw [SortedMap.valuesAt_map]
  exact List.map_id _

/-- A key has a group exactly when some fragment has the key. -/
theorem mem_byVariant {fragments : List Fragment} {k : VariantKey} {fs : List Fragment} :
    (k, fs) ∈ (byVariant fragments).toList ↔ fs = fragments.filter (·.key = k) ∧ fs ≠ [] := by
  have hne : k ∈ (byVariant fragments).keys ↔ fragments.filter (·.key = k) ≠ [] := by
    rw [mem_keys_byVariant, Ne, List.filter_eq_nil_iff]
    simp
  rw [toList_byVariant, List.mem_map]
  constructor
  · rintro ⟨k, hk, heq⟩
    obtain ⟨rfl, rfl⟩ := Prod.mk.inj heq
    exact ⟨rfl, hne.mp hk⟩
  · rintro ⟨rfl, hfs⟩
    exact ⟨k, hne.mpr hfs, rfl⟩

/-! ## Fragments of one variant -/

/-- How fragments are brought into canonical form: the fragments, the questions that are asked about
them with their answers, and the canonical forms of those that are kept. -/
inductive Canonical (filter : DeviceFilter) (number : UInt32) :
    List Fragment → List Event → List Fragment → Prop
  | nil : Canonical filter number [] [] []
  | dropped {f : Fragment} {device : Device} {fs : List Fragment} {es : List Event}
      {cs : List Fragment} (hdevice : filter.device = some device)
      (hrest : Canonical filter number fs es cs) :
      Canonical filter number (f :: fs) (.asked f device (.ok false) :: es) cs
  | kept {f : Fragment} {manifest : Manifest} {fs : List Fragment} {es : List Event}
      {cs : List Fragment} (hrest : Canonical filter number fs es cs) :
      Canonical filter number (f :: fs)
        (filter.acceptance f ++ .modified f.manifest (.ofFragment f number) (.ok manifest) :: es)
        ({ f with manifest, variantTargeting := .everyDevice } :: cs)

variable {μ ℓ π ω : Type} {filter : DeviceFilter} {matcher : Matcher μ} {modifier : Modifier μ}
  {number : UInt32} {numbers : SortedMap VariantKey UInt32}

/-- A canonical form is one of the fragments, up to what is changed in it. -/
theorem Canonical.exists_eq {fs cs : List Fragment} {es : List Event}
    (h : Canonical filter number fs es cs) {c : Fragment} (hc : c ∈ cs) :
    ∃ f ∈ fs, ∃ manifest, c = { f with manifest, variantTargeting := .everyDevice } := by
  induction h with
  | nil => cases hc
  | dropped _ _ ih =>
    obtain ⟨f, hf, hform⟩ := ih hc
    exact ⟨f, List.mem_cons_of_mem _ hf, hform⟩
  | kept _ ih =>
    rcases List.mem_cons.mp hc with rfl | hc
    · exact ⟨_, List.mem_cons_self, _, rfl⟩
    · obtain ⟨f, hf, hform⟩ := ih hc
      exact ⟨f, List.mem_cons_of_mem _ hf, hform⟩

theorem only_canonicalForm (modifier : Modifier μ) (number : UInt32) (f : Fragment) :
    Run.Only [.question, .notice]
      (f.canonicalForm modifier number : Run (Memory μ ℓ π ω) Fragment) :=
  (Run.only_modify modifier _ _).bind fun _ ↦ Run.only_pure _

theorem only_canonicalForms (filter : DeviceFilter) (matcher : Matcher μ) (modifier : Modifier μ)
    (number : UInt32) (fs : List Fragment) :
    Run.Only [.question, .notice] (canonicalForms filter matcher modifier number fs :
      Run (Memory μ ℓ π ω) (List Fragment)) := by
  induction fs with
  | nil => exact Run.only_pure []
  | cons f fs ih =>
    refine (filter.only_keeps f).bind fun kept ↦ ?_
    cases kept with
    | true => exact (only_canonicalForm modifier number f).bind fun _ ↦
        ih.bind fun _ ↦ Run.only_pure _
    | false => exact ih

/-- The modifier is asked once, and the answer decides. -/
theorem canonicalForm_outcome {f : Fragment} {r : Except Error Fragment} {m m' : Memory μ ℓ π ω}
    {es : List Event} (h : f.canonicalForm modifier number m = ⟨r, m', es⟩) :
    ∃ answer, Event.questions es = [.modified f.manifest (.ofFragment f number) answer] ∧
      r = answer.map fun manifest ↦ { f with manifest, variantTargeting := .everyDevice } := by
  rcases hmodify : Run.modify modifier f.manifest (.ofFragment f number) m with ⟨answer, m₁, es₁⟩
  have hquestions : Event.questions es₁ =
      [.modified f.manifest (.ofFragment f number) answer] := by
    rw [Run.modify] at hmodify
    obtain ⟨rfl, -, rfl⟩ := Outcome.mk.inj hmodify
    exact congrArg (_ :: ·) (Event.questions_noticed _)
  rw [canonicalForm] at h
  cases answer with
  | error e =>
    rw [Run.bind_of_error hmodify] at h
    obtain ⟨rfl, -, rfl⟩ := Outcome.mk.inj h
    exact ⟨_, hquestions, rfl⟩
  | ok manifest =>
    rw [Run.bind_of_ok hmodify, Run.pure_apply, List.append_nil] at h
    obtain ⟨rfl, -, rfl⟩ := Outcome.mk.inj h
    exact ⟨_, hquestions, rfl⟩

private theorem canonicalForm_ok {f c : Fragment} {m m' : Memory μ ℓ π ω} {es : List Event}
    (h : f.canonicalForm modifier number m = ⟨.ok c, m', es⟩) :
    ∃ manifest, c = { f with manifest, variantTargeting := .everyDevice } ∧
      Event.questions es = [.modified f.manifest (.ofFragment f number) (.ok manifest)] := by
  obtain ⟨answer, hquestions, hc⟩ := canonicalForm_outcome h
  obtain ⟨manifest, rfl, rfl⟩ := map_eq_ok_iff.mp hc.symm
  exact ⟨manifest, rfl, hquestions⟩

/-- What comes of the fragments of a variant are their canonical forms. -/
theorem canonicalForms_ok {fs cs : List Fragment} {m m' : Memory μ ℓ π ω} {es : List Event}
    (h : canonicalForms filter matcher modifier number fs m = ⟨.ok cs, m', es⟩) :
    Canonical filter number fs (Event.questions es) cs := by
  induction fs generalizing cs m es with
  | nil =>
    obtain ⟨hcs, -, rfl⟩ := Outcome.mk.inj h
    rw [← Except.ok.inj hcs]
    exact .nil
  | cons f fs ih =>
    obtain ⟨kept, m₁, es₁, es₂, hkeeps, hrest, rfl⟩ := Run.bind_ok_iff.mp h
    cases kept with
    | true =>
      rw [if_pos rfl] at hrest
      obtain ⟨c, m₂, es₃, es₄, hform, hothers, rfl⟩ := Run.bind_ok_iff.mp hrest
      obtain ⟨cs', m₃, es₅, es₆, hforms, hpure, rfl⟩ := Run.bind_ok_iff.mp hothers
      obtain ⟨hcs, rfl, rfl⟩ := Outcome.mk.inj hpure
      obtain ⟨manifest, rfl, hes₃⟩ := canonicalForm_ok hform
      rw [← Except.ok.inj hcs, List.append_nil, Event.questions_append, Event.questions_append,
        DeviceFilter.questions_keeps_true hkeeps, hes₃, List.singleton_append]
      exact .kept (ih hforms)
    | false =>
      rw [if_neg Bool.false_ne_true] at hrest
      obtain ⟨device, hdevice, hes₁⟩ := DeviceFilter.questions_keeps_false hkeeps
      rw [Event.questions_append, hes₁, List.singleton_append]
      exact .dropped hdevice (ih hrest)

/-! ## All variants -/

theorem only_canonicalGroups (filter : DeviceFilter) (matcher : Matcher μ) (modifier : Modifier μ)
    (numbers : SortedMap VariantKey UInt32) (groups : List (VariantKey × List Fragment)) :
    Run.Only [.question, .notice] (canonicalGroups filter matcher modifier numbers groups :
      Run (Memory μ ℓ π ω) (List (VariantKey × List Fragment))) := by
  induction groups with
  | nil => exact Run.only_pure []
  | cons group groups ih =>
    rw [canonicalGroups]
    split
    · exact Run.only_fail _
    · exact (only_canonicalForms filter matcher modifier _ _).bind fun _ ↦
        ih.bind fun _ ↦ Run.only_pure _

/-- **What comes of the fragments of all variants.** The variants are dealt with in the given order,
and those of which nothing is kept are left out. -/
theorem canonicalGroups_ok {groups result : List (VariantKey × List Fragment)}
    {m m' : Memory μ ℓ π ω} {es : List Event} (hkeys : (groups.map (·.1)).Nodup)
    (h : canonicalGroups filter matcher modifier numbers groups m = ⟨.ok result, m', es⟩) :
    ∃ (dialogue : VariantKey → List Event) (canonical : VariantKey → List Fragment),
      Event.questions es = (groups.map (·.1)).flatMap dialogue ∧
        (∀ g ∈ groups, ∃ number, numbers.get? g.1 = some number ∧
          Canonical filter number g.2 (dialogue g.1) (canonical g.1)) ∧
        result = ((groups.map (·.1)).filter fun k ↦ !(canonical k).isEmpty).map
          fun k ↦ (k, canonical k) := by
  induction groups generalizing result m es with
  | nil =>
    obtain ⟨hresult, -, rfl⟩ := Outcome.mk.inj h
    exact ⟨fun _ ↦ [], fun _ ↦ [], rfl, nofun, (Except.ok.inj hresult).symm⟩
  | cons group groups ih =>
    obtain ⟨key, fs⟩ := group
    obtain ⟨hkey, hkeys⟩ := List.nodup_cons.mp hkeys
    rcases hnumber : numbers.get? key with _ | number
    · simp only [canonicalGroups, hnumber] at h
      cases (Outcome.mk.inj h).1
    · simp only [canonicalGroups, hnumber] at h
      obtain ⟨cs, m₁, es₁, es₂, hforms, hrest, rfl⟩ := Run.bind_ok_iff.mp h
      obtain ⟨others, m₂, es₃, es₄, hgroups, hpure, rfl⟩ := Run.bind_ok_iff.mp hrest
      obtain ⟨hresult, rfl, rfl⟩ := Outcome.mk.inj hpure
      obtain ⟨dialogue, canonical, hes, hall, rfl⟩ := ih hkeys hgroups
      -- the key is new, so what is said about the other keys stays the same
      obtain ⟨dialogue', hdialogue, hdialogue'⟩ :=
        exists_extend hkey (Event.questions es₁) dialogue
      obtain ⟨canonical', hcanonical, hcanonical'⟩ := exists_extend hkey cs canonical
      refine ⟨dialogue', canonical', ?_, ?_, ?_⟩
      · rw [List.append_nil, Event.questions_append, hes, List.map_cons, List.flatMap_cons,
          hdialogue, List.flatMap_def, List.flatMap_def, List.map_congr_left hdialogue']
      · intro g hg
        rcases List.mem_cons.mp hg with rfl | hg
        · rw [hdialogue, hcanonical]
          exact ⟨number, hnumber, canonicalForms_ok hforms⟩
        · rw [hdialogue' _ (List.mem_map_of_mem hg), hcanonical' _ (List.mem_map_of_mem hg)]
          exact hall g hg
      · have hothers : ((groups.map (·.1)).filter fun k ↦ !(canonical' k).isEmpty).map
              (fun k ↦ (k, canonical' k)) =
            ((groups.map (·.1)).filter fun k ↦ !(canonical k).isEmpty).map
              fun k ↦ (k, canonical k) := by
          rw [List.filter_congr fun k hk ↦ by rw [hcanonical' k hk]]
          exact List.map_congr_left fun k hk ↦ by rw [hcanonical' k (List.mem_filter.mp hk).1]
        rw [← Except.ok.inj hresult, List.map_cons, List.filter_cons, hcanonical, ← hothers]
        cases cs with
        | nil => rfl
        | cons c cs =>
          change (key, c :: cs) :: _ = (key, canonical' key) :: _
          rw [hcanonical]

/-- The canonical forms of some fragments, taken by their variants. -/
theorem canonicalGroups_byVariant_ok {fragments : List Fragment}
    {result : List (VariantKey × List Fragment)} {m m' : Memory μ ℓ π ω} {es : List Event}
    (h : canonicalGroups filter matcher modifier numbers (byVariant fragments).toList m =
      ⟨.ok result, m', es⟩) :
    ∃ (dialogue : VariantKey → List Event) (canonical : VariantKey → List Fragment),
      Event.questions es = (byVariant fragments).keys.flatMap dialogue ∧
        (∀ k ∈ (byVariant fragments).keys, ∃ number, numbers.get? k = some number ∧
          Canonical filter number (fragments.filter (·.key = k)) (dialogue k) (canonical k)) ∧
        result = ((byVariant fragments).keys.filter fun k ↦ !(canonical k).isEmpty).map
          fun k ↦ (k, canonical k) := by
  obtain ⟨dialogue, canonical, hquestions, hcanonical, hresult⟩ :=
    canonicalGroups_ok (byVariant fragments).keys_nodup h
  refine ⟨dialogue, canonical, hquestions, fun k hk ↦ ?_, hresult⟩
  have hmem : (k, fragments.filter (·.key = k)) ∈ (byVariant fragments).toList := by
    rw [toList_byVariant]
    exact List.mem_map_of_mem hk
  exact hcanonical _ hmem

end Fragment

end FragmentArchive
