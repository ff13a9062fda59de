import FragmentArchive.Proofs.CommitPoint

/-!
# What filtering leaves

Which fragments survive filtering is no function of the fragments, because a matcher may answer the
same question differently the next time. It is read off the dialogue with the matcher: the survivors
are the fragments that it accepted, each as often as it did so, and without a device they are simply
all fragments.

The canonical forms of a variant have the modules of its survivors, and a survivor is a fragment of
the variant that it was asked about for. So the survivors of a whole run, sorted by their keys, say
how much each variant of the run holds, although the run itself keeps the dialogues of different
variants apart.
-/

open Std

namespace FragmentArchive

/-! ## Survivors -/

/-- The fragment that is accepted by an answer of the matcher. -/
def Event.acceptance? : Event → Option Fragment
  | asked f _ (.ok true) => some f
  | _ => none

/-- The fragments that the matcher accepted. -/
abbrev Event.acceptances (es : List Event) : List Fragment := es.filterMap acceptance?

/-- What is left of some fragments after a dialogue with the matcher. Fragments that are not
filtered are all left. -/
def Fragment.survivors (filtered : Bool) (fragments : List Fragment) (es : List Event) :
    List Fragment :=
  if filtered then Event.acceptances es else fragments

/-- Whether ordinary fragments are filtered. In system mode they are not. -/
def BuildMode.filtersFor (mode : BuildMode) (device : Option Device) : Bool :=
  device.isSome && mode ≠ .system

namespace Event

/-- To accept a fragment is to answer a question. -/
theorem acceptances_questions (es : List Event) : acceptances (questions es) = acceptances es := by
  refine filterMap_filter_of_none (fun e he ↦ ?_) es
  cases e with
  | asked f device answer => cases he
  | _ => rfl

end Event

namespace Fragment

theorem survivors_questions (filtered : Bool) (fragments : List Fragment) (es : List Event) :
    survivors filtered fragments (Event.questions es) = survivors filtered fragments es := by
  rw [survivors, survivors, Event.acceptances_questions]

end Fragment

namespace DeviceFilter

variable {strippings : SortedMap Dimension SuffixStripping} {filter : DeviceFilter}

private theorem isSome_of_ofDevice {device : Device} (h : ofDevice strippings device = .ok filter) :
    filter.device.isSome = true := by
  obtain ⟨_, -, rfl⟩ := map_eq_ok_iff.mp h
  rfl

/-- The filter for ordinary fragments has a device when they are filtered. -/
theorem isSome_of_ordinary {mode : BuildMode} {device : Option Device}
    (h : ordinary strippings mode device = .ok filter) :
    filter.device.isSome = mode.filtersFor device := by
  cases device with
  | none =>
    obtain rfl := Except.ok.inj h
    rfl
  | some device =>
    rw [ordinary] at h
    split at h
    · next hmode =>
      obtain rfl := Except.ok.inj h
      rw [hmode]
      rfl
    · next hmode =>
      rw [isSome_of_ofDevice h, BuildMode.filtersFor]
      simp [hmode]

/-- Where ordinary fragments are not filtered, the configuration is not even looked at. -/
theorem ordinary_eq_everything {mode : BuildMode} {device : Option Device}
    (h : mode.filtersFor device = false) : ordinary strippings mode device = .ok everything := by
  cases device with
  | none => rfl
  | some device =>
    have hmode : mode = .system := by simpa [BuildMode.filtersFor] using h
    rw [ordinary, if_pos hmode]

theorem isSome_of_slices {device : Option Device} (h : slices strippings device = .ok filter) :
    filter.device.isSome = device.isSome := by
  cases device with
  | none =>
    obtain rfl := Except.ok.inj h
    rfl
  | some device => exact isSome_of_ofDevice h

end DeviceFilter

/-! ## One variant -/

namespace Fragment

variable {filter : DeviceFilter}

/-- To the matcher's answer a fragment owes its place among the survivors. -/
private theorem survivors_acceptance (f : Fragment) (fs : List Fragment) (es : List Event) :
    survivors filter.device.isSome (f :: fs) (filter.acceptance f ++ es) =
      f :: survivors filter.device.isSome fs es := by
  rw [DeviceFilter.acceptance]
  cases filter.device <;> rfl

private theorem survivors_refusal {device : Device} (hdevice : filter.device = some device)
    (f : Fragment) (fs : List Fragment) (es : List Event) :
    survivors filter.device.isSome (f :: fs) (.asked f device (.ok false) :: es) =
      survivors filter.device.isSome fs es := by
  rw [hdevice]
  rfl

/-- Canonical forms belong to the modules of the fragments that survived. -/
theorem Canonical.map_module {number : UInt32} {fs cs : List Fragment} {es : List Event}
    (h : Canonical filter number fs es cs) :
    cs.map (·.module) = (survivors filter.device.isSome fs es).map (·.module) := by
  induction h with
  | nil => cases filter.device <;> rfl
  | dropped hdevice _ ih => rw [survivors_refusal hdevice, ih]
  | @kept f manifest fs es cs _ ih =>
    have hmodified : survivors filter.device.isSome fs
        (.modified f.manifest (.ofFragment f number) (.ok manifest) :: es) =
          survivors filter.device.isSome fs es := rfl
    rw [survivors_acceptance, hmodified, List.map_cons, List.map_cons, ih]

theorem Canonical.survivors_sublist {number : UInt32} {fs cs : List Fragment} {es : List Event}
    (h : Canonical filter number fs es cs) :
    (survivors filter.device.isSome fs es).Sublist fs := by
  induction h with
  | nil => cases filter.device <;> exact List.nil_sublist _
  | @dropped f device fs es cs hdevice _ ih =>
    rw [survivors_refusal hdevice]
    exact ih.cons f
  | @kept f manifest fs es cs _ ih =>
    rw [survivors_acceptance]
    exact ih.cons_cons f

/-- Slices are kept when they survive. -/
theorem Kept.eq_survivors {fs ks : List Fragment} {es : List Event} (h : Kept filter fs es ks) :
    ks = survivors filter.device.isSome fs es := by
  induction h with
  | nil => cases filter.device <;> rfl
  | dropped _ hdevice _ ih => rw [survivors_refusal hdevice, ih]
  | kept _ _ ih => rw [survivors_acceptance, ih]

end Fragment

/-! ## All variants -/

namespace Serializer

variable {μ ℓ π : Type} {s : Serializer μ ℓ π} {schedule : (jobs : Nat) → Schedule jobs}
  {fragments : List Fragment} {mode : BuildMode} {device : Option Device} {variants : List Variant}
  {es : List Event} {a : FragmentAccount}

/-- When fragments are filtered, their survivors are those of the variants, one behind the other. -/
theorem Tells.survivors_eq_flatMap (h : s.Tells schedule fragments mode device es variants a)
    (hfilters : mode.filtersFor device = true) :
    Fragment.survivors (mode.filtersFor device) fragments es =
      a.keys.flatMap fun k ↦ Fragment.survivors a.filter.device.isSome
        (fragments.filter (·.key = k)) (a.dialogue k) := by
  rw [DeviceFilter.isSome_of_ordinary h.filter_eq, hfilters, ← Fragment.survivors_questions,
    h.questions]
  exact List.filterMap_flatMap

/-- What survives in a variant are fragments of its key. -/
theorem Tells.mem_of_mem_survivors_key
    (h : s.Tells schedule fragments mode device es variants a) {k : VariantKey} (hk : k ∈ a.keys)
    {f : Fragment} (hf : f ∈ Fragment.survivors a.filter.device.isSome
      (fragments.filter (·.key = k)) (a.dialogue k)) : f ∈ fragments ∧ f.key = k := by
  have hmem := List.mem_filter.mp ((h.canonical k hk).survivors_sublist.mem hf)
  exact ⟨hmem.1, of_decide_eq_true hmem.2⟩

/-- What survives was there before. -/
theorem Tells.mem_of_mem_survivors (h : s.Tells schedule fragments mode device es variants a)
    {f : Fragment} (hf : f ∈ Fragment.survivors (mode.filtersFor device) fragments es) :
    f ∈ fragments := by
  cases hfilters : mode.filtersFor device with
  | false =>
    rw [hfilters] at hf
    exact hf
  | true =>
    rw [h.survivors_eq_flatMap hfilters] at hf
    obtain ⟨k, hk, hf⟩ := List.mem_flatMap.mp hf
    exact (h.mem_of_mem_survivors_key hk hf).1

/-- **The survivors of a run, taken by their keys, are those of the variants.** -/
theorem Tells.survivors_filter (h : s.Tells schedule fragments mode device es variants a)
    {k : VariantKey} (hk : k ∈ a.keys) :
    (Fragment.survivors (mode.filtersFor device) fragments es).filter (·.key = k) =
      Fragment.survivors a.filter.device.isSome (fragments.filter (·.key = k)) (a.dialogue k) := by
  cases hfilters : mode.filtersFor device with
  | false =>
    rw [DeviceFilter.isSome_of_ordinary h.filter_eq, hfilters]
    rfl
  | true =>
    rw [← hfilters, h.survivors_eq_flatMap hfilters]
    refine filter_flatMap (h.sorted.imp SortedMap.ne_of_compare_lt) (fun k hk f hf ↦ ?_) hk
    exact (h.mem_of_mem_survivors_key hk hf).2

/-- The canonical forms of a key have the modules of the survivors of the key. -/
theorem Tells.map_module (h : s.Tells schedule fragments mode device es variants a)
    {k : VariantKey} (hk : k ∈ a.keys) :
    (a.canonical k).map (·.module) =
      ((Fragment.survivors (mode.filtersFor device) fragments es).filter (·.key = k)).map
        (·.module) := by
  rw [h.survivors_filter hk]
  exact (h.canonical k hk).map_module

/-- What a form belongs to, a survivor of its key belongs to as well. -/
theorem Tells.exists_survivor_of_module
    (h : s.Tells schedule fragments mode device es variants a) {k : VariantKey} (hk : k ∈ a.keys)
    {name : ModuleName} (hname : ∃ c ∈ a.canonical k, c.module = name) :
    ∃ f ∈ Fragment.survivors (mode.filtersFor device) fragments es,
      f.key = k ∧ f.module = name := by
  have hmem := List.mem_map.mpr hname
  rw [h.map_module hk] at hmem
  obtain ⟨f, hf, hmodule⟩ := List.mem_map.mp hmem
  obtain ⟨hf, hkey⟩ := List.mem_filter.mp hf
  exact ⟨f, hf, of_decide_eq_true hkey, hmodule⟩

/-- There is a variant for every key that has a survivor. -/
theorem Tells.kept_eq (h : s.Tells schedule fragments mode device es variants a) :
    a.kept = a.keys.filter fun k ↦
      k ∈ (Fragment.survivors (mode.filtersFor device) fragments es).map (·.key) := by
  refine List.filter_congr fun k hk ↦ ?_
  have hmodules := congrArg List.isEmpty (h.map_module hk)
  rw [List.isEmpty_map, List.isEmpty_map] at hmodules
  rw [hmodules, Bool.eq_iff_iff, Bool.not_eq_true', List.isEmpty_eq_false_iff_exists_mem,
    decide_eq_true_iff, List.mem_map]
  refine exists_congr fun f ↦ ?_
  rw [List.mem_filter, decide_eq_true_iff]

/-- For a module, a variant lists as many artifacts as its key has survivors in the module. -/
theorem Tells.length_descriptorsOf (h : s.Tells schedule fragments mode device es variants a)
    {k : VariantKey} (hk : k ∈ a.kept) (name : ModuleName) :
    ((a.variant k).descriptorsOf name).length =
      (Fragment.survivors (mode.filtersFor device) fragments es).countP
        fun f ↦ f.key = k ∧ f.module = name := by
  have hcount : ∀ fs : List Fragment,
      (fs.filter (·.module = name)).length = (fs.map (·.module)).countP (· = name) := by
    intro fs
    rw [List.countP_map, List.countP_eq_length_filter]
    rfl
  rw [(h.variant k hk).2.2.descriptorsOf_eq, List.length_map, hcount,
    h.map_module (List.mem_filter.mp hk).1, ← hcount, List.filter_filter,
    List.countP_eq_length_filter]
  refine congrArg List.length (List.filter_congr fun f _ ↦ ?_)
  rw [Bool.decide_and, Bool.and_comm]

end Serializer

end FragmentArchive
