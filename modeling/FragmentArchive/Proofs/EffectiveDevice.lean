import FragmentArchive.Proofs.Bypass
import FragmentArchive.Proofs.DefaultTier
import FragmentArchive.Proofs.TierNumerals

/-!
# The device that is built for

A configuration is read in two ways. For filtering, the last mention of a dimension counts among
those that are split along and have their stripping enabled; for the table of contents, every
mention with a stripping is recorded, in the order of the configuration. So the record holds more
than is made use of, but never less.

All questions of a run are about one device. It is the one of the request, with the tier that is
configured for devices that report none. Whether there is such a device does not depend on what is
filtered, and both phases find the same one.
-/

namespace FragmentArchive

/-! ## Reading the configuration -/

/-- A mention of a dimension has an effect: fragments are split along it, and the suffix is stripped
off. -/
structure SplitDimension.Strips (d : SplitDimension) (dimension : Dimension)
    (stripping : SuffixStripping) : Prop where
  dimension_eq : d.dimension = dimension
  splits : d.negate = false
  declared : d.suffixStripping = some stripping
  enabled : stripping.enabled = true

theorem SplitDimension.effectiveStripping?_eq_some_iff {d : SplitDimension}
    {entry : Dimension × SuffixStripping} :
    d.effectiveStripping? = some entry ↔ d.Strips entry.1 entry.2 := by
  rw [effectiveStripping?]
  constructor
  · intro h
    split at h
    · next stripping hdeclared =>
      split at h
      · next hcond =>
        obtain rfl := Option.some.inj h
        rw [Bool.and_eq_true, Bool.not_eq_true'] at hcond
        exact ⟨rfl, hcond.1, hdeclared, hcond.2⟩
      · cases h
    · cases h
  · rintro ⟨hdimension, hsplits, hdeclared, henabled⟩
    rw [hdeclared, hsplits, hdimension]
    exact if_pos henabled

namespace BuildConfig

variable {config : BuildConfig} {dimension : Dimension} {stripping : SuffixStripping}

/-- The last mention of a dimension that has an effect. -/
def LastStrips (config : BuildConfig) (dimension : Dimension) (stripping : SuffixStripping) :
    Prop :=
  ∃ before d after, config.splitDimensions = before ++ d :: after ∧
    d.Strips dimension stripping ∧
    ∀ d' ∈ after, ∀ stripping', ¬d'.Strips dimension stripping'

/-- The effect of a mention on one dimension. -/
private def effectOn? (dimension : Dimension) (d : SplitDimension) : Option SuffixStripping :=
  d.effectiveStripping?.bind fun entry ↦ if entry.1 = dimension then some entry.2 else none

private theorem effectOn?_eq_some_iff {d : SplitDimension} :
    effectOn? dimension d = some stripping ↔ d.Strips dimension stripping := by
  rw [effectOn?, Option.bind_eq_some_iff]
  constructor
  · rintro ⟨entry, hentry, heq⟩
    split at heq
    · next hdimension =>
      rw [← hdimension, ← Option.some.inj heq]
      exact SplitDimension.effectiveStripping?_eq_some_iff.mp hentry
    · cases heq
  · intro h
    exact ⟨(dimension, stripping), SplitDimension.effectiveStripping?_eq_some_iff.mpr h, if_pos rfl⟩

private theorem effectOn?_eq_none_iff {d : SplitDimension} :
    effectOn? dimension d = none ↔ ∀ stripping, ¬d.Strips dimension stripping := by
  rw [Option.eq_none_iff_forall_ne_some]
  exact forall_congr' fun stripping ↦ not_congr effectOn?_eq_some_iff

private theorem get?_effectiveStrippings :
    config.effectiveStrippings.get? dimension =
      config.splitDimensions.reverse.findSome? (effectOn? dimension) := by
  have hvalues : ∀ entries : List (Dimension × SuffixStripping),
      SortedMap.valuesAt dimension entries =
        entries.filterMap fun entry ↦ if entry.1 = dimension then some entry.2 else none := by
    intro entries
    induction entries with
    | nil => rfl
    | cons entry entries ih =>
      obtain ⟨dimension', stripping'⟩ := entry
      by_cases heq : dimension' = dimension
      · subst heq
        rw [SortedMap.valuesAt_cons_self, List.filterMap_cons_some (by exact if_pos rfl), ih]
      · rw [SortedMap.valuesAt_cons_of_ne heq, List.filterMap_cons_none (by exact if_neg heq), ih]
  rw [effectiveStrippings, SortedMap.get?_ofList, hvalues, List.filterMap_filterMap,
    List.getLast?_filterMap]
  rfl

/-- **Which stripping of a dimension counts.** -/
theorem get?_effectiveStrippings_eq_some_iff :
    config.effectiveStrippings.get? dimension = some stripping ↔
      config.LastStrips dimension stripping := by
  rw [get?_effectiveStrippings, List.findSome?_eq_some_iff]
  constructor
  · rintro ⟨after, d, before, hsplit, hd, hafter⟩
    refine ⟨before.reverse, d, after.reverse, ?_, effectOn?_eq_some_iff.mp hd, fun d' hd' ↦ ?_⟩
    · rw [← List.reverse_inj, hsplit]
      simp
    · exact effectOn?_eq_none_iff.mp (hafter d' (List.mem_reverse.mp hd'))
  · rintro ⟨before, d, after, hsplit, hd, hafter⟩
    refine ⟨after.reverse, d, before.reverse, ?_, effectOn?_eq_some_iff.mpr hd, fun d' hd' ↦ ?_⟩
    · rw [hsplit]
      simp
    · exact effectOn?_eq_none_iff.mpr (hafter d' (List.mem_reverse.mp hd'))

theorem get?_effectiveStrippings_eq_none_iff :
    config.effectiveStrippings.get? dimension = none ↔
      ∀ d ∈ config.splitDimensions, ∀ stripping, ¬d.Strips dimension stripping := by
  rw [get?_effectiveStrippings, List.findSome?_eq_none_iff]
  simp only [List.mem_reverse, effectOn?_eq_none_iff]

end BuildConfig

/-! ## The record -/

/-- The strippings of a configuration in its order, each with the mention that declares it. -/
structure DefaultTargetingValue.Records (config : BuildConfig)
    (mentions : List (SplitDimension × SuffixStripping)) : Prop where
  order : mentions.map (·.1) = config.splitDimensions.filter (·.suffixStripping.isSome)
  declared : ∀ mention ∈ mentions, mention.1.suffixStripping = some mention.2

namespace DefaultTargetingValue

/-- The value that is recorded for a stripping. -/
def ofMention (mention : SplitDimension × SuffixStripping) : DefaultTargetingValue :=
  ⟨mention.1.dimension, mention.2.defaultSuffix⟩

/-- **What is recorded**: every declared stripping, in the order of the configuration. -/
theorem exists_records (config : BuildConfig) :
    ∃ mentions, Records config mentions ∧ ofConfig config = mentions.map ofMention := by
  suffices h : ∀ ds : List SplitDimension, ∃ mentions : List (SplitDimension × SuffixStripping),
      mentions.map (·.1) = ds.filter (·.suffixStripping.isSome) ∧
      (∀ mention ∈ mentions, mention.1.suffixStripping = some mention.2) ∧
      (ds.filterMap fun d ↦ d.suffixStripping.map fun stripping ↦
        (⟨d.dimension, stripping.defaultSuffix⟩ : DefaultTargetingValue)) =
          mentions.map ofMention by
    obtain ⟨mentions, horder, hdeclared, hvalues⟩ := h config.splitDimensions
    exact ⟨mentions, ⟨horder, hdeclared⟩, hvalues⟩
  intro ds
  induction ds with
  | nil => exact ⟨[], rfl, fun _ hmention ↦ absurd hmention List.not_mem_nil, rfl⟩
  | cons d ds ih =>
    obtain ⟨mentions, horder, hdeclared, hvalues⟩ := ih
    cases hstripping : d.suffixStripping with
    | none =>
      refine ⟨mentions, ?_, hdeclared, ?_⟩
      · rw [horder, List.filter_cons_of_neg (by rw [hstripping]; exact Bool.false_ne_true)]
      · rw [List.filterMap_cons_none (by rw [hstripping]; rfl), hvalues]
    | some stripping =>
      refine ⟨(d, stripping) :: mentions, ?_, List.forall_mem_cons.mpr ⟨hstripping, hdeclared⟩, ?_⟩
      · rw [List.map_cons, horder, List.filter_cons_of_pos (by rw [hstripping]; rfl)]
      · rw [List.filterMap_cons_some (by rw [hstripping]; rfl), hvalues]
        rfl

theorem mem_ofConfig {config : BuildConfig} {d : SplitDimension} {stripping : SuffixStripping}
    (hd : d ∈ config.splitDimensions) (hdeclared : d.suffixStripping = some stripping) :
    ⟨d.dimension, stripping.defaultSuffix⟩ ∈ ofConfig config := by
  refine List.mem_filterMap.mpr ⟨d, hd, ?_⟩
  rw [hdeclared]
  rfl

/-- What counts for filtering is recorded. -/
theorem mem_ofConfig_of_lastStrips {config : BuildConfig} {dimension : Dimension}
    {stripping : SuffixStripping} (h : config.LastStrips dimension stripping) :
    ⟨dimension, stripping.defaultSuffix⟩ ∈ ofConfig config := by
  obtain ⟨before, d, after, hsplit, ⟨rfl, -, hdeclared, -⟩, -⟩ := h
  refine mem_ofConfig ?_ hdeclared
  rw [hsplit]
  exact List.mem_append_right _ List.mem_cons_self

end DefaultTargetingValue

/-! ## The effective device -/

namespace Device

/-- The tier that a suffix denotes: the lowest one if it is empty, else the number of a numeral. -/
def SuffixDenotes (suffix : String) (tier : Int32) : Prop :=
  suffix = "" ∧ tier = 0 ∨ Numeral suffix.toList tier.toInt

/-- The device that is built for when a device is asked for. -/
inductive Effective (config : BuildConfig) (device : Device) : Device → Prop
  | reported {tier : Int32} : device.deviceTier = some tier → Effective config device device
  | assumed {stripping : SuffixStripping} {tier : Int32} : device.deviceTier = none →
      config.LastStrips .deviceTier stripping → SuffixDenotes stripping.defaultSuffix tier →
      Effective config device { device with deviceTier := some tier }
  | unknown : device.deviceTier = none →
      (∀ d ∈ config.splitDimensions, ∀ stripping, ¬d.Strips .deviceTier stripping) →
      Effective config device device

/-- A default suffix is needed for a device, and it denotes no tier. -/
def Unreadable (config : BuildConfig) (device : Device) : Prop :=
  device.deviceTier = none ∧ ∃ stripping, config.LastStrips .deviceTier stripping ∧
    stripping.defaultSuffix ≠ "" ∧
    ∀ tier : Int32, ¬Numeral stripping.defaultSuffix.toList tier.toInt

variable {config : BuildConfig} {device effective : Device}

/-- **Which device is built for.** -/
theorem assumingTier_eq_ok_iff : device.assumingTier config.effectiveStrippings = .ok effective ↔
    device.Effective config effective := by
  rw [assumingTier]
  constructor
  · intro h
    cases htier : device.deviceTier with
    | some tier =>
      rw [htier] at h
      obtain rfl := Except.ok.inj h
      exact .reported htier
    | none =>
      rw [htier] at h
      cases hstripping : config.effectiveStrippings.get? .deviceTier with
      | none =>
        rw [hstripping] at h
        obtain rfl := Except.ok.inj h
        exact .unknown htier (BuildConfig.get?_effectiveStrippings_eq_none_iff.mp hstripping)
      | some stripping =>
        rw [hstripping] at h
        dsimp only at h
        cases hsuffix : tierOfSuffix stripping.defaultSuffix with
        | error fault =>
          rw [hsuffix] at h
          cases h
        | ok tier =>
          rw [hsuffix] at h
          obtain rfl := Except.ok.inj h
          exact .assumed htier (BuildConfig.get?_effectiveStrippings_eq_some_iff.mp hstripping)
            (tierOfSuffix_eq_ok_iff.mp hsuffix)
  · rintro (htier | ⟨htier, hstrips, hsuffix⟩ | ⟨htier, hnone⟩)
    · rw [htier]
    · rw [htier, BuildConfig.get?_effectiveStrippings_eq_some_iff.mpr hstrips]
      dsimp only
      rw [tierOfSuffix_eq_ok_iff.mpr hsuffix]
    · rw [htier, BuildConfig.get?_effectiveStrippings_eq_none_iff.mpr hnone]

/-- There is one device at most that is built for. -/
theorem Effective.unique {effective' : Device} (h : device.Effective config effective)
    (h' : device.Effective config effective') : effective' = effective :=
  Except.ok.inj ((assumingTier_eq_ok_iff.mpr h').symm.trans (assumingTier_eq_ok_iff.mpr h))

/-- It is the device of the request in every respect but the tier. -/
theorem Effective.eq (h : device.Effective config effective) :
    effective = { device with deviceTier := effective.deviceTier } := by
  cases h <;> rfl

/-- **When there is none.** -/
theorem exists_missesTier_iff :
    (∃ e, device.MissesTier config.effectiveStrippings e) ↔ device.Unreadable config := by
  constructor
  · rintro ⟨e, htier, stripping, fault, hstripping, hsuffix, -⟩
    have hnot : ∀ tier, ¬SuffixDenotes stripping.defaultSuffix tier := by
      intro tier hdenotes
      cases hsuffix.symm.trans (tierOfSuffix_eq_ok_iff.mpr hdenotes)
    exact ⟨htier, stripping, BuildConfig.get?_effectiveStrippings_eq_some_iff.mp hstripping,
      fun hempty ↦ hnot 0 (.inl ⟨hempty, rfl⟩), fun tier hnumeral ↦ hnot tier (.inr hnumeral)⟩
  · rintro ⟨htier, stripping, hstrips, hempty, hnumeral⟩
    have hstripping := BuildConfig.get?_effectiveStrippings_eq_some_iff.mpr hstrips
    cases hsuffix : tierOfSuffix stripping.defaultSuffix with
    | error fault => exact ⟨_, htier, stripping, fault, hstripping, hsuffix, rfl⟩
    | ok tier =>
      rcases tierOfSuffix_eq_ok_iff.mp hsuffix with ⟨heq, -⟩ | hn
      · exact absurd heq hempty
      · exact absurd hn (hnumeral tier)

end Device

/-! ## Filters -/

namespace DeviceFilter

variable {config : BuildConfig} {mode : BuildMode} {device : Option Device}
  {filter : DeviceFilter} {effective : Device}

private theorem effective_of_ofDevice {requested : Device}
    (h : ofDevice config.effectiveStrippings requested = .ok filter)
    (hfilter : filter.device = some effective) : requested.Effective config effective := by
  obtain ⟨d, hd, rfl⟩ := map_eq_ok_iff.mp h
  obtain rfl := Option.some.inj hfilter
  exact Device.assumingTier_eq_ok_iff.mp hd

/-- Ordinary fragments are filtered for the effective device, if they are. -/
theorem effective_of_ordinary
    (h : ordinary config.effectiveStrippings mode device = .ok filter)
    (hfilter : filter.device = some effective) :
    ∃ requested, device = some requested ∧ requested.Effective config effective := by
  have heverything : ∀ {filter : DeviceFilter},
      (Except.ok everything : Except Error DeviceFilter) = .ok filter →
        filter.device ≠ some effective := by
    rintro filter heq hsome
    rw [← Except.ok.inj heq] at hsome
    cases hsome
  cases device with
  | none => exact absurd hfilter (heverything h)
  | some requested =>
    rw [ordinary] at h
    split at h
    · exact absurd hfilter (heverything h)
    · exact ⟨requested, rfl, effective_of_ofDevice h hfilter⟩

/-- Asset slices are filtered for the same device. -/
theorem effective_of_slices (h : slices config.effectiveStrippings device = .ok filter)
    (hfilter : filter.device = some effective) :
    ∃ requested, device = some requested ∧ requested.Effective config effective := by
  cases device with
  | none =>
    rw [← Except.ok.inj h] at hfilter
    cases hfilter
  | some requested => exact ⟨requested, rfl, effective_of_ofDevice h hfilter⟩

/-- **When ordinary fragments cannot be filtered.** -/
theorem exists_ordinary_error_iff :
    (∃ e, ordinary config.effectiveStrippings mode device = .error e) ↔
      mode ≠ .system ∧ ∃ requested, device = some requested ∧ requested.Unreadable config := by
  simp only [ordinary_eq_error_iff, ← Device.exists_missesTier_iff]
  constructor
  · rintro ⟨e, hmode, requested, hdevice, hmisses⟩
    exact ⟨hmode, requested, hdevice, e, hmisses⟩
  · rintro ⟨hmode, requested, hdevice, e, hmisses⟩
    exact ⟨e, hmode, requested, hdevice, hmisses⟩

/-- **When asset slices cannot be filtered.** -/
theorem exists_slices_error_iff :
    (∃ e, slices config.effectiveStrippings device = .error e) ↔
      ∃ requested, device = some requested ∧ requested.Unreadable config := by
  simp only [slices_eq_error_iff, ← Device.exists_missesTier_iff]
  constructor
  · rintro ⟨e, requested, hdevice, hmisses⟩
    exact ⟨requested, hdevice, e, hmisses⟩
  · rintro ⟨requested, hdevice, e, hmisses⟩
    exact ⟨e, requested, hdevice, hmisses⟩

end DeviceFilter

/-! ## Questions -/

namespace Run

variable {μ ℓ π ω α β : Type} {P : Device → Prop}

/-- The matcher is only asked about certain devices. -/
def AsksAbout (P : Device → Prop) (x : Run (Memory μ ℓ π ω) α) : Prop :=
  Always (fun _ es _ ↦ ∀ ask ∈ Event.asks es, P ask.2.1) x

theorem composes_asksAbout :
    Composes fun (_ : Memory μ ℓ π ω) es _ ↦ ∀ ask ∈ Event.asks es, P ask.2.1 where
  nil _ _ hask := absurd hask List.not_mem_nil
  append h h' ask hask := by
    rw [Event.asks_append] at hask
    exact (List.mem_append.mp hask).elim (h ask) (h' ask)

theorem congruence_asksAbout :
    Congruence fun α (x _ : Run (Memory μ ℓ π ω) α) ↦ x.AsksAbout P where
  ofExcept r := always_ofExcept composes_asksAbout r
  bind hx hf := Always.bind composes_asksAbout hx hf

theorem SameUnasked.asksAbout {x y : Run (Memory μ ℓ π ω) α} (h : SameUnasked x y) :
    x.AsksAbout P := by
  intro m ask hask
  rw [h.2 m] at hask
  exact absurd hask List.not_mem_nil

theorem asksAbout_ask (matcher : Matcher μ) (f : Fragment) {device : Device} (h : P device) :
    (Run.ask matcher f device : Run (Memory μ ℓ π ω) Bool).AsksAbout P := by
  intro m ask hask
  have hasks : Event.asks (Run.ask matcher f device m).events =
      [(f, device, (matcher.accepts f device m.policy).answer)] :=
    congrArg (_ :: ·) (Event.asks_noticed _)
  rw [hasks] at hask
  rw [List.mem_singleton.mp hask]
  exact h

theorem asksAbout_keeps {filter : DeviceFilter} (h : ∀ device ∈ filter.device, P device)
    (matcher : Matcher μ) (f : Fragment) :
    (filter.keeps matcher f : Run (Memory μ ℓ π ω) Bool).AsksAbout P := by
  rw [DeviceFilter.keeps]
  split
  · next device hdevice => exact asksAbout_ask matcher f (h device hdevice)
  · exact congruence_asksAbout.pure true

end Run

namespace Serializer

variable {μ ℓ π ω : Type} (s : Serializer μ ℓ π) (writer : Writer ω) {P : Device → Prop}

theorem parallels_asksAbout :
    s.Parallels s fun α (x _ : Run (Memory μ ℓ π ω) α) ↦ x.AsksAbout P where
  congruence := Run.congruence_asksAbout
  modules := rfl
  first := rfl
  modify manifest d := (Run.unasked_modify s.modifier manifest d).asksAbout
  name f := ((Run.only_name s.assigner f).unasked (by simp)).asksAbout
  notice n := ((Run.only_notice (by simp) n : Run.Only [.notice] _).unasked (by simp)).asksAbout

variable (schedule : (jobs : Nat) → Schedule jobs) (fragments : List Fragment) (mode : BuildMode)
  (device : Option Device)

/-- A device that takes effect for a request. -/
def Concerns (config : BuildConfig) (device : Option Device) (effective : Device) : Prop :=
  ∃ requested, device = some requested ∧ requested.Effective config effective

theorem asksAbout_writeFragments :
    (s.writeFragments writer schedule fragments mode device :
      Run (Memory μ ℓ π ω) (List Variant)).AsksAbout (Concerns s.bundle.config device) :=
  s.parallels_asksAbout.writeFragments writer writer schedule schedule rfl
    (fun _ hfilter f ↦ Run.asksAbout_keeps
      (fun _ hd ↦ DeviceFilter.effective_of_ordinary hfilter hd) s.matcher f)
    (fun jobs ↦ (s.unasked_batch writer mode jobs _).asksAbout) fragments

theorem asksAbout_writeSlices :
    (s.writeSlices writer schedule fragments mode device :
      Run (Memory μ ℓ π ω) (List AssetSliceSet)).AsksAbout (Concerns s.bundle.config device) :=
  s.parallels_asksAbout.writeSlices writer writer schedule schedule rfl
    (fun _ hfilter f ↦ Run.asksAbout_keeps
      (fun _ hd ↦ DeviceFilter.effective_of_slices hfilter hd) s.matcher f)
    (fun jobs ↦ (s.unasked_batch writer mode jobs _).asksAbout) fragments

/-- **All questions of a build are about the effective device.** -/
theorem asksAbout_build (timing : Timing) (request : BuildRequest) (m : Memory μ ℓ π ω)
    {ask : Fragment × Device × Except Error Bool}
    (h : ask ∈ Event.asks (s.build writer timing request m).events) :
    Concerns s.bundle.config request.device ask.2.1 := by
  have hfragments : ∀ ask ∈ Event.asks (s.fragmentPhase writer timing request m).events,
      Concerns s.bundle.config request.device ask.2.1 :=
    s.asksAbout_writeFragments writer timing.fragments request.fragments request.mode
      request.device _
  have hslices : ∀ ask ∈ Event.asks (s.slicePhase writer timing request m).events,
      Concerns s.bundle.config request.device ask.2.1 :=
    s.asksAbout_writeSlices writer timing.assetSlices request.assetSlices request.mode
      request.device _
  cases hphase : (s.fragmentPhase writer timing request m).result with
  | error e =>
    rw [asks_build_of_error hphase] at h
    exact hfragments ask h
  | ok variants =>
    rw [asks_build_of_ok hphase] at h
    exact (List.mem_append.mp h).elim (hfragments ask) (hslices ask)

/-- **The device that is built for, and the record of the defaults.** All questions of a build, also
of one that fails, are about the device that takes effect for the one of the request; there is one
at most, and it differs from it in the tier alone. Where it has to have a default tier and the
suffix cannot be read, and only there, there is no filter. The table of contents of a build that
succeeds records the declared strippings in the order of the configuration, and among them all that
count, in particular the one that the tier was taken from. -/
theorem questions_and_record_agree (s : Serializer μ ℓ π) (writer : Writer ω) (timing : Timing)
    (request : BuildRequest) (m : Memory μ ℓ π ω) :
    let config := s.bundle.config
    let out := s.build writer timing request m
    (∀ ask ∈ Event.asks out.events,
      ∃ device, request.device = some device ∧ device.Effective config ask.2.1) ∧
    (∀ device effective : Device, device.Effective config effective →
      effective = { device with deviceTier := effective.deviceTier } ∧
        ∀ effective', device.Effective config effective' → effective' = effective) ∧
    ((∃ e, DeviceFilter.ordinary config.effectiveStrippings request.mode request.device =
        .error e) ↔ request.mode ≠ .system ∧
          ∃ device, request.device = some device ∧ device.Unreadable config) ∧
    ((∃ e, DeviceFilter.slices config.effectiveStrippings request.device = .error e) ↔
      ∃ device, request.device = some device ∧ device.Unreadable config) ∧
    (∀ e, DeviceFilter.ordinary config.effectiveStrippings request.mode request.device =
        .error e ∨ DeviceFilter.slices config.effectiveStrippings request.device = .error e →
      ∃ fault, e = .configuration fault) ∧
    ∀ toc, out.result = .ok toc →
      (∃ mentions, DefaultTargetingValue.Records config mentions ∧
        toc.defaultTargetingValues = mentions.map .ofMention) ∧
      (∀ stripping, config.LastStrips .deviceTier stripping →
        ⟨.deviceTier, stripping.defaultSuffix⟩ ∈ toc.defaultTargetingValues) ∧
      ∀ entry ∈ config.effectiveStrippings.toList,
        ⟨entry.1, entry.2.defaultSuffix⟩ ∈ toc.defaultTargetingValues := by
  intro config out
  refine ⟨fun ask hask ↦ s.asksAbout_build writer timing request m hask,
    fun device effective h ↦ ⟨h.eq, fun effective' h' ↦ h.unique h'⟩,
    DeviceFilter.exists_ordinary_error_iff, DeviceFilter.exists_slices_error_iff, ?_,
    fun toc htoc ↦ ?_⟩
  · rintro e (he | he)
    · obtain ⟨-, device, -, -, stripping, fault, -, -, rfl⟩ :=
        DeviceFilter.ordinary_eq_error_iff.mp he
      exact ⟨_, rfl⟩
    · obtain ⟨device, -, -, stripping, fault, -, -, rfl⟩ := DeviceFilter.slices_eq_error_iff.mp he
      exact ⟨_, rfl⟩
  · obtain ⟨variants, m₁, es₁, sets, m₂, es₂, -, -, rfl⟩ := phases_of_build htoc
    refine ⟨DefaultTargetingValue.exists_records config,
      fun stripping h ↦ DefaultTargetingValue.mem_ofConfig_of_lastStrips h, fun entry hentry ↦ ?_⟩
    refine DefaultTargetingValue.mem_ofConfig_of_lastStrips ?_
    exact BuildConfig.get?_effectiveStrippings_eq_some_iff.mp
      (SortedMap.get?_eq_some_iff.mpr hentry)

/-- Of four suffixes the second one takes effect: the third one is that of a negated dimension, and
the fourth one is switched off. All four are recorded. -/
theorem last_suffix_in_effect_is_assumed :
    let tier (negate enabled : Bool) (suffix : String) : SplitDimension :=
      ⟨.deviceTier, negate, some ⟨enabled, suffix⟩⟩
    let config : BuildConfig :=
      ⟨[tier false true "7", tier false true "+02", tier true true "x", tier false false ""], none⟩
    let f := Fragment.untargeted .base .split (.ofPackage "p")
    let s := plain { Bundle.ofPackage "p" with
      modules := [.independent .base .feature (.ofPackage "p")], config }
    let out := s.build Writer.echo .inOrder ⟨[f], [], .default, some default, default, []⟩
      ⟨(), (), ∅, ()⟩
    (Event.asks out.events).map (·.2.1.deviceTier) = [some 2] ∧
      (∃ toc, out.result = .ok toc ∧
        toc.defaultTargetingValues =
          [⟨.deviceTier, "7"⟩, ⟨.deviceTier, "+02"⟩, ⟨.deviceTier, "x"⟩, ⟨.deviceTier, ""⟩]) ∧
      Device.Effective config default { (default : Device) with deviceTier := some 2 } ∧
      ¬Device.Unreadable config default := by
  intro tier config f s out
  have htiers : (Event.asks out.events).map (·.2.1.deviceTier) = [some 2] := by decide +kernel
  obtain ⟨toc, htoc⟩ : ∃ toc, out.result.toOption = some toc :=
    Option.isSome_iff_exists.mp (by decide +kernel)
  have hvalues : (out.result.toOption.map (·.defaultTargetingValues)) =
      some [⟨.deviceTier, "7"⟩, ⟨.deviceTier, "+02"⟩, ⟨.deviceTier, "x"⟩, ⟨.deviceTier, ""⟩] := by
    decide +kernel
  rw [htoc] at hvalues
  obtain ⟨hasks, hunique, hordinary, -⟩ := s.questions_and_record_agree Writer.echo .inOrder
    ⟨[f], [], .default, some default, default, []⟩ ⟨(), (), ∅, ()⟩
  refine ⟨htiers, ⟨toc, toOption_eq_some_iff.mp htoc, Option.some.inj hvalues⟩, ?_, fun h ↦ ?_⟩
  · cases hall : Event.asks out.events with
    | nil =>
      rw [hall] at htiers
      cases htiers
    | cons ask rest =>
      rw [hall] at htiers
      obtain ⟨device, hdevice, heffective⟩ := hasks ask (hall ▸ List.mem_cons_self)
      obtain rfl := Option.some.inj hdevice
      have htier : ask.2.1.deviceTier = some 2 := (List.cons.inj htiers).1
      rw [(hunique _ _ heffective).1, htier] at heffective
      exact heffective
  · obtain ⟨e, he⟩ := hordinary.mpr ⟨by decide, default, rfl, h⟩
    have hok : (DeviceFilter.ordinary config.effectiveStrippings .default
      (some default)).toOption.isSome := by decide +kernel
    have hfailed : DeviceFilter.ordinary config.effectiveStrippings .default (some default) =
      .error e := he
    rw [hfailed] at hok
    cases hok

end Serializer

end FragmentArchive
