import FragmentArchive.Proofs.Comparison
import FragmentArchive.Proofs.Survivors

/-!
# Where no device applies

The matcher is there for devices. A run without one has no question for it, so it comes to the same
with any matcher, and with any configuration of the dimensions, even one whose default tier is no
number: the default tier is read for a device only. All that is left of the configuration is the
record of its default suffixes in the table of contents.

A system build for a device is halfway there. Its ordinary fragments are treated as without a
device, and its asset slices as with one. The default tier is therefore read between the two phases,
and the matcher is asked about the slices one after the other until something fails.
-/

namespace FragmentArchive

/-! ## Asking the matcher -/

namespace Event

/-- A question to the matcher, with its answer. -/
def ask? : Event → Option (Fragment × Device × Except Error Bool)
  | asked f device answer => some (f, device, answer)
  | _ => none

/-- The questions to the matcher. -/
abbrev asks (es : List Event) : List (Fragment × Device × Except Error Bool) := es.filterMap ask?

theorem asks_append (es es' : List Event) : asks (es ++ es') = asks es ++ asks es' :=
  List.filterMap_append

theorem asks_questions (es : List Event) : asks (questions es) = asks es := by
  refine filterMap_filter_of_none (fun e he ↦ ?_) es
  cases e with
  | asked f device answer => cases he
  | _ => rfl

theorem asks_eq_nil {es : List Event} (h : ∀ e ∈ es, e.kind ≠ .question) : asks es = [] := by
  rw [← asks_questions, questions_eq_nil h]
  rfl

theorem asks_noticed (ns : List Notice) : asks (ns.map noticed) = [] :=
  asks_eq_nil fun _ he ↦ by simp [kind_of_mem_noticed he]

end Event

/-- The matcher is asked about fragments one after the other. It answers for some, and then either
it has answered for every fragment up to the first one that is no asset slice, or it fails for the
next one and is not asked any more. -/
def Event.AskedInTurn (device : Device) (fs : List Fragment) (es : List Event) : Prop :=
  ∃ (answered : List (Fragment × Bool)) (rest : List Fragment),
    fs.takeWhile (·.category = .assetSlice) = answered.map (·.1) ++ rest ∧
    ((rest = [] ∧ asks es = answered.map fun p ↦ (p.1, device, .ok p.2)) ∨
      ∃ f rest' e, rest = f :: rest' ∧
        asks es = (answered.map fun p ↦ (p.1, device, .ok p.2)) ++ [(f, device, .error e)])

/-- Nobody is asked about anything but the asset slices at the beginning. -/
theorem Event.AskedInTurn.mem {device : Device} {fs : List Fragment} {es : List Event}
    (h : AskedInTurn device fs es) {ask : Fragment × Device × Except Error Bool}
    (hask : ask ∈ asks es) : ask.1 ∈ fs ∧ ask.1.category = .assetSlice := by
  suffices hmem : ask.1 ∈ fs.takeWhile (·.category = .assetSlice) by
    have hcategory := List.all_eq_true.mp List.all_takeWhile _ hmem
    exact ⟨(List.takeWhile_sublist _).mem hmem, of_decide_eq_true hcategory⟩
  obtain ⟨answered, rest, htake, ⟨rfl, hall⟩ | ⟨f, rest', e, rfl, hall⟩⟩ := h
  · rw [hall] at hask
    obtain ⟨p, hp, rfl⟩ := List.mem_map.mp hask
    rw [htake, List.append_nil]
    exact List.mem_map_of_mem hp
  · rw [hall] at hask
    rw [htake]
    rcases List.mem_append.mp hask with hask | hask
    · obtain ⟨p, hp, rfl⟩ := List.mem_map.mp hask
      exact List.mem_append_left _ (List.mem_map_of_mem hp)
    · rw [List.mem_singleton.mp hask]
      exact List.mem_append_right _ List.mem_cons_self

/-- An answer for one more asset slice comes in front of the others. -/
theorem Event.AskedInTurn.cons {device : Device} {f : Fragment} {fs : List Fragment}
    {es es' : List Event} {kept : Bool} (h : AskedInTurn device fs es)
    (hcategory : f.category = .assetSlice)
    (hasks : asks es' = (f, device, .ok kept) :: asks es) : AskedInTurn device (f :: fs) es' := by
  obtain ⟨answered, rest, htake, hall⟩ := h
  refine ⟨(f, kept) :: answered, rest, ?_, ?_⟩
  · rw [List.takeWhile_cons_of_pos (by simpa using hcategory), htake]
    rfl
  · rw [hasks]
    refine hall.imp (fun ⟨hrest, hall⟩ ↦ ⟨hrest, congrArg (_ :: ·) hall⟩) ?_
    rintro ⟨f', rest', e, hrest, hall⟩
    exact ⟨f', rest', e, hrest, congrArg (_ :: ·) hall⟩

/-- **How the matcher is asked about slices.** It is asked about one after the other, up to the
first question that fails or the first fragment that is no asset slice. -/
theorem Fragment.Scanned.askedInTurn {filter : DeviceFilter} {device : Device}
    {fs ks : List Fragment} {es : List Event} {failure : Option Error}
    (hdevice : filter.device = some device) (h : Scanned filter fs es ks failure) :
    Event.AskedInTurn device fs es := by
  induction h with
  | nil => exact ⟨[], [], rfl, .inl ⟨rfl, rfl⟩⟩
  | foreign hcategory =>
    refine ⟨[], [], ?_, .inl ⟨rfl, rfl⟩⟩
    rw [List.takeWhile_cons_of_neg (by simpa using hcategory)]
    rfl
  | @failed f device' fs e hcategory hdevice' =>
    obtain rfl : device' = device := Option.some.inj (hdevice'.symm.trans hdevice)
    refine ⟨[], f :: fs.takeWhile (·.category = .assetSlice), ?_, .inr ⟨f, _, e, rfl, rfl⟩⟩
    rw [List.takeWhile_cons_of_pos (by simpa using hcategory)]
    rfl
  | @dropped f device' fs es ks failure hcategory hdevice' _ ih =>
    obtain rfl : device' = device := Option.some.inj (hdevice'.symm.trans hdevice)
    exact ih.cons hcategory rfl
  | @kept f fs es ks failure hcategory _ ih =>
    have hasks : Event.asks (filter.acceptance f ++ es) =
        (f, device, .ok true) :: Event.asks es := by
      rw [DeviceFilter.acceptance, hdevice]
      rfl
    exact ih.cons hcategory hasks

/-! ## What is left of the configuration -/

/-- Of a configuration with the same versions, a table records nothing but the default suffixes. -/
theorem TableOfContents.ofResults_config {bundle : Bundle} {config : BuildConfig}
    (h : config.assetModules = bundle.config.assetModules) (variants : List Variant)
    (assetSliceSets : List AssetSliceSet) (fused : List ModuleName) (testing : LocalTestingInfo) :
    ofResults { bundle with config } variants assetSliceSets fused testing =
      { ofResults bundle variants assetSliceSets fused testing with
        defaultTargetingValues := DefaultTargetingValue.ofConfig config } := by
  rw [ofResults, ofResults, h]

/-! ## Runs that do not ask -/

namespace Run

variable {μ ℓ π ω α β : Type}

/-- Two runs are the same, and the matcher is not asked in it. -/
def SameUnasked (x y : Run (Memory μ ℓ π ω) α) : Prop :=
  y = x ∧ Always (fun _ es _ ↦ Event.asks es = []) x

theorem composes_unasked :
    Composes fun (_ : Memory μ ℓ π ω) es _ ↦ Event.asks es = [] where
  nil _ := rfl
  append h h' := by rw [Event.asks_append, h, h', List.append_nil]

theorem congruence_sameUnasked :
    Congruence fun α (x y : Run (Memory μ ℓ π ω) α) ↦ SameUnasked x y where
  ofExcept r := ⟨rfl, always_ofExcept composes_unasked r⟩
  bind := by
    rintro α β x y f g ⟨rfl, hx⟩ hf
    obtain rfl : g = f := funext fun a ↦ (hf a).1
    exact ⟨rfl, hx.bind composes_unasked fun a ↦ (hf a).2⟩

theorem Only.unasked {kinds : List Event.Kind} {x : Run (Memory μ ℓ π ω) α} (hx : Only kinds x)
    (hk : .question ∉ kinds) : SameUnasked x x :=
  ⟨rfl, fun m ↦ Event.asks_eq_nil fun e he hkind ↦ hk (hkind ▸ (hx m).kind_mem e he)⟩

theorem unasked_modify (modifier : Modifier μ) (manifest : Manifest) (d : ModificationDescriptor) :
    SameUnasked (modify modifier manifest d : Run (Memory μ ℓ π ω) Manifest)
      (modify modifier manifest d) :=
  ⟨rfl, fun _ ↦ Event.asks_noticed _⟩

end Run

namespace Serializer

variable {μ ℓ π ω : Type}

/-- The serializer with another matcher and another configuration. -/
def withMatcher (s : Serializer μ ℓ π) (matcher : Matcher μ) (config : BuildConfig) :
    Serializer μ ℓ π :=
  { s with matcher, bundle := { s.bundle with config } }

variable (s : Serializer μ ℓ π) (matcher : Matcher μ) (config : BuildConfig) (writer : Writer ω)

theorem parallels_sameUnasked : s.Parallels (s.withMatcher matcher config)
    fun α (x y : Run (Memory μ ℓ π ω) α) ↦ Run.SameUnasked x y where
  congruence := Run.congruence_sameUnasked
  modules := rfl
  first := rfl
  modify := Run.unasked_modify s.modifier
  name f := (Run.only_name s.assigner f).unasked (by simp)
  notice n := (Run.only_notice (by simp) n : Run.Only [.notice] _).unasked (by simp)

theorem unasked_batch (mode : BuildMode) (jobs : List Job) (schedule : Schedule jobs.length) :
    Run.SameUnasked (Schedule.runAll jobs schedule (s.store writer mode) :
        Run (Memory μ ℓ π ω) (List ArtifactDescriptor))
      (Schedule.runAll jobs schedule (s.store writer mode)) :=
  (s.only_storeAll writer mode jobs schedule).unasked (by simp)

/-- Where everything is kept, no matcher decides. -/
theorem sameUnasked_keeps {filter : DeviceFilter} (h : filter.device = none) (f : Fragment) :
    Run.SameUnasked (filter.keeps s.matcher f : Run (Memory μ ℓ π ω) Bool)
      (filter.keeps matcher f) := by
  rw [DeviceFilter.keeps, DeviceFilter.keeps, h]
  exact ⟨rfl, fun _ ↦ rfl⟩

/-! ## Phases -/

section

variable (schedule : (jobs : Nat) → Schedule jobs) {mode : BuildMode} {device : Option Device}

/-- **Where ordinary fragments are not filtered, neither matcher nor configuration matter.** -/
theorem sameUnasked_writeFragments (h : mode.filtersFor device = false)
    (fragments : List Fragment) :
    Run.SameUnasked (s.writeFragments writer schedule fragments mode device :
        Run (Memory μ ℓ π ω) (List Variant))
      ((s.withMatcher matcher config).writeFragments writer schedule fragments mode device) := by
  refine (s.parallels_sameUnasked matcher config).writeFragments writer writer schedule schedule ?_
    (fun filter hfilter ↦ s.sameUnasked_keeps matcher ?_)
    (fun jobs ↦ s.unasked_batch writer mode jobs _) fragments
  · rw [DeviceFilter.ordinary_eq_everything h, DeviceFilter.ordinary_eq_everything h]
  · rw [DeviceFilter.ordinary_eq_everything h] at hfilter
    obtain rfl := Except.ok.inj hfilter
    rfl

theorem sameUnasked_writeSlices (mode : BuildMode) (slices : List Fragment) :
    Run.SameUnasked (s.writeSlices writer schedule slices mode none :
        Run (Memory μ ℓ π ω) (List AssetSliceSet))
      ((s.withMatcher matcher config).writeSlices writer schedule slices mode none) := by
  refine (s.parallels_sameUnasked matcher config).writeSlices writer writer schedule schedule rfl
    (fun filter hfilter ↦ s.sameUnasked_keeps matcher ?_)
    (fun jobs ↦ s.unasked_batch writer mode jobs _) slices
  obtain rfl := Except.ok.inj hfilter
  rfl

end

/-! ## Builds without a device -/

variable (timing : Timing) (request : BuildRequest) (m : Memory μ ℓ π ω)

variable {request} in
theorem fragmentPhase_withMatcher (h : request.mode.filtersFor request.device = false) :
    (s.withMatcher matcher config).fragmentPhase writer timing request m =
        s.fragmentPhase writer timing request m ∧
      Event.asks (s.fragmentPhase writer timing request m).events = [] := by
  obtain ⟨hsame, hunasked⟩ := s.sameUnasked_writeFragments matcher config writer timing.fragments
    h request.fragments
  exact ⟨congrFun hsame _, hunasked _⟩

variable {request} in
theorem slicePhase_withMatcher (h : request.device = none) :
    (s.withMatcher matcher config).slicePhase writer timing request m =
        s.slicePhase writer timing request m ∧
      Event.asks (s.slicePhase writer timing request m).events = [] := by
  have hfilters : request.mode.filtersFor request.device = false := by
    rw [h]
    rfl
  obtain ⟨hfragments, -⟩ := s.fragmentPhase_withMatcher matcher config writer timing m hfilters
  rw [slicePhase, slicePhase, hfragments, h]
  obtain ⟨hsame, hunasked⟩ := s.sameUnasked_writeSlices matcher config writer timing.assetSlices
    request.mode request.assetSlices
  exact ⟨congrFun hsame _, hunasked _⟩

variable {s writer timing request m} in
/-- Behind a fragment phase that failed, the matcher is not asked any more. -/
theorem asks_build_of_error {e : Error}
    (h : (s.fragmentPhase writer timing request m).result = .error e) :
    Event.asks (s.build writer timing request m).events =
      Event.asks (s.fragmentPhase writer timing request m).events := by
  rcases hfragments : s.fragmentPhase writer timing request m with ⟨r, m₁, es₁⟩
  rw [hfragments] at h
  obtain rfl : r = .error e := h
  rw [build_of_fragments_error hfragments]
  rfl

variable {s writer timing request m} in
/-- Behind a fragment phase that succeeded, the matcher is asked for the asset slices and not any
more after that. -/
theorem asks_build_of_ok {variants : List Variant}
    (h : (s.fragmentPhase writer timing request m).result = .ok variants) :
    Event.asks (s.build writer timing request m).events =
      Event.asks (s.fragmentPhase writer timing request m).events ++
        Event.asks (s.slicePhase writer timing request m).events := by
  rcases hfragments : s.fragmentPhase writer timing request m with ⟨r, m₁, es₁⟩
  rw [hfragments] at h
  obtain rfl : r = .ok variants := h
  rcases hslices : s.slicePhase writer timing request m with ⟨e | sets, m₂, es₂⟩
  · rw [build_of_slices_error hfragments hslices]
    exact Event.asks_append es₁ es₂
  · rw [← Event.asks_questions, questions_of_phases hfragments hslices, Event.asks_append,
      Event.asks_questions, Event.asks_questions]

/-- **Without a device, neither the matcher nor the default suffixes have an influence.** All that
they leave is the record of the default suffixes in the table of contents. -/
theorem build_withMatcher (hdevice : request.device = none)
    (hconfig : config.assetModules = s.bundle.config.assetModules)
    (haccepts : ∀ toc archive, (writer.publish toc archive).answer = .ok ()) :
    let out := s.build writer timing request m
    let out' := (s.withMatcher matcher config).build writer timing request m
    out'.result = out.result.map (fun toc ↦
        { toc with defaultTargetingValues := DefaultTargetingValue.ofConfig config }) ∧
      Event.asks out.events = [] ∧
      Event.questions out'.events = Event.questions out.events ∧
      Event.writes out'.events = Event.writes out.events := by
  intro out out'
  have hfilters : request.mode.filtersFor request.device = false := by
    rw [hdevice]
    rfl
  obtain ⟨hsame₁, hasks₁⟩ := s.fragmentPhase_withMatcher matcher config writer timing m hfilters
  obtain ⟨hsame₂, hasks₂⟩ := s.slicePhase_withMatcher matcher config writer timing m hdevice
  rcases hfragments : s.fragmentPhase writer timing request m with ⟨e | variants, m₁, es₁⟩
  · rw [hfragments] at hsame₁ hasks₁
    have hout : out = _ := build_of_fragments_error hfragments
    have hout' : out' = _ := build_of_fragments_error hsame₁
    rw [hout, hout']
    exact ⟨rfl, hasks₁, rfl, rfl⟩
  rw [hfragments] at hsame₁ hasks₁
  have hasks : Event.asks out.events = [] := by
    rw [asks_build_of_ok (congrArg Outcome.result hfragments), hfragments, hasks₁, hasks₂,
      List.append_nil]
  rcases hslices : s.slicePhase writer timing request m with ⟨e | sets, m₂, es₂⟩
  · rw [hslices] at hsame₂
    have hout : out = _ := build_of_slices_error hfragments hslices
    have hout' : out' = _ := build_of_slices_error hsame₁ hsame₂
    rw [hout] at hasks
    rw [hout, hout']
    exact ⟨rfl, hasks, rfl, rfl⟩
  · rw [hslices] at hsame₂
    obtain ⟨ns, hbuild⟩ := build_of_phases hfragments hslices rfl
    obtain ⟨ns', hbuild'⟩ := build_of_phases hsame₁ hsame₂ rfl
    have hresult : out.result = _ := congrArg Outcome.result hbuild
    have hresult' : out'.result = _ := congrArg Outcome.result hbuild'
    refine ⟨?_, hasks, ?_, ?_⟩
    · rw [hresult', hresult, haccepts, haccepts]
      exact congrArg Except.ok (TableOfContents.ofResults_config hconfig _ _ _ _)
    · exact (questions_of_phases hsame₁ hsame₂).trans (questions_of_phases hfragments hslices).symm
    · exact (writes_of_phases hsame₁ hsame₂).trans (writes_of_phases hfragments hslices).symm

/-! ## System builds for a device -/

section

variable {s writer timing request m}

/-- When the tier of the device is not known, the matcher is not asked for slices. -/
theorem asks_build_eq_nil {device : Device} {e : Error}
    (hfragments : Event.asks (s.fragmentPhase writer timing request m).events = [])
    (hdevice : request.device = some device)
    (hassumed : device.assumingTier s.bundle.config.effectiveStrippings = .error e) :
    Event.asks (s.build writer timing request m).events = [] := by
  have hslices : Event.asks (s.slicePhase writer timing request m).events = [] := by
    rw [slicePhase, writeSlices, hdevice, DeviceFilter.slices, DeviceFilter.ofDevice, hassumed]
    rfl
  rcases h : (s.fragmentPhase writer timing request m).result with e' | variants
  · rw [asks_build_of_error h, hfragments]
  · rw [asks_build_of_ok h, hfragments, hslices, List.append_nil]

/-- When the tier of the device is known, the matcher is asked for the slices in turn. -/
theorem askedInTurn_slicePhase {device assumed : Device} (hdevice : request.device = some device)
    (hassumed : device.assumingTier s.bundle.config.effectiveStrippings = .ok assumed) :
    Event.AskedInTurn assumed request.assetSlices
      (s.slicePhase writer timing request m).events := by
  have hfilter : DeviceFilter.slices s.bundle.config.effectiveStrippings request.device =
      .ok ⟨some assumed⟩ := by
    rw [hdevice, DeviceFilter.slices, DeviceFilter.ofDevice, hassumed]
    rfl
  obtain ⟨kept, failure, hscanned⟩ := s.scanned_writeSlices writer timing.assetSlices
    request.assetSlices request.mode hfilter (s.fragmentPhase writer timing request m).memory
  have hturn := hscanned.askedInTurn rfl
  rwa [Event.AskedInTurn, Event.asks_questions] at hturn

end

/-- **The matcher serves devices only.** Without a device a build does not ask it, so with another
one, and with any other dimensions and default suffixes, the build asks and stores the same and has
the same result up to the record of the default suffixes. In system mode a device makes no
difference to the fragment phase either. The matcher is then asked for the asset slices in turn,
provided that the fragment phase succeeds and that a tier is known for the device; otherwise it is
not asked at all. -/
theorem matcher_serves_devices_only :
    (request.device = none → config.assetModules = s.bundle.config.assetModules →
      (∀ toc archive, (writer.publish toc archive).answer = .ok ()) →
        let out := s.build writer timing request m
        let out' := (s.withMatcher matcher config).build writer timing request m
        out'.result = out.result.map (fun toc ↦
            { toc with defaultTargetingValues := DefaultTargetingValue.ofConfig config }) ∧
          Event.asks out.events = [] ∧ Event.asks out'.events = [] ∧
          Event.questions out'.events = Event.questions out.events ∧
          Event.writes out'.events = Event.writes out.events) ∧
    (∀ schedule fragments device,
      (s.withMatcher matcher config).writeFragments writer schedule fragments .system device m =
          s.writeFragments writer schedule fragments .system device m ∧
        Event.asks (s.writeFragments writer schedule fragments .system device m).events = []) ∧
    ∀ device, request.device = some device → request.mode = .system →
      let fragments := (s.fragmentPhase writer timing request m).result
      let assumed := device.assumingTier s.bundle.config.effectiveStrippings
      let out := s.build writer timing request m
      (∀ ask ∈ Event.asks out.events,
        ask.1 ∈ request.assetSlices ∧ ask.1.category = .assetSlice) ∧
      (∀ variants d, fragments = .ok variants → assumed = .ok d →
        Event.AskedInTurn d request.assetSlices out.events) ∧
      ∀ e, fragments = .error e ∨ assumed = .error e → Event.asks out.events = [] := by
  refine ⟨fun hdevice hconfig haccepts ↦ ?_, fun schedule fragments device ↦ ?_,
    fun device hdevice hmode ↦ ?_⟩
  · obtain ⟨hresult, hasks, hquestions, hwrites⟩ :=
      s.build_withMatcher matcher config writer timing request m hdevice hconfig haccepts
    refine ⟨hresult, hasks, ?_, hquestions, hwrites⟩
    rw [← Event.asks_questions, hquestions, Event.asks_questions, hasks]
  · have hfilters : BuildMode.filtersFor .system device = false := by simp [BuildMode.filtersFor]
    obtain ⟨hsame, hunasked⟩ :=
      s.sameUnasked_writeFragments matcher config writer schedule hfilters fragments
    exact ⟨congrFun hsame m, hunasked m⟩
  · intro fragments assumed out
    have hfilters : request.mode.filtersFor request.device = false := by
      simp [BuildMode.filtersFor, hmode]
    obtain ⟨-, hasks⟩ := s.fragmentPhase_withMatcher s.matcher s.bundle.config writer timing m
      hfilters
    have hturn : ∀ variants d, fragments = .ok variants → assumed = .ok d →
        Event.AskedInTurn d request.assetSlices out.events := by
      intro variants d hfragments hassumed
      rw [Event.AskedInTurn, asks_build_of_ok hfragments, hasks, List.nil_append]
      exact askedInTurn_slicePhase hdevice hassumed
    have hnone : ∀ e, fragments = .error e ∨ assumed = .error e → Event.asks out.events = [] := by
      rintro e (hfragments | hassumed)
      · rw [asks_build_of_error hfragments, hasks]
      · exact asks_build_eq_nil hasks hdevice hassumed
    refine ⟨fun ask hask ↦ ?_, hturn, hnone⟩
    rcases hfragments : fragments with e | variants
    · rw [hnone e (.inl hfragments)] at hask
      cases hask
    · rcases hassumed : assumed with e | d
      · rw [hnone e (.inr hassumed)] at hask
        cases hask
      · exact (hturn variants d hfragments hassumed).mem hask

/-- A matcher that always fails and a default tier that is no number are no trouble without a
device, and in a system build they are none before the first asset slice. -/
theorem broken_matcher_builds_for_the_fleet :
    let f (category : Category) : Fragment :=
      { Fragment.untargeted .base category (.ofPackage "p") with isMaster := true }
    let slice := Fragment.untargeted ⟨"textures"⟩ .assetSlice (.ofPackage "p")
    let s := plain { Bundle.ofPackage "p" with
      modules := [.independent .base .feature (.ofPackage "p"),
        .independent ⟨"textures"⟩ .asset (.ofPackage "p")] }
    let broken : Matcher Unit := ⟨fun _ _ ↦ .silent (.error (.io (.reported "broken")))⟩
    let config : BuildConfig := ⟨[⟨.deviceTier, false, some ⟨true, "high"⟩⟩], none⟩
    let fleet : BuildRequest := ⟨[f .split], [slice, slice], .default, none, default, []⟩
    let system : BuildRequest := ⟨[f .system], [slice, slice], .system, some default, default, []⟩
    let out := s.build Writer.echo .inOrder fleet ⟨(), (), ∅, ()⟩
    let out' := (s.withMatcher broken config).build Writer.echo .inOrder fleet ⟨(), (), ∅, ()⟩
    let halted := { s with matcher := broken }.build Writer.echo .inOrder system ⟨(), (), ∅, ()⟩
    (∃ toc, out.result = .ok toc ∧
      out'.result = .ok { toc with defaultTargetingValues := [⟨.deviceTier, "high"⟩] }) ∧
      Event.asks out'.events = [] ∧
      Event.asks halted.events = [(slice, default, .error (.io (.reported "broken")))] ∧
      Event.AskedInTurn default [slice, slice] halted.events := by
  intro f slice s broken config fleet system out out' halted
  obtain ⟨toc, htoc⟩ : ∃ toc, out.result.toOption = some toc :=
    Option.isSome_iff_exists.mp (by decide +kernel)
  have hok := toOption_eq_some_iff.mp htoc
  obtain ⟨hfleet, -, -⟩ := s.matcher_serves_devices_only broken config Writer.echo .inOrder fleet
    ⟨(), (), ∅, ()⟩
  obtain ⟨hresult, -, hasks, -, -⟩ := hfleet rfl rfl fun _ _ ↦ rfl
  obtain ⟨-, -, hsystem⟩ := matcher_serves_devices_only { s with matcher := broken } broken config
    Writer.echo .inOrder system ⟨(), (), ∅, ()⟩
  obtain ⟨-, hturn, -⟩ := hsystem default rfl rfl
  obtain ⟨variants, hvariants⟩ : ∃ variants, (fragmentPhase { s with matcher := broken } Writer.echo
      .inOrder system ⟨(), (), ∅, ()⟩).result.toOption = some variants :=
    Option.isSome_iff_exists.mp (by decide +kernel)
  refine ⟨⟨toc, hok, ?_⟩, hasks, ?_, hturn variants default (toOption_eq_some_iff.mp hvariants) rfl⟩
  · have h : out'.result = _ := hresult
    rw [h]
    change out.result.map _ = _
    rw [hok]
    rfl
  · rfl

end Serializer

end FragmentArchive
