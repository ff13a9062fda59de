import FragmentArchive.Proofs.Canonical
import FragmentArchive.Proofs.Filing
import FragmentArchive.Proofs.Storing

/-!
# Writing asset slices

Asset slices go through the same batch as ordinary fragments, but nothing is shared: each slice that
is kept is written on its own, and the answers are put together by modules in the order in which
they come. The account of the run is therefore a list, with one entry for each slice that is kept.
-/

namespace FragmentArchive

/-! ## Keeping slices -/

/-- How slices are kept: the slices, the questions that are asked about them with their answers, and
the slices that are kept. -/
inductive Fragment.Kept (filter : DeviceFilter) :
    List Fragment → List Event → List Fragment → Prop
  | nil : Kept filter [] [] []
  | dropped {f : Fragment} {device : Device} {fs : List Fragment} {es : List Event}
      {ks : List Fragment} (hcategory : f.category = .assetSlice)
      (hdevice : filter.device = some device) (hrest : Kept filter fs es ks) :
      Kept filter (f :: fs) (.asked f device (.ok false) :: es) ks
  | kept {f : Fragment} {fs : List Fragment} {es : List Event} {ks : List Fragment}
      (hcategory : f.category = .assetSlice) (hrest : Kept filter fs es ks) :
      Kept filter (f :: fs) (filter.acceptance f ++ es) (f :: ks)

/-- Slices that are kept are among the slices. -/
theorem Fragment.Kept.mem {filter : DeviceFilter} {fs ks : List Fragment} {es : List Event}
    (h : Kept filter fs es ks) {f : Fragment} (hf : f ∈ ks) : f ∈ fs := by
  induction h with
  | nil => exact hf
  | dropped _ _ _ ih => exact List.mem_cons_of_mem _ (ih hf)
  | kept _ _ ih =>
    rcases List.mem_cons.mp hf with rfl | hf
    · exact List.mem_cons_self
    · exact List.mem_cons_of_mem _ (ih hf)

/-- How slices are scanned, up to the end or to a failure: the slices, the questions that are asked
about them with their answers, the slices that are kept, and the failure, if there is one. A
fragment that is no asset slice is found out before the matcher is asked about it. -/
inductive Fragment.Scanned (filter : DeviceFilter) :
    List Fragment → List Event → List Fragment → Option Error → Prop
  | nil : Scanned filter [] [] [] none
  | foreign {f : Fragment} {fs : List Fragment} (hcategory : f.category ≠ .assetSlice) :
      Scanned filter (f :: fs) [] [] (some (.internal (.notAnAssetSlice f.category f.module)))
  | failed {f : Fragment} {device : Device} {fs : List Fragment} {e : Error}
      (hcategory : f.category = .assetSlice) (hdevice : filter.device = some device) :
      Scanned filter (f :: fs) [.asked f device (.error e)] [] (some e)
  | dropped {f : Fragment} {device : Device} {fs : List Fragment} {es : List Event}
      {ks : List Fragment} {failure : Option Error} (hcategory : f.category = .assetSlice)
      (hdevice : filter.device = some device) (hrest : Scanned filter fs es ks failure) :
      Scanned filter (f :: fs) (.asked f device (.ok false) :: es) ks failure
  | kept {f : Fragment} {fs : List Fragment} {es : List Event} {ks : List Fragment}
      {failure : Option Error} (hcategory : f.category = .assetSlice)
      (hrest : Scanned filter fs es ks failure) :
      Scanned filter (f :: fs) (filter.acceptance f ++ es) (f :: ks) failure

/-- Slices that are scanned to the end are those that are kept and those that are not. -/
theorem Fragment.Scanned.kept_of_none {filter : DeviceFilter} {fs ks : List Fragment}
    {es : List Event} {failure : Option Error} (h : Scanned filter fs es ks failure)
    (hnone : failure = none) : Kept filter fs es ks := by
  induction h with
  | nil => exact .nil
  | foreign _ => cases hnone
  | failed _ _ => cases hnone
  | dropped hcategory hdevice _ ih => exact .dropped hcategory hdevice (ih hnone)
  | kept hcategory _ ih => exact .kept hcategory (ih hnone)

/-- A scan fails when the matcher refuses an answer, or at a fragment that is no asset slice. -/
theorem Fragment.Scanned.cause {filter : DeviceFilter} {fs ks : List Fragment} {es : List Event}
    {failure : Option Error} (h : Scanned filter fs es ks failure) {e : Error}
    (hfailed : failure = some e) : Event.Refused e es ∨ ∃ f ∈ fs,
      f.category ≠ .assetSlice ∧ e = .internal (.notAnAssetSlice f.category f.module) := by
  induction h with
  | nil => cases hfailed
  | foreign hcategory =>
    exact .inr ⟨_, List.mem_cons_self, hcategory, (Option.some.inj hfailed).symm⟩
  | failed _ _ => exact .inl (by simpa [Event.refusal?] using hfailed)
  | dropped _ _ _ ih =>
    refine (ih hfailed).imp (fun hrefused ↦ Event.refused_cons.mpr (.inr hrefused)) ?_
    rintro ⟨f, hf, hforeign⟩
    exact ⟨f, List.mem_cons_of_mem _ hf, hforeign⟩
  | kept _ _ ih =>
    refine (ih hfailed).imp DeviceFilter.refused_acceptance.mpr ?_
    rintro ⟨f, hf, hforeign⟩
    exact ⟨f, List.mem_cons_of_mem _ hf, hforeign⟩

namespace AssetSliceSet

open SortedMap (valuesAt)

/-! ## Sorting by modules -/

private theorem addTo_of_mem {ms : List ModuleName} {g g' : ModuleName → List ArtifactDescriptor}
    {m : ModuleName} {d : ArtifactDescriptor} (hms : ms.Nodup) (hm : m ∈ ms)
    (hself : g' m = g m ++ [d]) (hother : ∀ m' ≠ m, g' m' = g m') :
    addTo (ms.map fun m ↦ (m, g m)) (m, d) = ms.map fun m ↦ (m, g' m) := by
  induction ms with
  | nil => cases hm
  | cons m' ms ih =>
    obtain ⟨hm', hms⟩ := List.nodup_cons.mp hms
    rw [List.map_cons, List.map_cons, addTo]
    by_cases heq : m' = m
    · subst heq
      rw [if_pos rfl, hself]
      refine congrArg (_ :: ·) (List.map_congr_left fun m'' hm'' ↦ ?_)
      rw [hother m'' fun heq ↦ hm' (heq ▸ hm'')]
    · rw [if_neg heq, ih hms ((List.mem_cons.mp hm).resolve_left (Ne.symm heq)), hother m' heq]

private theorem addTo_of_not_mem {ms : List ModuleName} {g : ModuleName → List ArtifactDescriptor}
    {m : ModuleName} {d : ArtifactDescriptor} (hm : m ∉ ms) :
    addTo (ms.map fun m ↦ (m, g m)) (m, d) = (ms.map fun m ↦ (m, g m)) ++ [(m, [d])] := by
  induction ms with
  | nil => rfl
  | cons m' ms ih =>
    rw [List.mem_cons, not_or] at hm
    rw [List.map_cons, addTo, if_neg (Ne.symm hm.1), ih hm.2]
    rfl

/-- One more descriptor is put behind the others of its module, or at the end. -/
private theorem addTo_valuesAt (written : List (ModuleName × ArtifactDescriptor))
    (entry : ModuleName × ArtifactDescriptor) :
    addTo ((written.map (·.1)).eraseDups.map fun m ↦ (m, valuesAt m written)) entry =
      ((written ++ [entry]).map (·.1)).eraseDups.map
        fun m ↦ (m, valuesAt m (written ++ [entry])) := by
  obtain ⟨m, d⟩ := entry
  have hself : valuesAt m (written ++ [(m, d)]) = valuesAt m written ++ [d] := by
    rw [SortedMap.valuesAt_append, SortedMap.valuesAt_cons_self]
    rfl
  have hother : ∀ m' ≠ m, valuesAt m' (written ++ [(m, d)]) = valuesAt m' written := by
    intro m' hm'
    rw [SortedMap.valuesAt_append, SortedMap.valuesAt_cons_of_ne (Ne.symm hm')]
    exact List.append_nil _
  rw [List.map_append, List.map_singleton, List.eraseDups_append, List.map_append,
    List.cons_removeAll]
  -- a module that was met before gets the descriptor, and a new one comes last
  by_cases hm : m ∈ written.map (·.1)
  · rw [addTo_of_mem (nodup_eraseDups _) (List.mem_eraseDups.mpr hm) hself hother,
      if_neg (by simpa using hm)]
    exact (List.append_nil _).symm
  · rw [addTo_of_not_mem (mt List.mem_eraseDups.mp hm), if_pos (by simpa using hm)]
    have hold : ∀ m' ∈ (written.map (·.1)).eraseDups,
        (m', valuesAt m' (written ++ [(m, d)])) = (m', valuesAt m' written) := by
      intro m' hm'
      rw [hother m']
      rintro rfl
      exact hm (List.mem_eraseDups.mp hm')
    rw [List.map_congr_left hold]
    change _ = _ ++ [(m, valuesAt m (written ++ [(m, d)]))]
    rw [hself, SortedMap.valuesAt_eq_nil hm, List.nil_append]

private theorem foldl_addTo (written rest : List (ModuleName × ArtifactDescriptor)) :
    rest.foldl addTo ((written.map (·.1)).eraseDups.map fun m ↦ (m, valuesAt m written)) =
      ((written ++ rest).map (·.1)).eraseDups.map fun m ↦ (m, valuesAt m (written ++ rest)) := by
  induction rest generalizing written with
  | nil => rw [List.append_nil, List.foldl_nil]
  | cons entry rest ih =>
    rw [List.foldl_cons, addTo_valuesAt, ih, List.append_assoc, List.singleton_append]

/-- **The slices by modules.** The modules come in the order in which they are first met, each with
its descriptors in their order. -/
theorem byModule_eq (written : List (ModuleName × ArtifactDescriptor)) :
    byModule written = (written.map (·.1)).eraseDups.map fun m ↦ (m, valuesAt m written) :=
  foldl_addTo [] written

variable {bundle : Bundle} {written : List (ModuleName × ArtifactDescriptor)}

/-- There is a set for each module. -/
theorem mapM_ofGroup_ok {sets : List AssetSliceSet}
    (h : (byModule written).mapM (ofGroup bundle) = .ok sets) :
    ∃ modules : List BundleModule, modules.map (·.name) = (written.map (·.1)).eraseDups ∧
      (∀ module ∈ modules, bundle.module? module.name = some module) ∧
      sets = modules.map fun module ↦ ⟨.ofModule module, valuesAt module.name written⟩ := by
  rw [byModule_eq] at h
  obtain ⟨modules, hnames, hmodules, rfl⟩ :=
    mapM_moduleNamed (fun module ds ↦ AssetSliceSet.mk (.ofModule module) ds) h
  exact ⟨modules, hnames.symm, hmodules, rfl⟩

/-- Only a module can be missing. -/
theorem mapM_ofGroup_error {e : Error}
    (h : (byModule written).mapM (ofGroup bundle) = .error e) :
    ∃ name ∈ written.map (·.1), bundle.module? name = none ∧
      e = .internal (.unknownModule name) := by
  obtain ⟨group, hgroup, hfailed⟩ := exists_of_mapM_error h
  rw [byModule_eq] at hgroup
  obtain ⟨name, hname, rfl⟩ := List.mem_map.mp hgroup
  rcases bind_eq_error_iff.mp hfailed with hmodule | ⟨module, -, hdone⟩
  · exact ⟨name, List.mem_eraseDups.mp hname, moduleNamed_error hmodule⟩
  · cases hdone

end AssetSliceSet

/-! ## Accounts -/

/-- What there is to tell about writing slices: the slices that are kept, each with its path and the
answer to it. -/
structure SliceAccount where
  filter : DeviceFilter
  stored : List (Job × ArtifactDescriptor)

namespace SliceAccount

variable (a : SliceAccount)

/-- The slices that are kept. -/
def kept : List Fragment := a.stored.map (·.1.1)

/-- The descriptors of the slices of a module. -/
def descriptorsOf (m : ModuleName) : List ArtifactDescriptor :=
  (a.stored.filter (·.1.1.module = m)).map (·.2)

end SliceAccount

namespace Serializer

variable {μ ℓ π ω : Type}

/-- An account of writing slices agrees with what happened and with what came of it. -/
structure TellsSlices (s : Serializer μ ℓ π) (schedule : (jobs : Nat) → Schedule jobs)
    (slices : List Fragment) (mode : BuildMode) (device : Option Device) (es : List Event)
    (sets : List AssetSliceSet) (a : SliceAccount) : Prop where
  filter_eq : DeviceFilter.slices s.bundle.config.effectiveStrippings device = .ok a.filter
  kept : Fragment.Kept a.filter slices (Event.questions es) a.kept
  namings : Event.namings es = a.stored.map (·.1)
  writes : Event.writes es = ((schedule a.stored.length).order a.stored).map fun p ↦
    (.forFragment mode p.1.1 p.1.2, .ok p.2)
  sets : ∃ modules : List BundleModule,
    modules.map (·.name) = (a.kept.map (·.module)).eraseDups ∧
      (∀ module ∈ modules, s.bundle.module? module.name = some module) ∧
      sets = modules.map fun module ↦ ⟨.ofModule module, a.descriptorsOf module.name⟩

variable {s : Serializer μ ℓ π} {writer : Writer ω} {schedule : (jobs : Nat) → Schedule jobs}
  {filter : DeviceFilter} {slices : List Fragment} {mode : BuildMode} {device : Option Device}
  {sets : List AssetSliceSet} {m m' : Memory μ ℓ π ω} {es : List Event}

theorem only_planSlices (s : Serializer μ ℓ π) (filter : DeviceFilter) (slices : List Fragment) :
    Run.Only [.question, .notice, .naming]
      (s.planSlices filter slices : Run (Memory μ ℓ π ω) (List Job)) := by
  induction slices with
  | nil => exact Run.only_pure []
  | cons slice slices ih =>
    rw [planSlices]
    split
    · exact Run.only_fail _
    · refine ((filter.only_keeps slice).mono (by simp)).bind fun kept ↦ ?_
      split
      · exact ((s.only_plan slice).mono (by simp)).bind fun _ ↦ ih.bind fun _ ↦ Run.only_pure _
      · exact ih

/-- Planning does not depend on the settings. -/
theorem planSlices_options (s : Serializer μ ℓ π) (options : Options) (filter : DeviceFilter)
    (slices : List Fragment) :
    ({ s with options }.planSlices filter slices : Run (Memory μ ℓ π ω) (List Job)) =
      s.planSlices filter slices := by
  induction slices with
  | nil => rfl
  | cons slice slices ih =>
    rw [planSlices, planSlices, ih]
    rfl

/-- A slice that is kept is named, and then its job comes in front of the others. -/
private theorem planned_outcome {slice : Fragment} {rest : Run (Memory μ ℓ π ω) (List Job)}
    {r : Except Error (List Job)}
    (h : (do let job ← s.plan slice; let jobs ← rest; return job :: jobs) m = ⟨r, m', es⟩) :
    ∃ path m₁ r' es', rest m₁ = ⟨r', m', es'⟩ ∧ r = r'.map ((slice, path) :: ·) ∧
      es = .named slice path :: es' := by
  let named := s.assigner.path slice m.naming
  have hplan : s.plan slice m =
      ⟨.ok (slice, named.1), { m with naming := named.2 }, [.named slice named.1]⟩ := rfl
  obtain ⟨es₁, hbehind, rfl⟩ := Run.exists_rest_of_bind hplan h
  rcases hrest : rest { m with naming := named.2 } with ⟨e | jobs, m₂, es₂⟩
  · rw [Run.bind_of_error hrest] at hbehind
    obtain ⟨rfl, rfl, rfl⟩ := Outcome.mk.inj hbehind
    exact ⟨named.1, _, _, es₂, hrest, rfl, rfl⟩
  · rw [Run.bind_of_ok hrest, Run.pure_apply, List.append_nil] at hbehind
    obtain ⟨rfl, rfl, rfl⟩ := Outcome.mk.inj hbehind
    exact ⟨named.1, _, _, es₂, hrest, rfl, rfl⟩

/-- **What comes of planning.** The slices are scanned, and those that are kept are named on the
way. -/
theorem planSlices_outcome {r : Except Error (List Job)}
    (h : s.planSlices filter slices m = ⟨r, m', es⟩) :
    ∃ failure, Fragment.Scanned filter slices (Event.questions es)
        ((Event.namings es).map (·.1)) failure ∧
      r = failure.elim (.ok (Event.namings es)) .error := by
  induction slices generalizing r m m' es with
  | nil =>
    obtain ⟨rfl, -, rfl⟩ := Outcome.mk.inj h
    exact ⟨none, .nil, rfl⟩
  | cons slice slices ih =>
    rw [planSlices] at h
    by_cases hcategory : slice.category = .assetSlice
    · rw [if_neg (not_not_intro hcategory)] at h
      rcases hkeeps : filter.keeps s.matcher slice m with ⟨e | kept, m₁, es₁⟩
      · rw [Run.bind_of_error hkeeps] at h
        obtain ⟨rfl, rfl, rfl⟩ := Outcome.mk.inj h
        obtain ⟨device, hdevice, hasked⟩ := DeviceFilter.questions_keeps_error hkeeps
        rw [hasked, (filter.only_keeps slice).namings_eq_nil (by simp) hkeeps]
        exact ⟨some e, .failed hcategory hdevice, rfl⟩
      have hunnamed := (filter.only_keeps slice).namings_eq_nil (by simp) hkeeps
      obtain ⟨es₂, hrest, rfl⟩ := Run.exists_rest_of_bind hkeeps h
      rw [Event.questions_append, Event.namings_append, hunnamed]
      rcases kept with _ | _
      · rw [if_neg Bool.false_ne_true] at hrest
        obtain ⟨failure, hscanned, hr⟩ := ih hrest
        obtain ⟨device, hdevice, hasked⟩ := DeviceFilter.questions_keeps_false hkeeps
        rw [hasked]
        exact ⟨failure, .dropped hcategory hdevice hscanned, hr⟩
      · rw [if_pos rfl] at hrest
        obtain ⟨path, m₂, r', es₃, hothers, rfl, rfl⟩ := planned_outcome hrest
        obtain ⟨failure, hscanned, rfl⟩ := ih hothers
        rw [DeviceFilter.questions_keeps_true hkeeps]
        refine ⟨failure, .kept hcategory hscanned, ?_⟩
        rcases failure with _ | e
        · rfl
        · rfl
    · rw [if_pos hcategory] at h
      obtain ⟨rfl, -, rfl⟩ := Outcome.mk.inj h
      exact ⟨_, .foreign hcategory, rfl⟩

/-- What comes of planning are jobs for the slices that are kept. -/
theorem planSlices_ok {jobs : List Job}
    (h : s.planSlices filter slices m = ⟨.ok jobs, m', es⟩) :
    Fragment.Kept filter slices (Event.questions es) (jobs.map (·.1)) ∧
      Event.namings es = jobs := by
  obtain ⟨failure, hscanned, hr⟩ := planSlices_outcome h
  rcases failure with _ | e
  · obtain rfl := Except.ok.inj hr
    exact ⟨hscanned.kept_of_none rfl, rfl⟩
  · cases hr

/-- **Writing slices can be accounted for.** -/
theorem exists_tellsSlices
    (h : s.writeSlices writer schedule slices mode device m = ⟨.ok sets, m', es⟩) :
    ∃ a, s.TellsSlices schedule slices mode device es sets a := by
  obtain ⟨filter, _, _, _, hslices, h₁, rfl⟩ := Run.bind_ok_iff.mp h
  obtain ⟨hfilter, rfl, rfl⟩ := Run.ofExcept_ok_iff.mp hslices
  obtain ⟨jobs, m₁, es₁, _, hjobs, h₂, rfl⟩ := Run.bind_ok_iff.mp h₁
  obtain ⟨written, _, es₂, _, hwritten, h₃, rfl⟩ := Run.bind_ok_iff.mp h₂
  obtain ⟨hsets, rfl, rfl⟩ := Run.ofExcept_ok_iff.mp h₃
  obtain ⟨hkept, hnamings⟩ := planSlices_ok hjobs
  have honly₁ := s.only_planSlices (ℓ := ℓ) (ω := ω) filter slices
  have honly₂ := s.only_storeAll writer mode jobs (schedule jobs.length)
  have hlength := Schedule.length_of_runAll_ok hwritten
  have hjobs' : (jobs.zip written).map (·.1) = jobs :=
    List.map_fst_zip (Nat.le_of_eq hlength.symm)
  let a : SliceAccount := ⟨filter, jobs.zip written⟩
  have hslices' : a.kept = jobs.map (·.1) := by
    rw [← hjobs', List.map_map]
    rfl
  have hmodules' : (jobs.map (·.1.module)).zip written =
      a.stored.map fun p ↦ (p.1.1.module, p.2) := by
    rw [List.zip_map_left]
    rfl
  refine ⟨a, hfilter, ?_, ?_, ?_, ?_⟩
  · rw [Event.questions_append, Event.questions_append, Event.questions_append,
      honly₂.questions_eq_nil (by simp) hwritten, hslices']
    simpa using hkept
  · rw [Event.namings_append, Event.namings_append, Event.namings_append, hnamings,
      honly₂.namings_eq_nil (by simp) hwritten, hjobs']
    simp
  · have hlength' : a.stored.length = jobs.length := by
      rw [List.length_zip, hlength, Nat.min_self]
    rw [Event.writes_append, Event.writes_append, Event.writes_append,
      honly₁.writes_eq_nil (by simp) hjobs, writes_runAll hwritten, hlength']
    exact List.append_nil _
  · rw [hmodules'] at hsets
    obtain ⟨modules, hnames, hmodules, rfl⟩ := AssetSliceSet.mapM_ofGroup_ok hsets
    refine ⟨modules, ?_, hmodules, ?_⟩
    · rw [hnames, List.map_map, SliceAccount.kept, List.map_map]
      rfl
    · refine List.map_congr_left fun module _ ↦ congrArg (AssetSliceSet.mk _) ?_
      exact SortedMap.valuesAt_map ..

/-- Every slice that is kept was given to the writer, who answered it. -/
theorem TellsSlices.mem_writes {a : SliceAccount}
    (h : s.TellsSlices schedule slices mode device es sets a) {job : Job} {d : ArtifactDescriptor}
    (hstored : (job, d) ∈ a.stored) :
    (.forFragment mode job.1 job.2, .ok d) ∈ Event.writes es := by
  rw [h.writes]
  exact List.mem_map.mpr ⟨_, (Schedule.order_perm _ _).mem_iff.mpr hstored, rfl⟩

/-- The sets list nothing but what the writer answered. -/
theorem TellsSlices.exists_call {a : SliceAccount}
    (h : s.TellsSlices schedule slices mode device es sets a) {set : AssetSliceSet}
    (hset : set ∈ sets) {d : ArtifactDescriptor} (hd : d ∈ set.descriptors) :
    ∃ call, (call, .ok d) ∈ Event.writes es := by
  obtain ⟨modules, -, -, rfl⟩ := h.sets
  obtain ⟨module, -, rfl⟩ := List.mem_map.mp hset
  obtain ⟨⟨job, d⟩, hstored, rfl⟩ := List.mem_map.mp hd
  exact ⟨_, h.mem_writes (List.mem_filter.mp hstored).1⟩

/-- The sets list an artifact for every slice that is kept. -/
theorem TellsSlices.descriptors_perm {a : SliceAccount}
    (h : s.TellsSlices schedule slices mode device es sets a) :
    (sets.flatMap (·.descriptors)).Perm (a.stored.map (·.2)) := by
  obtain ⟨modules, hnames, -, rfl⟩ := h.sets
  have hparts := flatMap_filter_perm (f := fun p : Job × ArtifactDescriptor ↦ p.1.1.module)
    (nodup_eraseDups (a.kept.map (·.module))) fun p (hp : p ∈ a.stored) ↦
      List.mem_eraseDups.mpr (List.mem_map_of_mem (List.mem_map_of_mem hp))
  rw [← hnames, List.flatMap_map] at hparts
  rw [List.flatMap_map]
  have hmap := hparts.map (·.2)
  rwa [List.map_flatMap] at hmap

/-! ## Failures -/

variable (s writer schedule slices mode device)

theorem only_writeSlices : Run.Only [.question, .notice, .naming, .write, .hearing]
    (s.writeSlices writer schedule slices mode device :
      Run (Memory μ ℓ π ω) (List AssetSliceSet)) := by
  refine (Run.only_ofExcept _).bind fun filter ↦ ?_
  refine ((s.only_planSlices filter slices).mono (by simp)).bind fun jobs ↦ ?_
  refine ((s.only_storeAll writer mode _ _).mono (by simp)).bind ?_
  exact fun _ ↦ Run.only_ofExcept _

variable {s device} in
/-- Whatever comes of the slices, they are scanned until something fails. -/
theorem scanned_writeSlices
    (hfilter : DeviceFilter.slices s.bundle.config.effectiveStrippings device = .ok filter)
    (m : Memory μ ℓ π ω) :
    ∃ kept failure, Fragment.Scanned filter slices
      (Event.questions (s.writeSlices writer schedule slices mode device m).events) kept
        failure := by
  have hmade : Run.ofExcept (DeviceFilter.slices s.bundle.config.effectiveStrippings device) m =
      ⟨.ok filter, m, []⟩ := Run.ofExcept_ok_iff.mpr ⟨hfilter, rfl, rfl⟩
  rcases hplan : s.planSlices filter slices m with ⟨r, m', es⟩
  obtain ⟨failure, hscanned, -⟩ := planSlices_outcome hplan
  refine ⟨(Event.namings es).map (·.1), failure, ?_⟩
  rw [writeSlices, Run.bind_of_ok hmade, List.nil_append, Run.questions_bind_of_only
    (fun jobs ↦ (s.only_storeAll writer mode jobs _).bind fun _ ↦ Run.only_ofExcept _) (by simp),
    hplan]
  exact hscanned

theorem writesInBatch_writeSlices :
    s.WritesInBatch writer mode (s.writeSlices writer schedule slices mode device) := by
  refine .bind (Run.only_ofExcept _ : Run.Only [] _) (by simp) (by simp) fun filter ↦ ?_
  exact writesInBatch_of_plan (s.only_planSlices filter slices) (by simp)
    fun _ _ _ _ h ↦ (planSlices_ok h).2

/-- Of the settings, only how talkative the run is shows when slices are written. -/
theorem writeSlices_options {options : Options} (h : options.verbose = s.options.verbose) :
    ({ s with options }.writeSlices writer schedule slices mode device :
        Run (Memory μ ℓ π ω) (List AssetSliceSet)) =
      s.writeSlices writer schedule slices mode device := by
  have hstore : ({ s with options }.store writer mode : Job →
      Run (Memory μ ℓ π ω) ArtifactDescriptor) = s.store writer mode := by
    funext job
    simp only [store, h]
  rw [writeSlices, writeSlices]
  refine bind_congr fun filter ↦ ?_
  rw [planSlices_options, hstore]

end Serializer

end FragmentArchive
