import FragmentArchive.Proofs.Barrier
import FragmentArchive.Proofs.DefaultTier
import FragmentArchive.Proofs.Pipelines

/-!
# Asset slices, one after the other

With a single worker everything about asset slices happens in one order, that of the input. First
the slices are scanned; a slice that does not belong there, or about which the matcher does not
answer, ends the run before anything is written. Then the slices that are kept are written, each on
its own and equal ones again, up to the first one that is refused. In the end the answers are sorted
into a set for each module.

## Merging

Nothing is lost when the answers are sorted, because they can be put together again. The modules of
the slices say where each answer has gone: whoever takes, slice by slice, the next descriptor out of
the set of its module gets back the answers in their order, and leaves nothing behind in the sets.
-/

namespace FragmentArchive

/-- The request for an asset slice. -/
def WriteCall.forSlice (job : Job) : WriteCall := ⟨.assetSlice, job.1, some job.2⟩

theorem WriteCall.forFragment_eq_forSlice {mode : BuildMode} {job : Job}
    (h : job.1.category = .assetSlice) : forFragment mode job.1 job.2 = forSlice job := by
  rw [forFragment, h]
  rfl

/-! ## Merging sets -/

namespace AssetSliceSet

open SortedMap (valuesAt)

/-- Takes the first descriptor out of the set of a module. -/
def takeFrom (name : ModuleName) :
    List AssetSliceSet → Option (ArtifactDescriptor × List AssetSliceSet)
  | [] => none
  | set :: sets =>
    if set.metadata.name = name.text then
      match set.descriptors with
      | [] => none
      | d :: ds => some (d, { set with descriptors := ds } :: sets)
    else (takeFrom name sets).map fun taken ↦ (taken.1, set :: taken.2)

/-- Takes the descriptors for slices of the given modules out of their sets, one after the other.
Nothing may be left over. -/
def merge : List ModuleName → List AssetSliceSet → Option (List ArtifactDescriptor)
  | [], sets => if sets.all (·.descriptors.isEmpty) then some [] else none
  | name :: names, sets => do
    let (d, sets) ← takeFrom name sets
    let ds ← merge names sets
    return d :: ds

variable {modules : List BundleModule} {name : ModuleName} {d : ArtifactDescriptor}

private theorem takeFrom_cons_self {set : AssetSliceSet} {sets : List AssetSliceSet}
    {ds : List ArtifactDescriptor} (hname : set.metadata.name = name.text)
    (hds : set.descriptors = d :: ds) :
    takeFrom name (set :: sets) = some (d, { set with descriptors := ds } :: sets) := by
  rw [takeFrom, if_pos hname, hds]

private theorem takeFrom_cons_of_ne {set : AssetSliceSet} (hname : set.metadata.name ≠ name.text)
    (sets : List AssetSliceSet) : takeFrom name (set :: sets) =
      (takeFrom name sets).map fun taken ↦ (taken.1, set :: taken.2) := by
  rw [takeFrom, if_neg hname]

/-- What is taken from the set of a module is missing there, and the other sets stay as they are. -/
private theorem takeFrom_eq (g g' : ModuleName → List ArtifactDescriptor)
    (hmodules : (modules.map (·.name)).Nodup) (hname : name ∈ modules.map (·.name))
    (hself : g name = d :: g' name) (hother : ∀ name' ≠ name, g name' = g' name') :
    takeFrom name (modules.map fun module ↦ ⟨.ofModule module, g module.name⟩) =
      some (d, modules.map fun module ↦ ⟨.ofModule module, g' module.name⟩) := by
  induction modules with
  | nil => cases hname
  | cons module modules ih =>
    obtain ⟨hmodule, hmodules⟩ := List.nodup_cons.mp hmodules
    rw [List.map_cons, List.map_cons]
    by_cases heq : module.name = name
    · subst heq
      have hrest : ∀ module' ∈ modules, g module'.name = g' module'.name := by
        intro module' hmem
        exact hother _ fun heq ↦ hmodule (List.mem_map.mpr ⟨module', hmem, heq⟩)
      rw [takeFrom_cons_self rfl hself, List.map_congr_left fun module' hmem ↦ by
        rw [hrest module' hmem]]
    · rw [takeFrom_cons_of_ne (mt ModuleName.text_inj.mp heq),
        ih hmodules ((List.mem_cons.mp hname).resolve_left (Ne.symm heq)), hother _ heq]
      rfl

/-- **What was sorted by modules can be put together again.** -/
theorem merge_valuesAt (entries : List (ModuleName × ArtifactDescriptor))
    (hmodules : (modules.map (·.name)).Nodup)
    (hentries : ∀ e ∈ entries, e.1 ∈ modules.map (·.name)) :
    merge (entries.map (·.1))
        (modules.map fun module ↦ ⟨.ofModule module, valuesAt module.name entries⟩) =
      some (entries.map (·.2)) := by
  induction entries with
  | nil =>
    rw [List.map_nil, merge, if_pos]
    · rfl
    · rw [List.all_map, List.all_eq_true]
      exact fun _ _ ↦ rfl
  | cons entry entries ih =>
    obtain ⟨name, d⟩ := entry
    have htake := takeFrom_eq (fun name' ↦ valuesAt name' ((name, d) :: entries))
      (fun name' ↦ valuesAt name' entries) hmodules (hentries _ List.mem_cons_self)
      (SortedMap.valuesAt_cons_self name d entries)
      fun name' hne ↦ SortedMap.valuesAt_cons_of_ne (Ne.symm hne) d entries
    rw [List.map_cons, merge, htake]
    dsimp only [Option.bind_eq_bind, Option.bind_some]
    rw [ih fun e he ↦ hentries e (List.mem_cons_of_mem _ he)]
    rfl

end AssetSliceSet

/-! ## Scanning -/

/-- About slices nobody but the matcher is asked. -/
theorem Fragment.Scanned.asked {filter : DeviceFilter} {fs ks : List Fragment} {es : List Event}
    {failure : Option Error} (h : Scanned filter fs es ks failure) {event : Event}
    (hevent : event ∈ es) : ∃ f device answer, event = .asked f device answer := by
  have hacceptance : ∀ f, ∀ event ∈ filter.acceptance f, ∃ g device answer,
      event = .asked g device answer := by
    intro f event hevent
    rw [DeviceFilter.acceptance] at hevent
    split at hevent
    · exact ⟨_, _, _, List.mem_singleton.mp hevent⟩
    · cases hevent
  induction h with
  | nil => cases hevent
  | foreign _ => cases hevent
  | failed _ _ => exact ⟨_, _, _, List.mem_singleton.mp hevent⟩
  | dropped _ _ _ ih =>
    rcases List.mem_cons.mp hevent with rfl | hevent
    · exact ⟨_, _, _, rfl⟩
    · exact ih hevent
  | kept _ _ ih =>
    rcases List.mem_append.mp hevent with hevent | hevent
    · exact hacceptance _ _ hevent
    · exact ih hevent

namespace Serializer

variable {μ ℓ π ω : Type}

/-! ## Writing -/

/-- How writing slices ends, after they have been named: the jobs, the requests to the writer with
their answers, and the result.

Either the writer refuses a slice, and those behind it are not written. Or everything is written,
and the bundle lacks the module of some slice. Or there is a set for each module, in the order in
which the modules are first met, with the answers to its slices in their order. -/
inductive SlicesEnd (bundle : Bundle) : List Job →
    List (WriteCall × Except Error ArtifactDescriptor) → Except Error (List AssetSliceSet) → Prop
  | refused (stored : List (Job × ArtifactDescriptor)) (job : Job) (rest : List Job) (e : Error) :
      SlicesEnd bundle (stored.map (·.1) ++ job :: rest)
        ((stored.map fun p ↦ (.forSlice p.1, .ok p.2)) ++ [(.forSlice job, .error e)])
        (.error (.whileWriting job.2 e))
  | missing (stored : List (Job × ArtifactDescriptor)) {p : Job × ArtifactDescriptor}
      (hp : p ∈ stored) (hmodule : bundle.module? p.1.1.module = none) :
      SlicesEnd bundle (stored.map (·.1)) (stored.map fun p ↦ (.forSlice p.1, .ok p.2))
        (.error (.internal (.unknownModule p.1.1.module)))
  | filed (stored : List (Job × ArtifactDescriptor)) {modules : List BundleModule}
      (hmodules : modules.map (·.name) = (stored.map (·.1.1.module)).eraseDups)
      (hbundle : ∀ module ∈ modules, bundle.module? module.name = some module) :
      SlicesEnd bundle (stored.map (·.1)) (stored.map fun p ↦ (.forSlice p.1, .ok p.2))
        (.ok (modules.map fun module ↦
          ⟨.ofModule module, (stored.filter (·.1.1.module = module.name)).map (·.2)⟩))

/-- The sets can be merged to what the writer answered. -/
theorem SlicesEnd.merge_eq {bundle : Bundle} {jobs : List Job}
    {ws : List (WriteCall × Except Error ArtifactDescriptor)}
    {r : Except Error (List AssetSliceSet)} (h : SlicesEnd bundle jobs ws r)
    {sets : List AssetSliceSet} (hr : r = .ok sets) :
    ∃ ds, ws.map (·.2) = ds.map .ok ∧
      AssetSliceSet.merge (jobs.map (·.1.module)) sets = some ds := by
  cases h with
  | refused stored job rest e => cases hr
  | missing stored hp hmodule => cases hr
  | @filed stored modules hmodules hbundle =>
    obtain rfl := Except.ok.inj hr
    refine ⟨stored.map (·.2), by rw [List.map_map, List.map_map]; rfl, ?_⟩
    have hmerge := AssetSliceSet.merge_valuesAt
      (stored.map fun p ↦ (p.1.1.module, p.2)) (hmodules ▸ nodup_eraseDups _) ?_
    · rw [List.map_map, List.map_map] at hmerge
      rw [List.map_map]
      refine Eq.trans (congrArg _ (List.map_congr_left fun module _ ↦ ?_)) hmerge
      rw [SortedMap.valuesAt_map]
    · intro e he
      obtain ⟨p, hp, rfl⟩ := List.mem_map.mp he
      rw [hmodules, List.mem_eraseDups]
      exact List.mem_map_of_mem hp

/-- Jobs that are done one after the other are all stored, or those in front of one that is
refused. -/
private theorem each_store (s : Serializer μ ℓ π) (writer : Writer ω) (mode : BuildMode)
    (jobs : List Job) (m : Memory μ ℓ π ω) :
    ∃ stored : List (Job × ArtifactDescriptor),
      (jobs = stored.map (·.1) ∧
        (Run.each (s.store writer mode) jobs m).result = .ok (stored.map (·.2)) ∧
        Event.writes (Run.each (s.store writer mode) jobs m).events =
          stored.map fun p ↦ (.forFragment mode p.1.1 p.1.2, .ok p.2)) ∨
      ∃ job rest e, jobs = stored.map (·.1) ++ job :: rest ∧
        (Run.each (s.store writer mode) jobs m).result = .error (.whileWriting job.2 e) ∧
        Event.writes (Run.each (s.store writer mode) jobs m).events =
          (stored.map fun p ↦ (.forFragment mode p.1.1 p.1.2, .ok p.2)) ++
            [(.forFragment mode job.1 job.2, .error e)] := by
  induction jobs generalizing m with
  | nil => exact ⟨[], .inl ⟨rfl, rfl, rfl⟩⟩
  | cons job jobs ih =>
    obtain ⟨answer, m₁, es, hstore, hwrites⟩ : ∃ answer m₁ es,
        s.store writer mode job m = ⟨answer.mapError (.whileWriting job.2), m₁, es⟩ ∧
          Event.writes es = [(.forFragment mode job.1 job.2, answer)] := by
      obtain ⟨listener, es, h⟩ := s.store_apply writer mode job m rfl
      exact ⟨_, _, es, h⟩
    rw [Run.each]
    cases answer with
    | error e =>
      rw [Run.bind_of_error hstore]
      exact ⟨[], .inr ⟨job, jobs, e, rfl, rfl, hwrites⟩⟩
    | ok d =>
      obtain ⟨stored, hrest⟩ := ih m₁
      rcases hall : Run.each (s.store writer mode) jobs m₁ with ⟨r, m', es'⟩
      rw [hall] at hrest
      rw [Run.bind_of_ok hstore, Event.writes_append, hwrites]
      refine ⟨(job, d) :: stored, hrest.imp ?_ ?_⟩
      · rintro ⟨rfl, rfl, hes'⟩
        rw [Run.bind_of_ok hall, Run.pure_apply, List.append_nil]
        exact ⟨rfl, rfl, congrArg (_ :: ·) hes'⟩
      · rintro ⟨job', rest, e, rfl, rfl, hes'⟩
        rw [Run.bind_of_error hall]
        exact ⟨job', rest, e, rfl, rfl, congrArg (_ :: ·) hes'⟩

variable {s : Serializer μ ℓ π} {writer : Writer ω} {mode : BuildMode} {device : Option Device}
  {slices : List Fragment} {filter : DeviceFilter} {m m' : Memory μ ℓ π ω} {es : List Event}
  {r : Except Error (List AssetSliceSet)}

/-- Asset slices are requested as such in every mode. -/
private theorem slicesEnd_of_each {jobs : List Job}
    (hjobs : ∀ job ∈ jobs, job.1.category = .assetSlice)
    (h : (do
      let written ← Run.each (s.store writer mode) jobs
      Run.ofExcept ((AssetSliceSet.byModule ((jobs.map (·.1.module)).zip written)).mapM
        (AssetSliceSet.ofGroup s.bundle)) : Run (Memory μ ℓ π ω) _) m = ⟨r, m', es⟩) :
    SlicesEnd s.bundle jobs (Event.writes es) r := by
  have hcalls : ∀ stored : List (Job × ArtifactDescriptor), (∀ p ∈ stored, p.1 ∈ jobs) →
      (stored.map fun p ↦ (WriteCall.forFragment mode p.1.1 p.1.2, Except.ok p.2)) =
        stored.map fun p ↦ ((.forSlice p.1, .ok p.2) :
          WriteCall × Except Error ArtifactDescriptor) := by
    intro stored hstored
    refine List.map_congr_left fun p hp ↦ ?_
    rw [WriteCall.forFragment_eq_forSlice (hjobs p.1 (hstored p hp))]
  obtain ⟨stored, hend⟩ := each_store s writer mode jobs m
  rcases heach : Run.each (s.store writer mode) jobs m with ⟨written, m₁, es₁⟩
  rw [heach] at hend
  rcases hend with ⟨rfl, rfl, hwrites⟩ | ⟨job, rest, e, rfl, rfl, hwrites⟩
  · rw [Run.bind_of_ok heach] at h
    obtain ⟨hr, -, rfl⟩ := Outcome.mk.inj h
    have hentries : ((stored.map (·.1)).map (·.1.module)).zip (stored.map (·.2)) =
        stored.map fun p ↦ (p.1.1.module, p.2) := by
      rw [List.map_map, List.zip_map']
      rfl
    rw [hentries] at hr
    dsimp only [Run.ofExcept] at hr hwrites ⊢
    rw [List.append_nil, hwrites, hcalls stored fun p hp ↦ List.mem_map_of_mem hp]
    cases hsets : (AssetSliceSet.byModule (stored.map fun p ↦ (p.1.1.module, p.2))).mapM
      (AssetSliceSet.ofGroup s.bundle) with
    | error e =>
      obtain ⟨name, hname, hmissing, rfl⟩ := AssetSliceSet.mapM_ofGroup_error hsets
      rw [List.map_map] at hname
      obtain ⟨p, hp, rfl⟩ := List.mem_map.mp hname
      rw [← hr, hsets]
      exact .missing stored hp hmissing
    | ok sets =>
      obtain ⟨modules, hnames, hmodules, rfl⟩ := AssetSliceSet.mapM_ofGroup_ok hsets
      rw [← hr, hsets]
      simp only [SortedMap.valuesAt_map]
      refine .filed stored ?_ hmodules
      rw [hnames, List.map_map]
      rfl
  · rw [Run.bind_of_error heach] at h
    obtain ⟨rfl, -, rfl⟩ := Outcome.mk.inj h
    dsimp only at hwrites
    rw [hwrites, hcalls stored fun p hp ↦ List.mem_append_left _ (List.mem_map_of_mem hp),
      WriteCall.forFragment_eq_forSlice (hjobs job (by simp))]
    exact .refused stored job rest e

/-- A run whose filter could be made scans the slices, and then writes those that are kept. -/
private theorem writeSlices_inOrder
    (hfilter : DeviceFilter.slices s.bundle.config.effectiveStrippings device = .ok filter)
    (h : s.writeSlices writer Schedule.inOrder slices mode device m = ⟨r, m', es⟩) :
    ∃ failure, Fragment.Scanned filter slices (Event.questions es) ((Event.namings es).map (·.1))
        failure ∧
      (∀ e, failure = some e → r = .error e ∧ Event.writes es = []) ∧
      (failure = none → SlicesEnd s.bundle (Event.namings es) (Event.writes es) r) := by
  have hmade : Run.ofExcept (DeviceFilter.slices s.bundle.config.effectiveStrippings device) m =
      ⟨.ok filter, m, []⟩ := Run.ofExcept_ok_iff.mpr ⟨hfilter, rfl, rfl⟩
  obtain ⟨_, h', rfl⟩ := Run.exists_rest_of_bind hmade h
  rcases hplan : s.planSlices filter slices m with ⟨r₁, m₁, es₁⟩
  obtain ⟨failure, hscanned, rfl⟩ := planSlices_outcome hplan
  have hunwritten := (s.only_planSlices filter slices).writes_eq_nil (by simp) hplan
  cases failure with
  | some e =>
    rw [Run.bind_of_error hplan] at h'
    obtain ⟨rfl, -, rfl⟩ := Outcome.mk.inj h'
    refine ⟨some e, hscanned, fun e' he' ↦ ?_, nofun⟩
    rw [Option.some.inj he']
    exact ⟨rfl, hunwritten⟩
  | none =>
    obtain ⟨es₂, hbatch, rfl⟩ := Run.exists_rest_of_bind hplan h'
    -- behind the scan nothing is asked and nothing is named
    have honly : Run.Only [.write, .hearing, .notice] (Run.each (s.store writer mode)
        (Event.namings es₁) >>= fun written ↦ Run.ofExcept ((AssetSliceSet.byModule
          (((Event.namings es₁).map (·.1.module)).zip written)).mapM
            (AssetSliceSet.ofGroup s.bundle))) :=
      (Run.Only.each (s.only_store writer mode) _).bind fun _ ↦ Run.only_ofExcept _
    rw [Schedule.runAll_inOrder] at hbatch
    have hjobs : ∀ job ∈ Event.namings es₁, job.1.category = .assetSlice := by
      intro job hjob
      exact of_decide_eq_true
        ((hscanned.kept_of_none rfl).isSlice job.1 (List.mem_map_of_mem hjob))
    have hend := slicesEnd_of_each hjobs hbatch
    rw [Event.questions_append, honly.questions_eq_nil (by simp) hbatch, Event.namings_append,
      honly.namings_eq_nil (by simp) hbatch, Event.writes_append, hunwritten, List.append_nil,
      List.append_nil, List.nil_append]
    exact ⟨none, hscanned, nofun, fun _ ↦ hend⟩

/-- **Asset slices, one after the other.** A default tier that cannot be read is reported before a
slice is looked at. Otherwise the slices are scanned, and those that are kept are named on the way.
A failure of the scan is the result, and nothing is written then. A scan that comes to its end is
followed by the writing of the slices that are kept. The modifier is never asked; and sets that come
of a run can be merged to what the writer answered. -/
theorem writes_slices_one_after_the_other (s : Serializer μ ℓ π) (writer : Writer ω)
    (slices : List Fragment) (mode : BuildMode) (device : Option Device) (m : Memory μ ℓ π ω) :
    let out := s.writeSlices writer Schedule.inOrder slices mode device m
    (∀ d e, device = some d → d.MissesTier s.bundle.config.effectiveStrippings e →
      out = ⟨.error e, m, []⟩) ∧
    ((∀ d e, device = some d → ¬d.MissesTier s.bundle.config.effectiveStrippings e) →
      ∃ filter failure,
        DeviceFilter.slices s.bundle.config.effectiveStrippings device = .ok filter ∧
        Fragment.Scanned filter slices (Event.questions out.events)
          ((Event.namings out.events).map (·.1)) failure ∧
        (∀ e, failure = some e → out.result = .error e ∧ Event.writes out.events = []) ∧
        (failure = none →
          SlicesEnd s.bundle (Event.namings out.events) (Event.writes out.events) out.result)) ∧
    (∀ manifest descriptor answer, .modified manifest descriptor answer ∉ out.events) ∧
    ∀ sets, out.result = .ok sets → ∃ ds, (Event.writes out.events).map (·.2) = ds.map .ok ∧
      AssetSliceSet.merge ((Event.namings out.events).map (·.1.module)) sets = some ds := by
  intro out
  cases hfilter : DeviceFilter.slices s.bundle.config.effectiveStrippings device with
  | error e =>
    obtain ⟨d, hdevice, htier⟩ := DeviceFilter.slices_eq_error_iff.mp hfilter
    have hout : out = ⟨.error e, m, []⟩ :=
      Run.bind_of_error (Run.ofExcept_error_iff.mpr ⟨hfilter, rfl, rfl⟩)
    rw [hout]
    refine ⟨fun d' e' hdevice' htier' ↦ ?_, fun htiered ↦ absurd htier (htiered d e hdevice),
      fun _ _ _ ↦ List.not_mem_nil, fun sets hsets ↦ ?_⟩
    · have hfilter' := DeviceFilter.slices_eq_error_iff.mpr ⟨d', hdevice', htier'⟩
      rw [Except.error.inj (hfilter.symm.trans hfilter')]
    · cases hsets
  | ok filter =>
    obtain ⟨failure, hscanned, hfails, hend⟩ :=
      writeSlices_inOrder hfilter (show out = ⟨out.result, out.memory, out.events⟩ from rfl)
    refine ⟨fun d e hdevice htier ↦ ?_, fun _ ↦ ⟨filter, failure, rfl, hscanned, hfails, hend⟩,
      fun manifest descriptor answer hmem ↦ ?_, fun sets hsets ↦ ?_⟩
    · cases hfilter.symm.trans (DeviceFilter.slices_eq_error_iff.mpr ⟨d, hdevice, htier⟩)
    · obtain ⟨f, device, answer, heq⟩ :=
        hscanned.asked (List.mem_filter.mpr ⟨hmem, decide_eq_true rfl⟩)
      cases heq
    · cases failure with
      | none => exact (hend rfl).merge_eq hsets
      | some e => cases hsets.symm.trans (hfails e rfl).1

/-- Slices of two modules in turn, the third of them not accepted and the fourth equal to the first:
there are two sets, and they can be merged. -/
theorem slices_in_turn_are_merged :
    let slice (name : ModuleName) : Fragment := .untargeted name .assetSlice (.ofPackage "p")
    let s := { plain { Bundle.ofPackage "p" with
        modules := [.independent ⟨"b"⟩ .asset (.ofPackage "p"),
          .independent ⟨"a"⟩ .asset (.ofPackage "p")] } with
      matcher := ⟨fun f _ ↦ .silent (.ok !f.isMaster)⟩ }
    let out := s.writeSlices Writer.echo Schedule.inOrder
      [slice ⟨"a"⟩, slice ⟨"b"⟩, { slice ⟨"b"⟩ with isMaster := true }, slice ⟨"a"⟩] .default
      (some default) ⟨(), (), ∅, ()⟩
    ∃ sets ds, out.result = .ok sets ∧ sets.map (·.metadata.name) = ["a", "b"] ∧
      sets.map (·.descriptors.length) = [2, 1] ∧
      (Event.writes out.events).map (·.2) = ds.map .ok ∧
      AssetSliceSet.merge [⟨"a"⟩, ⟨"b"⟩, ⟨"a"⟩] sets = some ds := by
  intro slice s out
  obtain ⟨sets, hsets⟩ : ∃ sets, out.result = .ok sets := ⟨_, rfl⟩
  obtain ⟨-, -, -, hmerge⟩ := writes_slices_one_after_the_other s Writer.echo
    [slice ⟨"a"⟩, slice ⟨"b"⟩, { slice ⟨"b"⟩ with isMaster := true }, slice ⟨"a"⟩] .default
    (some default) ⟨(), (), ∅, ()⟩
  obtain ⟨ds, hanswers, hmerged⟩ := hmerge sets hsets
  have hshape : out.result.toOption.map (fun sets ↦
      (sets.map (·.metadata.name), sets.map (·.descriptors.length))) =
        some (["a", "b"], [2, 1]) := by
    decide +kernel
  rw [hsets] at hshape
  obtain ⟨hnames, hlengths⟩ := Prod.mk.inj (Option.some.inj hshape)
  have hmodules : (Event.namings out.events).map (·.1.module) = [⟨"a"⟩, ⟨"b"⟩, ⟨"a"⟩] := by
    decide +kernel
  rw [← hmodules]
  exact ⟨sets, ds, hsets, hnames, hlengths, hanswers, hmerged⟩

end Serializer

end FragmentArchive
