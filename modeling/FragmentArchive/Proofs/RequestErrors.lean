import FragmentArchive.Proofs.CommitPoint
import FragmentArchive.Proofs.Examination
import FragmentArchive.Proofs.Numbering

/-!
# Errors that are not the writer's

A run can fail although the writer refuses nothing. The reasons are few: a phase is not admitted, a
collaborator refuses a question, or the bundle lacks a module. They are looked for phase by phase,
and within a phase in two places. Everything but the missing modules is settled while the jobs of
the phase are put together, so then nothing of the phase is written. That a module is missing is
found when the answers of the writer are filed, so then everything of the phase is.

The phases follow each other, and the second one is not looked at before the first one is done. An
error in the asset slices therefore leaves the ordinary artifacts behind, but never a table of
contents.
-/

namespace FragmentArchive

/-! ## What can be wrong with a request -/

/-- The bundle does not have the module of some fragment. -/
def Bundle.Misses (bundle : Bundle) (fragments : List Fragment) (e : Error) : Prop :=
  ∃ f ∈ fragments, bundle.module? f.module = none ∧ e = .internal (.unknownModule f.module)

/-- Everything that was named was given to the writer. -/
def Event.AllWritten (mode : BuildMode) (es : List Event) : Prop :=
  ((writes es).map (·.1)).Perm ((namings es).map fun job ↦ .forFragment mode job.1 job.2)

theorem Event.AllWritten.append {mode : BuildMode} {es es' : List Event} (h : AllWritten mode es)
    (h' : AllWritten mode es') : AllWritten mode (es ++ es') := by
  rw [AllWritten, writes_append, namings_append, List.map_append, List.map_append]
  exact List.Perm.append h h'

namespace Serializer

variable {μ ℓ π ω : Type}

/-- Why there are no jobs for ordinary fragments. -/
inductive FragmentFault (s : Serializer μ ℓ π) (fragments : List Fragment) (mode : BuildMode)
    (device : Option Device) (es : List Event) (e : Error) : Prop
  | mode (h : mode.check fragments = .error e)
  | tier (h : DeviceFilter.ordinary s.bundle.config.effectiveStrippings mode device = .error e)
  | numbers (h : VariantKey.numbering (fragments.map (·.key)) s.options.firstVariantNumber =
      .error e)
  | refused (h : Event.Refused e es)

/-- Why there are no jobs for asset slices. -/
inductive SliceFault (s : Serializer μ ℓ π) (slices : List Fragment) (device : Option Device)
    (es : List Event) (e : Error) : Prop
  | tier (h : DeviceFilter.slices s.bundle.config.effectiveStrippings device = .error e)
  | category {slice : Fragment} (hslice : slice ∈ slices) (hcategory : slice.category ≠ .assetSlice)
      (h : e = .internal (.notAnAssetSlice slice.category slice.module))
  | refused (h : Event.Refused e es)

variable {s : Serializer μ ℓ π} {writer : Writer ω} {schedule : (jobs : Nat) → Schedule jobs}
  {mode : BuildMode} {device : Option Device} {m m' : Memory μ ℓ π ω} {es : List Event} {e : Error}

/-! ## The batch -/

/-- When nothing is refused, a batch does not fail. -/
theorem runAll_of_answered {jobs : List Job} {schedule : Schedule jobs.length}
    {r : Except Error (List ArtifactDescriptor)}
    (h : Schedule.runAll jobs schedule (s.store writer mode) m = ⟨r, m', es⟩)
    (hanswered : ∀ w ∈ Event.writes es, ∃ d, w.2 = .ok d) : ∃ written, r = .ok written := by
  obtain ⟨log, hperf, rfl, -, hall⟩ := Schedule.runAll_outcome h
  rcases hall with ⟨written, hr, -, -, -⟩ | ⟨entry, hentry, error, -, hresult, -⟩
  · exact ⟨written, hr⟩
  · obtain ⟨job, m₁, -, houtcome⟩ := hperf.outcome hentry
    rw [houtcome] at hresult
    obtain ⟨e', hwrites, -⟩ := s.writes_of_store_error writer mode job m₁ hresult
    have hmem : (.forFragment mode job.1 job.2, .error e') ∈
        Event.writes (Schedule.Log.events log) := by
      rw [Schedule.Log.events, Event.writes, List.filterMap_flatMap]
      refine List.mem_flatMap.mpr ⟨entry, hentry, ?_⟩
      rw [houtcome, ← Event.writes, hwrites]
      exact List.mem_singleton_self _
    obtain ⟨d, hd⟩ := hanswered _ hmem
    cases hd

/-- When a batch succeeds, every job was given to the writer. -/
theorem writes_runAll_perm {jobs : List Job} {schedule : Schedule jobs.length}
    {written : List ArtifactDescriptor}
    (h : Schedule.runAll jobs schedule (s.store writer mode) m = ⟨.ok written, m', es⟩) :
    ((Event.writes es).map (·.1)).Perm (jobs.map fun job ↦ .forFragment mode job.1 job.2) := by
  have hlength := Schedule.length_of_runAll_ok h
  have hjobs : (jobs.zip written).map (·.1) = jobs :=
    List.map_fst_zip (Nat.le_of_eq hlength.symm)
  have hzip : (jobs.zip written).length = jobs.length := by
    rw [List.length_zip, hlength, Nat.min_self]
  have hperm := (Schedule.order_perm_of_length hzip schedule).map fun p ↦
    WriteCall.forFragment mode p.1.1 p.1.2
  rw [writes_runAll h, List.map_map]
  refine hperm.trans (.of_eq ?_)
  rw [← congrArg (List.map _) hjobs, List.map_map]
  rfl

/-! ## The phases -/

/-- The stages of writing fragments up to the batch. Either they fail, or there are jobs for the
canonical forms, and what is left is to carry out the batch and to file the answers. -/
private theorem writeFragments_front {fragments : List Fragment}
    (h : s.writeFragments writer schedule fragments mode device m = ⟨.error e, m', es⟩) :
    (s.FragmentFault fragments mode device es e ∧ Event.writes es = []) ∨
    ∃ filter numbers groups m₁ es₁ m₂ es₂, ∃ jobs : List Job,
      VariantKey.numbering (Fragment.byVariant fragments).keys s.options.firstVariantNumber =
        .ok numbers ∧
      Fragment.canonicalGroups filter s.matcher s.modifier numbers
        (Fragment.byVariant fragments).toList m = ⟨.ok groups, m₁, es₁⟩ ∧
      jobs.map (·.1) = Fragment.distinct (groups.flatMap (·.2)) ∧
      (do
        let written ← Schedule.runAll jobs (schedule jobs.length) (s.store writer mode)
        Run.ofExcept (groups.mapM (Variant.ofGroup s.bundle numbers
          ((jobs.map (·.1)).zip written))) : Run (Memory μ ℓ π ω) (List Variant)) m₂ =
        ⟨.error e, m', es₂⟩ ∧
      Event.namings es = jobs ++ Event.namings es₂ ∧ Event.writes es = Event.writes es₂ := by
  rcases Run.bind_error_iff.mp h with hcheck | ⟨_, _, _, _, hcheck, h₁, rfl⟩
  · obtain ⟨herror, -, rfl⟩ := Run.ofExcept_error_iff.mp hcheck
    exact .inl ⟨.mode herror, rfl⟩
  obtain ⟨-, rfl, rfl⟩ := Run.ofExcept_ok_iff.mp hcheck
  rcases Run.bind_error_iff.mp h₁ with hfilter | ⟨filter, _, _, _, hfilter, h₂, rfl⟩
  · obtain ⟨herror, -, rfl⟩ := Run.ofExcept_error_iff.mp hfilter
    exact .inl ⟨.tier herror, rfl⟩
  obtain ⟨-, rfl, rfl⟩ := Run.ofExcept_ok_iff.mp hfilter
  have hkeys : ∀ k, k ∈ (Fragment.byVariant fragments).keys ↔ k ∈ fragments.map (·.key) := by
    intro k
    rw [Fragment.mem_keys_byVariant, List.mem_map]
  rcases Run.bind_error_iff.mp h₂ with hnumbering | ⟨numbers, _, _, _, hnumbering, h₃, rfl⟩
  · obtain ⟨herror, -, rfl⟩ := Run.ofExcept_error_iff.mp hnumbering
    rw [VariantKey.numbering_congr hkeys] at herror
    exact .inl ⟨.numbers herror, rfl⟩
  obtain ⟨hnumbers, rfl, rfl⟩ := Run.ofExcept_ok_iff.mp hnumbering
  have hasking := Fragment.only_canonicalGroups (ℓ := ℓ) (π := π) (ω := ω) filter s.matcher
    s.modifier numbers (Fragment.byVariant fragments).toList
  simp only [List.nil_append]
  rcases Run.bind_error_iff.mp h₃ with hgroups | ⟨groups, m₁, es₁, _, hgroups, h₄, rfl⟩
  · have hnumbered : ∀ g ∈ (Fragment.byVariant fragments).toList,
        ∃ number, numbers.get? g.1 = some number := fun g hg ↦
      VariantKey.exists_number hnumbers (List.mem_map_of_mem hg)
    exact .inl ⟨.refused (Fragment.refused_of_canonicalGroups_error
      (Fragment.byVariant fragments).keys_nodup hnumbered hgroups),
      hasking.writes_eq_nil (by simp) hgroups⟩
  rcases Run.bind_error_iff.mp h₄ with hnotice | ⟨_, _, _, _, hnotice, h₅, rfl⟩
  · cases (Outcome.mk.inj hnotice).1
  obtain ⟨-, rfl, rfl⟩ := Outcome.mk.inj hnotice
  rcases Run.bind_error_iff.mp h₅ with hplan | ⟨jobs, _, _, _, hplan, h₆, rfl⟩
  · cases (Outcome.mk.inj ((each_plan ..).symm.trans hplan)).1
  obtain ⟨hjobs, rfl, rfl⟩ := Outcome.mk.inj ((each_plan ..).symm.trans hplan)
  obtain rfl := Except.ok.inj hjobs
  refine .inr ⟨filter, numbers, groups, m₁, es₁, _, _, _, hnumbers, hgroups, ?_, h₆, ?_, ?_⟩
  · exact List.map_fst_zip (Nat.le_of_eq (PathAssigner.length_paths _ _ _).symm)
  · simp only [Event.namings_append, namings_named, hasking.namings_eq_nil (by simp) hgroups]
    rfl
  · simp only [Event.writes_append, writes_named, hasking.writes_eq_nil (by simp) hgroups]
    rfl

/-- **Why the fragment phase fails when nothing is refused.** -/
theorem writeFragments_error {fragments : List Fragment}
    (h : s.writeFragments writer schedule fragments mode device m = ⟨.error e, m', es⟩)
    (hanswered : ∀ w ∈ Event.writes es, ∃ d, w.2 = .ok d) :
    (s.FragmentFault fragments mode device es e ∧ Event.writes es = []) ∨
      (s.bundle.Misses fragments e ∧ Event.AllWritten mode es) := by
  rcases writeFragments_front h with hfault |
    ⟨filter, numbers, groups, m₁, es₁, m₂, es₂, jobs, hnumbers, hgroups, hjobs, hrest, hnamings,
      hwrites⟩
  · exact .inl hfault
  rw [hwrites] at hanswered
  rcases Run.bind_error_iff.mp hrest with hbatch | ⟨written, _, es₃, _, hbatch, hfiling, rfl⟩
  · obtain ⟨written, hwritten⟩ := runAll_of_answered hbatch hanswered
    cases hwritten
  obtain ⟨herror, -, rfl⟩ := Run.ofExcept_error_iff.mp hfiling
  rw [List.append_nil] at hnamings hwrites
  refine .inr ⟨?_, ?_⟩
  · obtain ⟨dialogue, canonical, -, hcanonical, hresult⟩ :=
      Fragment.canonicalGroups_byVariant_ok hgroups
    obtain ⟨answer, hanswer⟩ := exists_answer (hjobs ▸ nodup_eraseDups _) hbatch
    obtain ⟨group, hgroup, hfailed⟩ := exists_of_mapM_error herror
    have hlookup : ∀ c ∈ group.2, ((jobs.map (·.1)).zip written).lookup c = some (answer c) := by
      intro c hc
      rw [hanswer, hjobs]
      refine lookup_map_of_mem answer (List.mem_eraseDups.mpr ?_)
      exact List.mem_flatMap.mpr ⟨group, hgroup, hc⟩
    rw [hresult] at hgroup
    obtain ⟨k, hk, rfl⟩ := List.mem_map.mp hgroup
    obtain ⟨number, hnumber, hforms⟩ := hcanonical k (List.mem_filter.mp hk).1
    obtain ⟨c, hc, hmissing, rfl⟩ := Variant.ofGroup_error hnumber hlookup hfailed
    obtain ⟨f, hf, manifest, rfl⟩ := hforms.exists_eq hc
    exact ⟨f, (List.mem_filter.mp hf).1, hmissing, rfl⟩
  · have hquiet := (s.only_storeAll writer mode _ _).namings_eq_nil (by simp) hbatch
    rw [Event.AllWritten, hwrites, hnamings, hquiet, List.append_nil]
    exact writes_runAll_perm hbatch

/-- **Why the phase of the asset slices fails when nothing is refused.** -/
theorem writeSlices_error {slices : List Fragment}
    (h : s.writeSlices writer schedule slices mode device m = ⟨.error e, m', es⟩)
    (hanswered : ∀ w ∈ Event.writes es, ∃ d, w.2 = .ok d) :
    (s.SliceFault slices device es e ∧ Event.writes es = []) ∨
      (s.bundle.Misses slices e ∧ Event.AllWritten mode es) := by
  rcases Run.bind_error_iff.mp h with hfilter | ⟨filter, _, _, _, hfilter, h₁, rfl⟩
  · obtain ⟨herror, -, rfl⟩ := Run.ofExcept_error_iff.mp hfilter
    exact .inl ⟨.tier herror, rfl⟩
  obtain ⟨-, rfl, rfl⟩ := Run.ofExcept_ok_iff.mp hfilter
  have hplanning := s.only_planSlices (ℓ := ℓ) (ω := ω) filter slices
  rw [List.nil_append] at hanswered ⊢
  rcases Run.bind_error_iff.mp h₁ with hplan | ⟨jobs, m₁, es₁, _, hplan, h₂, rfl⟩
  · obtain ⟨failure, hscanned, hr⟩ := planSlices_outcome hplan
    cases failure with
    | none => cases hr
    | some e' =>
      obtain rfl := Except.error.inj hr
      refine .inl ⟨?_, hplanning.writes_eq_nil (by simp) hplan⟩
      rcases hscanned.cause rfl with hrefused | ⟨slice, hslice, hcategory, he⟩
      · exact .refused (Event.refused_questions.mp hrefused)
      · exact .category hslice hcategory he
  obtain ⟨hkept, hnamings⟩ := planSlices_ok hplan
  rw [Event.writes_append, hplanning.writes_eq_nil (by simp) hplan, List.nil_append] at hanswered
  rcases Run.bind_error_iff.mp h₂ with hbatch | ⟨written, _, es₃, _, hbatch, hfiling, rfl⟩
  · obtain ⟨written, hwritten⟩ := runAll_of_answered hbatch hanswered
    cases hwritten
  obtain ⟨herror, -, rfl⟩ := Run.ofExcept_error_iff.mp hfiling
  rw [List.append_nil]
  refine .inr ⟨?_, ?_⟩
  · obtain ⟨name, hname, hmissing, rfl⟩ := AssetSliceSet.mapM_ofGroup_error herror
    rw [List.map_fst_zip (Nat.le_of_eq (by
      rw [List.length_map, Schedule.length_of_runAll_ok hbatch]))] at hname
    obtain ⟨job, hjob, rfl⟩ := List.mem_map.mp hname
    exact ⟨job.1, hkept.mem (List.mem_map_of_mem hjob), hmissing, rfl⟩
  · have hquiet := (s.only_storeAll writer mode _ _).namings_eq_nil (by simp) hbatch
    rw [Event.AllWritten, Event.writes_append, hplanning.writes_eq_nil (by simp) hplan,
      Event.namings_append, hnamings, hquiet, List.append_nil, List.nil_append]
    exact writes_runAll_perm hbatch

/-- When the fragment phase succeeds, everything that it named was written. -/
theorem Tells.allWritten {fragments : List Fragment} {variants : List Variant} {a : FragmentAccount}
    (h : s.Tells schedule fragments mode device es variants a) : Event.AllWritten mode es := by
  rw [Event.AllWritten, h.writes, h.namings, List.map_map, List.map_map]
  exact (Schedule.order_perm _ _).map _

/-! ## Runs -/

variable {timing : Timing} {request : BuildRequest}

/-- **When a run fails although nothing is refused.** It shows no table of contents. What is wrong
with the request is found before anything of its phase is written, missing modules excepted: they
are found when everything of their phase is. -/
theorem build_error_of_answered (h : (s.build writer timing request m).result = .error e)
    (hadds : ∀ w ∈ Event.writes (s.build writer timing request m).events, ∃ d, w.2 = .ok d)
    (htable : ∀ p ∈ Event.publications (s.build writer timing request m).events, p.2 = .ok ()) :
    Event.publications (s.build writer timing request m).events = [] ∧
      ((s.FragmentFault request.fragments request.mode request.device
            (s.fragmentPhase writer timing request m).events e ∧
          Event.writes (s.build writer timing request m).events = []) ∨
        (s.bundle.Misses request.fragments e ∧
          Event.AllWritten request.mode (s.build writer timing request m).events) ∨
        (∃ variants, (s.fragmentPhase writer timing request m).result = .ok variants) ∧
          ((s.SliceFault request.assetSlices request.device
                (s.slicePhase writer timing request m).events e ∧
              Event.writes (s.build writer timing request m).events =
                Event.writes (s.fragmentPhase writer timing request m).events) ∨
            (s.bundle.Misses request.assetSlices e ∧
              Event.AllWritten request.mode (s.build writer timing request m).events))) := by
  have hpublications : Event.publications (s.build writer timing request m).events = [] := by
    rw [List.eq_nil_iff_forall_not_mem]
    rintro ⟨toc, answer⟩ hmem
    obtain rfl : answer = .ok () := htable _ hmem
    rw [(s.build_ok_iff writer timing request m).mpr (Event.mem_publications.mp hmem)] at h
    cases h
  refine ⟨hpublications, ?_⟩
  rcases s.build_outcome writer timing request m with ⟨e', m', fes, hfragments, hbuild⟩ |
    ⟨variants, m₁, fes, e', m', ses, hfragments, hslices, hbuild⟩ |
    ⟨variants, m₁, fes, sets, m₂, ses, toc, reply, ns, -, -, -, -, hbuild⟩
  · rw [hbuild] at h hadds ⊢
    obtain rfl := Except.error.inj h
    rw [hfragments]
    rcases writeFragments_error hfragments hadds with hfault | hmisses
    · exact .inl hfault
    · exact .inr (.inl hmisses)
  · rw [hbuild] at h hadds ⊢
    obtain rfl := Except.error.inj h
    rw [writes_opened] at hadds ⊢
    rw [hfragments, hslices]
    refine .inr (.inr ⟨⟨variants, rfl⟩, ?_⟩)
    rcases writeSlices_error hslices fun w hw ↦ hadds w (List.mem_append_right _ hw) with
      ⟨hfault, hnone⟩ | ⟨hmisses, hall⟩
    · exact .inl ⟨hfault, by rw [hnone, List.append_nil]⟩
    · obtain ⟨a, ha⟩ := exists_tells hfragments
      exact .inr ⟨hmisses, ha.allWritten.append hall⟩
  · have hpublished : .published toc reply.answer ∈ (s.build writer timing request m).events := by
      rw [hbuild]
      simp
    have hmem := Event.mem_publications.mpr hpublished
    rw [hpublications] at hmem
    cases hmem

/-- A split among the asset slices is found when the ordinary artifacts are written. -/
theorem split_among_slices_is_found_after_a_write :
    let f : Fragment := { Fragment.untargeted .base .split (.ofPackage "p") with isMaster := true }
    let s := plain { Bundle.ofPackage "p" with
      modules := [.independent .base .feature (.ofPackage "p")] }
    let out := s.build Writer.echo .inOrder
      ⟨[f], [.untargeted .base .split (.ofPackage "p")], .default, none, default, []⟩
      ⟨(), (), ∅, ()⟩
    out.result = .error (.internal (.notAnAssetSlice .split .base)) ∧
      (∀ w ∈ Event.writes out.events, ∃ d, w.2 = .ok d) ∧
      (∀ p ∈ Event.publications out.events, p.2 = .ok ()) ∧
      ¬Event.writes out.events = [] := by
  intro f s out
  obtain ⟨call, d, hwrites⟩ : ∃ call d, Event.writes out.events = [(call, .ok d)] := ⟨_, _, rfl⟩
  have hresult : out.result = .error (.internal (.notAnAssetSlice .split .base)) := rfl
  have hnone : Event.publications out.events = [] := rfl
  rw [hwrites, hnone]
  refine ⟨hresult, fun w hw ↦ ?_, fun p hp ↦ ?_, ?_⟩
  · rw [List.mem_singleton.mp hw]
    exact ⟨d, rfl⟩
  · cases hp
  · exact List.cons_ne_nil _ _

/-- A module that the bundle does not have is found when its artifact is written. -/
theorem missing_module_is_found_last :
    let f : Fragment := { Fragment.untargeted .base .split (.ofPackage "p") with isMaster := true }
    let s := plain (Bundle.ofPackage "p")
    let out := s.build Writer.echo .inOrder ⟨[f], [], .default, none, default, []⟩
      ⟨(), (), ∅, ()⟩
    out.result = .error (.internal (.unknownModule .base)) ∧
      (Event.writes out.events).length = 1 ∧ Event.publications out.events = [] := by
  intro f s out
  obtain ⟨call, d, hwrites⟩ : ∃ call d, Event.writes out.events = [(call, .ok d)] := ⟨_, _, rfl⟩
  have hresult : out.result = .error (.internal (.unknownModule .base)) := rfl
  have hadds : ∀ w ∈ Event.writes out.events, ∃ d, w.2 = .ok d := by
    intro w hw
    rw [hwrites] at hw
    rw [List.mem_singleton.mp hw]
    exact ⟨d, rfl⟩
  have hnone : Event.publications out.events = [] := rfl
  have htable : ∀ p ∈ Event.publications out.events, p.2 = .ok () := by
    rw [hnone]
    intro p hp
    cases hp
  have hend := build_error_of_answered hresult hadds htable
  refine ⟨hresult, ?_, hend.1⟩
  rw [hwrites]
  rfl

end Serializer

end FragmentArchive
