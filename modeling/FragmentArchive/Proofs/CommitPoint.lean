import FragmentArchive.Proofs.FragmentPhase
import FragmentArchive.Proofs.SlicePhase

/-!
# The commit point

A run has three ways to end: in the fragment phase, in the phase of the asset slices, or with the
table of contents. Only the third one gets to the table, and then both phases have succeeded. So
whoever sees a table knows that every artifact in it was stored before, and a run that was refused
an artifact never shows one.
-/

namespace FragmentArchive

/-- All slices that a table of contents refers to. -/
def TableOfContents.sliceArtifacts (toc : TableOfContents) : List ArtifactDescriptor :=
  toc.assetSliceSets.flatMap (·.descriptors)

namespace Serializer

variable {μ ℓ π ω : Type}

section

variable (s : Serializer μ ℓ π) (writer : Writer ω) (timing : Timing) (request : BuildRequest)
  (m : Memory μ ℓ π ω)

/-! ## The phases of a run -/

/-- The run of the fragment phase as a part of a build. -/
def fragmentPhase : Outcome (Memory μ ℓ π ω) (List Variant) :=
  s.writeFragments writer timing.fragments request.fragments request.mode request.device
    { m with naming := s.assigner.restart m.naming }

/-- The run of the phase of the asset slices, from what the fragment phase left behind. -/
def slicePhase : Outcome (Memory μ ℓ π ω) (List AssetSliceSet) :=
  s.writeSlices writer timing.assetSlices request.assetSlices request.mode request.device
    (s.fragmentPhase writer timing request m).memory

/-- The notice with which a run begins. -/
def opening : Notice :=
  .started request.fragments.length request.assetSlices.length s.bundle.packageName request.mode

/-- Both phases, one after the other. -/
def phases : Run (Memory μ ℓ π ω) (List Variant × List AssetSliceSet) := do
  let variants ←
    s.writeFragments writer timing.fragments request.fragments request.mode request.device
  let assetSliceSets ←
    s.writeSlices writer timing.assetSlices request.assetSlices request.mode request.device
  return (variants, assetSliceSets)

/-- What a run does with the results of its phases. -/
def close (results : List Variant × List AssetSliceSet) :
    Run (Memory μ ℓ π ω) TableOfContents := do
  let toc := TableOfContents.ofResults s.bundle results.1 results.2
    request.permanentlyFusedModules request.localTestingInfo
  Run.publish writer toc
  Run.notice (.finished toc.variants.length toc.assetSliceSets.length)
  return toc

/-- A run is its phases and its end, behind a notice, and from where the path assigner begins. -/
theorem build_apply :
    s.build writer timing request m =
      let out := (s.phases writer timing request >>= s.close writer request)
        { m with naming := s.assigner.restart m.naming }
      { out with events := .noticed (s.opening request) :: out.events } := by
  have hnotice : Run.notice (s.opening request) m =
    ⟨.ok (), m, [.noticed (s.opening request)]⟩ := rfl
  have hnaming : Run.startNaming s.assigner m =
    ⟨.ok (), { m with naming := s.assigner.restart m.naming }, []⟩ := rfl
  rw [build, ← opening, Run.bind_of_ok hnotice, Run.bind_of_ok hnaming, phases]
  simp only [bind_assoc, pure_bind]
  rfl

section

variable {s writer timing request m} {variants : List Variant} {sets : List AssetSliceSet}
  {e : Error} {m₁ m₂ : Memory μ ℓ π ω} {es₁ es₂ : List Event}

/-- A run that fails before its end is its phases. -/
theorem build_of_error
    (h : s.phases writer timing request { m with naming := s.assigner.restart m.naming } =
      ⟨.error e, m₁, es₁⟩) :
    s.build writer timing request m = ⟨.error e, m₁, .noticed (s.opening request) :: es₁⟩ := by
  rw [build_apply, Run.bind_of_error h]

/-- When the fragment phase fails, nothing else is done. -/
theorem build_of_fragments_error
    (h : s.fragmentPhase writer timing request m = ⟨.error e, m₁, es₁⟩) :
    s.build writer timing request m = ⟨.error e, m₁, .noticed (s.opening request) :: es₁⟩ := by
  rw [fragmentPhase] at h
  exact build_of_error (Run.bind_of_error h)

/-- When the slices fail, there is no table of contents. -/
theorem build_of_slices_error
    (hfragments : s.fragmentPhase writer timing request m = ⟨.ok variants, m₁, es₁⟩)
    (hslices : s.slicePhase writer timing request m = ⟨.error e, m₂, es₂⟩) :
    s.build writer timing request m =
      ⟨.error e, m₂, .noticed (s.opening request) :: (es₁ ++ es₂)⟩ := by
  rw [slicePhase, hfragments] at hslices
  rw [fragmentPhase] at hfragments
  refine build_of_error ?_
  rw [phases, Run.bind_of_ok hfragments, Run.bind_of_error hslices]

/-- The results of the phases are handed over in a table of contents, and the answer to it
decides. -/
theorem build_of_results {results : List Variant × List AssetSliceSet} {toc : TableOfContents}
    (h : s.phases writer timing request { m with naming := s.assigner.restart m.naming } =
      ⟨.ok results, m₁, es₁⟩)
    (htoc : toc = .ofResults s.bundle results.1 results.2 request.permanentlyFusedModules
      request.localTestingInfo) :
    ∃ ns : List Notice, s.build writer timing request m =
      ⟨(writer.publish toc m₁.archive).answer.map fun _ ↦ toc,
        { m₁ with archive := (writer.publish toc m₁.archive).memory },
        .noticed (s.opening request) ::
          (es₁ ++ .published toc (writer.publish toc m₁.archive).answer :: ns.map .noticed)⟩ := by
  rcases hreply : writer.publish toc m₁.archive with ⟨answer, archive, notices⟩
  have hpublish : Run.publish writer toc m₁ =
      ⟨answer, { m₁ with archive }, .published toc answer :: notices.map .noticed⟩ := by
    rw [Run.publish, hreply]
  rw [build_apply, Run.bind_of_ok h, close, ← htoc]
  rcases answer with e | _
  · rw [Run.bind_of_error hpublish]
    exact ⟨notices, rfl⟩
  · rw [Run.bind_of_ok hpublish]
    refine ⟨notices ++ [.finished toc.variants.length toc.assetSliceSets.length], ?_⟩
    rw [List.map_append]
    rfl

/-- When both phases succeed, they do so one after the other. -/
theorem phases_of_parts
    (hfragments : s.fragmentPhase writer timing request m = ⟨.ok variants, m₁, es₁⟩)
    (hslices : s.slicePhase writer timing request m = ⟨.ok sets, m₂, es₂⟩) :
    s.phases writer timing request { m with naming := s.assigner.restart m.naming } =
      ⟨.ok (variants, sets), m₂, es₁ ++ es₂⟩ := by
  rw [slicePhase, hfragments] at hslices
  rw [fragmentPhase] at hfragments
  rw [phases, Run.bind_of_ok hfragments, Run.bind_of_ok hslices, Run.pure_apply, List.append_nil]

/-- When both phases succeed, the table of contents is handed over, and the answer to it decides. -/
theorem build_of_phases {toc : TableOfContents}
    (hfragments : s.fragmentPhase writer timing request m = ⟨.ok variants, m₁, es₁⟩)
    (hslices : s.slicePhase writer timing request m = ⟨.ok sets, m₂, es₂⟩)
    (htoc : toc = .ofResults s.bundle variants sets request.permanentlyFusedModules
      request.localTestingInfo) :
    ∃ ns : List Notice, s.build writer timing request m =
      ⟨(writer.publish toc m₂.archive).answer.map fun _ ↦ toc,
        { m₂ with archive := (writer.publish toc m₂.archive).memory },
        .noticed (s.opening request) :: (es₁ ++ (es₂ ++
          .published toc (writer.publish toc m₂.archive).answer :: ns.map .noticed))⟩ := by
  obtain ⟨ns, hbuild⟩ := build_of_results (phases_of_parts hfragments hslices) htoc
  exact ⟨ns, by rw [hbuild, List.append_assoc]⟩

end

/-- **How a run ends.** -/
theorem build_outcome :
    (∃ e m' es₁, s.fragmentPhase writer timing request m = ⟨.error e, m', es₁⟩ ∧
      s.build writer timing request m = ⟨.error e, m', .noticed (s.opening request) :: es₁⟩) ∨
    (∃ variants m₁ es₁ e m' es₂,
      s.fragmentPhase writer timing request m = ⟨.ok variants, m₁, es₁⟩ ∧
      s.slicePhase writer timing request m = ⟨.error e, m', es₂⟩ ∧
      s.build writer timing request m =
        ⟨.error e, m', .noticed (s.opening request) :: (es₁ ++ es₂)⟩) ∨
    ∃ variants m₁ es₁ sets m₂ es₂ toc reply, ∃ ns : List Notice,
      s.fragmentPhase writer timing request m = ⟨.ok variants, m₁, es₁⟩ ∧
      s.slicePhase writer timing request m = ⟨.ok sets, m₂, es₂⟩ ∧
      toc = .ofResults s.bundle variants sets request.permanentlyFusedModules
        request.localTestingInfo ∧
      reply = writer.publish toc m₂.archive ∧
      s.build writer timing request m =
        ⟨reply.answer.map fun _ ↦ toc, { m₂ with archive := reply.memory },
          .noticed (s.opening request) ::
            (es₁ ++ (es₂ ++ .published toc reply.answer :: ns.map .noticed))⟩ := by
  rcases hfragments : s.fragmentPhase writer timing request m with ⟨e | variants, m₁, es₁⟩
  · exact .inl ⟨e, m₁, es₁, rfl, build_of_fragments_error hfragments⟩
  rcases hslices : s.slicePhase writer timing request m with ⟨e | sets, m₂, es₂⟩
  · exact .inr (.inl ⟨variants, m₁, es₁, e, m₂, es₂, rfl, rfl,
      build_of_slices_error hfragments hslices⟩)
  · obtain ⟨ns, hbuild⟩ := build_of_phases hfragments hslices rfl
    exact .inr (.inr ⟨variants, m₁, es₁, sets, m₂, es₂, _, _, ns, rfl, rfl, rfl, rfl, hbuild⟩)

variable {s writer timing request m} in
theorem phases_of_build {toc : TableOfContents}
    (h : (s.build writer timing request m).result = .ok toc) :
    ∃ variants m₁ es₁ sets m₂ es₂,
      s.fragmentPhase writer timing request m = ⟨.ok variants, m₁, es₁⟩ ∧
      s.slicePhase writer timing request m = ⟨.ok sets, m₂, es₂⟩ ∧
      toc = .ofResults s.bundle variants sets request.permanentlyFusedModules
        request.localTestingInfo := by
  rcases s.build_outcome writer timing request m with ⟨e, m', fes, -, hbuild⟩ |
    ⟨variants, m₁, fes, e, m', ses, -, -, hbuild⟩ |
    ⟨variants, m₁, fes, sets, m₂, ses, toc', reply, ns, hfragments, hslices, htoc, -, hbuild⟩
  · rw [hbuild] at h
    cases h
  · rw [hbuild] at h
    cases h
  · rw [hbuild] at h
    obtain ⟨_, -, rfl⟩ := map_eq_ok_iff.mp h
    exact ⟨variants, m₁, fes, sets, m₂, ses, hfragments, hslices, htoc⟩

/-! ## The table of contents -/

private theorem kind_ne_publication {r₁ : Except Error (List Variant)}
    {r₂ : Except Error (List AssetSliceSet)} {m₁ m₂ : Memory μ ℓ π ω} {es₁ es₂ : List Event}
    (h₁ : s.fragmentPhase writer timing request m = ⟨r₁, m₁, es₁⟩)
    (h₂ : s.slicePhase writer timing request m = ⟨r₂, m₂, es₂⟩) :
    ∀ e ∈ .noticed (s.opening request) :: (es₁ ++ es₂), e.kind ≠ .publication := by
  intro e he
  rcases List.mem_cons.mp he with rfl | he
  · nofun
  rcases List.mem_append.mp he with he | he
  · exact (s.only_writeFragments writer _ _ _ _).kind_ne (by simp) h₁ e he
  · exact (s.only_writeSlices writer _ _ _ _).kind_ne (by simp) h₂ e he

theorem writes_opened (n : Notice) (es₁ es₂ : List Event) :
    Event.writes (.noticed n :: (es₁ ++ es₂)) = Event.writes es₁ ++ Event.writes es₂ :=
  Event.writes_append es₁ es₂

/-- **A run that gets to the table of contents has stored all its artifacts.** -/
theorem build_publishes {es₁ es₂ : List Event} {toc : TableOfContents} {answer : Except Error Unit}
    (h : (s.build writer timing request m).events = es₁ ++ .published toc answer :: es₂) :
    (s.build writer timing request m).result = answer.map (fun _ ↦ toc) ∧
      Event.writes es₂ = [] ∧ (∀ w ∈ Event.writes es₁, ∃ d, w.2 = .ok d) ∧
      ∀ d ∈ toc.variantArtifacts ++ toc.sliceArtifacts,
        ∃ call, (call, .ok d) ∈ Event.writes es₁ := by
  have hpublished : .published toc answer ∈ (s.build writer timing request m).events := by
    rw [h]
    exact List.mem_append_right _ List.mem_cons_self
  rcases s.build_outcome writer timing request m with ⟨e, m', fes, hfragments, hbuild⟩ |
    ⟨variants, m₁, fes, e, m', ses, hfragments, hslices, hbuild⟩ |
    ⟨variants, m₁, fes, sets, m₂, ses, toc', reply, ns, hfragments, hslices, htoc, -, hbuild⟩
  · rw [hbuild] at hpublished
    rcases List.mem_cons.mp hpublished with heq | hmem
    · cases heq
    · have hquiet := (s.only_writeFragments writer _ _ _ _).kind_ne (k := .publication) (by simp)
        hfragments
      exact absurd rfl (hquiet _ hmem)
  · rw [hbuild] at hpublished
    exact absurd rfl (s.kind_ne_publication writer timing request m hfragments hslices _ hpublished)
  · rw [hbuild] at h ⊢
    have hsplit : (.noticed (s.opening request) :: (fes ++ ses)) ++
        .published toc' reply.answer :: ns.map .noticed = es₁ ++ .published toc answer :: es₂ := by
      rw [← h]
      simp
    -- there is no other table among the events, so they are split at this one
    obtain ⟨rfl, heq, rfl⟩ := append_cons_inj (p := fun e ↦ e.kind = .publication)
      (s.kind_ne_publication writer timing request m hfragments hslices)
      (fun e he ↦ by simp [Event.kind_of_mem_noticed he]) rfl hsplit
    obtain ⟨rfl, rfl⟩ := Event.published.inj heq
    rw [writes_opened]
    refine ⟨rfl, Event.writes_noticed ns, fun w hw ↦ ?_, fun d hd ↦ ?_⟩
    · rcases List.mem_append.mp hw with hw | hw
      · exact (s.writesInBatch_writeFragments writer _ _ _ _).answered hfragments hw
      · exact (s.writesInBatch_writeSlices writer _ _ _ _).answered hslices hw
    · obtain ⟨a, ha⟩ := exists_tells hfragments
      obtain ⟨b, hb⟩ := exists_tellsSlices hslices
      rw [htoc] at hd
      rcases List.mem_append.mp hd with hd | hd
      · obtain ⟨v, hv, hd⟩ := List.mem_flatMap.mp hd
        obtain ⟨call, hcall⟩ := ha.exists_call hv hd
        exact ⟨call, List.mem_append_left _ hcall⟩
      · obtain ⟨set, hset, hd⟩ := List.mem_flatMap.mp hd
        obtain ⟨call, hcall⟩ := hb.exists_call hset hd
        exact ⟨call, List.mem_append_right _ hcall⟩

theorem length_publications_le :
    (Event.publications (s.build writer timing request m).events).length ≤ 1 := by
  rcases s.build_outcome writer timing request m with ⟨e, m', fes, hfragments, hbuild⟩ |
    ⟨variants, m₁, fes, e, m', ses, hfragments, hslices, hbuild⟩ |
    ⟨variants, m₁, fes, sets, m₂, ses, toc, reply, ns, hfragments, hslices, -, -, hbuild⟩
  · have hnone : Event.publications fes = [] :=
      (s.only_writeFragments writer _ _ _ _).publications_eq_nil (by simp) hfragments
    rw [hbuild]
    exact hnone ▸ Nat.zero_le 1
  · have hnone := Event.publications_eq_nil
      (s.kind_ne_publication writer timing request m hfragments hslices)
    rw [hbuild]
    exact hnone ▸ Nat.zero_le 1
  · have hnone := Event.publications_eq_nil
      (s.kind_ne_publication writer timing request m hfragments hslices)
    have hone : Event.publications (.published toc reply.answer :: ns.map .noticed) =
        [(toc, reply.answer)] := congrArg (_ :: ·) (Event.publications_noticed ns)
    rw [hbuild, ← List.append_assoc, ← List.cons_append, Event.publications_append, hnone, hone]
    exact Nat.le_refl 1

section

variable {s writer timing request m} {variants : List Variant} {sets : List AssetSliceSet}
  {results : List Variant × List AssetSliceSet} {m₁ m₂ : Memory μ ℓ π ω} {es₁ es₂ : List Event}
  {e : Error} {toc : TableOfContents}

/-- A run that fails before its end hands over no table of contents. -/
theorem publications_of_error
    (h : s.phases writer timing request { m with naming := s.assigner.restart m.naming } =
      ⟨.error e, m₁, es₁⟩) :
    Event.publications (s.build writer timing request m).events = [] := by
  have hphases : Run.Only [.question, .notice, .naming, .write, .hearing]
      (s.phases writer timing request : Run (Memory μ ℓ π ω) _) :=
    (s.only_writeFragments writer _ _ _ _).bind fun _ ↦
      (s.only_writeSlices writer _ _ _ _).bind fun _ ↦ Run.only_pure _
  have hnone : Event.publications es₁ = [] := hphases.publications_eq_nil (by simp) h
  rw [build_of_error h]
  exact hnone

/-- The one table of contents that is handed over is that of the phases. -/
theorem publications_of_results
    (h : s.phases writer timing request { m with naming := s.assigner.restart m.naming } =
      ⟨.ok results, m₁, es₁⟩)
    (htoc : toc = .ofResults s.bundle results.1 results.2 request.permanentlyFusedModules
      request.localTestingInfo) :
    Event.publications (s.build writer timing request m).events =
      [(toc, (writer.publish toc m₁.archive).answer)] := by
  obtain ⟨ns, hbuild⟩ := build_of_results h htoc
  have hmem : (toc, (writer.publish toc m₁.archive).answer) ∈
      Event.publications (s.build writer timing request m).events := by
    rw [Event.mem_publications, hbuild]
    simp
  obtain ⟨p, hp⟩ := List.length_eq_one_iff.mp (Nat.le_antisymm
    (s.length_publications_le writer timing request m) (List.length_pos_of_mem hmem))
  rw [hp] at hmem ⊢
  rw [List.mem_singleton.mp hmem]

theorem publications_of_phases
    (hfragments : s.fragmentPhase writer timing request m = ⟨.ok variants, m₁, es₁⟩)
    (hslices : s.slicePhase writer timing request m = ⟨.ok sets, m₂, es₂⟩)
    (htoc : toc = .ofResults s.bundle variants sets request.permanentlyFusedModules
      request.localTestingInfo) :
    Event.publications (s.build writer timing request m).events =
      [(toc, (writer.publish toc m₂.archive).answer)] :=
  publications_of_results (phases_of_parts hfragments hslices) htoc

/-- When the phases succeed, whatever is read off the events apart from notices and tables of
contents is read off those of the phases. -/
private theorem projection_of_results {α : Type} {g : List Event → List α}
    (happend : ∀ es es', g (es ++ es') = g es ++ g es')
    (hnotices : ∀ ns : List Notice, g (ns.map .noticed) = [])
    (htable : ∀ toc answer, g [.published toc answer] = [])
    (h : s.phases writer timing request { m with naming := s.assigner.restart m.naming } =
      ⟨.ok results, m₁, es₁⟩) :
    g (s.build writer timing request m).events = g es₁ := by
  obtain ⟨ns, hbuild⟩ := build_of_results h rfl
  have hopening : ∀ es, g (.noticed (s.opening request) :: es) = g es := fun es ↦ by
    rw [← List.singleton_append, happend, show g [_] = [] from hnotices [s.opening request],
      List.nil_append]
  have hclosing : ∀ toc answer, g (.published toc answer :: ns.map .noticed) = [] := by
    intro toc answer
    rw [← List.singleton_append, happend, htable, hnotices, List.nil_append]
  rw [hbuild, hopening, happend, hclosing, List.append_nil]

/-- When the phases succeed, the artifacts that were to be stored are theirs. -/
theorem writes_of_results
    (h : s.phases writer timing request { m with naming := s.assigner.restart m.naming } =
      ⟨.ok results, m₁, es₁⟩) :
    Event.writes (s.build writer timing request m).events = Event.writes es₁ :=
  projection_of_results Event.writes_append Event.writes_noticed (fun _ _ ↦ rfl) h

theorem hearings_of_results
    (h : s.phases writer timing request { m with naming := s.assigner.restart m.naming } =
      ⟨.ok results, m₁, es₁⟩) :
    Event.hearings (s.build writer timing request m).events = Event.hearings es₁ :=
  projection_of_results Event.hearings_append Event.hearings_noticed (fun _ _ ↦ rfl) h

theorem writes_of_phases
    (hfragments : s.fragmentPhase writer timing request m = ⟨.ok variants, m₁, es₁⟩)
    (hslices : s.slicePhase writer timing request m = ⟨.ok sets, m₂, es₂⟩) :
    Event.writes (s.build writer timing request m).events =
      Event.writes es₁ ++ Event.writes es₂ := by
  rw [writes_of_results (phases_of_parts hfragments hslices), Event.writes_append]

theorem questions_of_phases
    (hfragments : s.fragmentPhase writer timing request m = ⟨.ok variants, m₁, es₁⟩)
    (hslices : s.slicePhase writer timing request m = ⟨.ok sets, m₂, es₂⟩) :
    Event.questions (s.build writer timing request m).events =
      Event.questions es₁ ++ Event.questions es₂ :=
  (projection_of_results Event.questions_append Event.questions_noticed (fun _ _ ↦ rfl)
    (phases_of_parts hfragments hslices)).trans (Event.questions_append es₁ es₂)

end

/-- A run succeeds exactly when the table of contents is stored, and then it results in it. -/
theorem build_ok_iff {toc : TableOfContents} :
    (s.build writer timing request m).result = .ok toc ↔
      .published toc (.ok ()) ∈ (s.build writer timing request m).events := by
  constructor
  · intro h
    rcases s.build_outcome writer timing request m with ⟨e, m', fes, hf, hbuild⟩ |
      ⟨variants, m₁, fes, e, m', ses, hf, hs, hbuild⟩ |
      ⟨variants, m₁, fes, sets, m₂, ses, toc', reply, ns, hf, hs, -, -, hbuild⟩
    · rw [hbuild] at h
      cases h
    · rw [hbuild] at h
      cases h
    · rw [hbuild] at h ⊢
      obtain ⟨_, hanswer, rfl⟩ := map_eq_ok_iff.mp h
      rw [hanswer]
      simp
  · intro h
    obtain ⟨es₁, es₂, hsplit⟩ := List.append_of_mem h
    exact (s.build_publishes writer timing request m hsplit).1

/-- **A run that was refused an artifact shows no table of contents.** It fails with what the writer
said about an artifact that it refused. -/
theorem build_refused {call : WriteCall} {e : Error}
    (h : (call, .error e) ∈ Event.writes (s.build writer timing request m).events) :
    Event.publications (s.build writer timing request m).events = [] ∧
      ∃ job ∈ Event.namings (s.build writer timing request m).events, ∃ e',
        (.forFragment request.mode job.1 job.2, .error e') ∈
          Event.writes (s.build writer timing request m).events ∧
        (s.build writer timing request m).result = .error (.whileWriting job.2 e') := by
  have hfragments' := s.writesInBatch_writeFragments writer timing.fragments request.fragments
    request.mode request.device
  have hslices' := s.writesInBatch_writeSlices writer timing.assetSlices request.assetSlices
    request.mode request.device
  rcases s.build_outcome writer timing request m with ⟨e, m', fes, hfragments, hbuild⟩ |
    ⟨variants, m₁, fes, e, m', ses, hfragments, hslices, hbuild⟩ |
    ⟨variants, m₁, fes, sets, m₂, ses, toc, reply, ns, hfragments, hslices, -, -, hbuild⟩
  · rw [hbuild] at h ⊢
    obtain ⟨job, hjob, e', hwrite, heq⟩ := hfragments'.of_refused hfragments h
    refine ⟨?_, job, hjob, e', hwrite, by rw [Except.error.inj heq]⟩
    exact Event.publications_eq_nil fun e he ↦
      s.kind_ne_publication writer timing request m hfragments rfl e (by
        rw [← List.cons_append]
        exact List.mem_append_left _ he)
  · rw [hbuild] at h ⊢
    refine ⟨Event.publications_eq_nil
      (s.kind_ne_publication writer timing request m hfragments hslices), ?_⟩
    have hnamings : Event.namings (.noticed (s.opening request) :: (fes ++ ses)) =
        Event.namings fes ++ Event.namings ses := Event.namings_append fes ses
    rw [writes_opened] at h ⊢
    rw [hnamings]
    rcases List.mem_append.mp h with h | h
    · obtain ⟨d, hd⟩ := hfragments'.answered hfragments h
      cases hd
    · obtain ⟨job, hjob, e', hwrite, heq⟩ := hslices'.of_refused hslices h
      exact ⟨job, List.mem_append_right _ hjob, e', List.mem_append_right _ hwrite,
        by rw [Except.error.inj heq]⟩
  · have hsplit : (s.build writer timing request m).events =
        (.noticed (s.opening request) :: (fes ++ ses)) ++
          .published toc reply.answer :: ns.map .noticed := by
      rw [hbuild]
      simp
    obtain ⟨-, hafter, hbefore, -⟩ := s.build_publishes writer timing request m hsplit
    have hnone : Event.writes (.published toc reply.answer :: ns.map .noticed) = [] := hafter
    rw [hsplit, Event.writes_append, hnone, List.append_nil] at h
    obtain ⟨d, hd⟩ := hbefore _ h
    cases hd

/-- After a refusal in the fragment phase nothing is asked or written for the asset slices. -/
theorem build_of_refused_in_fragmentPhase {call : WriteCall} {e : Error}
    (h : (call, .error e) ∈ Event.writes (s.fragmentPhase writer timing request m).events) :
    (s.build writer timing request m).events =
      .noticed (s.opening request) :: (s.fragmentPhase writer timing request m).events := by
  have hbatch := s.writesInBatch_writeFragments writer timing.fragments request.fragments
    request.mode request.device
  rcases s.build_outcome writer timing request m with ⟨e, m', fes, hfragments, hbuild⟩ |
    ⟨variants, m₁, fes, e, m', ses, hfragments, hslices, hbuild⟩ |
    ⟨variants, m₁, fes, sets, m₂, ses, toc, reply, ns, hfragments, hslices, -, -, hbuild⟩
  · rw [hbuild, hfragments]
  · rw [hfragments] at h
    obtain ⟨d, hd⟩ := hbatch.answered hfragments h
    cases hd
  · rw [hfragments] at h
    obtain ⟨d, hd⟩ := hbatch.answered hfragments h
    cases hd

/-- An error behind a job is the writer's own account of it, or else names the path of the job and
reports the words of the error. -/
theorem whileWriting_cases (path : ArchivePath) (e : Error) :
    ((∃ place fault, e = .serialization place fault) ∧ Error.whileWriting path e = e) ∨
      (∀ place fault, e ≠ .serialization place fault) ∧
        Error.whileWriting path e = .serialization path.text (.reported e.message) := by
  cases e with
  | serialization place fault => exact .inl ⟨⟨place, fault, rfl⟩, rfl⟩
  | _ => exact .inr ⟨nofun, rfl⟩

/-- **The table of contents is the commit point.** A run stores at most one table, after everything
else; it results in a table exactly when it stored it; and when it was refused an artifact, it
stores none and fails with an account of the refusal. -/
theorem table_is_stored_last :
    (Event.publications (s.build writer timing request m).events).length ≤ 1 ∧
      (∀ es₁ toc answer es₂,
        (s.build writer timing request m).events = es₁ ++ .published toc answer :: es₂ →
          Event.writes es₂ = [] ∧ (∀ w ∈ Event.writes es₁, ∃ d, w.2 = .ok d) ∧
            ∀ d ∈ toc.variantArtifacts ++ toc.sliceArtifacts,
              ∃ call, (call, .ok d) ∈ Event.writes es₁) ∧
      (∀ toc, (s.build writer timing request m).result = .ok toc ↔
        .published toc (.ok ()) ∈ (s.build writer timing request m).events) ∧
      (∀ call e, (call, .error e) ∈ Event.writes (s.build writer timing request m).events →
        Event.publications (s.build writer timing request m).events = [] ∧
          ∃ job ∈ Event.namings (s.build writer timing request m).events, ∃ e',
            (.forFragment request.mode job.1 job.2, .error e') ∈
              Event.writes (s.build writer timing request m).events ∧
            ((∃ place fault, e' = .serialization place fault) ∧
                (s.build writer timing request m).result = .error e' ∨
              (∀ place fault, e' ≠ .serialization place fault) ∧
                (s.build writer timing request m).result =
                  .error (.serialization job.2.text (.reported e'.message)))) ∧
      ∀ call e,
        (call, .error e) ∈ Event.writes (s.fragmentPhase writer timing request m).events →
          (s.build writer timing request m).events =
            .noticed (s.opening request) :: (s.fragmentPhase writer timing request m).events := by
  refine ⟨s.length_publications_le writer timing request m, fun es₁ toc answer es₂ h ↦
    (s.build_publishes writer timing request m h).2, fun toc ↦
    s.build_ok_iff writer timing request m, fun call e h ↦ ?_, fun call e h ↦
    s.build_of_refused_in_fragmentPhase writer timing request m h⟩
  obtain ⟨hnone, job, hjob, e', hwrite, hresult⟩ := s.build_refused writer timing request m h
  refine ⟨hnone, job, hjob, e', hwrite, ?_⟩
  rw [hresult]
  rcases whileWriting_cases job.2 e' with ⟨hown, heq⟩ | ⟨hother, heq⟩
  · exact .inl ⟨hown, by rw [heq]⟩
  · exact .inr ⟨hother, by rw [heq]⟩

end

/-- When the disk is full, there is no table of contents. -/
theorem full_disk_shows_no_table :
    let f : Fragment := { Fragment.untargeted .base .split (.ofPackage "p") with isMaster := true }
    let s := plain { Bundle.ofPackage "p" with
      modules := [.independent .base .feature (.ofPackage "p")] }
    let full : Writer Unit := { Writer.echo with
      add := fun _ ↦ .silent (.error (.io (.reported "disk full"))) }
    let out := s.build full .inOrder ⟨[f], [], .default, none, default, []⟩ ⟨(), (), ∅, ()⟩
    out.result =
        .error (.serialization "splits/base-master.apk" (.reported "I/O error: disk full")) ∧
      Event.publications out.events = [] := by
  intro f s full out
  have hwrites : Event.writes out.events = [(.forFragment .default f ⟨"splits/base-master.apk"⟩,
      .error (.io (.reported "disk full")))] := rfl
  exact ⟨rfl, ((table_is_stored_last s full .inOrder ⟨[f], [], .default, none, default, []⟩
    ⟨(), (), ∅, ()⟩).2.2.2.1 _ _ (hwrites ▸ List.mem_singleton_self _)).1⟩

end Serializer

end FragmentArchive
