import FragmentArchive.Proofs.CommitPoint
import FragmentArchive.Proofs.Consultation

/-!
# Replaying requests

All requests to the path assigner and to the writer are among the events of a run. Hence what the
two remember at its end is what these requests make of what they remembered at its beginning,
whoever else was consulted in between, and a statement about the archive that a run leaves behind
is one about a sequence of requests.
-/

namespace FragmentArchive

variable {μ ℓ π ω : Type}

/-! ## Sequences of requests -/

/-- A writer is asked to store some artifacts one after the other, with the recorded answers. -/
def Writer.Answers (writer : Writer ω) :
    ω → List (WriteCall × Except Error ArtifactDescriptor) → ω → Prop
  | archive, [], archive' => archive' = archive
  | archive, w :: ws, archive' => (writer.add w.1 archive).answer = w.2 ∧
    writer.Answers (writer.add w.1 archive).memory ws archive'

theorem Writer.answers_append {writer : Writer ω} {archive archive' : ω}
    {ws ws' : List (WriteCall × Except Error ArtifactDescriptor)} :
    writer.Answers archive (ws ++ ws') archive' ↔
      ∃ between, writer.Answers archive ws between ∧ writer.Answers between ws' archive' := by
  induction ws generalizing archive with
  | nil =>
    constructor
    · intro h
      exact ⟨archive, rfl, h⟩
    · rintro ⟨between, rfl, h⟩
      exact h
  | cons w ws ih =>
    rw [List.cons_append, Answers, ih]
    constructor
    · rintro ⟨hanswer, between, h, h'⟩
      exact ⟨between, ⟨hanswer, h⟩, h'⟩
    · rintro ⟨between, ⟨hanswer, h⟩, h'⟩
      exact ⟨hanswer, between, h, h'⟩

/-- Path assigner and writer come to what the recorded requests make of their memories. -/
structure Memory.Replays (assigner : PathAssigner π) (writer : Writer ω) (m : Memory μ ℓ π ω)
    (es : List Event) (m' : Memory μ ℓ π ω) : Prop where
  naming : assigner.paths ((Event.namings es).map (·.1)) m.naming =
    ((Event.namings es).map (·.2), m'.naming)
  archive : writer.Answers m.archive (Event.writes es) m'.archive

section

variable (assigner : PathAssigner π) (writer : Writer ω)

theorem Memory.composes_replays : Run.Composes
    (Memory.Replays assigner writer : Memory μ ℓ π ω → List Event → Memory μ ℓ π ω → Prop) where
  nil _ := ⟨rfl, rfl⟩
  append {m m' m'' es es'} h h' := by
    refine ⟨?_, ?_⟩
    · rw [Event.namings_append, List.map_append, PathAssigner.paths_append, h.naming, h'.naming,
        List.map_append]
    · rw [Event.writes_append]
      exact Writer.answers_append.mpr ⟨m'.archive, h.archive, h'.archive⟩

variable {assigner writer}

/-- Nothing is to be replayed of a run that consults neither of them. -/
theorem Run.Only.replays {α : Type} {kinds : List Event.Kind} {x : Run (Memory μ ℓ π ω) α}
    (hx : Only kinds x) (hnaming : .naming ∉ kinds) (hwrite : .write ∉ kinds)
    (hpublication : .publication ∉ kinds) : Always (Memory.Replays assigner writer) x := by
  intro m
  have hwithin := hx m
  refine ⟨?_, ?_⟩
  · rw [Event.namings_eq_nil fun e he ↦ ?_, hwithin.naming hnaming]
    · rfl
    · rintro hkind
      exact hnaming (hkind ▸ hwithin.kind_mem e he)
  · rw [Event.writes_eq_nil fun e he ↦ ?_, hwithin.archive hwrite hpublication]
    · rfl
    · rintro hkind
      exact hwrite (hkind ▸ hwithin.kind_mem e he)

end

/-! ## The phases of a run -/

namespace Serializer

variable (s : Serializer μ ℓ π) (writer : Writer ω)

theorem always_replays_add (call : WriteCall) : Run.Always
    (Memory.Replays (μ := μ) (ℓ := ℓ) s.assigner writer) (Run.add writer call) := by
  intro m
  have hadd : Run.Only [.write, .notice] (Run.add writer call :
      Run (Memory μ ℓ π ω) ArtifactDescriptor) := Run.only_add writer call
  have hnamings : Event.namings (Run.add writer call m).events = [] :=
    hadd.namings_eq_nil (by simp) rfl
  have hwrites : Event.writes (Run.add writer call m).events =
      [(call, (writer.add call m.archive).answer)] :=
    congrArg (_ :: ·) (Event.writes_noticed _)
  refine ⟨?_, ?_⟩
  · rw [hnamings]
    rfl
  · rw [hwrites]
    exact ⟨rfl, rfl⟩

/-- Every consultation is replayed: naming and storing by what is recorded of them, and the others
because neither of the two takes part in them. -/
theorem respects_replays :
    s.Respects writer (Memory.Replays (μ := μ) (ℓ := ℓ) s.assigner writer) where
  composes := Memory.composes_replays s.assigner writer
  ask f device := (Run.only_ask s.matcher f device).replays (by simp) (by simp) (by simp)
  modify manifest d :=
    (Run.only_modify s.modifier manifest d).replays (by simp) (by simp) (by simp)
  name f := fun m ↦ ⟨rfl, rfl⟩
  store := always_store (Memory.composes_replays s.assigner writer)
    (s.always_replays_add writer)
    (fun d ↦ (Run.only_notify s.listener d).replays (by simp) (by simp) (by simp))
    fun n ↦ (Run.only_notice (by simp) n : Run.Only [.notice] _).replays (by simp) (by simp)
      (by simp)
  notice n := (Run.only_notice (by simp) n : Run.Only [.notice] _).replays (by simp) (by simp)
    (by simp)

theorem always_replays_phases (timing : Timing) (request : BuildRequest) : Run.Always
    (Memory.Replays (μ := μ) (ℓ := ℓ) s.assigner writer) (s.phases writer timing request) := by
  have hR := Memory.composes_replays (μ := μ) (ℓ := ℓ) s.assigner writer
  have hphases := s.respects_replays (ℓ := ℓ) writer
  refine Run.Always.bind hR (hphases.writeFragments timing.fragments request.mode request.device
    request.fragments) fun variants ↦ ?_
  refine Run.Always.bind hR (hphases.writeSlices timing.assetSlices request.mode request.device
    request.assetSlices) fun sets ↦ ?_
  exact Run.always_ofExcept hR (.ok (variants, sets))

/-- What two phases ask of path assigner and writer, one after the other. -/
theorem replays_phases {s : Serializer μ ℓ π} {writer : Writer ω} {timing : Timing}
    {request : BuildRequest} {m m₁ m₂ : Memory μ ℓ π ω} {r₁ : Except Error (List Variant)}
    {r₂ : Except Error (List AssetSliceSet)} {es₁ es₂ : List Event}
    (hfragments : s.fragmentPhase writer timing request m = ⟨r₁, m₁, es₁⟩)
    (hslices : s.slicePhase writer timing request m = ⟨r₂, m₂, es₂⟩) :
    Memory.Replays s.assigner writer { m with naming := s.assigner.restart m.naming }
      (es₁ ++ es₂) m₂ := by
  rw [slicePhase, hfragments] at hslices
  have h₁ := ((s.respects_replays writer).writeFragments timing.fragments request.mode
    request.device request.fragments).apply hfragments
  have h₂ := ((s.respects_replays writer).writeSlices timing.assetSlices request.mode
    request.device request.assetSlices).apply hslices
  exact (Memory.composes_replays s.assigner writer).append h₁ h₂

section

variable (s : Serializer μ ℓ π) (writer : Writer ω) (timing : Timing) (request : BuildRequest)
  (m : Memory μ ℓ π ω)

/-- **What a build asks of path assigner and writer.** All artifacts are asked for before the table
of contents. A build that does not get to the table fails and leaves the archive as the last of
them left it; otherwise the answer to the table decides. -/
theorem replays_build :
    ∃ m', Memory.Replays s.assigner writer { m with naming := s.assigner.restart m.naming }
        (s.build writer timing request m).events m' ∧
      ((∃ e, (s.build writer timing request m).result = .error e) ∧
          (s.build writer timing request m).memory.archive = m'.archive ∨
        ∃ toc,
          (s.build writer timing request m).result =
            (writer.publish toc m'.archive).answer.map (fun _ ↦ toc) ∧
          (s.build writer timing request m).memory.archive =
            (writer.publish toc m'.archive).memory) := by
  rcases s.build_outcome writer timing request m with ⟨e, m', fes, hfragments, hbuild⟩ |
    ⟨variants, m₁, fes, e, m', ses, hfragments, hslices, hbuild⟩ |
    ⟨variants, m₁, fes, sets, m₂, ses, toc, reply, ns, hfragments, hslices, -, rfl, hbuild⟩
  · have hreplays := ((s.respects_replays writer).writeFragments timing.fragments request.mode
      request.device request.fragments).apply hfragments
    rw [hbuild]
    exact ⟨m', ⟨hreplays.naming, hreplays.archive⟩, .inl ⟨⟨e, rfl⟩, rfl⟩⟩
  · have hreplays := replays_phases hfragments hslices
    rw [hbuild]
    exact ⟨m', ⟨hreplays.naming, hreplays.archive⟩, .inl ⟨⟨e, rfl⟩, rfl⟩⟩
  · have hreplays := replays_phases hfragments hslices
    have hclosing : Memory.Replays s.assigner writer m₂
        (.published toc (writer.publish toc m₂.archive).answer :: ns.map .noticed) m₂ :=
      ⟨by rw [Event.namings, List.filterMap_cons_none rfl, ← Event.namings, Event.namings_noticed]
          rfl,
        by rw [Event.writes, List.filterMap_cons_none rfl, ← Event.writes, Event.writes_noticed]
           rfl⟩
    have hwhole := (Memory.composes_replays s.assigner writer).append hreplays hclosing
    rw [List.append_assoc] at hwhole
    rw [hbuild]
    exact ⟨m₂, ⟨hwhole.naming, hwhole.archive⟩, .inr ⟨toc, rfl, rfl⟩⟩

/-- Whatever the writer is asked for was named in the same build. -/
theorem exists_naming_of_mem_writes {w : WriteCall × Except Error ArtifactDescriptor}
    (hw : w ∈ Event.writes (s.build writer timing request m).events) :
    ∃ job ∈ Event.namings (s.build writer timing request m).events,
      w.1 = .forFragment request.mode job.1 job.2 := by
  have hfragments' := s.writesInBatch_writeFragments writer timing.fragments request.fragments
    request.mode request.device
  have hslices' := s.writesInBatch_writeSlices writer timing.assetSlices request.assetSlices
    request.mode request.device
  -- the two phases, with nothing before and between them that is named or written
  have hphases : ∀ {r₁ : Except Error (List Variant)} {r₂ : Except Error (List AssetSliceSet)}
      {m₁ m₂ : Memory μ ℓ π ω} {es₁ es₂ : List Event},
      s.fragmentPhase writer timing request m = ⟨r₁, m₁, es₁⟩ →
      s.slicePhase writer timing request m = ⟨r₂, m₂, es₂⟩ → w ∈ Event.writes (es₁ ++ es₂) →
        ∃ job ∈ Event.namings (es₁ ++ es₂), w.1 = .forFragment request.mode job.1 job.2 := by
    intro r₁ r₂ m₁ m₂ es₁ es₂ h₁ h₂ hw
    rw [Event.writes_append] at hw
    rw [Event.namings_append]
    rcases List.mem_append.mp hw with hw | hw
    · obtain ⟨job, hjob, hcall⟩ := hfragments'.exists_naming h₁ hw
      exact ⟨job, List.mem_append_left _ hjob, hcall⟩
    · obtain ⟨job, hjob, hcall⟩ := hslices'.exists_naming h₂ hw
      exact ⟨job, List.mem_append_right _ hjob, hcall⟩
  rcases s.build_outcome writer timing request m with ⟨e, m', fes, hfragments, hbuild⟩ |
    ⟨variants, m₁, fes, e, m', ses, hfragments, hslices, hbuild⟩ |
    ⟨variants, m₁, fes, sets, m₂, ses, toc, reply, ns, hfragments, hslices, -, -, hbuild⟩
  · rw [hbuild] at hw ⊢
    exact hfragments'.exists_naming hfragments hw
  · rw [hbuild] at hw ⊢
    exact hphases hfragments hslices hw
  · rw [writes_of_phases hfragments hslices, ← Event.writes_append] at hw
    obtain ⟨job, hjob, hcall⟩ := hphases hfragments hslices hw
    refine ⟨job, ?_, hcall⟩
    rw [hbuild, ← List.append_assoc, ← List.cons_append, Event.namings_append]
    exact List.mem_append_left _ hjob

end

end Serializer

end FragmentArchive
