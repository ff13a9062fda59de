import FragmentArchive.Proofs.History
import FragmentArchive.Proofs.Replay

/-!
# Where two runs part

The same build is run twice, on two writers or on two archives of one writer. All other
collaborators begin with the same memories, so as long as the writers answer alike nothing can be
different. The first difference is therefore an answer: up to some request both runs have asked and
heard the same, and this one is answered in two ways. If there is no such request, the runs are the
same but for what the writers remember.

Whether two runs come to the same is then a question about the writers alone, and the runs need not
be looked at any more.
-/

namespace FragmentArchive

variable {μ ℓ π ω ω' α β : Type}

/-! ## Answers that part -/

/-- After some requests that are answered alike, there is one with two answers. -/
def Parted (ws ws' : List (WriteCall × Except Error ArtifactDescriptor)) : Prop :=
  ∃ before call answer answer' after after', ws = before ++ (call, answer) :: after ∧
    ws' = before ++ (call, answer') :: after' ∧ answer ≠ answer'

namespace Parted

variable {ws ws' : List (WriteCall × Except Error ArtifactDescriptor)}

/-- Whatever comes later, they have parted. -/
protected theorem append (h : Parted ws ws')
    (later later' : List (WriteCall × Except Error ArtifactDescriptor)) :
    Parted (ws ++ later) (ws' ++ later') := by
  obtain ⟨before, call, answer, answer', after, after', rfl, rfl, hne⟩ := h
  exact ⟨before, call, answer, answer', after ++ later, after' ++ later', by simp, by simp, hne⟩

/-- Whatever was the same before, they part. -/
theorem prepend (h : Parted ws ws')
    (earlier : List (WriteCall × Except Error ArtifactDescriptor)) :
    Parted (earlier ++ ws) (earlier ++ ws') := by
  obtain ⟨before, call, answer, answer', after, after', rfl, rfl, hne⟩ := h
  exact ⟨earlier ++ before, call, answer, answer', after, after', by simp, by simp, hne⟩

end Parted

/-- From one memory, a writer comes to one memory by the same answers. -/
theorem Writer.Answers.unique {writer : Writer ω} {archive left right : ω}
    {ws : List (WriteCall × Except Error ArtifactDescriptor)}
    (h : writer.Answers archive ws left) (h' : writer.Answers archive ws right) : left = right := by
  induction ws generalizing archive with
  | nil => exact Eq.trans h (Eq.symm h')
  | cons w ws ih => exact ih h.2 h'.2

/-- A writer does not part from itself. -/
theorem Writer.Answers.not_parted {writer : Writer ω} {archive left right : ω}
    {ws ws' : List (WriteCall × Except Error ArtifactDescriptor)}
    (h : writer.Answers archive ws left) (h' : writer.Answers archive ws' right) :
    ¬Parted ws ws' := by
  rintro ⟨before, call, answer, answer', after, after', rfl, rfl, hne⟩
  obtain ⟨between, hbefore, hanswer, -⟩ := Writer.answers_append.mp h
  obtain ⟨between', hbefore', hanswer', -⟩ := Writer.answers_append.mp h'
  obtain rfl := hbefore.unique hbefore'
  exact hne (hanswer.symm.trans hanswer')

/-! ## Runs that part -/

/-- Two outcomes are the same but for what the writers remember, or the answers of the writers have
parted. -/
def Outcome.PartsByAnswer (o : Outcome (Memory μ ℓ π ω) α) (o' : Outcome (Memory μ ℓ π ω') α) :
    Prop :=
  (Event.writes o'.events = Event.writes o.events ∧ o'.result = o.result ∧
      o'.memory.standing = o.memory.standing) ∨
    Parted (Event.writes o.events) (Event.writes o'.events)

namespace Run

/-- From memories that differ in the writers' only, the outcomes of two runs differ by answers of
the writers only. -/
def PartByAnswer (x : Run (Memory μ ℓ π ω) α) (y : Run (Memory μ ℓ π ω') α) : Prop :=
  ∀ (standing : Standing μ ℓ π) (archive : ω) (archive' : ω'),
    (x (standing.meeting archive)).PartsByAnswer (y (standing.meeting archive'))

variable {x : Run (Memory μ ℓ π ω) α} {y : Run (Memory μ ℓ π ω') α}

/-- Where the writers are not asked, nothing parts. -/
theorem partByAnswer_of_same (h : ∀ (standing : Standing μ ℓ π) (archive : ω) (archive' : ω'),
      (y (standing.meeting archive')).result = (x (standing.meeting archive)).result ∧
      (y (standing.meeting archive')).events = (x (standing.meeting archive)).events ∧
      (y (standing.meeting archive')).memory.standing =
        (x (standing.meeting archive)).memory.standing) : PartByAnswer x y := by
  intro standing archive archive'
  obtain ⟨hresult, hevents, hstanding⟩ := h standing archive archive'
  exact .inl ⟨congrArg Event.writes hevents, hresult, hstanding⟩

theorem PartByAnswer.bind {f : α → Run (Memory μ ℓ π ω) β} {g : α → Run (Memory μ ℓ π ω') β}
    (hx : PartByAnswer x y) (hf : ∀ a, PartByAnswer (f a) (g a)) :
    PartByAnswer (x >>= f) (y >>= g) := by
  intro standing archive archive'
  have hfirst := hx standing archive archive'
  rcases hxm : x (standing.meeting archive) with ⟨r, m, es⟩
  rcases hyn : y (standing.meeting archive') with ⟨r', n, es'⟩
  rw [hxm, hyn] at hfirst
  have hleft : ∃ later, Event.writes ((x >>= f) (standing.meeting archive)).events =
      Event.writes es ++ later := by
    rcases r with e | a
    · exact ⟨[], by rw [bind_of_error hxm, List.append_nil]⟩
    · exact ⟨_, by rw [bind_of_ok hxm, Event.writes_append]⟩
  have hright : ∃ later, Event.writes ((y >>= g) (standing.meeting archive')).events =
      Event.writes es' ++ later := by
    rcases r' with e | a
    · exact ⟨[], by rw [bind_of_error hyn, List.append_nil]⟩
    · exact ⟨_, by rw [bind_of_ok hyn, Event.writes_append]⟩
  rcases hfirst with ⟨hwrites, hresult, hstanding⟩ | hparted
  · change Event.writes es' = Event.writes es at hwrites
    obtain rfl : r' = r := hresult
    rcases r' with e | a
    · rw [bind_of_error hxm, bind_of_error hyn]
      exact .inl ⟨hwrites, rfl, hstanding⟩
    · have hsecond := hf a m.standing m.archive n.archive
      have hn : m.standing.meeting n.archive = n :=
        congrArg (Standing.meeting · n.archive) hstanding.symm
      rw [hn] at hsecond
      rw [bind_of_ok hxm, bind_of_ok hyn]
      rcases hsecond with ⟨hwrites', hresult', hstanding'⟩ | hparted'
      · refine .inl ⟨?_, hresult', hstanding'⟩
        rw [Event.writes_append, Event.writes_append, hwrites]
        exact congrArg _ hwrites'
      · refine .inr ?_
        rw [Event.writes_append, Event.writes_append, hwrites]
        exact hparted'.prepend _
  · obtain ⟨later, hlater⟩ := hleft
    obtain ⟨later', hlater'⟩ := hright
    refine .inr ?_
    rw [hlater, hlater']
    exact hparted.append later later'

theorem congruence_partByAnswer : Congruence
    fun α (x : Run (Memory μ ℓ π ω) α) (y : Run (Memory μ ℓ π ω') α) ↦ PartByAnswer x y where
  ofExcept _ := partByAnswer_of_same fun _ _ _ ↦ ⟨rfl, rfl, rfl⟩
  bind := PartByAnswer.bind

/-- An error that becomes a result, or another error, does so on both sides. -/
theorem PartByAnswer.attempt (h : PartByAnswer x y) : PartByAnswer x.attempt y.attempt :=
  fun standing archive archive' ↦ (h standing archive archive').imp_left
    fun ⟨hwrites, hresult, hstanding⟩ ↦ ⟨hwrites, congrArg Except.ok hresult, hstanding⟩

theorem PartByAnswer.mapError (h : PartByAnswer x y) (g : Error → Error) :
    PartByAnswer (x.mapError g) (y.mapError g) :=
  fun standing archive archive' ↦ (h standing archive archive').imp_left
    fun ⟨hwrites, hresult, hstanding⟩ ↦
      ⟨hwrites, congrArg (Except.mapError g) hresult, hstanding⟩

/-- The writers are the only ones who can answer in two ways. -/
theorem partByAnswer_add (writer : Writer ω) (writer' : Writer ω') (call : WriteCall) :
    PartByAnswer (add writer call : Run (Memory μ ℓ π ω) ArtifactDescriptor)
      (add writer' call : Run (Memory μ ℓ π ω') ArtifactDescriptor) := by
  intro standing archive archive'
  have hwrites : ∀ {ω : Type} (writer : Writer ω) (archive : ω),
      Event.writes (add writer call (standing.meeting archive)).events =
        [(call, (writer.add call archive).answer)] :=
    fun _ _ ↦ congrArg (_ :: ·) (Event.writes_noticed _)
  by_cases hanswer : (writer'.add call archive').answer = (writer.add call archive).answer
  · refine .inl ⟨?_, hanswer, rfl⟩
    rw [hwrites, hwrites, hanswer]
  · refine .inr ⟨[], call, _, _, [], [], hwrites writer archive, hwrites writer' archive', ?_⟩
    exact fun heq ↦ hanswer heq.symm

end Run

/-! ## Builds -/

namespace Serializer

variable (s : Serializer μ ℓ π) (writer : Writer ω) (writer' : Writer ω')

variable (ω ω') in
theorem parallels_partByAnswer : s.Parallels s
    fun α (x : Run (Memory μ ℓ π ω) α) (y : Run (Memory μ ℓ π ω') α) ↦ Run.PartByAnswer x y where
  congruence := Run.congruence_partByAnswer
  modules := rfl
  first := rfl
  modify _ _ := Run.partByAnswer_of_same fun _ _ _ ↦ ⟨rfl, rfl, rfl⟩
  name _ := Run.partByAnswer_of_same fun _ _ _ ↦ ⟨rfl, rfl, rfl⟩
  notice _ := Run.partByAnswer_of_same fun _ _ _ ↦ ⟨rfl, rfl, rfl⟩

theorem partByAnswer_store (mode : BuildMode) (job : Job) :
    Run.PartByAnswer (s.store writer mode job : Run (Memory μ ℓ π ω) ArtifactDescriptor)
      (s.store writer' mode job : Run (Memory μ ℓ π ω') ArtifactDescriptor) := by
  have hparallels := s.parallels_partByAnswer ω ω'
  have hQ := hparallels.congruence
  have hwritten : ∀ d : ArtifactDescriptor, Run.PartByAnswer
      (do Run.notice (.written s.options.verbose d.path job.1.category); return d :
        Run (Memory μ ℓ π ω) ArtifactDescriptor)
      (do Run.notice (.written s.options.verbose d.path job.1.category); return d :
        Run (Memory μ ℓ π ω') ArtifactDescriptor) :=
    fun d ↦ hQ.bind (hparallels.notice _) fun _ ↦ hQ.pure d
  refine hQ.bind ((Run.partByAnswer_add writer writer' _).mapError _) fun d ↦ ?_
  refine hQ.bind (Run.partByAnswer_of_same fun _ _ _ ↦ ⟨rfl, rfl, rfl⟩) fun heard ↦ ?_
  rcases heard with e | _
  · exact hQ.bind (hparallels.notice _) fun _ ↦ hwritten d
  · exact hwritten d

/-- **Where two builds part.** Up to the table of contents, it is the writers' answers by which the
builds of one request differ, and nothing else. -/
theorem phases_part_by_answer (timing : Timing) (request : BuildRequest) :
    Run.PartByAnswer (s.phases writer timing request) (s.phases writer' timing request) := by
  have hparallels := s.parallels_partByAnswer ω ω'
  have hQ := hparallels.congruence
  have hkeeps := hparallels.keeps_of_ask fun f device ↦
    Run.partByAnswer_of_same fun _ _ _ ↦ ⟨rfl, rfl, rfl⟩
  have hbatch : ∀ (schedule : (jobs : Nat) → Schedule jobs) (jobs : List Job),
      Run.PartByAnswer
        (Schedule.runAll jobs (schedule jobs.length) (s.store writer request.mode) :
          Run (Memory μ ℓ π ω) (List ArtifactDescriptor))
        (Schedule.runAll jobs (schedule jobs.length) (s.store writer' request.mode) :
          Run (Memory μ ℓ π ω') (List ArtifactDescriptor)) :=
    fun schedule jobs ↦ hQ.runAll Run.PartByAnswer.attempt
      (s.partByAnswer_store writer writer' request.mode) jobs _
  refine hQ.bind (hparallels.writeFragments writer writer' _ _ rfl (fun filter _ ↦ hkeeps filter)
    (hbatch timing.fragments) request.fragments) fun variants ↦ ?_
  exact hQ.bind (hparallels.writeSlices writer writer' _ _ rfl (fun filter _ ↦ hkeeps filter)
    (hbatch timing.assetSlices) request.assetSlices) fun sets ↦ hQ.pure (variants, sets)

/-- **When the phases succeed again.** It is enough that a writer can answer as another one has
answered. -/
theorem phases_of_answers {writer : Writer ω} {writer' : Writer ω'} {timing : Timing}
    {request : BuildRequest} {standing : Standing μ ℓ π} {archive : ω} {archive' last : ω'}
    {results : List Variant × List AssetSliceSet} {m : Memory μ ℓ π ω} {es : List Event}
    (h : s.phases writer timing request (standing.meeting archive) = ⟨.ok results, m, es⟩)
    (hanswers : writer'.Answers archive' (Event.writes es) last) :
    ∃ m' es', s.phases writer' timing request (standing.meeting archive') =
        ⟨.ok results, m', es'⟩ ∧ m'.archive = last := by
  have hpart := s.phases_part_by_answer writer writer' timing request standing archive archive'
  rcases hphases : s.phases writer' timing request (standing.meeting archive') with ⟨r, m', es'⟩
  have hreplays := ((s.always_replays_phases writer' timing request).apply hphases).archive
  rw [h, hphases] at hpart
  obtain ⟨hsame, hresult, -⟩ := hpart.resolve_right (hanswers.not_parted hreplays)
  change Event.writes es' = Event.writes es at hsame
  obtain rfl : r = .ok results := hresult
  rw [hsame] at hreplays
  exact ⟨m', es', rfl, hreplays.unique hanswers⟩

/-- **What a successful build has done.** Its phases have succeeded, all that they asked the writer
for was stored, and then so was the table of their results. -/
theorem exists_phases_of_ok {timing : Timing} {request : BuildRequest} {standing : Standing μ ℓ π}
    {archive : ω} {toc : TableOfContents}
    (h : (s.build writer timing request (standing.meeting archive)).result = .ok toc) :
    ∃ results m es,
      s.phases writer timing request
        (({ standing with naming := s.assigner.restart standing.naming } :
          Standing μ ℓ π).meeting archive) = ⟨.ok results, m, es⟩ ∧
      toc = .ofResults s.bundle results.1 results.2 request.permanentlyFusedModules
        request.localTestingInfo ∧
      Event.writes (s.build writer timing request (standing.meeting archive)).events =
        Event.writes es ∧
      (∀ w ∈ Event.writes es, ∃ d, w.2 = .ok d) ∧
      writer.Answers archive (Event.writes es) m.archive ∧
      (writer.publish toc m.archive).answer = .ok () ∧
      (s.build writer timing request (standing.meeting archive)).memory.archive =
        (writer.publish toc m.archive).memory := by
  rcases hphases : s.phases writer timing request
      (({ standing with naming := s.assigner.restart standing.naming } :
        Standing μ ℓ π).meeting archive) with ⟨e | results, m, es⟩
  · rw [build_of_error (m := standing.meeting archive) hphases] at h
    cases h
  obtain ⟨ns, hbuild⟩ := build_of_results (m := standing.meeting archive) hphases rfl
  have hwrites : Event.writes (s.build writer timing request (standing.meeting archive)).events =
      Event.writes es := writes_of_results (m := standing.meeting archive) hphases
  have hstored : ∀ w ∈ Event.writes es, ∃ d, w.2 = .ok d := by
    obtain ⟨es₁, es₂, hsplit⟩ := List.append_of_mem
      ((s.build_ok_iff writer timing request (standing.meeting archive)).mp h)
    obtain ⟨-, hnone, hok, -⟩ := s.build_publishes writer timing request _ hsplit
    have hlast : Event.writes (.published toc (.ok ()) :: es₂) = [] := hnone
    rw [hsplit, Event.writes_append, hlast, List.append_nil] at hwrites
    rwa [hwrites] at hok
  have hreplays := (s.always_replays_phases writer timing request).apply hphases
  rw [hbuild] at h
  obtain ⟨_, hanswer, rfl⟩ := map_eq_ok_iff.mp h
  exact ⟨results, m, es, rfl, rfl, hwrites, hstored, hreplays.archive, hanswer,
    congrArg (·.memory.archive) hbuild⟩

end Serializer

end FragmentArchive
