import FragmentArchive.Proofs.CommitPoint
import FragmentArchive.Proofs.Replay

/-!
# Where schedules show

Which worker does which job, and in which order, cannot be seen from the table of contents that a
run hands over. The condition is on the writer: what it answers to a request for an artifact has to
depend on the request alone. Then every job has one result under all schedules, and the results are
put together in the order of the jobs.

What can depend on the schedule is the answer to the table. A writer knows in which order it has
stored the artifacts, and nothing keeps it from accepting the table after one order and refusing it
after another. So a run can succeed under one schedule and fail under another one, but only with the
writer's answer to the same table.

The listener and the archive do remember the order of the jobs, so two runs under different
schedules part ways in their memories. What they keep in common is what matcher, modifier and path
assigner remember, since these are consulted between the batches only. The comparison of two runs
therefore starts from memories that agree so far, and while both runs succeed it goes on with such
memories. Where a batch fails it fails under all schedules, but which of several failures is
reported may differ; until then matcher and modifier were asked the same.
-/

namespace FragmentArchive

/-- The writer's answer to a request for an artifact depends on the request alone. -/
def Writer.AnswersByRequest {ω : Type} (writer : Writer ω) : Prop :=
  ∀ call archive archive', (writer.add call archive).answer = (writer.add call archive').answer

/-- Whether a table of contents is accepted does not depend on the order in which the artifacts were
stored. -/
def Writer.AcceptsInAnyOrder {ω : Type} (writer : Writer ω) : Prop :=
  ∀ toc archive ws ws' stored stored', ws.Perm ws' → writer.Answers archive ws stored →
    writer.Answers archive ws' stored' →
      (writer.publish toc stored).answer = (writer.publish toc stored').answer

section

variable {μ ℓ π ω α β : Type}

/-! ## Memories that agree between the batches -/

/-- Matcher, modifier and path assigner remember the same. -/
def Memory.Agrees (m n : Memory μ ℓ π ω) : Prop :=
  ∃ listener archive, n = { m with listener, archive }

theorem Memory.agrees_refl (m : Memory μ ℓ π ω) : m.Agrees m := ⟨m.listener, m.archive, rfl⟩

theorem Memory.Within.agrees {kinds : List Event.Kind} {m m' n n' : Memory μ ℓ π ω}
    {es es' : List Event} (hm : m.Within kinds es m') (hn : n.Within kinds es' n')
    (hquestion : .question ∉ kinds) (hnaming : .naming ∉ kinds) (h : m.Agrees n) :
    m'.Agrees n' := by
  obtain ⟨listener, archive, rfl⟩ := h
  have hpolicy : n'.policy = m'.policy := by rw [hn.policy hquestion, hm.policy hquestion]
  have hnames : n'.naming = m'.naming := by rw [hn.naming hnaming, hm.naming hnaming]
  exact ⟨n'.listener, n'.archive, by rw [← hpolicy, ← hnames]⟩

/-- Two outcomes differ at most in the order of a batch. Matcher and modifier were asked the same in
the same order. Either both outcomes are failures, though not always the same one, or they have the
same result, and then the writer was asked and the listener told the same, in some order. -/
structure Outcome.Resembles (o o' : Outcome (Memory μ ℓ π ω) α) : Prop where
  questions : Event.questions o.events = Event.questions o'.events
  result : (∃ e e', o.result = .error e ∧ o'.result = .error e') ∨
    ∃ a, o.result = .ok a ∧ o'.result = .ok a ∧ o.memory.Agrees o'.memory ∧
      (Event.writes o.events).Perm (Event.writes o'.events) ∧
      (Event.hearings o.events).Perm (Event.hearings o'.events)

namespace Run

variable {x y : Run (Memory μ ℓ π ω) α} {f g : α → Run (Memory μ ℓ π ω) β}

/-- From memories that agree, two runs have outcomes that resemble each other. -/
def Reproduces (x y : Run (Memory μ ℓ π ω) α) : Prop :=
  ∀ m n, m.Agrees n → (x m).Resembles (y n)

/-- Where listener and archive have no influence, runs from agreeing memories are the same. -/
theorem reproduces_of_same (h : ∀ m n, m.Agrees n → (x n).result = (x m).result ∧
    (x n).events = (x m).events ∧ (x m).memory.Agrees (x n).memory) : Reproduces x x := by
  intro m n hmn
  obtain ⟨hresult, hevents, hagrees⟩ := h m n hmn
  refine ⟨by rw [hevents], ?_⟩
  rw [hresult, hevents]
  cases (x m).result with
  | error e => exact .inl ⟨e, e, rfl, rfl⟩
  | ok a => exact .inr ⟨a, rfl, rfl, hagrees, .refl _, .refl _⟩

theorem reproduces_ofExcept (r : Except Error α) :
    Reproduces (ofExcept r : Run (Memory μ ℓ π ω) α) (ofExcept r) :=
  reproduces_of_same fun _ _ hmn ↦ ⟨rfl, rfl, hmn⟩

theorem reproduces_pure (a : α) : Reproduces (pure a : Run (Memory μ ℓ π ω) α) (pure a) :=
  reproduces_ofExcept (.ok a)

theorem Reproduces.bind (hx : Reproduces x y) (hf : ∀ a, Reproduces (f a) (g a)) :
    Reproduces (x >>= f) (y >>= g) := by
  intro m n hmn
  have hfirst := hx m n hmn
  rcases hxm : x m with ⟨r, m₁, es₁⟩
  rcases hyn : y n with ⟨r', n₁, es₁'⟩
  rw [hxm, hyn] at hfirst
  obtain ⟨hquestions₁, ⟨e, e', rfl, rfl⟩ | ⟨a, rfl, rfl, hagrees, hwrites₁, hhearings₁⟩⟩ := hfirst
  · rw [bind_of_error hxm, bind_of_error hyn]
    exact ⟨hquestions₁, .inl ⟨e, e', rfl, rfl⟩⟩
  · obtain ⟨hquestions₂, hresult₂⟩ := hf a m₁ n₁ hagrees
    rw [bind_of_ok hxm, bind_of_ok hyn]
    refine ⟨?_, ?_⟩
    · rw [Event.questions_append, Event.questions_append, hquestions₁, hquestions₂]
    · refine hresult₂.imp_right ?_
      rintro ⟨b, hb, hb', hagrees', hwrites₂, hhearings₂⟩
      refine ⟨b, hb, hb', hagrees', ?_, ?_⟩
      · rw [Event.writes_append, Event.writes_append]
        exact hwrites₁.append hwrites₂
      · rw [Event.hearings_append, Event.hearings_append]
        exact hhearings₁.append hhearings₂

theorem congruence_reproduces : Congruence
    fun α (x y : Run (Memory μ ℓ π ω) α) ↦ Reproduces x y where
  ofExcept := reproduces_ofExcept
  bind := Reproduces.bind

theorem reproduces_notice (n : Notice) :
    Reproduces (notice n : Run (Memory μ ℓ π ω) Unit) (notice n) :=
  reproduces_of_same fun _ _ hmn ↦ ⟨rfl, rfl, hmn⟩

theorem reproduces_ask (matcher : Matcher μ) (f : Fragment) (device : Device) :
    Reproduces (ask matcher f device : Run (Memory μ ℓ π ω) Bool) (ask matcher f device) := by
  refine reproduces_of_same ?_
  rintro m _ ⟨listener, archive, rfl⟩
  exact ⟨rfl, rfl, listener, archive, rfl⟩

theorem reproduces_modify (modifier : Modifier μ) (manifest : Manifest)
    (d : ModificationDescriptor) :
    Reproduces (modify modifier manifest d : Run (Memory μ ℓ π ω) Manifest)
      (modify modifier manifest d) := by
  refine reproduces_of_same ?_
  rintro m _ ⟨listener, archive, rfl⟩
  exact ⟨rfl, rfl, listener, archive, rfl⟩

theorem reproduces_name (assigner : PathAssigner π) (f : Fragment) :
    Reproduces (name assigner f : Run (Memory μ ℓ π ω) ArchivePath) (name assigner f) := by
  refine reproduces_of_same ?_
  rintro m _ ⟨listener, archive, rfl⟩
  exact ⟨rfl, rfl, listener, archive, rfl⟩

end Run

end

namespace Serializer

variable {μ ℓ π ω : Type} (s : Serializer μ ℓ π)

/-- Between the batches a run is reproduced, because no one is consulted there but matcher, modifier
and path assigner. -/
theorem parallels_reproduces :
    s.Parallels s fun α (x y : Run (Memory μ ℓ π ω) α) ↦ Run.Reproduces x y where
  congruence := Run.congruence_reproduces
  modules := rfl
  first := rfl
  modify := Run.reproduces_modify s.modifier
  name := Run.reproduces_name s.assigner
  notice := Run.reproduces_notice

/-! ## Batches -/

variable {s} {writer : Writer ω} {mode : BuildMode}

/-- When all artifacts of a batch are stored, the listener was told about them in the order of the
schedule. -/
theorem hearings_runAll {jobs : List Job} {schedule : Schedule jobs.length}
    {written : List ArtifactDescriptor} {m m' : Memory μ ℓ π ω} {es : List Event}
    (h : Schedule.runAll jobs schedule (s.store writer mode) m = ⟨.ok written, m', es⟩) :
    Event.hearings es = (schedule.order (jobs.zip written)).map (·.2) :=
  Schedule.filterMap_runAll (fun job m _ h ↦ s.hearings_of_store_ok writer mode job m h) h

/-- **A batch comes to the same under all schedules.** -/
theorem reproduces_runAll (hwriter : writer.AnswersByRequest) (jobs : List Job)
    (schedule schedule' : Schedule jobs.length) :
    Run.Reproduces (Schedule.runAll jobs schedule (s.store writer mode) :
        Run (Memory μ ℓ π ω) (List ArtifactDescriptor))
      (Schedule.runAll jobs schedule' (s.store writer mode)) := by
  intro m n hmn
  have hresult : ∀ (job : Job) (m₁ : Memory μ ℓ π ω), (s.store writer mode job m₁).result =
      (writer.add (.forFragment mode job.1 job.2) m.archive).answer.mapError
        (.whileWriting job.2) := by
    intro job m₁
    obtain ⟨listener, es₁, hstore, -⟩ := s.store_apply writer mode job m₁ rfl
    rw [hstore, hwriter _ m₁.archive m.archive]
  have hok : ∀ written, (Schedule.runAll jobs schedule (s.store writer mode) m).result =
      .ok written ↔ (Schedule.runAll jobs schedule' (s.store writer mode) n).result =
        .ok written := fun written ↦
    (Schedule.runAll_ok_iff hresult).trans (Schedule.runAll_ok_iff hresult).symm
  have hwithin := s.only_storeAll writer mode jobs schedule m
  have hwithin' := s.only_storeAll writer mode jobs schedule' n
  rcases h : Schedule.runAll jobs schedule (s.store writer mode) m with ⟨r, m', es⟩
  rcases h' : Schedule.runAll jobs schedule' (s.store writer mode) n with ⟨r', n', es'⟩
  rw [h, h'] at hok
  rw [h] at hwithin
  rw [h'] at hwithin'
  refine ⟨?_, ?_⟩
  · rw [(s.only_storeAll writer mode jobs schedule).questions_eq_nil (by simp) h,
      (s.only_storeAll writer mode jobs schedule').questions_eq_nil (by simp) h']
  · cases r with
    | error e =>
      cases r' with
      | error e' => exact .inl ⟨e, e', rfl, rfl⟩
      | ok written => cases (hok written).mpr rfl
    | ok written =>
      obtain rfl : r' = .ok written := (hok written).mp rfl
      have hlength : (jobs.zip written).length = jobs.length := by
        rw [List.length_zip, Schedule.length_of_runAll_ok h, Nat.min_self]
      have hperm := (Schedule.order_perm_of_length hlength schedule).trans
        (Schedule.order_perm_of_length hlength schedule').symm
      refine .inr ⟨written, rfl, rfl, hwithin.agrees hwithin' (by simp) (by simp) hmn, ?_, ?_⟩
      · rw [writes_runAll h, writes_runAll h']
        exact hperm.map _
      · rw [hearings_runAll h, hearings_runAll h']
        exact hperm.map _

/-! ## Phases -/

variable (s)

theorem reproduces_writeFragments (hwriter : writer.AnswersByRequest)
    (schedule schedule' : (jobs : Nat) → Schedule jobs) (fragments : List Fragment)
    (mode : BuildMode) (device : Option Device) :
    Run.Reproduces (s.writeFragments writer schedule fragments mode device :
        Run (Memory μ ℓ π ω) (List Variant))
      (s.writeFragments writer schedule' fragments mode device) := by
  exact s.parallels_reproduces.writeFragments writer writer schedule schedule' rfl
    (fun filter _ ↦ s.parallels_reproduces.keeps_of_ask (Run.reproduces_ask s.matcher) filter)
    (fun jobs ↦ reproduces_runAll hwriter jobs _ _) fragments

theorem reproduces_writeSlices (hwriter : writer.AnswersByRequest)
    (schedule schedule' : (jobs : Nat) → Schedule jobs) (slices : List Fragment)
    (mode : BuildMode) (device : Option Device) :
    Run.Reproduces (s.writeSlices writer schedule slices mode device :
        Run (Memory μ ℓ π ω) (List AssetSliceSet))
      (s.writeSlices writer schedule' slices mode device) := by
  exact s.parallels_reproduces.writeSlices writer writer schedule schedule' rfl
    (fun filter _ ↦ s.parallels_reproduces.keeps_of_ask (Run.reproduces_ask s.matcher) filter)
    (fun jobs ↦ reproduces_runAll hwriter jobs _ _) slices

/-- **The phases of a run come to the same under all schedules.** -/
theorem reproduces_phases (hwriter : writer.AnswersByRequest) (timing timing' : Timing)
    (request : BuildRequest) :
    Run.Reproduces (s.phases writer timing request : Run (Memory μ ℓ π ω) _)
      (s.phases writer timing' request) :=
  (s.reproduces_writeFragments hwriter _ _ _ _ _).bind fun _ ↦
    (s.reproduces_writeSlices hwriter _ _ _ _ _).bind fun _ ↦ Run.reproduces_pure _

/-! ## Runs -/

/-- The serializer with another number of workers. -/
def withWorkers (workers : Nat) : Serializer μ ℓ π :=
  { s with options := { s.options with workers } }

/-- How many workers there are shows in the schedules only. -/
theorem build_withWorkers (workers : Nat) (writer : Writer ω) (timing : Timing)
    (request : BuildRequest) :
    ((s.withWorkers workers).build writer timing request :
        Run (Memory μ ℓ π ω) TableOfContents) = s.build writer timing request := by
  rw [build, build, withWorkers, writeSlices_options]
  · rfl
  · rfl

/-- **Under all schedules a run gets equally far.** Either it fails before it hands over a table of
contents, or it hands over the same one, after the same artifacts were stored and announced in some
order. Then the answers decide, and a writer that does not mind the order gives the same answer. -/
theorem build_of_other_timing (hwriter : writer.AnswersByRequest) (timing timing' : Timing)
    (request : BuildRequest) (m : Memory μ ℓ π ω) :
    let out := s.build writer timing request m
    let out' := s.build writer timing' request m
    (Event.publications out.events = [] ∧ Event.publications out'.events = [] ∧
      ∃ e e', out.result = .error e ∧ out'.result = .error e') ∨
    ∃ toc answer answer', Event.publications out.events = [(toc, answer)] ∧
      Event.publications out'.events = [(toc, answer')] ∧
      out.result = answer.map (fun _ ↦ toc) ∧ out'.result = answer'.map (fun _ ↦ toc) ∧
      (Event.writes out.events).Perm (Event.writes out'.events) ∧
      (Event.hearings out.events).Perm (Event.hearings out'.events) ∧
      (writer.AcceptsInAnyOrder → answer = answer') := by
  intro out out'
  have hresembles := s.reproduces_phases hwriter timing timing' request _ _
    (Memory.agrees_refl { m with naming := s.assigner.restart m.naming })
  rcases h : s.phases writer timing request { m with naming := s.assigner.restart m.naming } with
    ⟨r, n, es⟩
  rcases h' : s.phases writer timing' request { m with naming := s.assigner.restart m.naming } with
    ⟨r', n', es'⟩
  rw [h, h'] at hresembles
  obtain ⟨-, ⟨e, e', rfl, rfl⟩ | ⟨results, rfl, rfl, -, hwrites, hhearings⟩⟩ := hresembles
  · exact .inl ⟨publications_of_error h, publications_of_error h', e, e',
      congrArg Outcome.result (build_of_error h), congrArg Outcome.result (build_of_error h')⟩
  · obtain ⟨ns, hbuild⟩ := build_of_results h rfl
    obtain ⟨ns', hbuild'⟩ := build_of_results h' rfl
    refine .inr ⟨_, _, _, publications_of_results h rfl, publications_of_results h' rfl,
      congrArg Outcome.result hbuild, congrArg Outcome.result hbuild', ?_, ?_, ?_⟩
    · rw [writes_of_results h, writes_of_results h']
      exact hwrites
    · rw [hearings_of_results h, hearings_of_results h']
      exact hhearings
    · -- the archives are what the same requests make of the same archive, in two orders
      intro haccepts
      exact haccepts _ _ _ _ _ _ hwrites
        ((s.always_replays_phases writer timing request).apply h).archive
        ((s.always_replays_phases writer timing' request).apply h').archive

variable {s} {timing : Timing} {request : BuildRequest} {m : Memory μ ℓ π ω}
  {toc : TableOfContents}

/-- Where the order of the artifacts does not matter to the writer, a run that succeeds under one
schedule succeeds under another one. -/
theorem build_ok_of_other_timing (hwriter : writer.AnswersByRequest)
    (haccepts : writer.AcceptsInAnyOrder) (timing' : Timing)
    (h : (s.build writer timing request m).result = .ok toc) :
    (s.build writer timing' request m).result = .ok toc := by
  rcases s.build_of_other_timing hwriter timing timing' request m with ⟨-, -, e, -, herror, -⟩ |
    ⟨toc', answer, answer', -, -, hresult, hresult', -, -, hanswer⟩
  · rw [h] at herror
    cases herror
  · rw [hresult', ← hanswer haccepts, ← hresult, h]

/-- Matcher and modifier are asked the same under all schedules, whether the run succeeds or not. -/
theorem questions_build_of_other_timing (hwriter : writer.AnswersByRequest) (timing' : Timing) :
    Event.questions (s.build writer timing request m).events =
      Event.questions (s.build writer timing' request m).events := by
  -- no questions are asked before the phases, and none after them
  have hphases : ∀ timing, Event.questions (s.build writer timing request m).events =
      Event.questions (s.phases writer timing request
        { m with naming := s.assigner.restart m.naming }).events := by
    intro timing
    have hclose : ∀ results, Run.Only [.publication, .notice]
        (s.close writer request results : Run (Memory μ ℓ π ω) TableOfContents) := fun _ ↦
      (Run.only_publish writer _).bind fun _ ↦ (Run.only_notice (by simp) _).bind fun _ ↦
        Run.only_pure _
    rw [build_apply, ← Run.questions_bind_of_only hclose (by simp)]
    rfl
  rw [hphases timing, hphases timing']
  exact (s.reproduces_phases hwriter timing timing' request _ _ (Memory.agrees_refl _)).questions

/-- **The table of contents does not depend on scheduling.** Under any two schedules and with any
numbers of workers, a run gets to the table under both or under none. If it gets there it hands over
the same table, after the same artifacts were stored and announced, in some order, and the writer's
answer to the table decides whether the run succeeds. So when both runs succeed they have the same
table; and if the writer does not mind in which order the artifacts came, both succeed or none
does. -/
theorem table_is_independent_of_schedule (s : Serializer μ ℓ π) (writer : Writer ω)
    (hwriter : writer.AnswersByRequest) (workers workers' : Nat) (timing timing' : Timing)
    (request : BuildRequest) (m : Memory μ ℓ π ω) :
    let out := (s.withWorkers workers).build writer timing request m
    let out' := (s.withWorkers workers').build writer timing' request m
    ((Event.publications out.events = [] ∧ Event.publications out'.events = [] ∧
        ∃ e e', out.result = .error e ∧ out'.result = .error e') ∨
      ∃ toc answer answer', Event.publications out.events = [(toc, answer)] ∧
        Event.publications out'.events = [(toc, answer')] ∧
        out.result = answer.map (fun _ ↦ toc) ∧ out'.result = answer'.map (fun _ ↦ toc) ∧
        (Event.writes out.events).Perm (Event.writes out'.events) ∧
        (Event.hearings out.events).Perm (Event.hearings out'.events)) ∧
    (∀ toc toc', out.result = .ok toc → out'.result = .ok toc' → toc = toc') ∧
    (writer.AcceptsInAnyOrder → ∀ toc, out.result = .ok toc ↔ out'.result = .ok toc) := by
  intro out out'
  have hout : out = s.build writer timing request m :=
    congrFun (s.build_withWorkers workers writer timing request) m
  have hout' : out' = s.build writer timing' request m :=
    congrFun (s.build_withWorkers workers' writer timing' request) m
  rw [hout, hout']
  have hboth := s.build_of_other_timing hwriter timing timing' request m
  refine ⟨?_, fun toc toc' h h' ↦ ?_, fun haccepts toc ↦
    ⟨build_ok_of_other_timing hwriter haccepts timing',
      build_ok_of_other_timing hwriter haccepts timing⟩⟩
  · refine hboth.imp_right ?_
    rintro ⟨toc, answer, answer', hpublished, hpublished', hresult, hresult', hwrites, hhearings, -⟩
    exact ⟨toc, answer, answer', hpublished, hpublished', hresult, hresult', hwrites, hhearings⟩
  · rcases hboth with ⟨-, -, e, -, herror, -⟩ | ⟨toc'', answer, answer', -, -, hresult, hresult', -⟩
    · rw [h] at herror
      cases herror
    · obtain ⟨_, -, rfl⟩ := map_eq_ok_iff.mp (hresult.symm.trans h)
      obtain ⟨_, -, rfl⟩ := map_eq_ok_iff.mp (hresult'.symm.trans h')
      rfl

end Serializer

/-! ## Two workers -/

/-- The master splits of the base module and of a feature. -/
def BuildRequest.twoMasters : BuildRequest :=
  let base : Fragment := { Fragment.untargeted .base .split (.ofPackage "p") with isMaster := true }
  ⟨[base, { base with module := ⟨"feature"⟩, isBaseModule := false }], [], .default, none, default,
    []⟩

/-- When there are two ordinary fragments to store, the second one is started first, and both jobs
are running before one of them is finished. -/
def Timing.crossing : Timing where
  fragments jobs :=
    if h : jobs = 2 then h ▸ ⟨[.start 1, .start 0, .finish 0, .finish 1], by decide⟩
    else .inOrder jobs
  assetSlices := .inOrder

/-- Stores everything, and refuses a table of contents unless the base module came first. -/
def Writer.baseFirst : Writer (List WriteCall) where
  add call calls := ⟨(Writer.echo.add call ()).answer, calls ++ [call], []⟩
  publish _ calls := .silent
    (if calls.head?.all (·.fragment.isBaseModule) then .ok ()
      else .error (.io (.reported "the base module did not come first"))) calls

namespace Serializer

/-- Two workers store two artifacts in the other order, and the table is the same. -/
theorem two_workers_reach_the_same_table :
    let s := plain { Bundle.ofPackage "p" with
      modules := [.independent .base .feature (.ofPackage "p"),
        .independent ⟨"feature"⟩ .feature (.ofPackage "p")] }
    let out := (s.withWorkers 1).build Writer.echo .inOrder .twoMasters ⟨(), (), ∅, ()⟩
    let out' := (s.withWorkers 2).build Writer.echo .crossing .twoMasters ⟨(), (), ∅, ()⟩
    ∃ toc, out.result = .ok toc ∧ out'.result = .ok toc ∧
      (Event.hearings out.events).map (·.path.text) =
        ["splits/base-master.apk", "splits/feature-master.apk"] ∧
      (Event.hearings out'.events).map (·.path.text) =
        ["splits/feature-master.apk", "splits/base-master.apk"] := by
  intro s out out'
  have hok : out.result.toOption.isSome = true := by decide +kernel
  obtain ⟨toc, h⟩ := exists_ok_of_isSome hok
  have hboth := (table_is_independent_of_schedule s Writer.echo (fun _ _ _ ↦ rfl) 1 2 .inOrder
    .crossing .twoMasters ⟨(), (), ∅, ()⟩).2.2 fun _ _ _ _ _ _ _ _ _ ↦ rfl
  exact ⟨toc, h, (hboth toc).mp h, by decide +kernel, by decide +kernel⟩

/-- A writer that stores everything can still mind the order. The same table that it accepts from
one worker it refuses from two. -/
theorem acceptance_can_depend_on_schedule :
    let s := plain { Bundle.ofPackage "p" with
      modules := [.independent .base .feature (.ofPackage "p"),
        .independent ⟨"feature"⟩ .feature (.ofPackage "p")] }
    let out := (s.withWorkers 1).build Writer.baseFirst .inOrder .twoMasters ⟨(), (), ∅, []⟩
    let out' := (s.withWorkers 2).build Writer.baseFirst .crossing .twoMasters ⟨(), (), ∅, []⟩
    Writer.baseFirst.AnswersByRequest ∧ (∃ toc, out.result = .ok toc) ∧
      ∃ e, out'.result = .error e := by
  intro s out out'
  have hok : out.result.toOption.isSome = true := by decide +kernel
  have hrefused : out'.result.toOption.isNone = true := by decide +kernel
  exact ⟨fun _ _ _ ↦ rfl, exists_ok_of_isSome hok, exists_error_of_isNone hrefused⟩

end Serializer

end FragmentArchive
