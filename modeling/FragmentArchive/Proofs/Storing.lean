import FragmentArchive.Proofs.Naming
import FragmentArchive.Proofs.Schedule
import FragmentArchive.Serializer

/-!
# Naming and storing

The two steps that are the same for ordinary fragments and for asset slices. Naming never fails and
consults nobody but the path assigner. Storing asks the writer exactly once, and what it leads to is
decided by the answer: the listener is told afterwards and cannot change it any more.
-/

namespace FragmentArchive

theorem WriteCall.fragment_forFragment (mode : BuildMode) (f : Fragment) (p : ArchivePath) :
    (forFragment mode f p).fragment = f := by
  rw [forFragment]
  split
  all_goals try rfl
  split <;> rfl

namespace Serializer

variable {μ ℓ π ω : Type} (s : Serializer μ ℓ π)

/-! ## Naming -/

theorem only_plan (f : Fragment) : Run.Only [.naming] (s.plan f : Run (Memory μ ℓ π ω) Job) :=
  (Run.only_name s.assigner f).bind fun _ ↦ Run.only_pure _

/-- Naming fragments leads to a job for each of them. -/
theorem each_plan (fs : List Fragment) (m : Memory μ ℓ π ω) :
    Run.each s.plan fs m = ⟨.ok (fs.zip (s.assigner.paths fs m.naming).1),
      { m with naming := (s.assigner.paths fs m.naming).2 },
      (fs.zip (s.assigner.paths fs m.naming).1).map fun job ↦ .named job.1 job.2⟩ := by
  induction fs generalizing m with
  | nil => rfl
  | cons f fs ih =>
    have hplan : s.plan f m = ⟨.ok (f, (s.assigner.path f m.naming).1),
      { m with naming := (s.assigner.path f m.naming).2 },
      [.named f (s.assigner.path f m.naming).1]⟩ := rfl
    rw [Run.each, Run.bind_of_ok hplan, Run.bind_of_ok (ih _), Run.pure_apply, List.append_nil]
    rfl

theorem namings_named (jobs : List Job) :
    Event.namings (jobs.map fun job ↦ .named job.1 job.2) = jobs := by
  induction jobs with
  | nil => rfl
  | cons job jobs ih => exact congrArg (job :: ·) ih

theorem kind_of_mem_named {jobs : List Job} {e : Event}
    (h : e ∈ jobs.map fun job ↦ .named job.1 job.2) : e.kind = .naming := by
  obtain ⟨job, -, rfl⟩ := List.mem_map.mp h
  rfl

theorem writes_named (jobs : List Job) :
    Event.writes (jobs.map fun job ↦ .named job.1 job.2) = [] :=
  Event.writes_eq_nil fun _ he ↦ by simp [kind_of_mem_named he]

theorem questions_named (jobs : List Job) :
    Event.questions (jobs.map fun job ↦ .named job.1 job.2) = [] :=
  Event.questions_eq_nil fun _ he ↦ by simp [kind_of_mem_named he]

/-! ## Storing -/

variable (writer : Writer ω) (mode : BuildMode) (job : Job) (m : Memory μ ℓ π ω)

/-- What is done about an artifact that was stored. -/
def announce (descriptor : ArtifactDescriptor) : Run (Memory μ ℓ π ω) ArtifactDescriptor := do
  match ← Run.notify s.listener descriptor with
  | .ok _ => pure ()
  | .error e => Run.notice (.unheard descriptor.path e)
  Run.notice (.written s.options.verbose descriptor.path job.1.category)
  return descriptor

theorem store_eq : (s.store writer mode job : Run (Memory μ ℓ π ω) ArtifactDescriptor) =
    (Run.add writer (.forFragment mode job.1 job.2)).mapError (.whileWriting job.2) >>=
      s.announce job := rfl

theorem only_announce (d : ArtifactDescriptor) :
    Run.Only [.hearing, .notice] (s.announce job d : Run (Memory μ ℓ π ω) ArtifactDescriptor) := by
  refine (Run.only_notify s.listener d).bind fun heard ↦ ?_
  have hwritten : Run.Only [.hearing, .notice] (do
      Run.notice (.written s.options.verbose d.path job.1.category)
      return d : Run (Memory μ ℓ π ω) ArtifactDescriptor) :=
    (Run.only_notice (by simp) _).bind fun _ ↦ Run.only_pure d
  cases heard with
  | ok _ => exact hwritten
  | error e => exact (Run.only_notice (by simp) _).bind fun _ ↦ hwritten

/-- Nothing that the listener does shows anywhere else. -/
theorem announce_apply (d : ArtifactDescriptor) :
    ∃ listener es, s.announce job d m = ⟨.ok d, { m with listener }, es⟩ := by
  have hnotify : Run.notify s.listener d m = ⟨.ok (s.listener.hear d m.listener).answer,
    { m with listener := (s.listener.hear d m.listener).memory },
    .notified d (s.listener.hear d m.listener).answer ::
      (s.listener.hear d m.listener).notices.map .noticed⟩ := rfl
  rw [announce, Run.bind_of_ok hnotify]
  cases (s.listener.hear d m.listener).answer with
  | ok _ => exact ⟨_, _, rfl⟩
  | error e => exact ⟨_, _, rfl⟩

/-- The listener is told about the artifact, and nothing but notices comes of it. -/
theorem events_announce (d : ArtifactDescriptor) :
    ∃ (answer : Except Error Unit) (ns : List Notice),
      (s.announce job d m).events = .notified d answer :: ns.map .noticed := by
  have hnotify : Run.notify s.listener d m = ⟨.ok (s.listener.hear d m.listener).answer,
    { m with listener := (s.listener.hear d m.listener).memory },
    .notified d (s.listener.hear d m.listener).answer ::
      (s.listener.hear d m.listener).notices.map .noticed⟩ := rfl
  have hwritten : ∀ (answer : Except Error Unit) (ns ns' : List Notice),
      (.notified d answer :: ns.map .noticed) ++ ns'.map .noticed =
        .notified d answer :: (ns ++ ns').map Event.noticed := by
    intro answer ns ns'
    rw [List.map_append, List.cons_append]
  rw [announce, Run.bind_of_ok hnotify]
  cases (s.listener.hear d m.listener).answer with
  | ok _ => exact ⟨_, _, hwritten _ _ [.written s.options.verbose d.path job.1.category]⟩
  | error e =>
    exact ⟨_, _, hwritten _ _ [.unheard d.path e,
      .written s.options.verbose d.path job.1.category]⟩

/-- The listener is told about the artifact once. -/
theorem hearings_announce (d : ArtifactDescriptor) :
    Event.hearings (s.announce job d m).events = [d] := by
  obtain ⟨answer, ns, hevents⟩ := s.events_announce job m d
  rw [hevents]
  exact congrArg (d :: ·) (Event.hearings_noticed ns)

theorem only_store :
    Run.Only [.write, .hearing, .notice] (s.store writer mode job :
      Run (Memory μ ℓ π ω) ArtifactDescriptor) := by
  rw [store_eq]
  exact (((Run.only_add writer _).mono (by simp)).mapError _).bind fun d ↦
    (s.only_announce job d).mono (by simp)

theorem only_storeAll (jobs : List Job) (schedule : Schedule jobs.length) :
    Run.Only [.write, .hearing, .notice] (Schedule.runAll jobs schedule (s.store writer mode) :
      Run (Memory μ ℓ π ω) (List ArtifactDescriptor)) :=
  Schedule.always_runAll Memory.composes_within (s.only_store writer mode)

/-- **What storing comes to.** It asks the writer once, and the answer decides. -/
theorem store_apply {reply : Reply ω ArtifactDescriptor}
    (h : writer.add (.forFragment mode job.1 job.2) m.archive = reply) :
    ∃ listener es, s.store writer mode job m =
        ⟨reply.answer.mapError (.whileWriting job.2),
          { m with archive := reply.memory, listener }, es⟩ ∧
      Event.writes es = [(.forFragment mode job.1 job.2, reply.answer)] := by
  obtain ⟨answer, archive, notices⟩ := reply
  have hadd : (Run.add writer (.forFragment mode job.1 job.2)).mapError (.whileWriting job.2) m =
      ⟨answer.mapError (.whileWriting job.2), { m with archive },
        .added (.forFragment mode job.1 job.2) answer :: notices.map .noticed⟩ := by
    rw [Run.mapError, Run.add, h]
  have hwrites : Event.writes
      (.added (.forFragment mode job.1 job.2) answer :: notices.map .noticed) =
        [(.forFragment mode job.1 job.2, answer)] :=
    congrArg (_ :: ·) (Event.writes_noticed notices)
  rw [store_eq]
  cases answer with
  | error e => exact ⟨m.listener, _, Run.bind_of_error hadd, hwrites⟩
  | ok d =>
    obtain ⟨listener, es, hannounce⟩ := s.announce_apply job { m with archive } d
    refine ⟨listener, _, by rw [Run.bind_of_ok hadd, hannounce]; rfl, ?_⟩
    rw [Event.writes_append, hwrites, (s.only_announce job d).writes_eq_nil (by simp) hannounce,
      List.append_nil]

/-- A stored artifact is told by one request to the writer. -/
theorem writes_of_store_ok {d : ArtifactDescriptor}
    (h : (s.store writer mode job m).result = .ok d) :
    Event.writes (s.store writer mode job m).events =
      [(.forFragment mode job.1 job.2, .ok d)] := by
  obtain ⟨listener, es, hstore, hwrites⟩ := s.store_apply writer mode job m rfl
  rw [hstore] at h ⊢
  rw [hwrites]
  cases hanswer : (writer.add (.forFragment mode job.1 job.2) m.archive).answer with
  | ok d' =>
    rw [hanswer] at h
    rw [Except.ok.inj h]
  | error e =>
    rw [hanswer] at h
    cases h

/-- The listener is told about a stored artifact. -/
theorem hearings_of_store_ok {d : ArtifactDescriptor}
    (h : (s.store writer mode job m).result = .ok d) :
    Event.hearings (s.store writer mode job m).events = [d] := by
  rw [store_eq] at h ⊢
  rcases hadd : (Run.add writer (.forFragment mode job.1 job.2)).mapError (.whileWriting job.2) m
    with ⟨e | d', m', es⟩
  · rw [Run.bind_of_error hadd] at h
    cases h
  · have hquiet := (((Run.only_add writer _).mapError (.whileWriting job.2)).hearings_eq_nil
      (by simp) hadd)
    obtain ⟨listener, es', hannounce⟩ := s.announce_apply job m' d'
    rw [Run.bind_of_ok hadd] at h ⊢
    rw [Event.hearings_append, hquiet, hearings_announce, List.nil_append]
    rw [hannounce] at h
    rw [Except.ok.inj h]

/-- A refused artifact is told by one request to the writer, too. -/
theorem writes_of_store_error {e : Error} (h : (s.store writer mode job m).result = .error e) :
    ∃ e', Event.writes (s.store writer mode job m).events =
      [(.forFragment mode job.1 job.2, .error e')] ∧ e = .whileWriting job.2 e' := by
  obtain ⟨listener, es, hstore, hwrites⟩ := s.store_apply writer mode job m rfl
  rw [hstore] at h ⊢
  rw [hwrites]
  cases hanswer : (writer.add (.forFragment mode job.1 job.2) m.archive).answer with
  | ok d =>
    rw [hanswer] at h
    cases h
  | error e' =>
    rw [hanswer] at h
    exact ⟨e', rfl, (Except.error.inj h).symm⟩

/-! ## Batches -/

variable {s writer mode m} {jobs : List Job} {schedule : Schedule jobs.length}
  {m' : Memory μ ℓ π ω} {es : List Event}

/-- When all artifacts of a batch are stored, the writer was asked for them in the order of the
schedule. -/
theorem writes_runAll {written : List ArtifactDescriptor}
    (h : Schedule.runAll jobs schedule (s.store writer mode) m = ⟨.ok written, m', es⟩) :
    Event.writes es = (schedule.order (jobs.zip written)).map fun p ↦
      (.forFragment mode p.1.1 p.1.2, .ok p.2) :=
  Schedule.filterMap_runAll (fun job m _ h ↦ s.writes_of_store_ok writer mode job m h) h

/-- When all fragments of a batch are different, the answer to each is a function of it. -/
theorem exists_answer {written : List ArtifactDescriptor} (hnodup : (jobs.map (·.1)).Nodup)
    (h : Schedule.runAll jobs schedule (s.store writer mode) m = ⟨.ok written, m', es⟩) :
    ∃ answer : Fragment → ArtifactDescriptor,
      (jobs.map (·.1)).zip written = (jobs.map (·.1)).map fun f ↦ (f, answer f) := by
  have hzip : (((jobs.map (·.1)).zip written).map (·.1)) = jobs.map (·.1) :=
    List.map_fst_zip (Nat.le_of_eq (by rw [List.length_map, Schedule.length_of_runAll_ok h]))
  obtain ⟨answer, hanswer⟩ := exists_eq_map (hzip.symm ▸ hnodup)
  rw [hzip] at hanswer
  exact ⟨answer, hanswer⟩

/-- The writer is asked for the jobs of a batch and for nothing else. -/
theorem call_of_mem_writes_runAll {r : Except Error (List ArtifactDescriptor)}
    (h : Schedule.runAll jobs schedule (s.store writer mode) m = ⟨r, m', es⟩)
    {w : WriteCall × Except Error ArtifactDescriptor} (hw : w ∈ Event.writes es) :
    ∃ job ∈ jobs, w.1 = .forFragment mode job.1 job.2 := by
  obtain ⟨log, hperf, rfl, -⟩ := Schedule.runAll_outcome h
  rw [Schedule.Log.events, Event.writes, List.filterMap_flatMap] at hw
  obtain ⟨entry, hentry, hmem⟩ := List.mem_flatMap.mp hw
  obtain ⟨job, m₁, hjob, houtcome⟩ := hperf.outcome hentry
  obtain ⟨listener, es', hstore, hwrites⟩ := s.store_apply writer mode job m₁ rfl
  rw [houtcome, hstore, ← Event.writes, hwrites] at hmem
  exact ⟨job, List.mem_of_getElem? hjob, congrArg (·.1) (List.mem_singleton.mp hmem)⟩

/-- However a batch ends, the writer was asked for its jobs in the order of the schedule, up to a
point. -/
theorem calls_runAll {r : Except Error (List ArtifactDescriptor)}
    (h : Schedule.runAll jobs schedule (s.store writer mode) m = ⟨r, m', es⟩) :
    (Event.writes es).map (·.1) <+:
      (schedule.order jobs).map fun job ↦ .forFragment mode job.1 job.2 := by
  obtain ⟨log, hperf, rfl, hinitial, -⟩ := Schedule.runAll_outcome h
  have hcalls : (Event.writes log.events).map (·.1) = log.order.filterMap fun i ↦
      jobs[i]?.map fun job ↦ WriteCall.forFragment mode job.1 job.2 := by
    rw [Schedule.Log.events, Schedule.Log.order, Event.writes, List.filterMap_flatMap,
      List.map_flatMap, List.filterMap_map]
    refine flatMap_eq_filterMap fun entry hentry ↦ ?_
    obtain ⟨job, m₁, hjob, houtcome⟩ := hperf.outcome hentry
    obtain ⟨listener, es', hstore, hwrites⟩ := s.store_apply writer mode job m₁ rfl
    refine ⟨.forFragment mode job.1 job.2, ?_, ?_⟩
    · rw [houtcome, hstore, ← Event.writes, hwrites]
      rfl
    · rw [Function.comp_apply, hjob]
      rfl
  rw [hcalls, Schedule.order, List.map_filterMap]
  exact hinitial.filterMap _

/-- **How a batch fails.** When the writer refused an artifact, the batch ends with what it said
about one that it refused. -/
theorem runAll_of_refused {r : Except Error (List ArtifactDescriptor)}
    (h : Schedule.runAll jobs schedule (s.store writer mode) m = ⟨r, m', es⟩)
    {call : WriteCall} {e : Error} (hrefused : (call, .error e) ∈ Event.writes es) :
    ∃ job ∈ jobs, ∃ e', (.forFragment mode job.1 job.2, .error e') ∈ Event.writes es ∧
      r = .error (.whileWriting job.2 e') := by
  obtain ⟨log, hperf, rfl, -, hall⟩ := Schedule.runAll_outcome h
  rw [Schedule.Log.events, Event.writes, List.filterMap_flatMap] at hrefused ⊢
  obtain ⟨entry, hentry, hmem⟩ := List.mem_flatMap.mp hrefused
  obtain ⟨job, m₁, hjob, houtcome⟩ := hperf.outcome hentry
  rcases hall with ⟨vs, -, -, -, hok⟩ | ⟨entry', hentry', error, hr, hresult, -⟩
  · -- when every job succeeded, nothing was refused
    obtain ⟨v, -, hresult⟩ := hok entry hentry
    rw [houtcome] at hresult hmem
    rw [← Event.writes, s.writes_of_store_ok writer mode job m₁ hresult] at hmem
    cases (Prod.mk.inj (List.mem_singleton.mp hmem)).2
  · obtain ⟨job', m₂, hjob', houtcome'⟩ := hperf.outcome hentry'
    rw [houtcome'] at hresult
    obtain ⟨e', hwrites, rfl⟩ := s.writes_of_store_error writer mode job' m₂ hresult
    refine ⟨job', List.mem_of_getElem? hjob', e', List.mem_flatMap.mpr ⟨entry', hentry', ?_⟩, hr⟩
    rw [houtcome', ← Event.writes, hwrites]
    exact List.mem_singleton_self _

/-- A run that writes in one batch: either it ends before anything is written, or the batch is
carried out for the fragments that were named, and when the batch fails, so does the run. -/
def WritesInBatch {α : Type} (s : Serializer μ ℓ π) (writer : Writer ω) (mode : BuildMode)
    (x : Run (Memory μ ℓ π ω) α) : Prop :=
  ∀ m r m' es, x m = ⟨r, m', es⟩ →
    (Event.writes es = [] ∧ ∃ e, r = .error e) ∨
      ∃ (jobs : List Job) (schedule : Schedule jobs.length) (m₁ : Memory μ ℓ π ω)
        (batch : Except Error (List ArtifactDescriptor)) (es₁ es₂ : List Event),
        Schedule.runAll jobs schedule (s.store writer mode) m₁ = ⟨batch, m', es₂⟩ ∧
          es = es₁ ++ es₂ ∧ Event.writes es₁ = [] ∧ Event.namings es₁ = jobs ∧
          ∀ e, batch = .error e → r = .error e

section

variable {α β : Type}

theorem WritesInBatch.bind {kinds : List Event.Kind} {x : Run (Memory μ ℓ π ω) α}
    {f : α → Run (Memory μ ℓ π ω) β} (hx : Run.Only kinds x) (hwrite : .write ∉ kinds)
    (hnaming : .naming ∉ kinds) (hf : ∀ a, s.WritesInBatch writer mode (f a)) :
    s.WritesInBatch writer mode (x >>= f) := by
  intro m r m' es h
  rcases hxm : x m with ⟨_ | a, m₁, es₁⟩
  · rw [Run.bind_of_error hxm] at h
    obtain ⟨rfl, rfl, rfl⟩ := Outcome.mk.inj h
    exact .inl ⟨hx.writes_eq_nil hwrite hxm, _, rfl⟩
  · rw [Run.bind_of_ok hxm] at h
    rcases hfm : f a m₁ with ⟨r', m₂, es₂⟩
    rw [hfm] at h
    obtain ⟨rfl, rfl, rfl⟩ := Outcome.mk.inj h
    have hwrites := hx.writes_eq_nil hwrite hxm
    rcases hf a m₁ _ _ _ hfm with ⟨hes₂, herror⟩ |
      ⟨jobs, schedule, m₃, batch, es₃, es₄, hbatch, rfl, hes₃, hjobs, hfail⟩
    · exact .inl ⟨by rw [Event.writes_append, hwrites, hes₂]; rfl, herror⟩
    · refine .inr ⟨jobs, schedule, m₃, batch, es₁ ++ es₃, es₄, hbatch,
        (List.append_assoc ..).symm, ?_, ?_, hfail⟩
      · rw [Event.writes_append, hwrites, hes₃]
        rfl
      · rw [Event.namings_append, hx.namings_eq_nil hnaming hxm, hjobs]
        rfl

/-- Naming fragments, carrying out the batch and putting the results together. -/
theorem writesInBatch_of_plan {kinds : List Event.Kind} {x : Run (Memory μ ℓ π ω) (List Job)}
    {schedule : (jobs : Nat) → Schedule jobs}
    {g : List Job → List ArtifactDescriptor → Except Error β} (hx : Run.Only kinds x)
    (hwrite : .write ∉ kinds)
    (hjobs : ∀ m jobs m' es, x m = ⟨.ok jobs, m', es⟩ → Event.namings es = jobs) :
    s.WritesInBatch writer mode (do
      let jobs ← x
      let written ← Schedule.runAll jobs (schedule jobs.length) (s.store writer mode)
      Run.ofExcept (g jobs written)) := by
  intro m r m' es h
  rcases hxm : x m with ⟨_ | jobs, m₁, es₁⟩
  · rw [Run.bind_of_error hxm] at h
    obtain ⟨rfl, rfl, rfl⟩ := Outcome.mk.inj h
    exact .inl ⟨hx.writes_eq_nil hwrite hxm, _, rfl⟩
  · rw [Run.bind_of_ok hxm] at h
    rcases hbatch : Schedule.runAll jobs (schedule jobs.length) (s.store writer mode) m₁ with
      ⟨batch, m₂, es₂⟩
    have hwrites := hx.writes_eq_nil hwrite hxm
    have hnamings := hjobs _ _ _ _ hxm
    cases batch with
    | error e =>
      rw [Run.bind_of_error hbatch] at h
      obtain ⟨rfl, rfl, rfl⟩ := Outcome.mk.inj h
      refine .inr ⟨jobs, _, m₁, _, es₁, es₂, hbatch, rfl, hwrites, hnamings, fun e' he ↦ ?_⟩
      rw [Except.error.inj he]
    | ok written =>
      rw [Run.bind_of_ok hbatch] at h
      obtain ⟨-, rfl, rfl⟩ := Outcome.mk.inj h
      refine .inr ⟨jobs, _, m₁, _, es₁, es₂, hbatch, ?_, hwrites, hnamings, nofun⟩
      exact congrArg (es₁ ++ ·) (List.append_nil es₂)

/-- What a run that writes in one batch asks the writer for are fragments that were named. -/
theorem WritesInBatch.exists_naming {x : Run (Memory μ ℓ π ω) α} {r : Except Error α}
    (hx : s.WritesInBatch writer mode x) (h : x m = ⟨r, m', es⟩)
    {w : WriteCall × Except Error ArtifactDescriptor} (hw : w ∈ Event.writes es) :
    ∃ job ∈ Event.namings es, w.1 = .forFragment mode job.1 job.2 := by
  rcases hx m r m' es h with ⟨hnone, -⟩ |
    ⟨jobs, schedule, m₁, batch, es₁, es₂, hbatch, rfl, hes₁, hjobs, -⟩
  · rw [hnone] at hw
    cases hw
  · rw [Event.writes_append, hes₁, List.nil_append] at hw
    obtain ⟨job, hjob, hcall⟩ := call_of_mem_writes_runAll hbatch hw
    refine ⟨job, ?_, hcall⟩
    rw [Event.namings_append, hjobs]
    exact List.mem_append_left _ hjob

/-- **When a run that writes in one batch was refused an artifact, it fails with what the writer
said about one that it refused.** -/
theorem WritesInBatch.of_refused {x : Run (Memory μ ℓ π ω) α} {r : Except Error α}
    (hx : s.WritesInBatch writer mode x) (h : x m = ⟨r, m', es⟩) {call : WriteCall} {e : Error}
    (hrefused : (call, .error e) ∈ Event.writes es) :
    ∃ job ∈ Event.namings es, ∃ e', (.forFragment mode job.1 job.2, .error e') ∈ Event.writes es ∧
      r = .error (.whileWriting job.2 e') := by
  rcases hx m r m' es h with ⟨hnone, -⟩ |
    ⟨jobs, schedule, m₁, batch, es₁, es₂, hbatch, rfl, hes₁, hjobs, hfail⟩
  · rw [hnone] at hrefused
    cases hrefused
  · rw [Event.writes_append, hes₁, List.nil_append] at hrefused ⊢
    obtain ⟨job, hjob, e', hmem, hr⟩ := runAll_of_refused hbatch hrefused
    refine ⟨job, ?_, e', hmem, hfail _ hr⟩
    rw [Event.namings_append, hjobs]
    exact List.mem_append_left _ hjob

/-- When a run that writes in one batch succeeds, nothing was refused. -/
theorem WritesInBatch.answered {x : Run (Memory μ ℓ π ω) α} {a : α}
    (hx : s.WritesInBatch writer mode x) (h : x m = ⟨.ok a, m', es⟩)
    {call : WriteCall} {answer : Except Error ArtifactDescriptor}
    (hwrite : (call, answer) ∈ Event.writes es) : ∃ d, answer = .ok d := by
  cases answer with
  | ok d => exact ⟨d, rfl⟩
  | error e =>
    obtain ⟨job, -, e', -, herror⟩ := hx.of_refused h hwrite
    cases herror

end

end Serializer

/-! ## Without collaborators of one's own -/

/-- The writer that keeps nothing and answers with what it was asked for. -/
def Writer.echo : Writer Unit where
  add call _ := .silent (.ok ⟨call.path.getD ⟨""⟩, call.kind, call.fragment.targeting,
    call.fragment.manifest.splitId, call.fragment.isMaster, 0, ""⟩) ()
  publish _ := .silent (.ok ())

/-- The serializer of a bundle by which every device receives everything and manifests stay as they
are. -/
def Serializer.plain (bundle : Bundle) : Serializer Unit Unit Naming where
  bundle
  options := ⟨0, false, 1⟩
  matcher := .always
  modifier := .unchanged
  listener := .indifferent
  assigner := Naming.standard

end FragmentArchive
