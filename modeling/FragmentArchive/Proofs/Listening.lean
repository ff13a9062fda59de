import FragmentArchive.Proofs.CommitPoint
import FragmentArchive.Proofs.Consultation
import FragmentArchive.Proofs.Deduplication

/-!
# Listeners observe and do not influence

A listener is told about every artifact that was stored, and what it answers is written down and
forgotten. That it has no influence is said by comparing two runs with different listeners: up to
what a listener remembers and is told, they are the same run. The comparison goes through a batch
job by job, where a listener that fails must not be taken for a job that fails.

What a listener is told is a matter of the order of events, and so it is described by a grammar. In
the events of a run each artifact that was stored is followed by the announcement of it, with at
most notices of the writer in between, and there are no other announcements. Sequences inherit this
from their parts because storing and announcing are one job.

That the announcement comes before the next request to the writer is a statement about a single
worker, whose jobs do not overlap. In a schedule a job takes effect as a whole, so there the grammar
holds for any number of workers; but several workers can store a second artifact before the first
one is announced. What remains true of them is that the artifacts announced are those that were
stored.
-/

namespace FragmentArchive

/-! ## Deeds -/

namespace Event

/-- What happens apart from the listener. Notices are left out, too, because one of them tells that
a listener failed. -/
abbrev deeds (es : List Event) : List Event :=
  es.filter fun e ↦ e.kind ≠ .hearing ∧ e.kind ≠ .notice

theorem deeds_append (es es' : List Event) : deeds (es ++ es') = deeds es ++ deeds es' :=
  List.filter_append ..

theorem questions_deeds (es : List Event) : questions (deeds es) = questions es := by
  rw [questions, deeds, List.filter_filter]
  refine List.filter_congr fun e _ ↦ ?_
  cases e <;> rfl

private theorem filterMap_deeds {α : Type} {g : Event → Option α}
    (hhearing : ∀ d answer, g (notified d answer) = none) (hnotice : ∀ n, g (noticed n) = none)
    (es : List Event) : (deeds es).filterMap g = es.filterMap g := by
  refine filterMap_filter_of_none (fun e he ↦ ?_) es
  cases e with
  | notified d answer => exact hhearing d answer
  | noticed n => exact hnotice n
  | _ => cases he

theorem writes_deeds (es : List Event) : writes (deeds es) = writes es :=
  filterMap_deeds (fun _ _ ↦ rfl) (fun _ ↦ rfl) es

theorem publications_deeds (es : List Event) : publications (deeds es) = publications es :=
  filterMap_deeds (fun _ _ ↦ rfl) (fun _ ↦ rfl) es

/-- The deeds of storing are the requests to the writer. -/
theorem deeds_of_storing {es : List Event}
    (h : ∀ e ∈ es, e.kind = .write ∨ e.kind = .hearing ∨ e.kind = .notice) :
    deeds es = (writes es).map fun w ↦ added w.1 w.2 := by
  induction es with
  | nil => rfl
  | cons e es ih =>
    have hrest := ih fun e' he' ↦ h e' (List.mem_cons_of_mem e he')
    cases e with
    | added call answer => exact congrArg (_ :: ·) hrest
    | notified d answer => exact hrest
    | noticed n => exact hrest
    | _ => simpa [kind] using h _ List.mem_cons_self

end Event

/-! ## Runs that look the same without the listener -/

section

variable {μ ℓ ℓ' π ω α β : Type}

/-- All collaborators but the listeners remember the same. -/
structure Memory.SameForOthers (m : Memory μ ℓ π ω) (n : Memory μ ℓ' π ω) : Prop where
  policy : n.policy = m.policy
  naming : n.naming = m.naming
  archive : n.archive = m.archive

/-- Two outcomes differ in nothing but what concerns the listeners. -/
structure Outcome.SameForOthers (o : Outcome (Memory μ ℓ π ω) α)
    (o' : Outcome (Memory μ ℓ' π ω) α) : Prop where
  result : o'.result = o.result
  memory : o.memory.SameForOthers o'.memory
  deeds : Event.deeds o'.events = Event.deeds o.events

namespace Run

/-- Two runs do the same, whatever the listeners remember. -/
def SameForOthers (x : Run (Memory μ ℓ π ω) α) (y : Run (Memory μ ℓ' π ω) α) : Prop :=
  ∀ m n, m.SameForOthers n → (x m).SameForOthers (y n)

variable {x : Run (Memory μ ℓ π ω) α} {y : Run (Memory μ ℓ' π ω) α}

theorem SameForOthers.bind {f : α → Run (Memory μ ℓ π ω) β} {g : α → Run (Memory μ ℓ' π ω) β}
    (hx : SameForOthers x y) (hf : ∀ a, SameForOthers (f a) (g a)) :
    SameForOthers (x >>= f) (y >>= g) := by
  intro m n hmn
  have hfirst := hx m n hmn
  rcases hxm : x m with ⟨r, m₁, es₁⟩
  rcases hyn : y n with ⟨r', n₁, es₁'⟩
  rw [hxm, hyn] at hfirst
  obtain ⟨hresult, hmemory, hdeeds⟩ := hfirst
  obtain rfl : r' = r := hresult
  change Event.deeds es₁' = Event.deeds es₁ at hdeeds
  rcases r' with e | a
  · rw [bind_of_error hxm, bind_of_error hyn]
    exact ⟨rfl, hmemory, hdeeds⟩
  · obtain ⟨hresult', hmemory', hdeeds'⟩ := hf a m₁ n₁ hmemory
    rw [bind_of_ok hxm, bind_of_ok hyn]
    refine ⟨hresult', hmemory', ?_⟩
    rw [Event.deeds_append, Event.deeds_append, hdeeds', hdeeds]

theorem congruence_sameForOthers : Congruence
    fun α (x : Run (Memory μ ℓ π ω) α) (y : Run (Memory μ ℓ' π ω) α) ↦ SameForOthers x y where
  ofExcept _ _ _ hmn := ⟨rfl, hmn, rfl⟩
  bind := SameForOthers.bind

/-- An error that becomes a result is the same on both sides. -/
theorem SameForOthers.attempt (h : SameForOthers x y) :
    SameForOthers x.attempt y.attempt := fun m n hmn ↦
  ⟨congrArg Except.ok (h m n hmn).result, (h m n hmn).memory, (h m n hmn).deeds⟩

end Run

namespace Serializer

/-- The serializer with another listener. -/
def withListener (s : Serializer μ ℓ π) (listener : Listener ℓ') : Serializer μ ℓ' π :=
  { s with listener }

variable (s : Serializer μ ℓ π) (listener : Listener ℓ') (writer : Writer ω)

/-- What a listener answers does not show in the job. -/
theorem sameForOthers_store (mode : BuildMode) (job : Job) :
    Run.SameForOthers (s.store writer mode job)
      ((s.withListener listener).store writer mode job) := by
  intro m n hmn
  obtain ⟨l, es, hstore, hwrites⟩ := s.store_apply writer mode job m rfl
  obtain ⟨l', es', hstore', hwrites'⟩ :=
    (s.withListener listener).store_apply writer mode job n rfl
  have hkinds : ∀ {ℓ : Type} {s : Serializer μ ℓ π} {m m' : Memory μ ℓ π ω} {r es},
      s.store writer mode job m = ⟨r, m', es⟩ →
        ∀ e ∈ es, e.kind = .write ∨ e.kind = .hearing ∨ e.kind = .notice := by
    intro ℓ s m m' r es h e he
    simpa using ((s.only_store writer mode job).apply h).kind_mem e he
  rw [hstore, hstore']
  refine ⟨?_, ⟨hmn.policy, hmn.naming, ?_⟩, ?_⟩
  · rw [hmn.archive]
  · rw [hmn.archive]
  · rw [Event.deeds_of_storing (hkinds hstore'), Event.deeds_of_storing (hkinds hstore), hwrites,
      hwrites', hmn.archive]

theorem parallels_sameForOthers : s.Parallels (s.withListener listener)
    fun α (x : Run (Memory μ ℓ π ω) α) (y : Run (Memory μ ℓ' π ω) α) ↦ Run.SameForOthers x y where
  congruence := Run.congruence_sameForOthers
  modules := rfl
  first := rfl
  modify manifest d m n hmn := by
    rw [Run.modify, Run.modify, hmn.policy]
    exact ⟨rfl, ⟨rfl, hmn.naming, hmn.archive⟩, rfl⟩
  name f m n hmn := by
    rw [Run.name, Run.name, hmn.naming]
    exact ⟨rfl, ⟨hmn.policy, rfl, hmn.archive⟩, rfl⟩
  notice _ _ _ hmn := ⟨rfl, hmn, rfl⟩

/-- **A build does the same with any listener.** -/
theorem sameForOthers_build (timing : Timing) (request : BuildRequest) :
    Run.SameForOthers (s.build writer timing request)
      ((s.withListener listener).build writer timing request) := by
  have hbatch : ∀ mode (jobs : List Job) (schedule : Schedule jobs.length),
      Run.SameForOthers (Schedule.runAll jobs schedule (s.store writer mode))
        (Schedule.runAll jobs schedule ((s.withListener listener).store writer mode)) :=
    fun mode jobs schedule ↦ Run.congruence_sameForOthers.runAll Run.SameForOthers.attempt
      (s.sameForOthers_store listener writer mode) jobs schedule
  refine (s.parallels_sameForOthers listener).build writer writer rfl ?_ timing timing
    (fun mode jobs ↦ hbatch mode jobs _) (fun mode jobs ↦ hbatch mode jobs _) ?_ ?_ request
  · intro f device m n hmn
    rw [Run.ask, Run.ask, hmn.policy]
    exact ⟨rfl, ⟨rfl, hmn.naming, hmn.archive⟩, rfl⟩
  · intro m n hmn
    refine ⟨rfl, ⟨hmn.policy, ?_, hmn.archive⟩, rfl⟩
    exact congrArg s.assigner.restart hmn.naming
  · intro toc m n hmn
    rw [Run.publish, Run.publish, hmn.archive]
    exact ⟨rfl, ⟨hmn.policy, hmn.naming, rfl⟩, rfl⟩

end Serializer

end

/-! ## Announcements -/

/-- In some events, each artifact that was stored is announced before the writer is asked for
another one, and nothing else is announced. -/
inductive Event.Announced : List Event → Prop
  | nil : Announced []
  | other {e : Event} {es : List Event} (hwrite : e.kind ≠ .write) (hhearing : e.kind ≠ .hearing)
      (hrest : Announced es) : Announced (e :: es)
  | refused {call : WriteCall} {e : Error} {es : List Event} (hrest : Announced es) :
      Announced (.added call (.error e) :: es)
  | stored {call : WriteCall} {d : ArtifactDescriptor} {ns : List Notice}
      {answer : Except Error Unit} {es : List Event} (hrest : Announced es) :
      Announced (.added call (.ok d) :: (ns.map .noticed ++ .notified d answer :: es))

namespace Event

variable {es es' : List Event}

theorem announced_of_kind_ne (h : ∀ e ∈ es, e.kind ≠ .write ∧ e.kind ≠ .hearing) :
    Announced es := by
  induction es with
  | nil => exact .nil
  | cons e es ih =>
    obtain ⟨hwrite, hhearing⟩ := h e List.mem_cons_self
    exact .other hwrite hhearing (ih fun e' he' ↦ h e' (List.mem_cons_of_mem e he'))

theorem announced_noticed (ns : List Notice) : Announced (ns.map noticed) :=
  announced_of_kind_ne fun e he ↦ by simp [kind_of_mem_noticed he]

theorem Announced.append (h : Announced es) (h' : Announced es') : Announced (es ++ es') := by
  induction h with
  | nil => exact h'
  | other hwrite hhearing _ ih => exact .other hwrite hhearing ih
  | refused _ ih => exact .refused ih
  | @stored call d ns answer es _ ih =>
    rw [List.cons_append, List.append_assoc, List.cons_append]
    exact .stored ih

/-- The listener is told about exactly the artifacts that were stored, in their order. -/
theorem Announced.hearings_eq (h : Announced es) :
    hearings es = (writes es).filterMap fun w ↦ w.2.toOption := by
  induction h with
  | nil => rfl
  | @other e es hwrite hhearing _ ih =>
    cases e with
    | added call answer => exact absurd rfl hwrite
    | notified d answer => exact absurd rfl hhearing
    | _ => exact ih
  | refused _ ih => exact ih
  | @stored call d ns answer es _ ih =>
    have hhearings :
        hearings (.added call (.ok d) :: (ns.map noticed ++ .notified d answer :: es)) =
          hearings (ns.map noticed) ++ d :: hearings es := hearings_append _ _
    have hwrites : writes (.added call (.ok d) :: (ns.map noticed ++ .notified d answer :: es)) =
        (call, .ok d) :: (writes (ns.map noticed) ++ writes es) :=
      congrArg (_ :: ·) (writes_append _ _)
    rw [hhearings, hwrites, hearings_noticed, writes_noticed, List.nil_append, List.nil_append, ih]
    rfl

/-- An artifact that was stored is announced next. -/
theorem Announced.next (h : Announced es) {es₁ es₂ : List Event} {call : WriteCall}
    {d : ArtifactDescriptor} (heq : es = es₁ ++ .added call (.ok d) :: es₂) :
    ∃ (ns : List Notice) (answer : Except Error Unit) (es₃ : List Event),
      es₂ = ns.map noticed ++ .notified d answer :: es₃ := by
  induction h generalizing es₁ with
  | nil => cases es₁ <;> cases heq
  | other hwrite _ _ ih =>
    rcases es₁ with _ | ⟨e, es₁⟩
    · cases heq
      exact absurd rfl hwrite
    · exact ih (List.cons.inj heq).2
  | refused _ ih =>
    rcases es₁ with _ | ⟨e, es₁⟩
    · cases heq
    · exact ih (List.cons.inj heq).2
  | @stored call' d' ns answer es _ ih =>
    rcases es₁ with _ | ⟨e, es₁⟩
    · cases heq
      exact ⟨ns, answer, es, rfl⟩
    · -- the place is not among the notices, nor is it the announcement
      rcases List.append_eq_append_iff.mp (List.cons.inj heq).2 with
        ⟨between, -, hrest⟩ | ⟨between, hnotices, hrest⟩
      · rcases between with _ | ⟨e', between⟩
        · cases hrest
        · exact ih (List.cons.inj hrest).2
      · rcases between with _ | ⟨e', between⟩
        · cases hrest
        · obtain ⟨rfl, -⟩ := List.cons.inj hrest
          have hmem : added call (.ok d) ∈ ns.map noticed := by
            rw [hnotices]
            exact List.mem_append_right _ List.mem_cons_self
          cases kind_of_mem_noticed hmem

end Event

section

variable {μ ℓ π ω α : Type}

/-- Where nothing is stored or announced, nothing is missing. -/
theorem Run.Only.announced {kinds : List Event.Kind} {x : Run (Memory μ ℓ π ω) α}
    (hx : Only kinds x) (hwrite : .write ∉ kinds) (hhearing : .hearing ∉ kinds) :
    Always (fun _ es _ ↦ Event.Announced es) x := fun m ↦
  Event.announced_of_kind_ne fun e he ↦ ⟨fun hk ↦ hwrite (hk ▸ (hx m).kind_mem e he),
    fun hk ↦ hhearing (hk ▸ (hx m).kind_mem e he)⟩

namespace Serializer

variable (s : Serializer μ ℓ π) (writer : Writer ω)

theorem always_announced_store (mode : BuildMode) (job : Job) :
    Run.Always (fun _ es _ ↦ Event.Announced es)
      (s.store writer mode job : Run (Memory μ ℓ π ω) ArtifactDescriptor) := by
  intro m
  obtain ⟨reply, hreply⟩ : ∃ reply, writer.add (.forFragment mode job.1 job.2) m.archive = reply :=
    ⟨_, rfl⟩
  have hadd : (Run.add writer (.forFragment mode job.1 job.2)).mapError (.whileWriting job.2) m =
      ⟨reply.answer.mapError (.whileWriting job.2), { m with archive := reply.memory },
        .added (.forFragment mode job.1 job.2) reply.answer :: reply.notices.map .noticed⟩ := by
    rw [Run.mapError, Run.add, hreply]
  rw [store_eq]
  rcases reply with ⟨_ | d, archive, ns⟩
  · rw [Run.bind_of_error hadd]
    exact .refused (Event.announced_noticed ns)
  · obtain ⟨answer, ns', hannounce⟩ := s.events_announce job { m with archive } d
    rw [Run.bind_of_ok hadd]
    change Event.Announced (_ ++ (s.announce job d _).events)
    rw [hannounce, List.cons_append]
    exact .stored (Event.announced_noticed ns')

theorem respects_announced :
    s.Respects writer (fun (_ : Memory μ ℓ π ω) es _ ↦ Event.Announced es) where
  composes := ⟨fun _ ↦ .nil, Event.Announced.append⟩
  ask f device := (Run.only_ask s.matcher f device).announced (by simp) (by simp)
  modify manifest d := (Run.only_modify s.modifier manifest d).announced (by simp) (by simp)
  name f := (Run.only_name s.assigner f).announced (by simp) (by simp)
  store := s.always_announced_store writer
  notice n := (Run.only_notice (by simp) n : Run.Only [.notice] _).announced (by simp) (by simp)

/-- **In every build, what is stored is announced.** -/
theorem announced_build (timing : Timing) (request : BuildRequest) (m : Memory μ ℓ π ω) :
    Event.Announced (s.build writer timing request m).events :=
  (s.respects_announced writer).build (fun _ ↦ .nil)
    (fun toc ↦ (Run.only_publish writer toc).announced (by simp) (by simp)) timing request m

/-- **Listeners observe and do not influence.** With another listener, whatever it remembers and
however it fails, a build has the same result, asks, names, stores and publishes the same in the
same order, and leaves the other collaborators as they would have been. In every build the listener
is told about exactly the artifacts that were stored; with a single worker, and otherwise as far as
jobs take effect as a whole, about each of them before the writer is asked for the next one. And the
writer is not asked twice for equal fragments of the fragment phase, so further places of a fragment
are not announced either. -/
theorem listeners_only_observe {ℓ' : Type} (listener : Listener ℓ') (heard : ℓ') (timing : Timing)
    (request : BuildRequest) (m : Memory μ ℓ π ω) :
    let out := s.build writer timing request m
    let out' := (s.withListener listener).build writer timing request
      ⟨m.policy, heard, m.naming, m.archive⟩
    (out'.result = out.result ∧ out.memory.SameForOthers out'.memory ∧
      Event.deeds out'.events = Event.deeds out.events ∧
      Event.writes out'.events = Event.writes out.events ∧
      Event.questions out'.events = Event.questions out.events ∧
      Event.publications out'.events = Event.publications out.events) ∧
    Event.hearings out.events = (Event.writes out.events).filterMap (fun w ↦ w.2.toOption) ∧
    (∀ es₁ call d es₂, out.events = es₁ ++ .added call (.ok d) :: es₂ →
      ∃ (ns : List Notice) (answer : Except Error Unit) (es₃ : List Event),
        es₂ = ns.map .noticed ++ .notified d answer :: es₃) ∧
    ((Event.writes (s.fragmentPhase writer timing request m).events).map (·.1.fragment)).Nodup := by
  intro out out'
  obtain ⟨hresult, hmemory, hdeeds⟩ := s.sameForOthers_build listener writer timing request m
    ⟨m.policy, heard, m.naming, m.archive⟩ ⟨rfl, rfl, rfl⟩
  have hannounced : Event.Announced out.events := s.announced_build writer timing request m
  refine ⟨⟨hresult, hmemory, hdeeds, ?_, ?_, ?_⟩, hannounced.hearings_eq,
    fun es₁ call d es₂ heq ↦ hannounced.next heq, s.nodup_writes_writeFragments ..⟩
  · rw [← Event.writes_deeds, hdeeds, Event.writes_deeds]
  · rw [← Event.questions_deeds, hdeeds, Event.questions_deeds]
  · rw [← Event.publications_deeds, hdeeds, Event.publications_deeds]

end Serializer

end

end FragmentArchive
