import FragmentArchive.Proofs.Consultation
import FragmentArchive.Proofs.Scheduling

/-!
# Runs and what came before them

One serializer serves many calls: whole builds, and either of the two phases by itself. A call
brings a writer of its own, so what is there from earlier calls are the memories of the other
collaborators. The path assigner's memory is full of names, those of runs that were broken off and
of phases that were called directly among them.

When matcher, modifier and listener remember nothing, the names are all there is of the history, and
a build begins by having the path assigner forget them. Its outcome is therefore that of the same
build by a serializer that was just set up.
-/

namespace FragmentArchive

variable {μ ℓ π ω : Type}

/-! ## Calls -/

/-- What a serializer's collaborators remember between two calls. -/
structure Standing (μ ℓ π : Type) where
  policy : μ
  listener : ℓ
  naming : π

/-- The memories with which a call on a writer begins. -/
def Standing.meeting (standing : Standing μ ℓ π) (archive : ω) : Memory μ ℓ π ω :=
  ⟨standing.policy, standing.listener, standing.naming, archive⟩

/-- What is left when the writer is put away. -/
def Memory.standing (m : Memory μ ℓ π ω) : Standing μ ℓ π := ⟨m.policy, m.listener, m.naming⟩

/-- A call on a serializer, together with its writer and what that remembers. -/
inductive Call : Type 1
  | build {ω : Type} (writer : Writer ω) (archive : ω) (timing : Timing) (request : BuildRequest)
  | fragments {ω : Type} (writer : Writer ω) (archive : ω)
    (schedule : (jobs : Nat) → Schedule jobs) (fragments : List Fragment) (mode : BuildMode)
    (device : Option Device)
  | slices {ω : Type} (writer : Writer ω) (archive : ω) (schedule : (jobs : Nat) → Schedule jobs)
    (slices : List Fragment) (mode : BuildMode) (device : Option Device)

namespace Serializer

variable (s : Serializer μ ℓ π)

/-- What the collaborators remember after a call, whether it succeeded or not. -/
def after (standing : Standing μ ℓ π) : Call → Standing μ ℓ π
  | .build writer archive timing request =>
    (s.build writer timing request (standing.meeting archive)).memory.standing
  | .fragments writer archive schedule fragments mode device =>
    (s.writeFragments writer schedule fragments mode device
      (standing.meeting archive)).memory.standing
  | .slices writer archive schedule slices mode device =>
    (s.writeSlices writer schedule slices mode device (standing.meeting archive)).memory.standing

/-- What the collaborators remember after a sequence of calls. -/
def afterAll (standing : Standing μ ℓ π) (calls : List Call) : Standing μ ℓ π :=
  calls.foldl s.after standing

/-! ## Collaborators that keep no state -/

/-- Matcher, modifier and listener remember nothing of what they are asked and told. -/
structure Forgetful : Prop where
  matcher : ∀ f device memory, (s.matcher.accepts f device memory).memory = memory
  modifier : ∀ manifest d memory, (s.modifier.modify manifest d memory).memory = memory
  listener : ∀ d memory, (s.listener.hear d memory).memory = memory

/-- Matcher, modifier and listener are left as they were. -/
def Undisturbed (m : Memory μ ℓ π ω) (_ : List Event) (m' : Memory μ ℓ π ω) : Prop :=
  m'.policy = m.policy ∧ m'.listener = m.listener

theorem composes_undisturbed :
    Run.Composes (Undisturbed : Memory μ ℓ π ω → List Event → Memory μ ℓ π ω → Prop) where
  nil _ := ⟨rfl, rfl⟩
  append h h' := ⟨h'.1.trans h.1, h'.2.trans h.2⟩

variable {s}

theorem Forgetful.respects (h : s.Forgetful) (writer : Writer ω) :
    s.Respects writer Undisturbed where
  composes := composes_undisturbed
  ask f device m := ⟨h.matcher f device m.policy, rfl⟩
  modify manifest d m := ⟨h.modifier manifest d m.policy, rfl⟩
  name _ _ := ⟨rfl, rfl⟩
  store := always_store composes_undisturbed (fun _ _ ↦ ⟨rfl, rfl⟩)
    (fun d m ↦ ⟨rfl, h.listener d m.listener⟩) fun _ _ ↦ ⟨rfl, rfl⟩
  notice _ _ := ⟨rfl, rfl⟩

/-- A call leaves nothing behind but names. -/
theorem Forgetful.after (h : s.Forgetful) (standing : Standing μ ℓ π) (call : Call) :
    (s.after standing call).policy = standing.policy ∧
      (s.after standing call).listener = standing.listener := by
  cases call with
  | build writer archive timing request =>
    exact (h.respects writer).build (fun _ ↦ ⟨rfl, rfl⟩) (fun _ _ ↦ ⟨rfl, rfl⟩) timing request
      (standing.meeting archive)
  | fragments writer archive schedule fragments mode device =>
    exact (h.respects writer).writeFragments schedule mode device fragments
      (standing.meeting archive)
  | slices writer archive schedule slices mode device =>
    exact (h.respects writer).writeSlices schedule mode device slices (standing.meeting archive)

/-- A history leaves nothing behind but names. -/
theorem Forgetful.afterAll (h : s.Forgetful) (standing : Standing μ ℓ π) (calls : List Call) :
    ∃ naming, s.afterAll standing calls = { standing with naming } := by
  induction calls generalizing standing with
  | nil => exact ⟨standing.naming, rfl⟩
  | cons call calls ih =>
    obtain ⟨hpolicy, hlistener⟩ := h.after standing call
    obtain ⟨naming, hnaming⟩ := ih (s.after standing call)
    refine ⟨naming, hnaming.trans ?_⟩
    rw [hpolicy, hlistener]

/-! ## A build after a history -/

/-- Where the path assigner begins every run in the same way, a history has no influence. -/
theorem Forgetful.build_afterAll (h : s.Forgetful)
    (hrestart : ∀ naming naming', s.assigner.restart naming = s.assigner.restart naming')
    (standing : Standing μ ℓ π) (history : List Call) (writer : Writer ω) (archive : ω)
    (timing : Timing) (request : BuildRequest) :
    s.build writer timing request ((s.afterAll standing history).meeting archive) =
      s.build writer timing request (standing.meeting archive) := by
  obtain ⟨naming, hnaming⟩ := h.afterAll standing history
  rw [hnaming, build_apply, build_apply, Standing.meeting, Standing.meeting,
    hrestart naming standing.naming]

/-- **Runs are independent of history.** Whatever calls a serializer has served before, the outcome
of a build is that of a serializer that was just set up: the result, all questions, names and
requests in their order, and the memories in the end. When the workers take turns in another way,
matcher and modifier are still asked the same, provided that the writer's answers depend on the
requests alone; and if it does not mind the order of the artifacts either, both builds get to the
same table, or none of them to any. -/
theorem build_is_independent_of_history (s : Serializer μ ℓ Naming)
    (hassigner : s.assigner = Naming.standard) (hforgetful : s.Forgetful) (policy : μ)
    (listener : ℓ) (history : List Call) (writer : Writer ω) (archive : ω) (timing : Timing)
    (request : BuildRequest) :
    let new : Standing μ ℓ Naming := ⟨policy, listener, ∅⟩
    let out := s.build writer timing request ((s.afterAll new history).meeting archive)
    out = s.build writer timing request (new.meeting archive) ∧
      ∀ timing', writer.AnswersByRequest →
        let out' := s.build writer timing' request (new.meeting archive)
        Event.questions out.events = Event.questions out'.events ∧
          (writer.AcceptsInAnyOrder → ∀ toc, out.result = .ok toc ↔ out'.result = .ok toc) := by
  intro new out
  have hsame : out = s.build writer timing request (new.meeting archive) :=
    hforgetful.build_afterAll (fun _ _ ↦ by rw [hassigner]; rfl) new history writer archive timing
      request
  refine ⟨hsame, fun timing' hwriter ↦ ?_⟩
  rw [hsame]
  exact ⟨questions_build_of_other_timing hwriter timing', fun haccepts toc ↦
    ⟨build_ok_of_other_timing hwriter haccepts timing',
      build_ok_of_other_timing hwriter haccepts timing⟩⟩

/-- After a build and a phase that failed, a phase that was called directly leaves a name behind; a
build that gives this name to another fragment is not affected. -/
theorem names_of_earlier_calls_are_forgotten :
    let f : Fragment := { Fragment.untargeted .base .split (.ofPackage "p") with isMaster := true }
    let s := plain { Bundle.ofPackage "p" with
      modules := [.independent .base .feature (.ofPackage "p")] }
    let request : BuildRequest := ⟨[f], [], .default, none, default, []⟩
    let g : Fragment := { f with entries := [⟨"dex/classes.dex", []⟩] }
    let history : List Call := [
      .build Writer.echo () .inOrder { request with mode := .universal },
      .slices Writer.echo () Schedule.inOrder [g] .default none,
      .fragments Writer.echo () Schedule.inOrder [g] .default none]
    let new : Standing Unit Unit Naming := ⟨(), (), ∅⟩
    let direct := s.build Writer.echo .inOrder request (new.meeting ())
    let later := s.build Writer.echo .inOrder request ((s.afterAll new history).meeting ())
    (s.afterAll new history).naming.given.map (·.2.text) = ["splits/base-master.apk"] ∧
      (Event.writes direct.events).map (·.1.path.map (·.text)) =
        [some "splits/base-master.apk"] ∧
      later = direct := by
  intro f s request g history new direct later
  have hforgetful : s.Forgetful := ⟨fun _ _ _ ↦ rfl, fun _ _ _ ↦ rfl, fun _ _ ↦ rfl⟩
  exact ⟨by decide +kernel, by decide +kernel,
    (build_is_independent_of_history s rfl hforgetful () () history Writer.echo () .inOrder
      request).1⟩

end Serializer

end FragmentArchive
