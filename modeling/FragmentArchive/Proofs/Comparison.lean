import FragmentArchive.Proofs.Storing

/-!
# Comparing runs

A run is a sequence of consultations, and what is done next depends on nothing but the results so
far. When two runs are compared, of serializers that differ in some collaborators or from memories
that differ, it is therefore enough to compare the consultations: a relation between runs that
sequences inherit from their parts holds of whole phases as soon as it holds of every consultation.
The walk through the phases is made here once, for all such relations. A property of single runs is
the special case of a relation that looks at one side only.

## The batches

Where a batch is carried out under one schedule on both sides, it is compared job by job; then the
relation has to survive that an error is turned into a result. Where the schedules differ there is
no such way, so a comparison of batches is taken as it comes.
-/

namespace FragmentArchive

namespace Run

variable {σ τ : Type}

/-- A relation between runs that sequences inherit from their parts. -/
structure Congruence (Q : (α : Type) → Run σ α → Run τ α → Prop) : Prop where
  ofExcept : ∀ {α : Type} (r : Except Error α), Q α (Run.ofExcept r) (Run.ofExcept r)
  bind : ∀ {α β : Type} {x : Run σ α} {y : Run τ α} {f : α → Run σ β} {g : α → Run τ β},
    Q α x y → (∀ a, Q β (f a) (g a)) → Q β (x >>= f) (y >>= g)

namespace Congruence

variable {Q : (α : Type) → Run σ α → Run τ α → Prop} (hQ : Congruence Q) {α β : Type}

include hQ

protected theorem pure (a : α) : Q α (pure a) (pure a) := hQ.ofExcept (.ok a)

protected theorem fail (e : Error) : Q α (Run.fail e) (Run.fail e) := hQ.ofExcept (.error e)

/-- What comes behind a computation has to be compared for its one result, if it has any. -/
theorem ofExcept_bind {r : Except Error α} {f : α → Run σ β} {g : α → Run τ β}
    (hf : ∀ a, r = .ok a → Q β (f a) (g a)) :
    Q β (Run.ofExcept r >>= f) (Run.ofExcept r >>= g) := by
  rcases r with e | a
  · exact hQ.fail e
  · have h := hf a rfl
    rwa [← pure_bind a f, ← pure_bind a g] at h

theorem each {f : α → Run σ β} {g : α → Run τ β} (h : ∀ a, Q β (f a) (g a)) (as : List α) :
    Q (List β) (Run.each f as) (Run.each g as) := by
  induction as with
  | nil => exact hQ.pure []
  | cons a as ih => exact hQ.bind (h a) fun b ↦ hQ.bind ih fun bs ↦ hQ.pure (b :: bs)

/-- Under one schedule, batches are compared job by job. -/
theorem runAll (hattempt : ∀ {α : Type} {x : Run σ α} {y : Run τ α}, Q α x y →
      Q (Except Error α) x.attempt y.attempt) {task : α → Run σ β} {task' : α → Run τ β}
    (h : ∀ job, Q β (task job) (task' job)) (jobs : List α) (schedule : Schedule jobs.length) :
    Q (List β) (Schedule.runAll jobs schedule task) (Schedule.runAll jobs schedule task') := by
  have hadvance : ∀ (progress : Schedule.Progress β) (step : Step),
      Q (Schedule.Progress β) (Schedule.advance task jobs progress step)
        (Schedule.advance task' jobs progress step) := by
    intro progress step
    rcases step with i | i
    · rw [Schedule.advance, Schedule.advance]
      split
      · exact hQ.pure progress
      · split
        · exact hQ.pure progress
        · exact hQ.bind (hattempt (h _)) fun result ↦ hQ.pure _
    · rw [Schedule.advance, Schedule.advance]
      split
      · exact hQ.pure _
      · exact hQ.pure progress
  have hsteps : ∀ (steps : List Step) (progress : Schedule.Progress β),
      Q (Schedule.Progress β) (steps.foldlM (Schedule.advance task jobs) progress)
        (steps.foldlM (Schedule.advance task' jobs) progress) := by
    intro steps
    induction steps with
    | nil => exact hQ.pure
    | cons step steps ih =>
      intro progress
      rw [List.foldlM_cons, List.foldlM_cons]
      exact hQ.bind (hadvance progress step) ih
  exact hQ.bind (hsteps schedule.steps _) fun progress ↦ hQ.ofExcept _

end Congruence

end Run

/-! ## What the bundle is looked at for -/

theorem Bundle.moduleNamed_congr {b b' : Bundle} (h : b'.modules = b.modules) :
    b'.moduleNamed = b.moduleNamed := by
  funext name
  rw [moduleNamed, moduleNamed, module?, module?, h]

theorem Variant.ofGroup_congr {b b' : Bundle} (h : b'.modules = b.modules) :
    ofGroup b' = ofGroup b := by
  funext numbers written group
  have hset : artifactSet b' = artifactSet b := by
    funext entry
    rw [artifactSet, artifactSet, Bundle.moduleNamed_congr h]
  rw [ofGroup, ofGroup, hset]

theorem AssetSliceSet.ofGroup_congr {b b' : Bundle} (h : b'.modules = b.modules) :
    ofGroup b' = ofGroup b := by
  funext group
  rw [ofGroup, ofGroup, Bundle.moduleNamed_congr h]

namespace Serializer

variable {μ ℓ π ω μ' ℓ' π' ω' : Type}

/-- Two serializers have the same modules and number alike, and a relation holds of every
consultation that is none of the matcher's and does not belong to a batch. -/
structure Parallels (s : Serializer μ ℓ π) (s' : Serializer μ' ℓ' π')
    (Q : (α : Type) → Run (Memory μ ℓ π ω) α → Run (Memory μ' ℓ' π' ω') α → Prop) : Prop where
  congruence : Run.Congruence Q
  modules : s'.bundle.modules = s.bundle.modules
  first : s'.options.firstVariantNumber = s.options.firstVariantNumber
  modify : ∀ manifest d,
    Q Manifest (Run.modify s.modifier manifest d) (Run.modify s'.modifier manifest d)
  name : ∀ f, Q ArchivePath (Run.name s.assigner f) (Run.name s'.assigner f)
  notice : ∀ n, Q Unit (Run.notice n) (Run.notice n)

namespace Parallels

variable {s : Serializer μ ℓ π} {s' : Serializer μ' ℓ' π'}
  {Q : (α : Type) → Run (Memory μ ℓ π ω) α → Run (Memory μ' ℓ' π' ω') α → Prop}
  (h : s.Parallels s' Q) {filter : DeviceFilter}

include h

/-! ## Between the batches -/

theorem keeps_of_ask
    (hask : ∀ f device, Q Bool (Run.ask s.matcher f device) (Run.ask s'.matcher f device))
    (filter : DeviceFilter) (f : Fragment) :
    Q Bool (filter.keeps s.matcher f) (filter.keeps s'.matcher f) := by
  rw [DeviceFilter.keeps, DeviceFilter.keeps]
  split
  · exact hask f _
  · exact h.congruence.pure true

theorem canonicalForms
    (hkeeps : ∀ f, Q Bool (filter.keeps s.matcher f) (filter.keeps s'.matcher f))
    (number : UInt32) (fs : List Fragment) :
    Q (List Fragment) (Fragment.canonicalForms filter s.matcher s.modifier number fs)
      (Fragment.canonicalForms filter s'.matcher s'.modifier number fs) := by
  have hQ := h.congruence
  induction fs with
  | nil => exact hQ.pure []
  | cons f fs ih =>
    refine hQ.bind (hkeeps f) fun kept ↦ ?_
    split
    · refine hQ.bind (hQ.bind (h.modify _ _) fun manifest ↦ hQ.pure _) fun canonical ↦ ?_
      exact hQ.bind ih fun others ↦ hQ.pure (canonical :: others)
    · exact ih

theorem canonicalGroups
    (hkeeps : ∀ f, Q Bool (filter.keeps s.matcher f) (filter.keeps s'.matcher f))
    (numbers : SortedMap VariantKey UInt32) (groups : List (VariantKey × List Fragment)) :
    Q (List (VariantKey × List Fragment))
      (Fragment.canonicalGroups filter s.matcher s.modifier numbers groups)
      (Fragment.canonicalGroups filter s'.matcher s'.modifier numbers groups) := by
  have hQ := h.congruence
  induction groups with
  | nil => exact hQ.pure []
  | cons group groups ih =>
    rw [Fragment.canonicalGroups, Fragment.canonicalGroups]
    split
    · exact hQ.fail _
    · refine hQ.bind (h.canonicalForms hkeeps _ _) fun canonical ↦ ?_
      exact hQ.bind ih fun others ↦ hQ.pure _

theorem plan (f : Fragment) : Q Job (s.plan f) (s'.plan f) :=
  h.congruence.bind (h.name f) fun path ↦ h.congruence.pure (f, path)

theorem planSlices
    (hkeeps : ∀ f, Q Bool (filter.keeps s.matcher f) (filter.keeps s'.matcher f))
    (slices : List Fragment) :
    Q (List Job) (s.planSlices filter slices) (s'.planSlices filter slices) := by
  have hQ := h.congruence
  induction slices with
  | nil => exact hQ.pure []
  | cons slice slices ih =>
    rw [Serializer.planSlices, Serializer.planSlices]
    split
    · exact hQ.fail _
    · refine hQ.bind (hkeeps slice) fun kept ↦ ?_
      split
      · exact hQ.bind (h.plan slice) fun job ↦ hQ.bind ih fun jobs ↦ hQ.pure (job :: jobs)
      · exact ih

/-! ## Phases -/

variable (writer : Writer ω) (writer' : Writer ω') {mode : BuildMode} {device : Option Device}

/-- Phases are compared when the serializers filter alike. -/
theorem writeFragments (schedule schedule' : (jobs : Nat) → Schedule jobs)
    (hfilter : DeviceFilter.ordinary s'.bundle.config.effectiveStrippings mode device =
      DeviceFilter.ordinary s.bundle.config.effectiveStrippings mode device)
    (hkeeps : ∀ filter,
      DeviceFilter.ordinary s.bundle.config.effectiveStrippings mode device = .ok filter →
        ∀ f, Q Bool (filter.keeps s.matcher f) (filter.keeps s'.matcher f))
    (hbatch : ∀ jobs, Q (List ArtifactDescriptor)
      (Schedule.runAll jobs (schedule jobs.length) (s.store writer mode))
      (Schedule.runAll jobs (schedule' jobs.length) (s'.store writer' mode)))
    (fragments : List Fragment) :
    Q (List Variant) (s.writeFragments writer schedule fragments mode device)
      (s'.writeFragments writer' schedule' fragments mode device) := by
  have hQ := h.congruence
  rw [Serializer.writeFragments, Serializer.writeFragments, hfilter, h.first,
    Variant.ofGroup_congr h.modules]
  refine hQ.bind (hQ.ofExcept _) fun _ ↦ hQ.ofExcept_bind fun filter hmade ↦ ?_
  refine hQ.bind (hQ.ofExcept _) fun numbers ↦ ?_
  refine hQ.bind (h.canonicalGroups (hkeeps filter hmade) numbers _) fun groups ↦ ?_
  refine hQ.bind (h.notice _) fun _ ↦ hQ.bind (hQ.each h.plan _) fun jobs ↦ ?_
  exact hQ.bind (hbatch jobs) fun written ↦ hQ.ofExcept _

theorem writeSlices (schedule schedule' : (jobs : Nat) → Schedule jobs)
    (hfilter : DeviceFilter.slices s'.bundle.config.effectiveStrippings device =
      DeviceFilter.slices s.bundle.config.effectiveStrippings device)
    (hkeeps : ∀ filter, DeviceFilter.slices s.bundle.config.effectiveStrippings device =
      .ok filter → ∀ f, Q Bool (filter.keeps s.matcher f) (filter.keeps s'.matcher f))
    (hbatch : ∀ jobs, Q (List ArtifactDescriptor)
      (Schedule.runAll jobs (schedule jobs.length) (s.store writer mode))
      (Schedule.runAll jobs (schedule' jobs.length) (s'.store writer' mode)))
    (slices : List Fragment) :
    Q (List AssetSliceSet) (s.writeSlices writer schedule slices mode device)
      (s'.writeSlices writer' schedule' slices mode device) := by
  have hQ := h.congruence
  rw [Serializer.writeSlices, Serializer.writeSlices, hfilter,
    AssetSliceSet.ofGroup_congr h.modules]
  refine hQ.ofExcept_bind fun filter hmade ↦ ?_
  refine hQ.bind (h.planSlices (hkeeps filter hmade) slices) fun jobs ↦ ?_
  exact hQ.bind (hbatch jobs) fun written ↦ hQ.ofExcept _

/-- A build consults the same collaborators, and besides it tells the path assigner that it begins
and hands over the table of contents. -/
theorem build (hbundle : s'.bundle = s.bundle)
    (hask : ∀ f device, Q Bool (Run.ask s.matcher f device) (Run.ask s'.matcher f device))
    (timing timing' : Timing)
    (hfragments : ∀ mode jobs, Q (List ArtifactDescriptor)
      (Schedule.runAll jobs (timing.fragments jobs.length) (s.store writer mode))
      (Schedule.runAll jobs (timing'.fragments jobs.length) (s'.store writer' mode)))
    (hslices : ∀ mode jobs, Q (List ArtifactDescriptor)
      (Schedule.runAll jobs (timing.assetSlices jobs.length) (s.store writer mode))
      (Schedule.runAll jobs (timing'.assetSlices jobs.length) (s'.store writer' mode)))
    (hstart : Q Unit (Run.startNaming s.assigner) (Run.startNaming s'.assigner))
    (hpublish : ∀ toc, Q Unit (Run.publish writer toc) (Run.publish writer' toc))
    (request : BuildRequest) :
    Q TableOfContents (s.build writer timing request) (s'.build writer' timing' request) := by
  have hQ := h.congruence
  have hkeeps := h.keeps_of_ask hask
  rw [Serializer.build, Serializer.build, hbundle]
  refine hQ.bind (h.notice _) fun _ ↦ hQ.bind hstart fun _ ↦ ?_
  refine hQ.bind (h.writeFragments writer writer' _ _ (by rw [hbundle])
    (fun filter _ ↦ hkeeps filter) (hfragments _) _) fun variants ↦ ?_
  refine hQ.bind (h.writeSlices writer writer' _ _ (by rw [hbundle])
    (fun filter _ ↦ hkeeps filter) (hslices _) _) fun sets ↦ ?_
  exact hQ.bind (hpublish _) fun _ ↦ hQ.bind (h.notice _) fun _ ↦ hQ.pure _

end Parallels

end Serializer

end FragmentArchive
