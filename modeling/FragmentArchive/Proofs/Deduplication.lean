import FragmentArchive.Proofs.FragmentPhase

/-!
# Deduplication does not show

Equal canonical forms are written once, although every one of them has its place in a variant. Next
to this stands a plain way of writing fragments, which takes no notice of equal forms: it walks
through the variants, names and stores every form it meets, and files what the writer answers on the
spot. When the writer answers a repeated request as it did before, the two ways come to the same
variants, and the requests are those of the plain way without the repeated ones.

## What the two runs share

Both begin in the same way and part when the canonical forms are known. From then on they meet
different memories: the plain run names a form again and again. That this changes nothing is due to
the naming, in which a name is settled by the first requests for the forms alone. So in either run a
form has the name that it has among all forms, and the request for it is a function of the form.
-/

open Std

namespace FragmentArchive

/-! ## Writing without deduplication -/

namespace Serializer

variable {μ ℓ π ω : Type}

/-- Numbers the variants and brings their fragments into canonical form. -/
def prepare (s : Serializer μ ℓ π) (fragments : List Fragment) (mode : BuildMode)
    (device : Option Device) :
    Run (Memory μ ℓ π ω) (SortedMap VariantKey UInt32 × List (VariantKey × List Fragment)) := do
  Run.ofExcept (mode.check fragments)
  let filter ← Run.ofExcept
    (DeviceFilter.ordinary s.bundle.config.effectiveStrippings mode device)
  let groups := Fragment.byVariant fragments
  let numbers ← Run.ofExcept
    (VariantKey.numbering groups.keys s.options.firstVariantNumber)
  let canonical ←
    Fragment.canonicalGroups filter s.matcher s.modifier numbers groups.toList
  return (numbers, canonical)

/-- Names and stores a canonical form, and files its artifact under its module. -/
def storeForm (s : Serializer μ ℓ π) (writer : Writer ω) (mode : BuildMode) (f : Fragment) :
    Run (Memory μ ℓ π ω) (ModuleName × ArtifactDescriptor) := do
  let job ← s.plan f
  let descriptor ← s.store writer mode job
  return (f.module, descriptor)

/-- Names and stores the canonical forms of a variant, each of them as often as it occurs. -/
def storeGroup (s : Serializer μ ℓ π) (writer : Writer ω) (mode : BuildMode)
    (group : VariantKey × List Fragment) :
    Run (Memory μ ℓ π ω) (VariantKey × List (ModuleName × ArtifactDescriptor)) := do
  let filed ← Run.each (s.storeForm writer mode) group.2
  return (group.1, filed)

/-- Writes canonical forms as often as they occur. -/
def writeEach (s : Serializer μ ℓ π) (writer : Writer ω) (mode : BuildMode)
    (numbers : SortedMap VariantKey UInt32) (canonical : List (VariantKey × List Fragment)) :
    Run (Memory μ ℓ π ω) (List Variant) := do
  let filed ← Run.each (s.storeGroup writer mode) canonical
  Run.ofExcept (filed.mapM (Variant.ofFiled s.bundle numbers))

/-- Writes the ordinary fragments without looking whether any of them are equal. -/
def writePlainly (s : Serializer μ ℓ π) (writer : Writer ω) (fragments : List Fragment)
    (mode : BuildMode) (device : Option Device) : Run (Memory μ ℓ π ω) (List Variant) := do
  let prepared ← s.prepare fragments mode device
  s.writeEach writer mode prepared.1 prepared.2

/-- Writes canonical forms, equal ones once. -/
def writeDistinct (s : Serializer μ ℓ π) (writer : Writer ω)
    (schedule : (jobs : Nat) → Schedule jobs) (mode : BuildMode)
    (numbers : SortedMap VariantKey UInt32) (canonical : List (VariantKey × List Fragment)) :
    Run (Memory μ ℓ π ω) (List Variant) := do
  let all := canonical.flatMap (·.2)
  let distinct := Fragment.distinct all
  Run.notice (.reduced all.length canonical.length distinct.length)
  let jobs ← Run.each s.plan distinct
  let written ← Schedule.runAll jobs (schedule jobs.length) (s.store writer mode)
  Run.ofExcept
    (canonical.mapM (Variant.ofGroup s.bundle numbers ((jobs.map (·.1)).zip written)))

variable (s : Serializer μ ℓ π) (writer : Writer ω) (schedule : (jobs : Nat) → Schedule jobs)
  (fragments : List Fragment) (mode : BuildMode) (device : Option Device)

/-- Writing fragments is preparing them and writing the different ones. -/
theorem writeFragments_eq :
    (s.writeFragments writer schedule fragments mode device : Run (Memory μ ℓ π ω) _) =
      s.prepare fragments mode device >>= fun p ↦
        s.writeDistinct writer schedule mode p.1 p.2 := by
  simp only [writeFragments, prepare, writeDistinct, bind_assoc, pure_bind]

theorem only_prepare : Run.Only [.question, .notice] (s.prepare fragments mode device :
    Run (Memory μ ℓ π ω) (SortedMap VariantKey UInt32 × List (VariantKey × List Fragment))) := by
  refine (Run.only_ofExcept _).bind fun _ ↦ (Run.only_ofExcept _).bind fun filter ↦
    (Run.only_ofExcept _).bind fun numbers ↦ ?_
  exact (Fragment.only_canonicalGroups _ _ _ _ _).bind fun groups ↦ Run.only_pure _

/-! ## Requests for canonical forms -/

/-- The request for a canonical form in a run that names the given forms. -/
def formCall (mode : BuildMode) (all : List Fragment) (f : Fragment) : WriteCall :=
  .forFragment mode f (Naming.pathFor f.stem (Naming.rank all f))

/-- Different forms are requested differently. -/
theorem formCall_injective (mode : BuildMode) (all : List Fragment) :
    Function.Injective (formCall mode all) := by
  have hfragment : ∀ f, (formCall mode all f).fragment = f := fun f ↦
    WriteCall.fragment_forFragment mode f _
  intro f g h
  rw [← hfragment f, h, hfragment]

/-- The forms that are written are named as they are among all forms. -/
theorem formCall_distinct (mode : BuildMode) (all : List Fragment) :
    formCall mode (Fragment.distinct all) = formCall mode all := by
  funext f
  rw [formCall, Naming.rank, Fragment.distinct, eraseDups_of_nodup (nodup_eraseDups all)]
  rfl

section

variable {s : Serializer μ ℓ Naming} {writer : Writer ω} {answer : WriteCall → ArtifactDescriptor}
  {schedule : (jobs : Nat) → Schedule jobs} {fragments : List Fragment} {mode : BuildMode}
  {device : Option Device} {all : List Fragment} {m : Memory μ ℓ Naming ω}

/-- A form is filed under its module, with the answer to the request for it. -/
abbrev formEntry (answer : WriteCall → ArtifactDescriptor) (mode : BuildMode) (all : List Fragment)
    (f : Fragment) : ModuleName × ArtifactDescriptor :=
  (f.module, answer (formCall mode all f))

/-! ## The run that writes each form once -/

private theorem zip_map_self {α β : Type} (f : α → β) (as : List α) :
    as.zip (as.map f) = as.map fun a ↦ (a, f a) := by
  induction as with
  | nil => rfl
  | cons a as ih => rw [List.map_cons, List.zip_cons_cons, ih, List.map_cons]

/-- Fragments that are the first ones to be named in a run have the names they have among
themselves. -/
private theorem each_plan_of_run (hassigner : s.assigner = Naming.standard) (hnaming : m.naming = ∅)
    (fs : List Fragment) : ∃ m' es, Run.each s.plan fs m =
        ⟨.ok (fs.map fun f ↦ (f, Naming.pathFor f.stem (Naming.rank fs f))), m', es⟩ ∧
      Event.writes es = [] := by
  have hpaths : (s.assigner.paths fs m.naming).1 =
      fs.map fun f ↦ Naming.pathFor f.stem (Naming.rank fs f) := by
    rw [hassigner, hnaming]
    exact Naming.paths_of_run ∅ fs
  have hplan := s.each_plan fs m
  rw [hpaths, zip_map_self] at hplan
  exact ⟨_, _, hplan, writes_named _⟩

/-- A writer that never refuses anything stores all jobs of a batch. -/
private theorem runAll_of_answers (s : Serializer μ ℓ Naming)
    (hwriter : ∀ call archive, (writer.add call archive).answer = .ok (answer call))
    (mode : BuildMode) (jobs : List Job) (schedule : Schedule jobs.length)
    (m : Memory μ ℓ Naming ω) :
    ∃ m' es, Schedule.runAll jobs schedule (s.store writer mode) m =
        ⟨.ok (jobs.map fun job ↦ answer (.forFragment mode job.1 job.2)), m', es⟩ ∧
      (Event.writes es).map (·.1) =
        schedule.order (jobs.map fun job ↦ .forFragment mode job.1 job.2) := by
  have hstore : ∀ (job : Job) (m : Memory μ ℓ Naming ω), (s.store writer mode job m).result =
      .ok (answer (.forFragment mode job.1 job.2)) := by
    intro job m
    obtain ⟨listener, es, hstored, -⟩ := s.store_apply writer mode job m rfl
    rw [hstored, hwriter]
    rfl
  have hok : (Schedule.runAll jobs schedule (s.store writer mode) m).result =
      .ok (jobs.map fun job ↦ answer (.forFragment mode job.1 job.2)) := by
    rw [Schedule.runAll_ok_iff hstore, List.map_map]
    rfl
  rcases hrun : Schedule.runAll jobs schedule (s.store writer mode) m with ⟨r, m', es⟩
  rw [hrun] at hok
  obtain rfl : r = _ := hok
  refine ⟨m', es, rfl, ?_⟩
  rw [writes_runAll hrun, zip_map_self, Schedule.order_map, Schedule.order_map, List.map_map,
    List.map_map]
  rfl

private theorem writeDistinct_outcome (hassigner : s.assigner = Naming.standard)
    (hwriter : ∀ call archive, (writer.add call archive).answer = .ok (answer call))
    (hnaming : m.naming = ∅) (schedule : (jobs : Nat) → Schedule jobs) (mode : BuildMode)
    (numbers : SortedMap VariantKey UInt32) (canonical : List (VariantKey × List Fragment))
    (hall : canonical.flatMap (·.2) = all) :
    (s.writeDistinct writer schedule mode numbers canonical m).result =
        canonical.mapM (fun group ↦ Variant.ofFiled s.bundle numbers
          (group.1, group.2.map (formEntry answer mode all))) ∧
      (Event.writes (s.writeDistinct writer schedule mode numbers canonical m).events).map (·.1) =
        (schedule (all.map (formCall mode all)).eraseDups.length).order
          (all.map (formCall mode all)).eraseDups := by
  have hcalls : (all.map (formCall mode all)).eraseDups =
      (Fragment.distinct all).map (formCall mode all) :=
    eraseDups_map (formCall_injective mode all) _
  generalize hjobs : (Fragment.distinct all).map (fun f ↦
    (f, Naming.pathFor f.stem (Naming.rank (Fragment.distinct all) f))) = jobs
  obtain ⟨m₁, es₁, hplan, hplanned⟩ := each_plan_of_run hassigner hnaming (Fragment.distinct all)
  obtain ⟨m₂, es₂, hrun, hrequested⟩ :=
    runAll_of_answers s hwriter mode jobs (schedule jobs.length) m₁
  have hrequests : jobs.map (fun job ↦ WriteCall.forFragment mode job.1 job.2) =
      (all.map (formCall mode all)).eraseDups := by
    rw [hcalls, ← hjobs, List.map_map, ← formCall_distinct mode all]
    rfl
  have hwritten : (jobs.map (·.1)).zip
      (jobs.map fun job ↦ answer (.forFragment mode job.1 job.2)) =
        (Fragment.distinct all).map fun f ↦ (f, answer (formCall mode all f)) := by
    rw [List.zip_map', ← hjobs, List.map_map, ← formCall_distinct mode all]
    rfl
  have hlength : jobs.length = (all.map (formCall mode all)).eraseDups.length := by
    rw [← hrequests, List.length_map]
  rw [hjobs] at hplan
  subst hall
  have hnotice : ∀ n, (Run.notice n : Run (Memory μ ℓ Naming ω) Unit) m =
    ⟨.ok (), m, [.noticed n]⟩ := fun _ ↦ rfl
  rw [writeDistinct, Run.bind_of_ok (hnotice _), Run.bind_of_ok hplan, Run.bind_of_ok hrun]
  constructor
  · change List.mapM _ _ = _
    refine mapM_congr_left fun group hgroup ↦ ?_
    rw [hwritten]
    refine Variant.ofGroup_eq_ofFiled fun c hc ↦ lookup_map_of_mem _ ?_
    exact List.mem_eraseDups.mpr (List.mem_flatMap.mpr ⟨group, hgroup, hc⟩)
  · change (Event.writes ([_] ++ (es₁ ++ (es₂ ++ [])))).map _ = _
    rw [Event.writes_append, Event.writes_append, hplanned, List.nil_append, List.append_nil]
    change (Event.writes es₂).map _ = _
    rw [hrequested, hrequests, hlength]

/-! ## The run that takes no notice -/

/-- A run that comes to some forms next, among all of them, names and stores them one by one, and
has a result that is known beforehand. -/
def Walks {α : Type} (mode : BuildMode) (all fs : List Fragment)
    (x : Run (Memory μ ℓ Naming ω) α) (a : α) : Prop :=
  ∀ earlier later m, all = earlier ++ (fs ++ later) → m.naming = Naming.after earlier →
    ∃ m' es, x m = ⟨.ok a, m', es⟩ ∧ m'.naming = Naming.after (earlier ++ fs) ∧
      (Event.writes es).map (·.1) = fs.map (formCall mode all)

section

variable {α β : Type} {fs fs' : List Fragment} {x : Run (Memory μ ℓ Naming ω) α} {a : α} {b : β}

private theorem walks_pure (a : α) : Walks mode all [] (pure a : Run (Memory μ ℓ Naming ω) α) a :=
  fun earlier _ m _ hnaming ↦ ⟨m, [], rfl, by rw [List.append_nil, hnaming], rfl⟩

private theorem Walks.bind {f : α → Run (Memory μ ℓ Naming ω) β} (hx : Walks mode all fs x a)
    (hf : Walks mode all fs' (f a) b) : Walks mode all (fs ++ fs') (x >>= f) b := by
  intro earlier later m hall hnaming
  rw [List.append_assoc] at hall
  obtain ⟨m₁, es₁, hxm, hnaming₁, hcalls₁⟩ := hx earlier (fs' ++ later) m hall hnaming
  rw [← List.append_assoc] at hall
  obtain ⟨m₂, es₂, hfm, hnaming₂, hcalls₂⟩ := hf (earlier ++ fs) later m₁ hall hnaming₁
  refine ⟨m₂, es₁ ++ es₂, by rw [Run.bind_of_ok hxm, hfm], ?_, ?_⟩
  · rw [hnaming₂, List.append_assoc]
  · rw [Event.writes_append, List.map_append, hcalls₁, hcalls₂, List.map_append]

private theorem Walks.each {γ : Type} {forms : γ → List Fragment} {result : γ → α}
    {f : γ → Run (Memory μ ℓ Naming ω) α} (hf : ∀ c, Walks mode all (forms c) (f c) (result c))
    (cs : List γ) : Walks mode all (cs.flatMap forms) (Run.each f cs) (cs.map result) := by
  induction cs with
  | nil => exact walks_pure []
  | cons c cs ih =>
    have hrest := ih.bind (f := fun others ↦ pure (result c :: others)) (walks_pure _)
    rw [List.append_nil] at hrest
    exact (hf c).bind hrest

end

/-- Naming and storing a form. A name is settled when it is given, whatever comes later. -/
private theorem walks_storeForm (hassigner : s.assigner = Naming.standard)
    (hwriter : ∀ call archive, (writer.add call archive).answer = .ok (answer call))
    (f : Fragment) :
    Walks mode all [f] (s.storeForm writer mode f) (formEntry answer mode all f) := by
  intro earlier later m hall hnaming
  have hname : s.assigner.path f m.naming =
      (Naming.pathFor f.stem (Naming.rank all f), Naming.after (earlier ++ [f])) := by
    rw [hassigner, hnaming, hall, ← List.append_assoc,
      Naming.rank_append (List.mem_append_right earlier (List.mem_singleton_self f))]
    exact Naming.path_after earlier f
  have hplan : s.plan f m = ⟨.ok (f, (s.assigner.path f m.naming).1),
    { m with naming := (s.assigner.path f m.naming).2 },
    [.named f (s.assigner.path f m.naming).1]⟩ := rfl
  rw [hname] at hplan
  obtain ⟨listener, es, hstore, hwrites⟩ := s.store_apply writer mode
    (f, Naming.pathFor f.stem (Naming.rank all f))
    { m with naming := Naming.after (earlier ++ [f]) } rfl
  rw [hwriter] at hstore hwrites
  rw [storeForm, Run.bind_of_ok hplan, Run.bind_of_ok hstore]
  refine ⟨_, _, rfl, rfl, ?_⟩
  change (Event.writes (es ++ [])).map _ = _
  rw [List.append_nil, hwrites]
  rfl

private theorem walks_storeGroup (hassigner : s.assigner = Naming.standard)
    (hwriter : ∀ call archive, (writer.add call archive).answer = .ok (answer call))
    (group : VariantKey × List Fragment) :
    Walks mode all group.2 (s.storeGroup writer mode group)
      (group.1, group.2.map (formEntry answer mode all)) := by
  have hforms : Walks mode all group.2 (Run.each (s.storeForm writer mode) group.2)
      (group.2.map (formEntry answer mode all)) := by
    have hform : ∀ f, Walks mode all [f] (s.storeForm writer mode f)
      (formEntry answer mode all f) := walks_storeForm hassigner hwriter
    have heach := Walks.each hform group.2
    rw [List.flatMap_singleton'] at heach
    exact heach
  have hfiled := hforms.bind (f := fun filed ↦ pure (group.1, filed)) (walks_pure _)
  rw [List.append_nil] at hfiled
  exact hfiled

private theorem writeEach_outcome (hassigner : s.assigner = Naming.standard)
    (hwriter : ∀ call archive, (writer.add call archive).answer = .ok (answer call))
    (hnaming : m.naming = ∅) (mode : BuildMode) (numbers : SortedMap VariantKey UInt32)
    (canonical : List (VariantKey × List Fragment)) (hall : canonical.flatMap (·.2) = all) :
    (s.writeEach writer mode numbers canonical m).result =
        canonical.mapM (fun group ↦ Variant.ofFiled s.bundle numbers
          (group.1, group.2.map (formEntry answer mode all))) ∧
      (Event.writes (s.writeEach writer mode numbers canonical m).events).map (·.1) =
        all.map (formCall mode all) := by
  have hgroup : ∀ group, Walks mode all group.2 (s.storeGroup writer mode group)
    (group.1, group.2.map (formEntry answer mode all)) := walks_storeGroup hassigner hwriter
  have hgroups := Walks.each hgroup canonical
  rw [hall] at hgroups
  obtain ⟨m', es, hrun, -, hcalls⟩ := hgroups [] [] m (List.append_nil all).symm hnaming
  rw [writeEach, Run.bind_of_ok hrun]
  refine ⟨List.mapM_map, ?_⟩
  change (Event.writes (es ++ [])).map _ = _
  rw [List.append_nil, hcalls]

/-! ## Comparing the two -/

/-- **Deduplication cannot be seen in the variants**, nor in an error that is reported instead of
them. What is asked of the writer is that it stores everything it is asked to and that its answer
depends on the request alone. The requests are those of the plain run without the repeated ones, and
a single worker makes them in the order of their first occurrences. -/
theorem deduplication_is_invisible (hassigner : s.assigner = Naming.standard)
    (hwriter : ∀ call archive, (writer.add call archive).answer = .ok (answer call)) (n : Naming)
    (hnaming : m.naming = Naming.standard.restart n) :
    let out := s.writeFragments writer schedule fragments mode device m
    let plain := s.writePlainly writer fragments mode device m
    let requests := ((Event.writes plain.events).map (·.1)).eraseDups
    out.result = plain.result ∧
      (Event.writes out.events).map (·.1) = (schedule requests.length).order requests ∧
      (schedule = Schedule.inOrder → (Event.writes out.events).map (·.1) = requests) := by
  intro out plain requests
  have hmain : out.result = plain.result ∧
      (Event.writes out.events).map (·.1) = (schedule requests.length).order requests := by
    have hprepares := s.only_prepare (ω := ω) fragments mode device
    have hout : out = _ :=
      congrFun (s.writeFragments_eq writer schedule fragments mode device) m
    have hplain : plain = s.writePlainly writer fragments mode device m := rfl
    rw [writePlainly] at hplain
    rcases hprepare : s.prepare fragments mode device m with ⟨e | ⟨numbers, canonical⟩, m₁, es₁⟩
    · -- both end before there is anything to write
      have hquiet : Event.writes es₁ = [] := hprepares.writes_eq_nil (by simp) hprepare
      rw [Run.bind_of_error hprepare] at hout hplain
      have hnone : requests = [] := by
        simp only [requests, hplain, hquiet]
        rfl
      rw [hout, hplain, hnone, hquiet]
      exact ⟨rfl, (Schedule.order_perm [] (schedule 0)).eq_nil.symm⟩
    · have hquiet : Event.writes es₁ = [] := hprepares.writes_eq_nil (by simp) hprepare
      have hstart : m₁.naming = ∅ := ((hprepares.apply hprepare).naming (by simp)).trans hnaming
      obtain ⟨hresult, hcalls⟩ :=
        writeDistinct_outcome hassigner hwriter hstart schedule mode numbers canonical rfl
      obtain ⟨hresult', hcalls'⟩ :=
        writeEach_outcome hassigner hwriter hstart mode numbers canonical rfl
      rw [Run.bind_of_ok hprepare] at hout hplain
      have hrequests : requests = ((Event.writes
          (s.writeEach writer mode numbers canonical m₁).events).map (·.1)).eraseDups := by
        simp only [requests, hplain, Event.writes_append, hquiet, List.nil_append]
      rw [hrequests, hcalls', ← hcalls, hout, hplain]
      refine ⟨hresult.trans hresult'.symm, ?_⟩
      rw [Event.writes_append, hquiet, List.nil_append]
  refine ⟨hmain.1, hmain.2, ?_⟩
  rintro rfl
  rw [hmain.2, Schedule.order_inOrder]

/-- A master split of two variants is stored once instead of twice. -/
theorem shared_master_spares_a_request :
    let f : Fragment := { Fragment.untargeted .base .split (.ofPackage "p") with isMaster := true }
    let fragments : List Fragment :=
      [{ f with variantTargeting := .sdk 21 }, { f with variantTargeting := .sdk 24 }]
    let s := plain { Bundle.ofPackage "p" with
      modules := [.independent .base .feature (.ofPackage "p")] }
    let m : Memory Unit Unit Naming Unit := ⟨(), (), ∅, ()⟩
    let out := s.writeFragments Writer.echo Schedule.inOrder fragments .default none m
    let plain := s.writePlainly Writer.echo fragments .default none m
    (Event.writes out.events).length = 1 ∧ (Event.writes plain.events).length = 2 ∧
      out.result = plain.result ∧
      (Event.writes out.events).map (·.1) = ((Event.writes plain.events).map (·.1)).eraseDups := by
  intro f fragments s m out plain
  have hechoes : ∀ call archive, (Writer.echo.add call archive).answer =
      .ok ⟨call.path.getD ⟨""⟩, call.kind, call.fragment.targeting, call.fragment.manifest.splitId,
        call.fragment.isMaster, 0, ""⟩ := fun _ _ ↦ rfl
  obtain ⟨hresult, -, hcalls⟩ := deduplication_is_invisible (s := s) (m := m) rfl hechoes ∅ rfl
  exact ⟨by decide +kernel, by decide +kernel, hresult, hcalls rfl⟩

end

end Serializer

end FragmentArchive
