import FragmentArchive.Proofs.CommitPoint
import FragmentArchive.Proofs.Replay
import FragmentArchive.Proofs.WellFormed

/-!
# Two pipelines and one assigner

A build writes ordinary fragments and asset slices one after the other, each in a phase of its own.
The first phase cannot know what the second one will do. The second one meets whatever the first one
left behind: the memory of the matcher, and that of the path assigner, to whom both phases turn for
names.

With the standard names and a matcher that keeps to its answers, names are all that can pass from
the fragments to the slices. A slice is named after its stem and its rank, and the forms of the
ordinary fragments have been named before it. Names of slices begin with a directory of their own,
so only forms of the category of asset slices can come into the way. Nothing forbids such forms
among the ordinary fragments. Where there are none, or the same ones in both runs, the slices of two
runs have the same names, and then their sets are the same in every respect.
-/

namespace FragmentArchive

/-! ## Names of slices -/

namespace Fragment

/-- Whether a fragment is an asset slice, in whichever list it was handed over. -/
def isSlice (f : Fragment) : Bool := f.category = .assetSlice

/-- The first letter of all names of a category. -/
private def initial : Category → Char
  | .split | .standalone | .system => 's'
  | .instant => 'i'
  | .assetSlice => 'a'
  | .hibernation => 'h'

private theorem head?_stem (f : Fragment) : f.stem.toList.head? = some (initial f.category) := by
  have happend : ∀ (c : Char) (s t : String), s.toList.head? = some c →
      (s ++ t).toList.head? = some c := by
    intro c s t h
    rw [String.toList_append, List.head?_append, h]
    rfl
  rw [stem]
  rcases f.category
  all_goals dsimp only [initial]
  case standalone => split <;> first | exact happend _ _ _ rfl | rfl
  case system => split <;> first | exact happend _ _ _ (happend _ _ _ (happend _ _ _ rfl)) | rfl
  all_goals exact happend _ _ _ (happend _ _ _ (happend _ _ _ rfl))

/-- What is named like a slice is one. -/
theorem isSlice_of_stem_eq {f g : Fragment} (hf : f.isSlice = true) (h : g.stem = f.stem) :
    g.isSlice = true := by
  have hinitial := head?_stem g
  rw [h, head?_stem f, Option.some.injEq, of_decide_eq_true hf] at hinitial
  rw [isSlice]
  rcases hcategory : g.category
  all_goals first | rfl | (rw [hcategory] at hinitial; cases hinitial)

end Fragment

namespace Naming

/-- What cannot have the stem of a fragment has no influence on its rank. -/
theorem rankAmong_filter {p : Fragment → Bool} {f : Fragment} (hf : p f = true)
    (hp : ∀ g : Fragment, g.stem = f.stem → p g = true) (named : List Fragment) :
    rankAmong (named.filter p) f = rankAmong named f := by
  induction named with
  | nil => rfl
  | cons g named ih =>
    by_cases hgf : g = f
    · subst hgf
      rw [List.filter_cons_of_pos hf, rankAmong_cons_self, rankAmong_cons_self]
    · by_cases hg : p g = true
      · rw [List.filter_cons_of_pos hg, rankAmong_cons_of_ne hgf, rankAmong_cons_of_ne hgf, ih]
      · rw [List.filter_cons_of_neg hg, rankAmong_cons_of_ne hgf, if_neg (mt (hp g) hg), ih,
          Nat.add_zero]

/-- **The ranks of slices** depend on nothing but the slices among what is named before them. -/
theorem rank_of_slices {forms forms' slices : List Fragment}
    (hslices : ∀ f ∈ slices, f.isSlice = true)
    (hforms : forms.filter Fragment.isSlice = forms'.filter Fragment.isSlice) {f : Fragment}
    (hf : f ∈ slices) : rank (forms ++ slices) f = rank (forms' ++ slices) f := by
  have hslice := hslices f hf
  have hfilter : ∀ requests, rank (requests.filter Fragment.isSlice) f = rank requests f := by
    intro requests
    rw [rank, eraseDups_filter,
      rankAmong_filter hslice fun g hg ↦ Fragment.isSlice_of_stem_eq hslice hg, rank]
  rw [← hfilter (forms ++ slices), ← hfilter (forms' ++ slices), List.filter_append,
    List.filter_append, hforms]

/-- The name of a slice in a run that has named some forms before the slices. -/
def sliceName (forms slices : List Fragment) (f : Fragment) : ArchivePath :=
  pathFor f.stem (rank (forms ++ slices) f)

/-- With one stem, it is the ranks that make the names. -/
theorem pathFor_eq_iff {stem : String} {n n' : Nat} :
    pathFor stem n = pathFor stem n' ↔ n = n' := by
  have hlonger : ∀ n, stem ≠ stem ++ "_" ++ Decimal.ofNat n := by
    intro n h
    have hlength := congrArg (·.toList.length) h
    simp at hlength
  rw [pathFor_inj_iff, body_inj_iff]
  constructor
  · rintro (⟨-, hn⟩ | ⟨-, -, hstem⟩ | ⟨-, -, hstem⟩)
    · exact hn
    · exact absurd hstem (hlonger _)
    · exact absurd hstem (hlonger _)
  · exact fun hn ↦ .inl ⟨rfl, hn⟩

end Naming

/-! ## Matchers that keep to their answers -/

/-- What the matcher answers depends on the question alone. -/
def Matcher.AnswersByQuestion {μ : Type} (matcher : Matcher μ) : Prop :=
  ∀ f device memory memory',
    (matcher.accepts f device memory).answer = (matcher.accepts f device memory').answer

/-- All questions about fragments were answered by a verdict. -/
def Event.Heed (verdict : Fragment → Device → Except Error Bool) (es : List Event) : Prop :=
  ∀ f device answer, .asked f device answer ∈ es → answer = verdict f device

namespace Event.Heed

variable {verdict : Fragment → Device → Except Error Bool} {es es' : List Event}

protected theorem append (h : Heed verdict es) (h' : Heed verdict es') :
    Heed verdict (es ++ es') := fun f device answer hmem ↦
  (List.mem_append.mp hmem).elim (h f device answer) (h' f device answer)

theorem of_cons {e : Event} (h : Heed verdict (e :: es)) : Heed verdict es :=
  fun f device answer hmem ↦ h f device answer (List.mem_cons_of_mem e hmem)

theorem of_append (h : Heed verdict (es ++ es')) : Heed verdict es' :=
  fun f device answer hmem ↦ h f device answer (List.mem_append_right es hmem)

/-- Where no question is asked, all answers are right. -/
theorem of_kind_ne (h : ∀ e ∈ es, e.kind ≠ .question) : Heed verdict es :=
  fun _ _ _ hmem ↦ absurd rfl (h _ hmem)

end Event.Heed

namespace Fragment

variable {filter : DeviceFilter} {verdict : Fragment → Device → Except Error Bool}

theorem Kept.isSlice {fs ks : List Fragment} {es : List Event} (h : Kept filter fs es ks) :
    ∀ f ∈ ks, f.isSlice = true := by
  induction h with
  | nil => exact fun f hf ↦ absurd hf List.not_mem_nil
  | dropped _ _ _ ih => exact ih
  | kept hcategory _ ih =>
    intro f hf
    rcases List.mem_cons.mp hf with rfl | hf
    · exact decide_eq_true hcategory
    · exact ih f hf

/-- The first slice was refused by the matcher, or it is kept. -/
theorem Kept.of_cons {f : Fragment} {fs ks : List Fragment} {es : List Event}
    (h : Kept filter (f :: fs) es ks) :
    (∃ device es', filter.device = some device ∧ es = .asked f device (.ok false) :: es' ∧
      Kept filter fs es' ks) ∨
    ∃ es' ks', es = filter.acceptance f ++ es' ∧ ks = f :: ks' ∧ Kept filter fs es' ks' := by
  cases h with
  | dropped _ hdevice hrest => exact .inl ⟨_, _, hdevice, rfl, hrest⟩
  | kept _ hrest => exact .inr ⟨_, _, rfl, rfl, hrest⟩

/-- To refuse a fragment and to accept it are two answers to one question. -/
private theorem not_heed_both {f : Fragment} {device : Device} {es es' : List Event}
    (hdevice : filter.device = some device)
    (hrefused : Event.Heed verdict (.asked f device (.ok false) :: es))
    (haccepted : Event.Heed verdict (filter.acceptance f ++ es')) : False := by
  rw [DeviceFilter.acceptance, hdevice] at haccepted
  have hverdict := hrefused f device _ List.mem_cons_self
  rw [← haccepted f device (.ok true) List.mem_cons_self] at hverdict
  cases hverdict

/-- A matcher that keeps to its answers keeps the same slices twice. -/
theorem Kept.unique {fs ks ks' : List Fragment} {es es' : List Event}
    (h : Kept filter fs es ks) (h' : Kept filter fs es' ks') (heed : Event.Heed verdict es)
    (heed' : Event.Heed verdict es') : ks = ks' := by
  induction fs generalizing ks ks' es es' with
  | nil =>
    cases h
    cases h'
    rfl
  | cons f fs ih =>
    rcases h.of_cons with ⟨device, es, hdevice, rfl, hrest⟩ | ⟨es, ks, rfl, rfl, hrest⟩
    · rcases h'.of_cons with ⟨_, es', -, rfl, hrest'⟩ | ⟨es', ks', rfl, rfl, hrest'⟩
      · exact ih hrest hrest' heed.of_cons heed'.of_cons
      · exact (not_heed_both hdevice heed heed').elim
    · rcases h'.of_cons with ⟨_, es', hdevice, rfl, hrest'⟩ | ⟨es', ks', rfl, rfl, hrest'⟩
      · exact (not_heed_both hdevice heed' heed).elim
      · rw [ih hrest hrest' heed.of_append heed'.of_append]

end Fragment

/-- What a writer answers that never refuses anything, and answers by the request. -/
theorem Writer.Answers.eq_ok {ω : Type} {writer : Writer ω}
    {answer : WriteCall → ArtifactDescriptor}
    (hwriter : ∀ call archive, (writer.add call archive).answer = .ok (answer call))
    {archive archive' : ω} {ws : List (WriteCall × Except Error ArtifactDescriptor)}
    (h : writer.Answers archive ws archive') {w : WriteCall × Except Error ArtifactDescriptor}
    (hw : w ∈ ws) : w.2 = .ok (answer w.1) := by
  obtain ⟨before, after, rfl⟩ := List.append_of_mem hw
  obtain ⟨between, -, hanswer, -⟩ := Writer.answers_append.mp h
  rw [← hanswer, hwriter]

/-! ## Fragment phases side by side -/

section

variable {μ ℓ π ω ω' α β : Type}

/-- From the same memories of matcher, modifier and path assigner, two runs that both succeed come
to the same value, and to such memories again. -/
def Run.Concur (x : Run (Memory μ ℓ π ω) α) (y : Run (Memory μ ℓ π ω') α) : Prop :=
  ∀ {m m' : Memory μ ℓ π ω} {n n' : Memory μ ℓ π ω'} {es es' : List Event} {a b : α},
    m.policy = n.policy → m.naming = n.naming → x m = ⟨.ok a, m', es⟩ → y n = ⟨.ok b, n', es'⟩ →
      a = b ∧ m'.policy = n'.policy ∧ m'.naming = n'.naming

namespace Run

theorem concur_ofExcept (r : Except Error α) :
    Concur (ofExcept r : Run (Memory μ ℓ π ω) α) (ofExcept r : Run (Memory μ ℓ π ω') α) := by
  intro m m' n n' es es' a b hpolicy hnaming hm hn
  obtain ⟨hr, rfl, -⟩ := ofExcept_ok_iff.mp hm
  obtain ⟨hr', rfl, -⟩ := ofExcept_ok_iff.mp hn
  exact ⟨Except.ok.inj (hr.symm.trans hr'), hpolicy, hnaming⟩

theorem Concur.bind {x : Run (Memory μ ℓ π ω) α} {y : Run (Memory μ ℓ π ω') α}
    {f : α → Run (Memory μ ℓ π ω) β} {g : α → Run (Memory μ ℓ π ω') β} (hx : Concur x y)
    (hf : ∀ a, Concur (f a) (g a)) : Concur (x >>= f) (y >>= g) := by
  intro m m' n n' es es' a b hpolicy hnaming hm hn
  obtain ⟨v, m₁, _, _, hxm, hfm, -⟩ := bind_ok_iff.mp hm
  obtain ⟨w, n₁, _, _, hyn, hgn, -⟩ := bind_ok_iff.mp hn
  obtain ⟨rfl, hpolicy₁, hnaming₁⟩ := hx hpolicy hnaming hxm hyn
  exact hf v hpolicy₁ hnaming₁ hfm hgn

theorem congruence_concur : Congruence
    fun α (x : Run (Memory μ ℓ π ω) α) (y : Run (Memory μ ℓ π ω') α) ↦ Concur x y where
  ofExcept := concur_ofExcept
  bind := Concur.bind

theorem concur_ask (matcher : Matcher μ) (f : Fragment) (device : Device) :
    Concur (ask matcher f device : Run (Memory μ ℓ π ω) Bool)
      (ask matcher f device : Run (Memory μ ℓ π ω') Bool) := by
  intro m m' n n' es es' a b hpolicy hnaming hm hn
  obtain ⟨ha, rfl, -⟩ := Outcome.mk.inj hm
  obtain ⟨hb, rfl, -⟩ := Outcome.mk.inj hn
  rw [hpolicy] at ha ⊢
  exact ⟨Except.ok.inj (ha.symm.trans hb), rfl, hnaming⟩

theorem concur_modify (modifier : Modifier μ) (manifest : Manifest) (d : ModificationDescriptor) :
    Concur (modify modifier manifest d : Run (Memory μ ℓ π ω) Manifest)
      (modify modifier manifest d : Run (Memory μ ℓ π ω') Manifest) := by
  intro m m' n n' es es' a b hpolicy hnaming hm hn
  obtain ⟨ha, rfl, -⟩ := Outcome.mk.inj hm
  obtain ⟨hb, rfl, -⟩ := Outcome.mk.inj hn
  rw [hpolicy] at ha ⊢
  exact ⟨Except.ok.inj (ha.symm.trans hb), rfl, hnaming⟩

theorem concur_name (assigner : PathAssigner π) (f : Fragment) :
    Concur (name assigner f : Run (Memory μ ℓ π ω) ArchivePath)
      (name assigner f : Run (Memory μ ℓ π ω') ArchivePath) := by
  intro m m' n n' es es' a b hpolicy hnaming hm hn
  obtain ⟨ha, rfl, -⟩ := Outcome.mk.inj hm
  obtain ⟨hb, rfl, -⟩ := Outcome.mk.inj hn
  rw [hnaming] at ha ⊢
  exact ⟨Except.ok.inj (ha.symm.trans hb), hpolicy, rfl⟩

theorem concur_notice (n : Notice) :
    Concur (notice n : Run (Memory μ ℓ π ω) Unit) (notice n : Run (Memory μ ℓ π ω') Unit) := by
  intro m m' n n' es es' a b hpolicy hnaming hm hn
  obtain ⟨-, rfl, -⟩ := Outcome.mk.inj hm
  obtain ⟨-, rfl, -⟩ := Outcome.mk.inj hn
  exact ⟨rfl, hpolicy, hnaming⟩

end Run

end

namespace Serializer

variable {μ ℓ π ω ω' : Type} {writer : Writer ω} {writer' : Writer ω'}
  {answer : WriteCall → ArtifactDescriptor}

/-- The jobs of a batch have the same answers from writers that answer alike. -/
theorem concur_runAll (s : Serializer μ ℓ π)
    (hwriter : ∀ call archive, (writer.add call archive).answer = .ok (answer call))
    (hwriter' : ∀ call archive, (writer'.add call archive).answer = .ok (answer call))
    (mode : BuildMode) (jobs : List Job) (schedule schedule' : Schedule jobs.length) :
    Run.Concur (Schedule.runAll jobs schedule (s.store writer mode) :
        Run (Memory μ ℓ π ω) (List ArtifactDescriptor))
      (Schedule.runAll jobs schedule' (s.store writer' mode) :
        Run (Memory μ ℓ π ω') (List ArtifactDescriptor)) := by
  intro m m' n n' es es' as bs hpolicy hnaming hm hn
  have hstore : ∀ {ω : Type} {writer : Writer ω},
      (∀ call archive, (writer.add call archive).answer = .ok (answer call)) →
      ∀ (job : Job) (m : Memory μ ℓ π ω), (s.store writer mode job m).result =
        .ok (answer (.forFragment mode job.1 job.2)) := by
    intro ω writer hwriter job m
    obtain ⟨listener, es, hstored, -⟩ := s.store_apply writer mode job m rfl
    rw [hstored, hwriter]
    rfl
  have has := (Schedule.runAll_ok_iff (hstore hwriter)).mp (congrArg Outcome.result hm)
  have hbs := (Schedule.runAll_ok_iff (hstore hwriter')).mp (congrArg Outcome.result hn)
  have hm' := (s.only_storeAll writer mode jobs schedule).apply hm
  have hn' := (s.only_storeAll writer' mode jobs schedule').apply hn
  refine ⟨(List.map_inj_right fun _ _ ↦ Except.ok.inj).mp (has.symm.trans hbs), ?_, ?_⟩
  · rw [hm'.policy (by simp), hn'.policy (by simp), hpolicy]
  · rw [hm'.naming (by simp), hn'.naming (by simp), hnaming]

theorem parallels_concur (s : Serializer μ ℓ π) : s.Parallels s
    fun α (x : Run (Memory μ ℓ π ω) α) (y : Run (Memory μ ℓ π ω') α) ↦ Run.Concur x y where
  congruence := Run.congruence_concur
  modules := rfl
  first := rfl
  modify := Run.concur_modify s.modifier
  name := Run.concur_name s.assigner
  notice := Run.concur_notice

/-- Nothing that comes after the ordinary fragments has an influence on their variants. -/
theorem variants_eq_of_build (s : Serializer μ ℓ π)
    (hwriter : ∀ call archive, (writer.add call archive).answer = .ok (answer call))
    (hwriter' : ∀ call archive, (writer'.add call archive).answer = .ok (answer call))
    {timing timing' : Timing} {request : BuildRequest} {slices : List Fragment}
    {m : Memory μ ℓ π ω} {m' : Memory μ ℓ π ω'} {toc toc' : TableOfContents}
    (hpolicy : m.policy = m'.policy) (hnaming : m.naming = m'.naming)
    (hbuild : (s.build writer timing request m).result = .ok toc)
    (hbuild' : (s.build writer' timing' { request with assetSlices := slices } m').result =
      .ok toc') : toc.variants = toc'.variants := by
  obtain ⟨variants, m₁, es₁, sets, m₂, es₂, hfragments, -, rfl⟩ := phases_of_build hbuild
  obtain ⟨variants', n₁, es₁', sets', n₂, es₂', hfragments', -, rfl⟩ := phases_of_build hbuild'
  refine (s.parallels_concur.writeFragments writer writer' timing.fragments timing'.fragments rfl
    (fun filter _ ↦ s.parallels_concur.keeps_of_ask (Run.concur_ask s.matcher) filter)
    (fun jobs ↦ concur_runAll s hwriter hwriter' _ jobs _ _) request.fragments ?_ ?_ hfragments
    hfragments').1
  · exact hpolicy
  · exact congrArg s.assigner.restart hnaming

/-! ## What is told of the slices -/

theorem respects_heed {s : Serializer μ ℓ π} {verdict : Fragment → Device → Except Error Bool}
    (h : ∀ f device memory, (s.matcher.accepts f device memory).answer = verdict f device)
    (writer : Writer ω) : s.Respects writer fun (_ : Memory μ ℓ π ω) es _ ↦
      Event.Heed verdict es := by
  have hcomposes : Run.Composes fun (_ : Memory μ ℓ π ω) es _ ↦ Event.Heed verdict es :=
    ⟨fun _ _ _ _ hmem ↦ absurd hmem List.not_mem_nil, Event.Heed.append⟩
  -- whatever asks no questions heeds every verdict
  have hsilent : ∀ {kinds : List Event.Kind} {α : Type} {x : Run (Memory μ ℓ π ω) α},
      Run.Only kinds x → .question ∉ kinds →
        Run.Always (fun (_ : Memory μ ℓ π ω) es _ ↦ Event.Heed verdict es) x :=
    fun hx hkinds m ↦ .of_kind_ne fun e he hkind ↦ hkinds (hkind ▸ (hx m).kind_mem e he)
  exact {
    composes := hcomposes
    ask := fun f device m f' device' answer hmem ↦ by
      rcases List.mem_cons.mp hmem with heq | hmem
      · obtain ⟨rfl, rfl, rfl⟩ := Event.asked.inj heq
        exact h f' device' m.policy
      · cases Event.kind_of_mem_noticed hmem
    modify := fun manifest d m f device answer hmem ↦ by
      rcases List.mem_cons.mp hmem with heq | hmem
      · cases heq
      · cases Event.kind_of_mem_noticed hmem
    name := fun f ↦ hsilent (Run.only_name s.assigner f) (by simp)
    store := fun mode job ↦ hsilent (s.only_store writer mode job) (by simp)
    notice := fun n ↦ hsilent (Run.only_notice (by simp) n : Run.Only [.notice] _) (by simp) }

section

variable {s : Serializer μ ℓ Naming} {timing : Timing} {request : BuildRequest}
  {m : Memory μ ℓ Naming ω} {toc : TableOfContents}

theorem heed_slicePhase {verdict : Fragment → Device → Except Error Bool}
    (h : ∀ f device memory, (s.matcher.accepts f device memory).answer = verdict f device) :
    Event.Heed verdict (Event.questions (s.slicePhase writer timing request m).events) :=
  fun f device answer hmem ↦ (respects_heed h writer).writeSlices timing.assetSlices request.mode
    request.device request.assetSlices (s.fragmentPhase writer timing request m).memory f device
    answer (List.mem_filter.mp hmem).1

/-- Which slices are kept is settled by the matcher. Where it keeps to its answers, or is not asked,
the ordinary fragments have no part in that. -/
theorem TellsSlices.kept_eq_of_matcher {writer' : Writer ω'} {timing' : Timing}
    {fragments : List Fragment} {m' : Memory μ ℓ Naming ω'} {sets sets' : List AssetSliceSet}
    {b b' : SliceAccount}
    (h : s.TellsSlices timing.assetSlices request.assetSlices request.mode request.device
      (s.slicePhase writer timing request m).events sets b)
    (h' : s.TellsSlices timing'.assetSlices request.assetSlices request.mode request.device
      (s.slicePhase writer' timing' { request with fragments } m').events sets' b')
    (hmatcher : s.matcher.AnswersByQuestion ∨ request.device = none) : b.kept = b'.kept := by
  rcases hmatcher with hmatcher | hdevice
  · have hverdict : ∀ f device memory, (s.matcher.accepts f device memory).answer =
        (s.matcher.accepts f device m.policy).answer :=
      fun f device memory ↦ hmatcher f device memory m.policy
    have hfilter : b.filter = b'.filter := Except.ok.inj (h.filter_eq.symm.trans h'.filter_eq)
    have hkept := h.kept
    rw [hfilter] at hkept
    exact hkept.unique h'.kept (heed_slicePhase hverdict) (heed_slicePhase hverdict)
  · have hall : ∀ es, Fragment.survivors request.device.isSome request.assetSlices es =
        request.assetSlices := by
      rw [hdevice]
      exact fun _ ↦ rfl
    rw [h.kept_eq, hall]
    exact (h'.kept_eq.trans (hall _)).symm

/-- **What becomes of the slices.** They are named behind the forms of the ordinary fragments, and
each has the answer to the request for it under its name. -/
theorem exists_stored_slices (hassigner : s.assigner = Naming.standard)
    (hwriter : ∀ call archive, (writer.add call archive).answer = .ok (answer call))
    (hbuild : (s.build writer timing request m).result = .ok toc) :
    ∃ a b,
      s.Tells timing.fragments request.fragments request.mode request.device
        (s.fragmentPhase writer timing request m).events toc.variants a ∧
      s.TellsSlices timing.assetSlices request.assetSlices request.mode request.device
        (s.slicePhase writer timing request m).events toc.assetSliceSets b ∧
      b.stored = b.kept.map fun f ↦ ((f, Naming.sliceName a.distinct b.kept f),
        answer (.forFragment request.mode f (Naming.sliceName a.distinct b.kept f))) := by
  obtain ⟨variants, m₁, es₁, sets, m₂, es₂, hfragments, hslices, rfl⟩ := phases_of_build hbuild
  obtain ⟨a, ha⟩ := exists_tells hfragments
  obtain ⟨b, hb⟩ := exists_tellsSlices hslices
  have hreplays := replays_phases hfragments hslices
  rw [hfragments, hslices]
  refine ⟨a, b, ha, hb, ?_⟩
  -- the assigner has named the forms and then the slices
  have hrequests : (Event.namings (es₁ ++ es₂)).map (·.1) = a.distinct ++ b.kept := by
    rw [Event.namings_append, ha.namings, hb.namings, List.map_append, List.map_map, List.map_map]
    exact congrArg (· ++ b.kept) (List.map_id _)
  have hpaths := congrArg Prod.fst hreplays.naming
  rw [hrequests, hassigner] at hpaths
  have hnames := (Naming.paths_of_run m.naming (a.distinct ++ b.kept)).symm.trans hpaths
  change (a.distinct ++ b.kept).map (Naming.sliceName a.distinct b.kept) =
    (Event.namings (es₁ ++ es₂)).map (·.2) at hnames
  generalize Naming.sliceName a.distinct b.kept = name at hnames ⊢
  rw [Event.namings_append, ha.namings, hb.namings, List.map_append, List.map_append] at hnames
  obtain ⟨-, hnames⟩ := List.append_inj hnames (by simp only [List.length_map])
  rw [SliceAccount.kept, List.map_map, List.map_map, List.map_inj_left] at hnames
  rw [SliceAccount.kept, List.map_map]
  refine (List.map_id b.stored).symm.trans (List.map_congr_left fun p hp ↦ ?_)
  have hname : name p.1.1 = p.1.2 := hnames p hp
  have hmem : (.forFragment request.mode p.1.1 p.1.2, .ok p.2) ∈ Event.writes (es₁ ++ es₂) := by
    rw [Event.writes_append]
    exact List.mem_append_right _ (hb.mem_writes hp)
  have hanswer := hreplays.archive.eq_ok hwriter hmem
  rw [Function.comp_apply, hname, ← Except.ok.inj hanswer]
  rfl

end

section

variable {s : Serializer μ ℓ π} {schedule schedule' : (jobs : Nat) → Schedule jobs}
  {slices slices' : List Fragment} {mode mode' : BuildMode} {device device' : Option Device}
  {es es' : List Event} {sets sets' : List AssetSliceSet} {b b' : SliceAccount}

/-- The modules of the sets are settled by the slices that are kept. -/
private theorem modules_eq {modules modules' : List BundleModule}
    (hkept : b.kept = b'.kept)
    (hnames : modules.map (·.name) = (b.kept.map (·.module)).eraseDups)
    (hnames' : modules'.map (·.name) = (b'.kept.map (·.module)).eraseDups)
    (hmodules : ∀ module ∈ modules, s.bundle.module? module.name = some module)
    (hmodules' : ∀ module ∈ modules', s.bundle.module? module.name = some module) :
    modules = modules' := by
  have hfound : ∀ {modules : List BundleModule},
      (∀ module ∈ modules, s.bundle.module? module.name = some module) →
        modules.map some = (modules.map (·.name)).map s.bundle.module? := by
    intro modules h
    rw [List.map_map]
    exact List.map_congr_left fun module hmodule ↦ (h module hmodule).symm
  refine (List.map_inj_right fun _ _ ↦ Option.some.inj).mp ?_
  rw [hfound hmodules, hfound hmodules', hnames, hnames', hkept]

/-- Where the same slices are kept, there are sets for the same modules, of the same sizes. -/
theorem TellsSlices.map_metadata_eq (h : s.TellsSlices schedule slices mode device es sets b)
    (h' : s.TellsSlices schedule' slices' mode' device' es' sets' b') (hkept : b.kept = b'.kept) :
    sets.map (fun set ↦ (set.metadata, set.descriptors.length)) =
      sets'.map (fun set ↦ (set.metadata, set.descriptors.length)) := by
  obtain ⟨modules, hnames, hmodules, rfl⟩ := h.sets
  obtain ⟨modules', hnames', hmodules', rfl⟩ := h'.sets
  have hlength : ∀ (b : SliceAccount) (name : ModuleName),
      (b.descriptorsOf name).length = (b.kept.filter (·.module = name)).length := by
    intro b name
    rw [SliceAccount.descriptorsOf, SliceAccount.kept, List.length_map, List.filter_map,
      List.length_map]
    rfl
  obtain rfl := modules_eq hkept hnames hnames' hmodules hmodules'
  rw [List.map_map, List.map_map]
  refine List.map_congr_left fun module _ ↦ congrArg (Prod.mk _) ?_
  change (b.descriptorsOf _).length = (b'.descriptorsOf _).length
  rw [hlength, hlength, hkept]

/-- Where the same slices are stored with the same answers, the sets are the same. -/
theorem TellsSlices.sets_eq (h : s.TellsSlices schedule slices mode device es sets b)
    (h' : s.TellsSlices schedule' slices' mode' device' es' sets' b')
    (hstored : b.stored = b'.stored) : sets = sets' := by
  have hkept : b.kept = b'.kept := by rw [SliceAccount.kept, SliceAccount.kept, hstored]
  obtain ⟨modules, hnames, hmodules, rfl⟩ := h.sets
  obtain ⟨modules', hnames', hmodules', rfl⟩ := h'.sets
  obtain rfl := modules_eq hkept hnames hnames' hmodules hmodules'
  simp only [SliceAccount.descriptorsOf, hstored]

end

/-! ## The two pipelines -/

/-- No canonical form is a slice where no fragment is. -/
theorem Tells.filter_isSlice_eq_nil {s : Serializer μ ℓ π}
    {schedule : (jobs : Nat) → Schedule jobs} {fragments : List Fragment} {mode : BuildMode}
    {device : Option Device} {es : List Event} {variants : List Variant} {a : FragmentAccount}
    (h : s.Tells schedule fragments mode device es variants a)
    (hfragments : ∀ f ∈ fragments, f.category ≠ .assetSlice) :
    a.distinct.filter Fragment.isSlice = [] := by
  rw [List.filter_eq_nil_iff]
  intro c hc hslice
  obtain ⟨k, hk, hc⟩ := List.mem_flatMap.mp (List.mem_eraseDups.mp hc)
  obtain ⟨f, hf, manifest, rfl⟩ := (h.canonical k hk).exists_eq hc
  exact hfragments f (List.mem_filter.mp hf).1 (of_decide_eq_true hslice)

/-- **Nothing but names passes from one pipeline to the other.** Two builds are compared that both
succeed, with writers that never refuse anything and answer alike, by the request.

When the builds differ in their slices only, their variants are the same; this holds of all
collaborators, if they remember the same at the beginning.

When the builds differ in their ordinary fragments only, the same slices are kept, provided that the
matcher keeps to its answers or is not asked at all, and there are sets for the same modules with
equally many descriptors. With the standard names a slice is named after its rank behind the forms
of the ordinary fragments. So it has the same names in both builds exactly if it has the same ranks,
and when this holds of all slices the sets are the same. In particular it does when the slices among
the forms are the same in the same order, and therefore when there are none among the fragments. -/
theorem only_names_are_shared {answer : WriteCall → ArtifactDescriptor} {writer : Writer ω}
    {writer' : Writer ω'}
    (hwriter : ∀ call archive, (writer.add call archive).answer = .ok (answer call))
    (hwriter' : ∀ call archive, (writer'.add call archive).answer = .ok (answer call)) :
    (∀ (s : Serializer μ ℓ π) (timing timing' : Timing) (request : BuildRequest)
      (slices : List Fragment) (m : Memory μ ℓ π ω) (m' : Memory μ ℓ π ω')
      (toc toc' : TableOfContents), m.policy = m'.policy → m.naming = m'.naming →
      (s.build writer timing request m).result = .ok toc →
      (s.build writer' timing' { request with assetSlices := slices } m').result = .ok toc' →
        toc.variants = toc'.variants) ∧
    ∀ (s : Serializer μ ℓ Naming) (timing timing' : Timing) (request : BuildRequest)
      (fragments : List Fragment) (m : Memory μ ℓ Naming ω) (m' : Memory μ ℓ Naming ω')
      (toc toc' : TableOfContents), s.assigner = Naming.standard →
      (s.matcher.AnswersByQuestion ∨ request.device = none) →
      (s.build writer timing request m).result = .ok toc →
      (s.build writer' timing' { request with fragments } m').result = .ok toc' →
        ∃ a a' b b',
          s.Tells timing.fragments request.fragments request.mode request.device
            (s.fragmentPhase writer timing request m).events toc.variants a ∧
          s.Tells timing'.fragments fragments request.mode request.device
            (s.fragmentPhase writer' timing' { request with fragments } m').events toc'.variants
            a' ∧
          s.TellsSlices timing.assetSlices request.assetSlices request.mode request.device
            (s.slicePhase writer timing request m).events toc.assetSliceSets b ∧
          s.TellsSlices timing'.assetSlices request.assetSlices request.mode request.device
            (s.slicePhase writer' timing' { request with fragments } m').events
            toc'.assetSliceSets b' ∧
          b.kept = b'.kept ∧
          toc.assetSliceSets.map (fun set ↦ (set.metadata, set.descriptors.length)) =
            toc'.assetSliceSets.map (fun set ↦ (set.metadata, set.descriptors.length)) ∧
          b.stored.map (·.1) = b.kept.map (fun f ↦ (f, Naming.sliceName a.distinct b.kept f)) ∧
          b'.stored.map (·.1) = b.kept.map (fun f ↦ (f, Naming.sliceName a'.distinct b.kept f)) ∧
          (b.stored.map (·.1) = b'.stored.map (·.1) ↔ ∀ f ∈ b.kept,
            Naming.rank (a.distinct ++ b.kept) f = Naming.rank (a'.distinct ++ b.kept) f) ∧
          (b.stored.map (·.1) = b'.stored.map (·.1) →
            toc.assetSliceSets = toc'.assetSliceSets) ∧
          (a.distinct.filter Fragment.isSlice = a'.distinct.filter Fragment.isSlice →
            toc.assetSliceSets = toc'.assetSliceSets) ∧
          ((∀ f ∈ request.fragments ++ fragments, f.category ≠ .assetSlice) →
            toc.assetSliceSets = toc'.assetSliceSets) := by
  refine ⟨fun s timing timing' request slices m m' toc toc' hpolicy hnaming hbuild hbuild' ↦
    s.variants_eq_of_build hwriter hwriter' hpolicy hnaming hbuild hbuild', ?_⟩
  intro s timing timing' request fragments m m' toc toc' hassigner hmatcher hbuild hbuild'
  obtain ⟨a, b, ha, hb, hstored⟩ := exists_stored_slices hassigner hwriter hbuild
  obtain ⟨a', b', ha', hb', hstored'⟩ := exists_stored_slices hassigner hwriter' hbuild'
  have hkept : b.kept = b'.kept := hb.kept_eq_of_matcher hb' hmatcher
  rw [← hkept] at hstored'
  have hjobs : b.stored.map (·.1) =
      b.kept.map fun f ↦ (f, Naming.sliceName a.distinct b.kept f) := by
    rw [congrArg (List.map (·.1)) hstored, List.map_map]
    rfl
  have hjobs' : b'.stored.map (·.1) =
      b.kept.map fun f ↦ (f, Naming.sliceName a'.distinct b.kept f) := by
    rw [congrArg (List.map (·.1)) hstored', List.map_map]
    rfl
  have hranks : b.stored.map (·.1) = b'.stored.map (·.1) ↔ ∀ f ∈ b.kept,
      Naming.rank (a.distinct ++ b.kept) f = Naming.rank (a'.distinct ++ b.kept) f := by
    rw [hjobs, hjobs', List.map_inj_left]
    refine forall₂_congr fun f _ ↦ ?_
    rw [Prod.mk.injEq, and_iff_right rfl, Naming.sliceName, Naming.sliceName, Naming.pathFor_eq_iff]
  have hsets : b.stored.map (·.1) = b'.stored.map (·.1) →
      toc.assetSliceSets = toc'.assetSliceSets := by
    intro hsame
    refine hb.sets_eq hb' ?_
    rw [hstored, hstored']
    refine List.map_congr_left fun f hf ↦ ?_
    rw [Naming.sliceName, Naming.sliceName, hranks.mp hsame f hf]
  have hforms : a.distinct.filter Fragment.isSlice = a'.distinct.filter Fragment.isSlice →
      toc.assetSliceSets = toc'.assetSliceSets := by
    intro hforms
    exact hsets (hranks.mpr fun f hf ↦ Naming.rank_of_slices hb.kept.isSlice hforms hf)
  refine ⟨a, a', b, b', ha, ha', hb, hb', hkept, hb.map_metadata_eq hb' hkept, hjobs, hjobs',
    hranks, hsets, hforms, fun hnone ↦ hforms ?_⟩
  rw [ha.filter_isSlice_eq_nil fun f hf ↦ hnone f (List.mem_append_left _ hf),
    ha'.filter_isSlice_eq_nil fun f hf ↦ hnone f (List.mem_append_right _ hf)]

/-- A master split beside a slice does not touch it. -/
theorem slice_beside_split_keeps_its_set :
    let bundle : Bundle := { Bundle.ofPackage "p" with
      modules := [.independent .base .feature (.ofPackage "p")] }
    let slice := Fragment.untargeted .base .assetSlice (.ofPackage "p")
    let split := { Fragment.untargeted .base .split (.ofPackage "p") with isMaster := true }
    let request : BuildRequest := ⟨[], [slice], .default, none, default, []⟩
    let build (request : BuildRequest) := (plain bundle).build Writer.echo .inOrder request
      (⟨(), (), ∅, ()⟩ : Memory Unit Unit Naming Unit)
    ∃ toc toc', (build request).result = .ok toc ∧
      (build { request with fragments := [split] }).result = .ok toc' ∧
      toc.assetSliceSets = toc'.assetSliceSets ∧ toc.assetSliceSets ≠ [] := by
  intro bundle slice split request build
  obtain ⟨toc, htoc⟩ := Option.isSome_iff_exists.mp
    (show (build request).result.toOption.isSome = true by decide +kernel)
  obtain ⟨toc', htoc'⟩ := Option.isSome_iff_exists.mp
    (show (build { request with fragments := [split] }).result.toOption.isSome = true by
      decide +kernel)
  have hbuild := toOption_eq_some_iff.mp htoc
  have hbuild' := toOption_eq_some_iff.mp htoc'
  obtain ⟨-, hslices⟩ := @only_names_are_shared Unit Unit Unit Unit Unit _ Writer.echo Writer.echo
    (fun _ _ ↦ rfl) (fun _ _ ↦ rfl)
  obtain ⟨a, a', b, b', -, -, -, -, -, -, -, -, -, -, -, hsets⟩ := hslices (plain bundle) .inOrder
    .inOrder request [split] ⟨(), (), ∅, ()⟩ ⟨(), (), ∅, ()⟩ toc toc' rfl (.inr rfl) hbuild hbuild'
  refine ⟨toc, toc', hbuild, hbuild', hsets ?_, ?_⟩
  · intro f hf
    obtain rfl := List.mem_singleton.mp hf
    decide
  · have hlength : (build request).result.toOption.map (·.assetSliceSets.length) = some 1 := by
      decide +kernel
    rw [htoc] at hlength
    intro hnil
    simp [hnil] at hlength

private theorem exists_different_sets {x y : Except Error TableOfContents} (n n' : List String)
    (hx : (x.toOption.map fun toc ↦ toc.sliceArtifacts.map (·.path.text)) = some n)
    (hy : (y.toOption.map fun toc ↦ toc.sliceArtifacts.map (·.path.text)) = some n')
    (hne : n ≠ n') :
    ∃ toc toc', x = .ok toc ∧ y = .ok toc' ∧ toc.assetSliceSets ≠ toc'.assetSliceSets := by
  obtain ⟨toc, htoc, hn⟩ := Option.map_eq_some_iff.mp hx
  obtain ⟨toc', htoc', hn'⟩ := Option.map_eq_some_iff.mp hy
  refine ⟨toc, toc', toOption_eq_some_iff.mp htoc, toOption_eq_some_iff.mp htoc',
    fun hsets ↦ hne ?_⟩
  rw [← hn, ← hn', TableOfContents.sliceArtifacts, hsets, TableOfContents.sliceArtifacts]

/-- The ordinary fragments get into the way of a slice in three ways. One of them has the category
of a slice, and takes the name; this needs nothing but the standard names and no matcher. Or the
matcher, who accepts a single fragment, has accepted one already; or the assigner counts all that it
names. -/
theorem slices_meet_ordinary_fragments :
    let bundle : Bundle := { Bundle.ofPackage "p" with
      modules := [.independent .base .feature (.ofPackage "p")] }
    let slice := Fragment.untargeted .base .assetSlice (.ofPackage "p")
    let other := Fragment.untargeted .base .assetSlice (.ofPackage "q")
    let split := { Fragment.untargeted .base .split (.ofPackage "p") with isMaster := true }
    let once : Matcher Nat := ⟨fun _ _ asked ↦ .silent (.ok (asked = 0)) (asked + 1)⟩
    let counting : PathAssigner Nat := ⟨fun _ ↦ 0, fun _ n ↦ (⟨Decimal.ofNat n⟩, n + 1)⟩
    let request (device : Option Device) (fragments : List Fragment) : BuildRequest :=
      ⟨fragments, [slice], .default, device, default, []⟩
    let plainly (fragments : List Fragment) :=
      ((plain bundle).build Writer.echo .inOrder (request none fragments)
        (⟨(), (), ∅, ()⟩ : Memory Unit Unit Naming Unit)).result
    let sparingly (fragments : List Fragment) :=
      (Serializer.build ⟨bundle, ⟨0, false, 1⟩, once, .unchanged, .indifferent, Naming.standard⟩
        Writer.echo .inOrder (request (some default) fragments)
        (⟨0, (), ∅, ()⟩ : Memory Nat Unit Naming Unit)).result
    let counted (fragments : List Fragment) :=
      (Serializer.build ⟨bundle, ⟨0, false, 1⟩, .always, .unchanged, .indifferent, counting⟩
        Writer.echo .inOrder (request none fragments)
        (⟨(), (), 0, ()⟩ : Memory Unit Unit Nat Unit)).result
    let Differ (x y : Except Error TableOfContents) : Prop :=
      ∃ toc toc', x = .ok toc ∧ y = .ok toc' ∧ toc.assetSliceSets ≠ toc'.assetSliceSets
    Differ (plainly []) (plainly [other]) ∧ Differ (sparingly []) (sparingly [split]) ∧
      Differ (counted []) (counted [split]) := by
  intro bundle slice other split once counting request plainly sparingly counted Differ
  refine ⟨?_, ?_, ?_⟩
  · exact exists_different_sets ["asset-slices/base-config.apk"]
      ["asset-slices/base-config_2.apk"] (by decide +kernel) (by decide +kernel) (by decide)
  · exact exists_different_sets ["asset-slices/base-config.apk"] [] (by decide +kernel)
      (by decide +kernel) (by decide)
  · exact exists_different_sets ["0"] ["1"] (by decide +kernel) (by decide +kernel) (by decide)

end Serializer

end FragmentArchive
