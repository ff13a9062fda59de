import FragmentArchive.Proofs.Canonical
import FragmentArchive.Proofs.Filing
import FragmentArchive.Proofs.Numbering
import FragmentArchive.Proofs.Storing

/-!
# Writing ordinary fragments

Equal canonical forms are written once, and every place that such a form holds in the variants gets
the one answer of the writer. To say so for every writer, also one that answers differently when it
is asked again, what happened is told by an *account*: for each key the canonical forms of its
fragments, and for each canonical form its path and the answer to it. That the answer is a function
of the form alone is the point; it is the answer that was given in this run, and no other was.
-/

open Std

namespace FragmentArchive

/-! ## Accounts -/

/-- What there is to tell about writing fragments. -/
structure FragmentAccount where
  /-- The keys of the fragments. -/
  keys : List VariantKey
  filter : DeviceFilter
  number : VariantKey → UInt32
  /-- The questions that were asked about the fragments of a key. -/
  dialogue : VariantKey → List Event
  /-- The canonical forms of the fragments of a key that were kept. -/
  canonical : VariantKey → List Fragment
  path : Fragment → ArchivePath
  answer : Fragment → ArtifactDescriptor
  variant : VariantKey → Variant

namespace FragmentAccount

variable (a : FragmentAccount)

/-- The canonical forms of all keys. -/
def all : List Fragment := a.keys.flatMap a.canonical

/-- The canonical forms that are written, each at its first place. -/
def distinct : List Fragment := Fragment.distinct a.all

/-- The keys of which something was kept. -/
def kept : List VariantKey := a.keys.filter fun k ↦ !(a.canonical k).isEmpty

/-- The canonical forms that belong to a module in the variant of a key. -/
def slots (k : VariantKey) (m : ModuleName) : List Fragment :=
  (a.canonical k).filter (·.module = m)

end FragmentAccount

namespace Serializer

variable {μ ℓ π ω : Type}

/-- An account of writing fragments agrees with what happened and with what came of it. -/
structure Tells (s : Serializer μ ℓ π) (schedule : (jobs : Nat) → Schedule jobs)
    (fragments : List Fragment) (mode : BuildMode) (device : Option Device) (es : List Event)
    (variants : List Variant) (a : FragmentAccount) : Prop where
  sorted : a.keys.Pairwise (compare · · = .lt)
  mem_keys : ∀ k, k ∈ a.keys ↔ ∃ f ∈ fragments, f.key = k
  numbered : ∃ numbers, VariantKey.numbering a.keys s.options.firstVariantNumber = .ok numbers ∧
    ∀ k ∈ a.keys, numbers.get? k = some (a.number k)
  filter_eq : DeviceFilter.ordinary s.bundle.config.effectiveStrippings mode device = .ok a.filter
  canonical : ∀ k ∈ a.keys, Fragment.Canonical a.filter (a.number k)
    (fragments.filter (·.key = k)) (a.dialogue k) (a.canonical k)
  questions : Event.questions es = a.keys.flatMap a.dialogue
  namings : Event.namings es = a.distinct.map fun c ↦ (c, a.path c)
  writes : Event.writes es = ((schedule a.distinct.length).order a.distinct).map fun c ↦
    (.forFragment mode c (a.path c), .ok (a.answer c))
  variants : variants = a.kept.map a.variant
  variant : ∀ k ∈ a.kept, (a.variant k).number = a.number k ∧
    (a.variant k).targeting = k.targeting ∧
    (a.variant k).Lists s.bundle a.answer (a.canonical k)

variable {s : Serializer μ ℓ π} {writer : Writer ω} {schedule : (jobs : Nat) → Schedule jobs}
  {fragments : List Fragment} {mode : BuildMode} {device : Option Device} {variants : List Variant}
  {m m' : Memory μ ℓ π ω} {es : List Event}

/-- The stages of writing fragments. Each of them talks to collaborators of its own. -/
private theorem writeFragments_stages
    (h : s.writeFragments writer schedule fragments mode device m = ⟨.ok variants, m', es⟩) :
    ∃ filter numbers groups m₁ es₁, ∃ jobs : List Job, ∃ m₂ written es₂,
      DeviceFilter.ordinary s.bundle.config.effectiveStrippings mode device = .ok filter ∧
      VariantKey.numbering (Fragment.byVariant fragments).keys s.options.firstVariantNumber =
        .ok numbers ∧
      Fragment.canonicalGroups filter s.matcher s.modifier numbers
        (Fragment.byVariant fragments).toList m = ⟨.ok groups, m₁, es₁⟩ ∧
      jobs.map (·.1) = Fragment.distinct (groups.flatMap (·.2)) ∧
      Schedule.runAll jobs (schedule jobs.length) (s.store writer mode) m₂ =
        ⟨.ok written, m', es₂⟩ ∧
      groups.mapM (Variant.ofGroup s.bundle numbers ((jobs.map (·.1)).zip written)) =
        .ok variants ∧
      Event.questions es = Event.questions es₁ ∧ Event.namings es = jobs ∧
      Event.writes es = Event.writes es₂ := by
  obtain ⟨_, _, _, _, hcheck, h₁, rfl⟩ := Run.bind_ok_iff.mp h
  obtain ⟨-, rfl, rfl⟩ := Run.ofExcept_ok_iff.mp hcheck
  obtain ⟨filter, _, _, _, hordinary, h₂, rfl⟩ := Run.bind_ok_iff.mp h₁
  obtain ⟨hfilter, rfl, rfl⟩ := Run.ofExcept_ok_iff.mp hordinary
  obtain ⟨numbers, _, _, _, hnumbering, h₃, rfl⟩ := Run.bind_ok_iff.mp h₂
  obtain ⟨hnumbers, rfl, rfl⟩ := Run.ofExcept_ok_iff.mp hnumbering
  obtain ⟨groups, m₁, es₁, _, hgroups, h₄, rfl⟩ := Run.bind_ok_iff.mp h₃
  obtain ⟨_, _, _, _, hnotice, h₅, rfl⟩ := Run.bind_ok_iff.mp h₄
  obtain ⟨-, rfl, rfl⟩ := Outcome.mk.inj hnotice
  obtain ⟨jobs, _, _, _, hplan, h₆, rfl⟩ := Run.bind_ok_iff.mp h₅
  obtain ⟨hjobs, rfl, rfl⟩ := Outcome.mk.inj ((each_plan ..).symm.trans hplan)
  obtain ⟨written, _, es₂, _, hwritten, h₇, rfl⟩ := Run.bind_ok_iff.mp h₆
  obtain ⟨hvariants, rfl, rfl⟩ := Run.ofExcept_ok_iff.mp h₇
  have hstoring := s.only_storeAll writer mode jobs (schedule jobs.length)
  obtain rfl := Except.ok.inj hjobs
  have hasking := Fragment.only_canonicalGroups (ℓ := ℓ) (π := π) (ω := ω) filter s.matcher
    s.modifier numbers (Fragment.byVariant fragments).toList
  refine ⟨filter, numbers, groups, m₁, es₁, _, _, written, es₂, hfilter, hnumbers, hgroups,
    ?_, hwritten, hvariants, ?_, ?_, ?_⟩
  · exact List.map_fst_zip (Nat.le_of_eq (PathAssigner.length_paths _ _ _).symm)
  · simp only [List.nil_append, List.append_nil, Event.questions_append, questions_named,
      hstoring.questions_eq_nil (by simp) hwritten]
    exact List.append_nil _
  · simp only [List.nil_append, List.append_nil, Event.namings_append, namings_named,
      hstoring.namings_eq_nil (by simp) hwritten, hasking.namings_eq_nil (by simp) hgroups]
    rfl
  · simp only [List.nil_append, List.append_nil, Event.writes_append, writes_named,
      hasking.writes_eq_nil (by simp) hgroups]
    rfl

/-- **Writing fragments can be accounted for.** -/
theorem exists_tells
    (h : s.writeFragments writer schedule fragments mode device m = ⟨.ok variants, m', es⟩) :
    ∃ a, s.Tells schedule fragments mode device es variants a := by
  obtain ⟨filter, numbers, groups, m₁, es₁, jobs, m₂, written, es₂, hfilter, hnumbers, hgroups,
    hjobs, hwritten, hvariants, hasked, hnamed, hstored⟩ := writeFragments_stages h
  obtain ⟨dialogue, canonical, hquestions, hcanonical, rfl⟩ :=
    Fragment.canonicalGroups_byVariant_ok hgroups
  -- the forms are distinct, so their paths and the answers to them are functions of the form
  have hnodup : (jobs.map (·.1)).Nodup := by
    rw [hjobs]
    exact nodup_eraseDups _
  obtain ⟨path, hpath⟩ := exists_eq_map hnodup
  obtain ⟨answer, hanswer⟩ := exists_answer hnodup hwritten
  rw [List.mapM_map] at hvariants
  obtain ⟨variant, rfl, hvariant⟩ := exists_eq_map_of_mapM hvariants
  let a : FragmentAccount := ⟨(Fragment.byVariant fragments).keys, filter,
    fun k ↦ (numbers.get? k).getD 0, dialogue, canonical, path, answer, variant⟩
  -- keys of which nothing is kept contribute nothing to what is written
  have hall : (a.kept.map fun k ↦ (k, canonical k)).flatMap (·.2) = a.all := by
    rw [List.flatMap_map]
    exact flatMap_filter_isEmpty canonical a.keys
  have hdistinct : jobs.map (·.1) = a.distinct := by
    rw [hjobs]
    exact congrArg Fragment.distinct hall
  have hlength : jobs.length = a.distinct.length := by
    rw [← hdistinct, List.length_map]
  have hgroup : ∀ k ∈ a.keys, numbers.get? k = some (a.number k) ∧
      Fragment.Canonical filter (a.number k) (fragments.filter (·.key = k)) (dialogue k)
        (canonical k) := by
    intro k hk
    obtain ⟨number, hnumber, hforms⟩ := hcanonical k hk
    have heq : a.number k = number := by
      simp only [a, hnumber, Option.getD_some]
    exact ⟨by rw [heq, hnumber], heq ▸ hforms⟩
  have hwrites : Event.writes es₂ = ((schedule a.distinct.length).order a.distinct).map fun c ↦
      (.forFragment mode c (path c), .ok (answer c)) := by
    have hjobs' : jobs.zip written = a.distinct.map fun c ↦ ((c, path c), answer c) := by
      rw [hpath, hdistinct, List.zip_map_left, ← hdistinct, hanswer, hdistinct, List.map_map]
      rfl
    rw [writes_runAll hwritten, hjobs', hlength, Schedule.order_map, List.map_map]
    rfl
  refine ⟨a, ?_⟩
  exact {
    sorted := SortedMap.keys_pairwise _
    mem_keys := fun k ↦ Fragment.mem_keys_byVariant
    numbered := ⟨numbers, hnumbers, fun k hk ↦ (hgroup k hk).1⟩
    filter_eq := hfilter
    canonical := fun k hk ↦ (hgroup k hk).2
    questions := hasked.trans hquestions
    namings := by rw [hnamed, hpath, hdistinct]
    writes := hstored.trans hwrites
    variants := rfl
    variant := fun k hk ↦ by
      have hwritten : ∀ c ∈ canonical k,
          ((jobs.map (·.1)).zip written).lookup c = some (answer c) := by
        intro c hc
        rw [hanswer, hdistinct]
        refine lookup_map_of_mem answer (List.mem_eraseDups.mpr ?_)
        exact List.mem_flatMap.mpr ⟨k, (List.mem_filter.mp hk).1, hc⟩
      obtain ⟨hnumber, htargeting, hlists⟩ := Variant.ofGroup_ok hwritten (hvariant k hk)
      rw [(hgroup k (List.mem_filter.mp hk).1).1] at hnumber
      exact ⟨(Option.some.inj hnumber).symm, htargeting, hlists⟩ }

/-- Every canonical form was given to the writer, who answered it. -/
theorem Tells.mem_writes {a : FragmentAccount}
    (h : s.Tells schedule fragments mode device es variants a) {c : Fragment}
    (hc : c ∈ a.distinct) :
    (.forFragment mode c (a.path c), .ok (a.answer c)) ∈ Event.writes es := by
  rw [h.writes]
  exact List.mem_map_of_mem ((Schedule.order_perm _ _).mem_iff.mpr hc)

/-- The variants list nothing but what the writer answered. -/
theorem Tells.exists_call {a : FragmentAccount}
    (h : s.Tells schedule fragments mode device es variants a) {v : Variant} (hv : v ∈ variants)
    {d : ArtifactDescriptor} (hd : d ∈ v.descriptors) :
    ∃ call, (call, .ok d) ∈ Event.writes es := by
  rw [h.variants] at hv
  obtain ⟨k, hk, rfl⟩ := List.mem_map.mp hv
  obtain ⟨c, hc, rfl⟩ := List.mem_map.mp ((h.variant k hk).2.2.descriptors_perm.mem_iff.mp hd)
  refine ⟨_, h.mem_writes (List.mem_eraseDups.mpr ?_)⟩
  exact List.mem_flatMap.mpr ⟨k, (List.mem_filter.mp hk).1, hc⟩

/-- The variants list an artifact for every canonical form of every key. -/
theorem Tells.descriptors_perm {a : FragmentAccount}
    (h : s.Tells schedule fragments mode device es variants a) :
    (variants.flatMap (·.descriptors)).Perm
      (a.kept.flatMap fun k ↦ (a.canonical k).map a.answer) := by
  rw [h.variants, List.flatMap_map]
  exact flatMap_perm fun k hk ↦ (h.variant k hk).2.2.descriptors_perm

/-! ## Numbers -/

theorem Tells.mem_map_key {a : FragmentAccount}
    (h : s.Tells schedule fragments mode device es variants a) (k : VariantKey) :
    k ∈ a.keys ↔ k ∈ fragments.map (·.key) := by
  rw [h.mem_keys, List.mem_map]

/-- The keys are those of the fragments, in increasing order. -/
theorem Tells.keys_eq {a : FragmentAccount}
    (h : s.Tells schedule fragments mode device es variants a) :
    a.keys = VariantKey.ascending (fragments.map (·.key)) :=
  eq_of_pairwise_of_mem_iff (fun _ hk ↦ SortedMap.ne_of_compare_lt hk rfl)
    (fun _ _ ↦ OrientedCmp.not_lt_of_lt) h.sorted (VariantKey.ascending_pairwise _) fun k ↦
      (h.mem_map_key k).trans VariantKey.mem_ascending.symm

/-- The number of a key is its rank, counted from the first number on. -/
theorem Tells.toNat_number {a : FragmentAccount}
    (h : s.Tells schedule fragments mode device es variants a) {k : VariantKey} (hk : k ∈ a.keys) :
    (a.number k).toNat = s.options.firstVariantNumber.toNat +
      VariantKey.rank (fragments.map (·.key)) k := by
  obtain ⟨numbers, hnumbers, hget⟩ := h.numbered
  rw [((VariantKey.get?_numbering hnumbers).mp (hget k hk)).2, VariantKey.rank_congr h.mem_map_key]

theorem Tells.numbers_pairwise {a : FragmentAccount}
    (h : s.Tells schedule fragments mode device es variants a) :
    (variants.map (·.number)).Pairwise (· < ·) := by
  rw [h.variants, List.map_map, List.pairwise_map]
  refine (h.sorted.filter _).imp_of_mem fun {k k'} hk hk' hlt ↦ ?_
  have hkey := (List.mem_filter.mp hk).1
  have hkey' := (List.mem_filter.mp hk').1
  have hrank :=
    VariantKey.rank_lt_rank ((h.mem_map_key k).mp hkey) ((h.mem_map_key k').mp hkey') hlt
  change (a.variant k).number < (a.variant k').number
  rw [(h.variant k hk).1, (h.variant k' hk').1, UInt32.lt_iff_toNat_lt, h.toNat_number hkey,
    h.toNat_number hkey']
  omega

/-! ## Failures -/

variable (s writer schedule fragments mode device)

theorem only_writeFragments : Run.Only [.question, .notice, .naming, .write, .hearing]
    (s.writeFragments writer schedule fragments mode device :
      Run (Memory μ ℓ π ω) (List Variant)) := by
  refine (Run.only_ofExcept _).bind fun _ ↦ (Run.only_ofExcept _).bind fun filter ↦
    (Run.only_ofExcept _).bind fun numbers ↦ ?_
  refine ((Fragment.only_canonicalGroups _ _ _ _ _).mono (by simp)).bind fun groups ↦ ?_
  refine (Run.only_notice (by simp) _).bind fun _ ↦ ?_
  refine (Run.Only.each (fun f ↦ (s.only_plan f).mono (by simp)) _).bind fun jobs ↦ ?_
  refine ((s.only_storeAll writer mode _ _).mono (by simp)).bind ?_
  exact fun _ ↦ Run.only_ofExcept _

theorem writesInBatch_writeFragments :
    s.WritesInBatch writer mode (s.writeFragments writer schedule fragments mode device) := by
  refine .bind (Run.only_ofExcept _ : Run.Only [] _) (by simp) (by simp) fun _ ↦ ?_
  refine .bind (Run.only_ofExcept _ : Run.Only [] _) (by simp) (by simp) fun filter ↦ ?_
  refine .bind (Run.only_ofExcept _ : Run.Only [] _) (by simp) (by simp) fun numbers ↦ ?_
  refine .bind (Fragment.only_canonicalGroups _ _ _ _ _) (by simp) (by simp) fun groups ↦ ?_
  refine .bind (Run.only_notice (by simp) _ : Run.Only [.notice] _) (by simp) (by simp) fun _ ↦ ?_
  refine writesInBatch_of_plan (Run.Only.each s.only_plan _) (by simp) fun m jobs m' es h ↦ ?_
  rw [each_plan] at h
  obtain ⟨hjobs, -, rfl⟩ := Outcome.mk.inj h
  rw [namings_named, Except.ok.inj hjobs]

/-- However writing fragments ends, the writer was not given any fragment twice. -/
theorem nodup_writes_writeFragments (m : Memory μ ℓ π ω) :
    ((Event.writes (s.writeFragments writer schedule fragments mode device m).events).map
      (·.1.fragment)).Nodup := by
  -- what is named are different fragments, and the batch asks for each of them at most once
  have hbatch : ∀ (groups : List (VariantKey × List Fragment)) (jobs : List Job)
      (numbers : SortedMap VariantKey UInt32) (m : Memory μ ℓ π ω),
      (jobs.map (·.1)).Nodup → ((Event.writes ((do
        let written ← Schedule.runAll jobs (schedule jobs.length) (s.store writer mode)
        Run.ofExcept (groups.mapM (Variant.ofGroup s.bundle numbers
          ((jobs.map (·.1)).zip written))) : Run (Memory μ ℓ π ω) (List Variant)) m).events).map
            (·.1.fragment)).Nodup := by
    intro groups jobs numbers m hjobs
    rcases hrun : Schedule.runAll jobs (schedule jobs.length) (s.store writer mode) m with
      ⟨r, m', es⟩
    have hnodup : ((Event.writes es).map (·.1.fragment)).Nodup := by
      have hcalls := (calls_runAll hrun).sublist.map WriteCall.fragment
      rw [List.map_map, List.map_map] at hcalls
      refine List.Nodup.sublist hcalls ?_
      have hfragments : WriteCall.fragment ∘ (fun job : Job ↦ .forFragment mode job.1 job.2) =
          fun job ↦ job.1 := funext fun job ↦ WriteCall.fragment_forFragment mode job.1 job.2
      rw [hfragments]
      exact ((Schedule.order_perm jobs _).map (·.1)).nodup_iff.mpr hjobs
    rcases r with e | written
    · rwa [Run.bind_of_error hrun]
    · rw [Run.bind_of_ok hrun]
      change ((Event.writes (es ++ [])).map _).Nodup
      rwa [List.append_nil]
  have hsilent : ∀ {α : Type} (r : Except Error α),
      Run.Only [] (Run.ofExcept r : Run (Memory μ ℓ π ω) α) := fun r ↦ Run.only_ofExcept r
  let P (ws : List (WriteCall × Except Error ArtifactDescriptor)) : Prop :=
    (ws.map (·.1.fragment)).Nodup
  have hnil : P [] := List.Pairwise.nil
  refine (hsilent _).writes_bind (P := P) (by simp) hnil (fun _ ↦ ?_) m
  refine (hsilent _).writes_bind (P := P) (by simp) hnil fun filter ↦ ?_
  refine (hsilent _).writes_bind (P := P) (by simp) hnil fun numbers ↦ ?_
  refine (Fragment.only_canonicalGroups _ _ _ _ _).writes_bind (P := P) (by simp) hnil
    fun groups ↦ ?_
  refine (Run.only_notice (by simp) _ : Run.Only [.notice] _).writes_bind (P := P) (by simp) hnil
    fun _ m₁ ↦ ?_
  rw [Run.bind_of_ok (s.each_plan _ m₁), Event.writes_append, writes_named, List.nil_append]
  refine hbatch groups _ numbers _ ?_
  rw [List.map_fst_zip (Nat.le_of_eq (PathAssigner.length_paths _ _ _).symm)]
  exact nodup_eraseDups _

variable {s writer schedule fragments mode device}

/-! ## Once and everywhere -/

/-- **Each canonical form is written once, and its artifact stands in every slot of the form.** The
schedule decides about the order of writing only: a single worker writes the forms in the order in
which they first occur, which is the order in which they are named and handed out in any case. -/
theorem writes_each_form_once
    (h : (s.writeFragments writer schedule fragments mode device m).result = .ok variants) :
    ∃ a, s.Tells schedule fragments mode device
        (s.writeFragments writer schedule fragments mode device m).events variants a ∧
      a.distinct.Nodup ∧ (∀ c, c ∈ a.distinct ↔ ∃ k ∈ a.keys, c ∈ a.canonical k) ∧
      ((schedule a.distinct.length).order a.distinct).Perm a.distinct ∧
      (schedule = Schedule.inOrder → (schedule a.distinct.length).order a.distinct = a.distinct) ∧
      (∀ k ∈ a.kept, (∀ name, (a.variant k).descriptorsOf name = (a.slots k name).map a.answer) ∧
        (a.variant k).descriptors.length = (a.canonical k).length) ∧
      ∀ k ∈ a.kept, ∀ k' ∈ a.kept, ∀ (name name' : ModuleName) (i j : Nat) (c : Fragment),
        (a.slots k name)[i]? = some c → (a.slots k' name')[j]? = some c →
          ((a.variant k).descriptorsOf name)[i]? = ((a.variant k').descriptorsOf name')[j]? := by
  rcases hrun : s.writeFragments writer schedule fragments mode device m with ⟨r, m', es⟩
  rw [hrun] at h
  obtain rfl : r = .ok variants := h
  obtain ⟨a, ha⟩ := exists_tells hrun
  have hlisted : ∀ k ∈ a.kept, ∀ name,
      (a.variant k).descriptorsOf name = (a.slots k name).map a.answer :=
    fun k hk name ↦ (ha.variant k hk).2.2.descriptorsOf_eq name
  refine ⟨a, ha, nodup_eraseDups _, fun c ↦ ?_, Schedule.order_perm _ _, ?_, fun k hk ↦ ?_, ?_⟩
  · exact List.mem_eraseDups.trans List.mem_flatMap
  · rintro rfl
    exact Schedule.order_inOrder _
  · refine ⟨hlisted k hk, ?_⟩
    rw [(ha.variant k hk).2.2.descriptors_perm.length_eq, List.length_map]
  · intro k hk k' hk' name name' i j c hi hj
    rw [hlisted k hk, hlisted k' hk', List.getElem?_map, List.getElem?_map, hi, hj]

/-- A master split of two variants is written once. -/
theorem master_of_two_variants_is_written_once :
    let f : Fragment := { Fragment.untargeted .base .split (.ofPackage "p") with isMaster := true }
    let s := plain { Bundle.ofPackage "p" with
      modules := [.independent .base .feature (.ofPackage "p")] }
    let out := s.writeFragments Writer.echo Schedule.inOrder
      [{ f with variantTargeting := .sdk 21 }, { f with variantTargeting := .sdk 24 }] .default none
      ⟨(), (), ∅, ()⟩
    ∃ variants, out.result = .ok variants ∧ variants.length = 2 ∧
      (Event.writes out.events).length = 1 ∧
      ∃ a, s.Tells Schedule.inOrder
        [{ f with variantTargeting := .sdk 21 }, { f with variantTargeting := .sdk 24 }] .default
        none out.events variants a := by
  intro f s out
  obtain ⟨variants, h⟩ : ∃ variants, out.result = .ok variants := ⟨_, rfl⟩
  obtain ⟨a, ha, -⟩ := writes_each_form_once h
  refine ⟨variants, h, ?_, by decide +kernel, a, ha⟩
  have hlength : out.result.toOption.map List.length = some 2 := by decide +kernel
  rw [h] at hlength
  exact Option.some.inj hlength

end Serializer

end FragmentArchive
