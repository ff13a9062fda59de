import FragmentArchive.Proofs.Admission
import FragmentArchive.Proofs.Deduplication
import FragmentArchive.Proofs.DefaultTier
import FragmentArchive.Proofs.Examination

/-!
# Before the first artifact

Writing ordinary fragments is *prepared* before it begins, and everything that can be wrong with a
request, except for a missing module, is found out on the way. First the request is looked at as it
stands: the categories, the default tier, the range of numbers, in this order. Nobody is asked about
anything meanwhile, so a fault leaves no trace. Then the fragments are examined, which talks to
matcher and modifier, but not to those who name and store.

So the events of a run come in two parts, the first of which holds all questions, and the second
everything that is named or written. A run that gets to the second part has been through the whole
of the first.
-/

namespace FragmentArchive

/-- There is a fragment of a category that the mode rules out. -/
def BuildMode.Forbids (mode : BuildMode) (fragments : List Fragment) : Prop :=
  ∃ f ∈ fragments, f.category ∈ mode.forbidden

theorem BuildMode.check_eq_ok_iff_not_forbids {mode : BuildMode} {fragments : List Fragment} :
    mode.check fragments = .ok () ↔ ¬mode.Forbids fragments := by
  rw [check_eq_ok_iff, Forbids]
  exact ⟨fun h ⟨f, hf, hmem⟩ ↦ h f hf hmem, fun h f hf hmem ↦ h ⟨f, hf, hmem⟩⟩

namespace Serializer

variable {μ ℓ π ω : Type}

/-! ## The request as it stands -/

/-- Ordinary fragments are filtered for a device that misses a tier. -/
def Untiered (s : Serializer μ ℓ π) (mode : BuildMode) (device : Option Device) (e : Error) :
    Prop :=
  mode ≠ .system ∧ ∃ d, device = some d ∧ d.MissesTier s.bundle.config.effectiveStrippings e

/-- There are more variants than numbers. -/
def Overflows (s : Serializer μ ℓ π) (fragments : List Fragment) : Prop :=
  VariantKey.largestNumber <
    s.options.firstVariantNumber.toNat + (fragments.map (·.key)).eraseDups.length

/-- What is settled about a request before anybody is asked: how its fragments are filtered and how
its variants are numbered. -/
def settle (s : Serializer μ ℓ π) (fragments : List Fragment) (mode : BuildMode)
    (device : Option Device) : Except Error (DeviceFilter × SortedMap VariantKey UInt32) := do
  mode.check fragments
  let filter ← DeviceFilter.ordinary s.bundle.config.effectiveStrippings mode device
  let numbers ← VariantKey.numbering (Fragment.byVariant fragments).keys
    s.options.firstVariantNumber
  return (filter, numbers)

variable {s : Serializer μ ℓ π} {writer : Writer ω} {schedule : (jobs : Nat) → Schedule jobs}
  {fragments : List Fragment} {mode : BuildMode} {device : Option Device} {m : Memory μ ℓ π ω}

theorem numbering_byVariant (fragments : List Fragment) (first : UInt32) :
    VariantKey.numbering (Fragment.byVariant fragments).keys first =
      VariantKey.numbering (fragments.map (·.key)) first :=
  VariantKey.numbering_congr fun k ↦ by rw [Fragment.mem_keys_byVariant, List.mem_map]

variable (s device) in
theorem settle_of_forbids (h : mode.Forbids fragments) :
    ∃ category, mode.forbidden.find? (Fragment.anyOf · fragments) = some category ∧
      s.settle fragments mode device = .error (.internal (.forbidden mode category)) := by
  cases hcheck : mode.check fragments with
  | ok _ => exact absurd h (BuildMode.check_eq_ok_iff_not_forbids.mp hcheck)
  | error e =>
    obtain ⟨category, hfind, rfl⟩ := BuildMode.check_eq_error_iff.mp hcheck
    exact ⟨category, hfind, bind_eq_error_iff.mpr (.inl hcheck)⟩

theorem settle_of_untiered {e : Error} (hmode : ¬mode.Forbids fragments)
    (h : s.Untiered mode device e) : s.settle fragments mode device = .error e :=
  bind_eq_error_iff.mpr (.inr ⟨(), BuildMode.check_eq_ok_iff_not_forbids.mpr hmode,
    bind_eq_error_iff.mpr (.inl (DeviceFilter.ordinary_eq_error_iff.mpr h))⟩)

/-- Outside of the two faults before it, the numbers decide. -/
theorem settle_of_tiered (hmode : ¬mode.Forbids fragments)
    (htier : ∀ e, ¬s.Untiered mode device e) :
    ∃ filter, DeviceFilter.ordinary s.bundle.config.effectiveStrippings mode device = .ok filter ∧
      s.settle fragments mode device = (VariantKey.numbering (fragments.map (·.key))
        s.options.firstVariantNumber).map fun numbers ↦ (filter, numbers) := by
  cases hfilter : DeviceFilter.ordinary s.bundle.config.effectiveStrippings mode device with
  | error e => exact absurd (DeviceFilter.ordinary_eq_error_iff.mp hfilter) (htier e)
  | ok filter =>
    refine ⟨filter, rfl, ?_⟩
    rw [settle, BuildMode.check_eq_ok_iff_not_forbids.mpr hmode, hfilter, numbering_byVariant]
    rfl

/-- A request for which this is settled has none of the faults. -/
theorem faultless_of_settle {p : DeviceFilter × SortedMap VariantKey UInt32}
    (h : s.settle fragments mode device = .ok p) :
    ¬mode.Forbids fragments ∧ (∀ e, ¬s.Untiered mode device e) ∧ ¬s.Overflows fragments ∧
      DeviceFilter.ordinary s.bundle.config.effectiveStrippings mode device = .ok p.1 ∧
      VariantKey.numbering (fragments.map (·.key)) s.options.firstVariantNumber = .ok p.2 := by
  have hmode : ¬mode.Forbids fragments := by
    intro hforbids
    obtain ⟨category, -, herror⟩ := s.settle_of_forbids device hforbids
    cases h.symm.trans herror
  have htier : ∀ e, ¬s.Untiered mode device e := fun e he ↦ by
    cases h.symm.trans (settle_of_untiered hmode he)
  obtain ⟨filter, hfilter, hsettle⟩ := settle_of_tiered hmode htier
  obtain ⟨numbers, hnumbers, rfl⟩ := map_eq_ok_iff.mp (hsettle.symm.trans h)
  refine ⟨hmode, htier, fun hlt ↦ ?_, hfilter, hnumbers⟩
  cases (VariantKey.numbering_of_lt hlt).symm.trans hnumbers

/-! ## The run -/

theorem prepare_eq (s : Serializer μ ℓ π) (fragments : List Fragment) (mode : BuildMode)
    (device : Option Device) :
    (s.prepare fragments mode device : Run (Memory μ ℓ π ω) _) =
      Run.ofExcept (s.settle fragments mode device) >>= fun p ↦ do
        let canonical ← Fragment.canonicalGroups p.1 s.matcher s.modifier p.2
          (Fragment.byVariant fragments).toList
        return (p.2, canonical) := by
  have hbind : ∀ {α β : Type} (x : Except Error α) (f : α → Except Error β),
      (Run.ofExcept (x >>= f) : Run (Memory μ ℓ π ω) β) =
        Run.ofExcept x >>= fun a ↦ Run.ofExcept (f a) := by
    intro α β x f
    cases x <;> rfl
  have hpure : ∀ {α : Type} (a : α),
      (Run.ofExcept (pure a) : Run (Memory μ ℓ π ω) α) = pure a := fun _ ↦ rfl
  simp only [prepare, settle, hbind, hpure, bind_assoc, pure_bind]

theorem only_writeDistinct (s : Serializer μ ℓ π) (writer : Writer ω)
    (schedule : (jobs : Nat) → Schedule jobs) (mode : BuildMode)
    (numbers : SortedMap VariantKey UInt32) (canonical : List (VariantKey × List Fragment)) :
    Run.Only [.notice, .naming, .write, .hearing]
      (s.writeDistinct writer schedule mode numbers canonical :
        Run (Memory μ ℓ π ω) (List Variant)) := by
  refine (Run.only_notice (by simp) _).bind fun _ ↦ ?_
  refine (Run.Only.each (fun f ↦ (s.only_plan f).mono (by simp)) _).bind fun jobs ↦ ?_
  exact ((s.only_storeAll writer mode _ _).mono (by simp)).bind fun _ ↦ Run.only_ofExcept _

/-- A request with a fault ends the run before it has begun. -/
theorem writeFragments_of_unsettled {e : Error} (h : s.settle fragments mode device = .error e) :
    s.writeFragments writer schedule fragments mode device m = ⟨.error e, m, []⟩ := by
  have hsettle : Run.ofExcept (s.settle fragments mode device) m = ⟨.error e, m, []⟩ :=
    Run.ofExcept_error_iff.mpr ⟨h, rfl, rfl⟩
  rw [writeFragments_eq, prepare_eq]
  exact Run.bind_of_error (Run.bind_of_error hsettle)

variable (writer schedule m) in
/-- In the other case the fragments are examined. If that fails, nothing has been named or written,
and otherwise nothing is asked any more. -/
theorem writeFragments_of_settled {filter : DeviceFilter} {numbers : SortedMap VariantKey UInt32}
    (h : s.settle fragments mode device = .ok (filter, numbers)) :
    let out := s.writeFragments writer schedule fragments mode device m
    ∃ before behind forms failure, out.events = before ++ behind ∧
      Fragment.Examined filter numbers (Fragment.visits (Fragment.byVariant fragments).toList)
        (Event.questions before) forms failure ∧
      Event.writes before = [] ∧ Event.namings before = [] ∧ Event.questions behind = [] ∧
      ∀ e, failure = some e →
        out.result = .error e ∧ out.memory.naming = m.naming ∧ behind = [] := by
  intro out
  have hsettle : Run.ofExcept (s.settle fragments mode device) m = ⟨.ok (filter, numbers), m, []⟩ :=
    Run.ofExcept_ok_iff.mpr ⟨h, rfl, rfl⟩
  have hnumbered : ∀ g ∈ (Fragment.byVariant fragments).toList,
      ∃ number, numbers.get? g.1 = some number := by
    intro g hg
    obtain ⟨-, -, -, -, hnumbers⟩ := faultless_of_settle h
    rw [← numbering_byVariant] at hnumbers
    exact VariantKey.exists_number hnumbers (List.mem_map_of_mem hg)
  rcases hgroups : Fragment.canonicalGroups filter s.matcher s.modifier numbers
    (Fragment.byVariant fragments).toList m with ⟨r, m₁, es₁⟩
  obtain ⟨forms, failure, hexamined, rfl⟩ := Fragment.examined_canonicalGroups
    (Fragment.byVariant fragments).keys_nodup hnumbered hgroups
  have honly := Fragment.only_canonicalGroups (ℓ := ℓ) (π := π) (ω := ω) filter s.matcher s.modifier
    numbers (Fragment.byVariant fragments).toList
  have hwrites := honly.writes_eq_nil (by simp) hgroups
  have hnamings := honly.namings_eq_nil (by simp) hgroups
  cases failure with
  | some e =>
    have hprepare : s.prepare fragments mode device m = ⟨.error e, m₁, es₁⟩ := by
      rw [prepare_eq, Run.bind_of_ok hsettle, Run.bind_of_error hgroups]
      rfl
    have hout : out = ⟨.error e, m₁, es₁⟩ := by
      change s.writeFragments writer schedule fragments mode device m = _
      rw [writeFragments_eq, Run.bind_of_error hprepare]
    refine ⟨es₁, [], forms, some e, ?_, hexamined, hwrites, hnamings, rfl, fun e' he' ↦ ?_⟩
    · rw [hout, List.append_nil]
    · obtain rfl := Option.some.inj he'
      rw [hout]
      exact ⟨rfl, (Run.Always.apply honly hgroups).naming (by simp), rfl⟩
  | none =>
    let canonical := Fragment.formsByKey ((Fragment.byVariant fragments).toList.map (·.1)) forms
    have hprepare : s.prepare fragments mode device m = ⟨.ok (numbers, canonical), m₁, es₁⟩ := by
      rw [prepare_eq, Run.bind_of_ok hsettle, Run.bind_of_ok hgroups, Run.pure_apply,
        List.append_nil]
      rfl
    let behind := s.writeDistinct writer schedule mode numbers canonical m₁
    have hout : out.events = es₁ ++ behind.events := by
      change (s.writeFragments writer schedule fragments mode device m).events = _
      rw [writeFragments_eq, Run.bind_of_ok hprepare]
    refine ⟨es₁, behind.events, forms, none, hout, hexamined, hwrites, hnamings, ?_, nofun⟩
    exact (s.only_writeDistinct writer schedule mode numbers _).questions_eq_nil (by simp) rfl

/-- **What is wrong with a request shows before anything is done.**

A category that is ruled out is reported first, then a default tier that cannot be read, then a lack
of numbers, and each of them before anybody is asked about anything. After that, the run fails with
the first answer that is refused, and nobody who names or stores has been turned to.

The other way round, when anything was written, or when the run succeeds, nothing of this is the
case, and the events come in two parts: in the first one all fragments are examined to the end, and
nothing is written; in the second one nothing is asked. -/
theorem faults_show_before_writing (s : Serializer μ ℓ π) (writer : Writer ω)
    (schedule : (jobs : Nat) → Schedule jobs) (fragments : List Fragment) (mode : BuildMode)
    (device : Option Device) (m : Memory μ ℓ π ω) :
    let out := s.writeFragments writer schedule fragments mode device m
    (mode.Forbids fragments → ∃ category,
      mode.forbidden.find? (Fragment.anyOf · fragments) = some category ∧
        out = ⟨.error (.internal (.forbidden mode category)), m, []⟩) ∧
    (¬mode.Forbids fragments → ∀ e, s.Untiered mode device e → out = ⟨.error e, m, []⟩) ∧
    (¬mode.Forbids fragments → (∀ e, ¬s.Untiered mode device e) → s.Overflows fragments →
      out = ⟨.error (.configuration (.numberRange (fragments.map (·.key)).eraseDups.length
        s.options.firstVariantNumber)), m, []⟩) ∧
    (∀ e, Event.Refused e out.events → out.result = .error e ∧ Event.writes out.events = [] ∧
      Event.namings out.events = [] ∧ out.memory.naming = m.naming) ∧
    ((∃ variants, out.result = .ok variants) ∨ Event.writes out.events ≠ [] →
      ¬mode.Forbids fragments ∧ (∀ e, ¬s.Untiered mode device e) ∧ ¬s.Overflows fragments ∧
      (∀ e, ¬Event.Refused e out.events) ∧
      ∃ filter numbers before behind forms, out.events = before ++ behind ∧
        Event.writes before = [] ∧ Event.questions behind = [] ∧
        DeviceFilter.ordinary s.bundle.config.effectiveStrippings mode device = .ok filter ∧
        VariantKey.numbering (fragments.map (·.key)) s.options.firstVariantNumber = .ok numbers ∧
        ((Fragment.visits (Fragment.byVariant fragments).toList).map (·.2)).Perm fragments ∧
        Fragment.Examined filter numbers (Fragment.visits (Fragment.byVariant fragments).toList)
          (Event.questions before) forms none) := by
  intro out
  have hrejected : ∀ e, s.settle fragments mode device = .error e → out = ⟨.error e, m, []⟩ :=
    fun e ↦ writeFragments_of_unsettled
  refine ⟨fun hforbids ↦ ?_, fun hmode e htier ↦ ?_, fun hmode htier hoverflows ↦ ?_, ?_⟩
  · obtain ⟨category, hfind, herror⟩ := s.settle_of_forbids device hforbids
    exact ⟨category, hfind, hrejected _ herror⟩
  · exact hrejected e (settle_of_untiered hmode htier)
  · obtain ⟨filter, -, hsettle⟩ := settle_of_tiered hmode htier
    rw [VariantKey.numbering_of_lt hoverflows] at hsettle
    exact hrejected _ hsettle
  cases hsettle : s.settle fragments mode device with
  | error e =>
    rw [hrejected e hsettle]
    refine ⟨fun e he ↦ absurd he Event.not_refused_nil, ?_⟩
    rintro (⟨variants, h⟩ | h)
    · cases h
    · exact absurd rfl h
  | ok p =>
    obtain ⟨filter, numbers⟩ := p
    obtain ⟨hmode, htier, hrange, hfilter, hnumbers⟩ := faultless_of_settle hsettle
    obtain ⟨before, behind, forms, failure, hevents, hexamined, hwrites, hnamings, hquiet,
      hfails⟩ := writeFragments_of_settled writer schedule m hsettle
    have hrefused : ∀ e, Event.Refused e out.events ↔ failure = some e := by
      intro e
      rw [← Event.refused_questions, hevents, Event.questions_append, hquiet, List.append_nil]
      exact hexamined.refused_iff
    refine ⟨fun e he ↦ ?_, fun hdone ↦ ?_⟩
    · obtain ⟨hresult, hnaming, rfl⟩ := hfails e ((hrefused e).mp he)
      rw [List.append_nil] at hevents
      exact ⟨hresult, (congrArg _ hevents).trans hwrites, (congrArg _ hevents).trans hnamings,
        hnaming⟩
    · have hend : failure = none := by
        cases failure with
        | none => rfl
        | some e =>
          obtain ⟨hresult, -, rfl⟩ := hfails e rfl
          rw [List.append_nil] at hevents
          rcases hdone with ⟨variants, hok⟩ | hwritten
          · cases hok.symm.trans hresult
          · exact absurd ((congrArg _ hevents).trans hwrites) hwritten
      subst hend
      refine ⟨hmode, htier, hrange, fun e he ↦ ?_, filter, numbers, before, behind, forms, hevents,
        hwrites, hquiet, hfilter, hnumbers, Fragment.visits_byVariant_perm fragments, hexamined⟩
      cases (hrefused e).mp he

/-- Of three faults the first one is reported: a split in universal mode, a default tier that is no
numeral, and no number left for the variant. -/
theorem split_is_reported_before_tier_and_numbers :
    let f : Fragment := .untargeted .base .split (.ofPackage "p")
    let s := { plain { Bundle.ofPackage "p" with
        config := ⟨[⟨.deviceTier, false, some ⟨true, "low"⟩⟩], none⟩ } with
      options := ⟨.ofNat VariantKey.largestNumber, false, 1⟩ }
    let m : Memory Unit Unit Naming Unit := ⟨(), (), ∅, ()⟩
    BuildMode.universal.Forbids [f] ∧
      s.Untiered .universal (some default) (.configuration (.deviceTier "low" .invalidDigit)) ∧
      s.Overflows [f] ∧
      s.writeFragments Writer.echo Schedule.inOrder [f] .universal (some default) m =
        ⟨.error (.internal (.forbidden .universal .split)), m, []⟩ := by
  intro f s m
  have hforbids : BuildMode.universal.Forbids [f] := ⟨f, List.mem_cons_self, by decide⟩
  have htier : s.Untiered .universal (some default)
      (.configuration (.deviceTier "low" .invalidDigit)) :=
    ⟨by decide, default, rfl, rfl, ⟨true, "low"⟩, .invalidDigit, rfl, rfl, rfl⟩
  have hrange : s.Overflows [f] := by
    rw [Overflows]
    decide
  obtain ⟨hmode, -⟩ :=
    faults_show_before_writing s Writer.echo Schedule.inOrder [f] .universal (some default) m
  obtain ⟨category, hfind, hout⟩ := hmode hforbids
  obtain rfl : Category.split = category := Option.some.inj hfind
  exact ⟨hforbids, htier, hrange, hout⟩

end Serializer

end FragmentArchive
