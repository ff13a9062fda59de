import FragmentArchive.Proofs.CommitPoint
import FragmentArchive.Proofs.Numbering

/-!
# The numbers in a table of contents

A variant of a table carries the rank of its key among all keys of the input, counted from the first
number on; that fragments are dropped leaves gaps and moves nothing.

The number of a variant is told to the modifier, and goes to the table. If the modifier does not
look at it, another first number can therefore not be noticed before the table is handed over. To
say so, a run is compared with the same run from another first number: they are one run, told with
other numbers. The comparison is an equation between runs, so it goes through a composed run part by
part, and most parts tell nothing of numbers at all.
-/

namespace FragmentArchive

/-! ## Shifted numbers -/

/-- What is told to the modifier, with another number. -/
def Event.shift (δ : UInt32) : Event → Event
  | .modified manifest d answer =>
    .modified manifest { d with variantNumber := d.variantNumber + δ } answer
  | e => e

/-- The variant with another number. -/
def Variant.shift (δ : UInt32) (v : Variant) : Variant := { v with number := v.number + δ }

/-- The table with other numbers of its variants. -/
def TableOfContents.shift (δ : UInt32) (toc : TableOfContents) : TableOfContents :=
  { toc with variants := toc.variants.map (.shift δ) }

/-- The modifier answers the same whatever the number is. -/
def Modifier.IgnoresNumber {μ : Type} (modifier : Modifier μ) : Prop :=
  ∀ manifest d number memory, modifier.modify manifest { d with variantNumber := number } memory =
    modifier.modify manifest d memory

theorem Event.shift_of_kind_ne {e : Event} (δ : UInt32) (h : e.kind ≠ .question) :
    e.shift δ = e := by
  cases e with
  | modified manifest d answer => exact absurd rfl h
  | _ => rfl

theorem Event.map_shift_noticed (δ : UInt32) (ns : List Notice) :
    (ns.map Event.noticed).map (shift δ) = ns.map .noticed := by
  rw [List.map_map]
  rfl

theorem Event.writes_map_shift (δ : UInt32) (es : List Event) :
    writes (es.map (shift δ)) = writes es := by
  have hwrite : write? ∘ shift δ = write? := by
    funext e
    cases e <;> rfl
  rw [writes, List.filterMap_map, hwrite]

/-! ## Runs told in another way -/

namespace Run

variable {σ α β : Type}

/-- A run in which something else is told. -/
def retell (g : Event → Event) (x : Run σ α) : Run σ α := fun s ↦
  { x s with events := (x s).events.map g }

theorem retell_ofExcept (g : Event → Event) (r : Except Error α) :
    retell g (ofExcept r : Run σ α) = ofExcept r := rfl

theorem map_ofExcept (f : α → β) (r : Except Error α) :
    f <$> (ofExcept r : Run σ α) = ofExcept (r.map f) := by
  cases r <;> rfl

theorem map_apply (f : α → β) (x : Run σ α) (s : σ) :
    (f <$> x) s = ⟨(x s).result.map f, (x s).memory, (x s).events⟩ := by
  rw [map_eq_pure_bind]
  rcases h : x s with ⟨e | a, s', es⟩
  · exact bind_of_error h
  · rw [bind_of_ok h, pure_apply, List.append_nil]
    rfl

theorem retell_bind (g : Event → Event) (x : Run σ α) (f : α → Run σ β) :
    retell g (x >>= f) = retell g x >>= fun a ↦ retell g (f a) := by
  funext s
  rcases h : x s with ⟨e | a, s', es⟩
  · have h' : retell g x s = ⟨.error e, s', es.map g⟩ := by rw [retell, h]
    rw [bind_of_error h', retell, bind_of_error h]
  · have h' : retell g x s = ⟨.ok a, s', es.map g⟩ := by rw [retell, h]
    rw [bind_of_ok h', retell, bind_of_ok h, List.map_append]
    rfl

/-- Where no questions are asked, there are no numbers to be told. -/
theorem Only.retell_shift {μ ℓ π ω : Type} {kinds : List Event.Kind}
    {x : Run (Memory μ ℓ π ω) α} (hx : Only kinds x) (hk : .question ∉ kinds) (δ : UInt32) :
    retell (Event.shift δ) x = x := by
  funext m
  have hevents : (x m).events.map (Event.shift δ) = (x m).events := by
    refine (List.map_congr_left fun e he ↦ ?_).trans (List.map_id _)
    exact Event.shift_of_kind_ne δ (hx.kind_ne hk rfl e he)
  rw [retell, hevents]

end Run

/-! ## Canonical forms -/

namespace Fragment

variable {μ ℓ π ω : Type} {filter : DeviceFilter} {matcher : Matcher μ} {modifier : Modifier μ}

theorem retell_keeps (δ : UInt32) (filter : DeviceFilter) (matcher : Matcher μ) (f : Fragment) :
    Run.retell (Event.shift δ) (filter.keeps matcher f) =
      (filter.keeps matcher f : Run (Memory μ ℓ π ω) Bool) := by
  rw [DeviceFilter.keeps]
  split
  · funext m
    rw [Run.retell, Run.ask, List.map_cons, Event.map_shift_noticed]
    rfl
  · rfl

theorem canonicalForm_shift (h : modifier.IgnoresNumber) (number δ : UInt32) (f : Fragment) :
    (f.canonicalForm modifier (number + δ) : Run (Memory μ ℓ π ω) Fragment) =
      Run.retell (Event.shift δ) (f.canonicalForm modifier number) := by
  have hmodify : (Run.modify modifier f.manifest (.ofFragment f (number + δ)) :
      Run (Memory μ ℓ π ω) Manifest) =
        Run.retell (Event.shift δ) (Run.modify modifier f.manifest (.ofFragment f number)) := by
    funext m
    have hreply : modifier.modify f.manifest (.ofFragment f (number + δ)) m.policy =
        modifier.modify f.manifest (.ofFragment f number) m.policy :=
      h f.manifest (.ofFragment f number) (number + δ) m.policy
    rw [Run.retell, Run.modify, hreply, Run.modify, List.map_cons, Event.map_shift_noticed]
    rfl
  rw [canonicalForm, canonicalForm, hmodify, Run.retell_bind]
  rfl

theorem canonicalForms_shift (h : modifier.IgnoresNumber) (number δ : UInt32)
    (fs : List Fragment) :
    (canonicalForms filter matcher modifier (number + δ) fs :
        Run (Memory μ ℓ π ω) (List Fragment)) =
      Run.retell (Event.shift δ) (canonicalForms filter matcher modifier number fs) := by
  induction fs with
  | nil => rfl
  | cons f fs ih =>
    rw [canonicalForms, canonicalForms, Run.retell_bind, retell_keeps]
    refine bind_congr fun kept ↦ ?_
    cases kept with
    | true =>
      rw [if_pos rfl, if_pos rfl, Run.retell_bind, canonicalForm_shift h]
      refine bind_congr fun c ↦ ?_
      rw [Run.retell_bind, ih]
      rfl
    | false => exact ih

/-- The canonical forms of all variants do not depend on the numbers of these. -/
theorem canonicalGroups_shift (h : modifier.IgnoresNumber) {δ : UInt32}
    {numbers numbers' : SortedMap VariantKey UInt32}
    (hnumbers : ∀ k, numbers'.get? k = (numbers.get? k).map (· + δ))
    (groups : List (VariantKey × List Fragment)) :
    (canonicalGroups filter matcher modifier numbers' groups :
        Run (Memory μ ℓ π ω) (List (VariantKey × List Fragment))) =
      Run.retell (Event.shift δ) (canonicalGroups filter matcher modifier numbers groups) := by
  induction groups with
  | nil => rfl
  | cons group groups ih =>
    obtain ⟨key, fs⟩ := group
    rw [canonicalGroups, canonicalGroups, hnumbers]
    cases numbers.get? key with
    | none => rfl
    | some number =>
      change _ = Run.retell _ (_ >>= _)
      rw [Run.retell_bind]
      change canonicalForms filter matcher modifier (number + δ) fs >>= _ = _
      rw [canonicalForms_shift h]
      refine bind_congr fun canonical ↦ ?_
      rw [Run.retell_bind, ih]
      rfl

end Fragment

/-! ## Variants -/

theorem Variant.ofGroup_shift {δ : UInt32} {numbers numbers' : SortedMap VariantKey UInt32}
    (hnumbers : ∀ k, numbers'.get? k = (numbers.get? k).map (· + δ)) (bundle : Bundle)
    (written : List (Fragment × ArtifactDescriptor)) (group : VariantKey × List Fragment) :
    ofGroup bundle numbers' written group =
      (ofGroup bundle numbers written group).map (shift δ) := by
  rw [ofGroup, ofGroup, hnumbers]
  cases numbers.get? group.1 with
  | none => rfl
  | some number =>
    change (group.2.mapM (fileOne written) >>= _) = (group.2.mapM (fileOne written) >>= _).map _
    cases group.2.mapM (fileOne written) with
    | error e => rfl
    | ok filed =>
      change ((SortedMap.group filed).toList.mapM (artifactSet bundle) >>= _) =
        ((SortedMap.group filed).toList.mapM (artifactSet bundle) >>= _).map _
      cases (SortedMap.group filed).toList.mapM (artifactSet bundle) <;> rfl

theorem Variant.mapM_ofGroup_shift {δ : UInt32} {numbers numbers' : SortedMap VariantKey UInt32}
    (hnumbers : ∀ k, numbers'.get? k = (numbers.get? k).map (· + δ)) (bundle : Bundle)
    (written : List (Fragment × ArtifactDescriptor)) (groups : List (VariantKey × List Fragment)) :
    groups.mapM (ofGroup bundle numbers' written) =
      (groups.mapM (ofGroup bundle numbers written)).map (List.map (shift δ)) := by
  induction groups with
  | nil => rfl
  | cons group groups ih =>
    rw [List.mapM_cons, List.mapM_cons, ofGroup_shift hnumbers, ih]
    cases ofGroup bundle numbers written group with
    | error e => rfl
    | ok v => cases groups.mapM (ofGroup bundle numbers written) <;> rfl

/-! ## Another first number -/

namespace VariantKey

variable {keys : List VariantKey} {a b : UInt32} {numbers numbers' : SortedMap VariantKey UInt32}

/-- Counted from another first number on, a number is as much larger or smaller. -/
theorem toNat_add_sub {v : UInt32} {r : Nat} (hv : v.toNat = a.toNat + r)
    (hb : b.toNat + r ≤ largestNumber) : (v + (b - a)).toNat = b.toNat + r := by
  have hsize : largestNumber = 2 ^ 32 - 1 := rfl
  have ha : a.toNat < 2 ^ 32 := a.toNat_lt
  rw [UInt32.toNat_add, UInt32.toNat_sub, hv]
  omega

theorem get?_numbering_shift (h : numbering keys a = .ok numbers)
    (h' : numbering keys b = .ok numbers') (k : VariantKey) :
    numbers'.get? k = (numbers.get? k).map (· + (b - a)) := by
  have hshift : ∀ v, numbers.get? k = some v → (v + (b - a)).toNat = b.toNat + rank keys k := by
    intro v hv
    obtain ⟨hk, hv⟩ := (get?_numbering h).mp hv
    have hlt := exists_rank_iff.mp ⟨k, hk, rfl⟩
    have hle := le_of_numbering h'
    exact toNat_add_sub hv (by omega)
  refine Option.ext fun w ↦ ?_
  rw [get?_numbering h', Option.map_eq_some_iff]
  constructor
  · rintro ⟨hk, hw⟩
    obtain ⟨v, hv⟩ := exists_number h hk
    exact ⟨v, hv, UInt32.toNat_inj.mp ((hshift v hv).trans hw.symm)⟩
  · rintro ⟨v, hv, rfl⟩
    exact ⟨((get?_numbering h).mp hv).1, hshift v hv⟩

end VariantKey

namespace Serializer

variable {μ ℓ π ω : Type}

/-- The serializer with another first number. -/
def numberedFrom (s : Serializer μ ℓ π) (first : UInt32) : Serializer μ ℓ π :=
  { s with options := { s.options with firstVariantNumber := first } }

variable {s : Serializer μ ℓ π} {writer : Writer ω} {first : UInt32}

theorem writeFragments_numberedFrom (hmodifier : s.modifier.IgnoresNumber)
    {schedule : (jobs : Nat) → Schedule jobs} {fragments : List Fragment} {mode : BuildMode}
    {device : Option Device} {numbers numbers' : SortedMap VariantKey UInt32}
    (hnumbers : VariantKey.numbering (Fragment.byVariant fragments).keys
      s.options.firstVariantNumber = .ok numbers)
    (hnumbers' : VariantKey.numbering (Fragment.byVariant fragments).keys first = .ok numbers') :
    ((s.numberedFrom first).writeFragments writer schedule fragments mode device :
        Run (Memory μ ℓ π ω) (List Variant)) =
      List.map (.shift (first - s.options.firstVariantNumber)) <$>
        Run.retell (Event.shift (first - s.options.firstVariantNumber))
          (s.writeFragments writer schedule fragments mode device) := by
  have hshift := VariantKey.get?_numbering_shift hnumbers hnumbers'
  rw [writeFragments, writeFragments]
  simp only [Run.retell_bind, map_bind]
  refine bind_congr fun _ ↦ bind_congr fun filter ↦ ?_
  rw [hnumbers]
  change Run.ofExcept (VariantKey.numbering (Fragment.byVariant fragments).keys first) >>= _ = _
  rw [hnumbers']
  change Fragment.canonicalGroups filter s.matcher s.modifier numbers' _ >>= _ =
    Run.retell _ (Fragment.canonicalGroups filter s.matcher s.modifier numbers _) >>= _
  rw [Fragment.canonicalGroups_shift hmodifier hshift]
  refine bind_congr fun groups ↦ bind_congr fun _ ↦ ?_
  rw [(Run.Only.each s.only_plan _).retell_shift (by simp)]
  refine bind_congr fun jobs ↦ ?_
  rw [(s.only_storeAll writer mode _ _).retell_shift (by simp)]
  refine bind_congr fun written ↦ ?_
  rw [Variant.mapM_ofGroup_shift hshift, Run.retell_ofExcept, Run.map_ofExcept]
  rfl

variable {timing : Timing} {request : BuildRequest} {m : Memory μ ℓ π ω} {toc : TableOfContents}

/-- **The numbers in a table of contents are ranks.** -/
theorem numbers_of_build (h : (s.build writer timing request m).result = .ok toc) :
    ∃ a, s.Tells timing.fragments request.fragments request.mode request.device
        (s.fragmentPhase writer timing request m).events toc.variants a ∧
      (∀ k ∈ a.kept, (a.variant k).number.toNat = s.options.firstVariantNumber.toNat +
        VariantKey.rank (request.fragments.map (·.key)) k) ∧
      (toc.variants.map (·.number)).Pairwise (· < ·) := by
  obtain ⟨variants, m₁, es₁, sets, m₂, es₂, hfragments, -, rfl⟩ := phases_of_build h
  obtain ⟨a, ha⟩ := exists_tells hfragments
  refine ⟨a, by rwa [hfragments], fun k hk ↦ ?_, ha.numbers_pairwise⟩
  rw [(ha.variant k hk).1, ha.toNat_number (List.mem_filter.mp hk).1]

/-- **Another first number shifts the numbers and changes nothing else.** -/
theorem build_numberedFrom (hmodifier : s.modifier.IgnoresNumber)
    (h : (s.build writer timing request m).result = .ok toc)
    (hfirst : first.toNat + (request.fragments.map (·.key)).eraseDups.length ≤
      VariantKey.largestNumber) :
    ∃ answer, Event.publications ((s.numberedFrom first).build writer timing request m).events =
        [(toc.shift (first - s.options.firstVariantNumber), answer)] ∧
      ((s.numberedFrom first).build writer timing request m).result =
        answer.map (fun _ ↦ toc.shift (first - s.options.firstVariantNumber)) ∧
      Event.writes ((s.numberedFrom first).build writer timing request m).events =
        Event.writes (s.build writer timing request m).events := by
  obtain ⟨variants, m₁, es₁, sets, m₂, es₂, hfragments, hslices, htoc⟩ := phases_of_build h
  obtain ⟨a, ha⟩ := exists_tells hfragments
  obtain ⟨numbers, hnumbers, -⟩ := ha.numbered
  have hkeys : ∀ k, k ∈ (Fragment.byVariant request.fragments).keys ↔ k ∈ a.keys := by
    intro k
    rw [ha.mem_keys, Fragment.mem_keys_byVariant]
  obtain ⟨numbers', hnumbers'⟩ := VariantKey.exists_numbering hfirst
  rw [← VariantKey.numbering_congr hkeys] at hnumbers
  rw [← VariantKey.numbering_congr ha.mem_map_key, ← VariantKey.numbering_congr hkeys]
    at hnumbers'
  have hfragments' : (s.numberedFrom first).fragmentPhase writer timing request m =
      ⟨.ok (variants.map (.shift (first - s.options.firstVariantNumber))), m₁,
        es₁.map (.shift (first - s.options.firstVariantNumber))⟩ := by
    have hassigner : (s.numberedFrom first).assigner = s.assigner := rfl
    rw [fragmentPhase] at hfragments ⊢
    rw [writeFragments_numberedFrom hmodifier hnumbers hnumbers', Run.map_apply, Run.retell,
      hassigner, hfragments]
    rfl
  have hslices' : (s.numberedFrom first).slicePhase writer timing request m =
      ⟨.ok sets, m₂, es₂⟩ := by
    rw [← hslices, slicePhase, slicePhase, hfragments', hfragments, numberedFrom,
      writeSlices_options]
    rfl
  have htoc' : toc.shift (first - s.options.firstVariantNumber) = .ofResults s.bundle
      (variants.map (.shift (first - s.options.firstVariantNumber))) sets
      request.permanentlyFusedModules request.localTestingInfo := by
    rw [htoc]
    rfl
  obtain ⟨ns', hbuild'⟩ := build_of_phases hfragments' hslices' htoc'
  refine ⟨_, publications_of_phases hfragments' hslices' htoc', by rw [hbuild'], ?_⟩
  rw [writes_of_phases hfragments' hslices', writes_of_phases hfragments hslices,
    Event.writes_map_shift]

/-- The shift does not wrap around: in a table, it adds the difference of the first numbers. -/
theorem toNat_shift_number (h : (s.build writer timing request m).result = .ok toc)
    (hfirst : first.toNat + (request.fragments.map (·.key)).eraseDups.length ≤
      VariantKey.largestNumber) {v : Variant} (hv : v ∈ toc.variants) :
    ((v.shift (first - s.options.firstVariantNumber)).number.toNat : Int) =
      v.number.toNat + ((first.toNat : Int) - s.options.firstVariantNumber.toNat) := by
  obtain ⟨a, ha, hrank, -⟩ := numbers_of_build h
  rw [ha.variants] at hv
  obtain ⟨k, hk, rfl⟩ := List.mem_map.mp hv
  have hmem := (ha.mem_map_key k).mp (List.mem_filter.mp hk).1
  have hlt := VariantKey.exists_rank_iff.mp ⟨k, hmem, rfl⟩
  have hshift := VariantKey.toNat_add_sub (hrank k hk) (b := first) (by omega)
  have hnumber := hrank k hk
  change (((a.variant k).number + (first - s.options.firstVariantNumber)).toNat : Int) = _
  omega

/-- A run that succeeds had numbers enough. -/
theorem le_largestNumber_of_build (h : (s.build writer timing request m).result = .ok toc) :
    s.options.firstVariantNumber.toNat + (request.fragments.map (·.key)).eraseDups.length ≤
      VariantKey.largestNumber := by
  obtain ⟨variants, m₁, es₁, sets, m₂, es₂, hfragments, -, -⟩ := phases_of_build h
  obtain ⟨a, ha⟩ := exists_tells hfragments
  obtain ⟨numbers, hnumbers, -⟩ := ha.numbered
  rw [VariantKey.numbering_congr ha.mem_map_key] at hnumbers
  exact VariantKey.le_of_numbering hnumbers

/-- **Variant numbers are ranks.** Numbering succeeds exactly when the numbers suffice, and then it
is the one enumeration of the set of keys. In the table of a run a variant has the rank of its key
among all keys of the input. If the modifier ignores numbers, then another first number, if the
numbers suffice, changes the numbers in the table by the difference, and nothing else. -/
theorem variant_numbers_are_ranks (s : Serializer μ ℓ π) (writer : Writer ω) (timing : Timing)
    (request : BuildRequest) (m : Memory μ ℓ π ω) :
    (∀ keys first,
      ((∃ numbers, VariantKey.numbering keys first = .ok numbers) ↔
        first.toNat + keys.eraseDups.length ≤ UInt32.size - 1) ∧
      (∀ numbers, VariantKey.numbering keys first = .ok numbers →
        VariantKey.Enumerates keys first numbers ∧
        (∀ numbers', VariantKey.Enumerates keys first numbers' → numbers' = numbers) ∧
        ∀ k v, numbers.get? k = some v ↔
          k ∈ keys ∧ v.toNat = first.toNat + VariantKey.rank keys k) ∧
      (∀ e, VariantKey.numbering keys first = .error e → ∃ fault, e = .configuration fault) ∧
      ∀ keys', (∀ k, k ∈ keys ↔ k ∈ keys') →
        VariantKey.numbering keys' first = VariantKey.numbering keys first) ∧
    ∀ toc, (s.build writer timing request m).result = .ok toc →
      (∃ a, s.Tells timing.fragments request.fragments request.mode request.device
          (s.fragmentPhase writer timing request m).events toc.variants a ∧
        (∀ k ∈ a.kept, (a.variant k).number.toNat = s.options.firstVariantNumber.toNat +
          VariantKey.rank (request.fragments.map (·.key)) k) ∧
        (toc.variants.map (·.number)).Pairwise (· < ·)) ∧
      (s.modifier.IgnoresNumber → ∀ first : UInt32,
        (first.toNat + (request.fragments.map (·.key)).eraseDups.length ≤ UInt32.size - 1 →
          ∃ answer, Event.publications
              ((s.numberedFrom first).build writer timing request m).events =
                [(toc.shift (first - s.options.firstVariantNumber), answer)] ∧
            ((s.numberedFrom first).build writer timing request m).result =
              answer.map (fun _ ↦ toc.shift (first - s.options.firstVariantNumber)) ∧
            Event.writes ((s.numberedFrom first).build writer timing request m).events =
              Event.writes (s.build writer timing request m).events) ∧
        ∀ toc', ((s.numberedFrom first).build writer timing request m).result = .ok toc' →
          toc' = toc.shift (first - s.options.firstVariantNumber) ∧
            Event.writes ((s.numberedFrom first).build writer timing request m).events =
              Event.writes (s.build writer timing request m).events ∧
            ∀ v ∈ toc.variants,
              ((v.shift (first - s.options.firstVariantNumber)).number.toNat : Int) =
                v.number.toNat + ((first.toNat : Int) - s.options.firstVariantNumber.toNat)) := by
  constructor
  · intro keys first
    refine ⟨⟨fun ⟨_, h⟩ ↦ VariantKey.le_of_numbering h, VariantKey.exists_numbering⟩,
      fun numbers h ↦ ?_, fun e h ↦ ?_, fun keys' h ↦ (VariantKey.numbering_congr h).symm⟩
    · have henum := VariantKey.enumerates_of_numbering h
      exact ⟨henum, fun numbers' h' ↦ h'.unique henum, fun k v ↦ VariantKey.get?_numbering h⟩
    · by_cases hle : first.toNat + keys.eraseDups.length ≤ VariantKey.largestNumber
      · obtain ⟨numbers, hnumbers⟩ := VariantKey.exists_numbering hle
        rw [h] at hnumbers
        cases hnumbers
      · rw [VariantKey.numbering_of_lt (Nat.lt_of_not_le hle)] at h
        exact ⟨_, (Except.error.inj h).symm⟩
  · intro toc h
    refine ⟨numbers_of_build h, fun hmodifier first ↦ ⟨build_numberedFrom hmodifier h, ?_⟩⟩
    intro toc' h'
    have hfirst : first.toNat + (request.fragments.map (·.key)).eraseDups.length ≤
        VariantKey.largestNumber := le_largestNumber_of_build h'
    obtain ⟨answer, -, hresult, hwrites⟩ := build_numberedFrom hmodifier h hfirst
    rw [hresult] at h'
    obtain ⟨_, -, rfl⟩ := map_eq_ok_iff.mp h'
    exact ⟨rfl, hwrites, fun v hv ↦ toNat_shift_number h hfirst hv⟩

/-- Two variants, numbered from ten and from three. -/
theorem numbers_from_ten_and_from_three :
    let f : Fragment := { Fragment.untargeted .base .split (.ofPackage "p") with isMaster := true }
    let s := { plain { Bundle.ofPackage "p" with
      modules := [.independent .base .feature (.ofPackage "p")] } with options := ⟨10, false, 1⟩ }
    let request : BuildRequest := ⟨[{ f with variantTargeting := .sdk 26 },
      { f with variantTargeting := .sdk 21 }], [], .default, none, default, []⟩
    ∃ toc toc', (s.build Writer.echo .inOrder request ⟨(), (), ∅, ()⟩).result = .ok toc ∧
      ((s.numberedFrom 3).build Writer.echo .inOrder request ⟨(), (), ∅, ()⟩).result = .ok toc' ∧
      toc.variants.map (·.number) = [10, 11] ∧ toc' = toc.shift (3 - 10) ∧
      toc'.variants.map (·.number) = [3, 4] := by
  intro f s request
  obtain ⟨toc, h⟩ : ∃ toc, (s.build Writer.echo .inOrder request ⟨(), (), ∅, ()⟩).result =
    .ok toc := ⟨_, rfl⟩
  obtain ⟨toc', h'⟩ : ∃ toc', ((s.numberedFrom 3).build Writer.echo .inOrder request
    ⟨(), (), ∅, ()⟩).result = .ok toc' := ⟨_, rfl⟩
  have hshift := ((variant_numbers_are_ranks s Writer.echo .inOrder request
    ⟨(), (), ∅, ()⟩).2 toc h).2 (fun _ _ _ _ ↦ rfl) 3
  have hnumbers : (s.build Writer.echo .inOrder request ⟨(), (), ∅, ()⟩).result.toOption.map
      (fun toc ↦ toc.variants.map (·.number)) = some [10, 11] := by decide +kernel
  have hnumbers' : ((s.numberedFrom 3).build Writer.echo .inOrder request
      ⟨(), (), ∅, ()⟩).result.toOption.map (fun toc ↦ toc.variants.map (·.number)) =
        some [3, 4] := by decide +kernel
  rw [h] at hnumbers
  rw [h'] at hnumbers'
  exact ⟨toc, toc', h, h', Option.some.inj hnumbers, (hshift.2 toc' h').1,
    Option.some.inj hnumbers'⟩

end Serializer

end FragmentArchive
