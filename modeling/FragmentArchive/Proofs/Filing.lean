import FragmentArchive.Proofs.Lists
import FragmentArchive.Proofs.SortedMap
import FragmentArchive.Serializer

/-!
# Filing artifacts into variants

The artifacts of a variant are filed under the modules that their fragments belong to. Whether this
succeeds depends on the bundle alone, because only a module that the bundle does not have stands in
the way once every fragment has its artifact; and what comes of it is determined by the canonical
fragments of the variant and the answers of the writer to them.
-/

open Std

namespace FragmentArchive

/-! ## Lists that are taken apart by a function -/

section

variable {α κ : Type} [DecidableEq κ]

/-- The parts of a list under different values of a function are the whole list, rearranged. -/
theorem flatMap_filter_perm {f : α → κ} {ks : List κ} {as : List α} (hks : ks.Nodup)
    (h : ∀ a ∈ as, f a ∈ ks) : (ks.flatMap fun k ↦ as.filter (f · = k)).Perm as := by
  induction ks generalizing as with
  | nil =>
    cases as with
    | nil => exact .refl _
    | cons a as => cases h a List.mem_cons_self
  | cons k ks ih =>
    obtain ⟨hk, hks⟩ := List.nodup_cons.mp hks
    have hrest : ∀ a ∈ as.filter (f · ≠ k), f a ∈ ks := by
      intro a ha
      obtain ⟨ha, hne⟩ := List.mem_filter.mp ha
      exact (List.mem_cons.mp (h a ha)).resolve_left (of_decide_eq_true hne)
    have hsame : ∀ k' ∈ ks, (as.filter (f · ≠ k)).filter (f · = k') = as.filter (f · = k') := by
      intro k' hk'
      rw [List.filter_filter]
      refine List.filter_congr fun a _ ↦ ?_
      by_cases ha : f a = k'
      · have hne : k' ≠ k := by
          rintro rfl
          exact hk hk'
        simp [ha, hne]
      · simp [ha]
    have hperm := ih hks hrest
    rw [List.flatMap_def, List.map_congr_left hsame, ← List.flatMap_def] at hperm
    rw [List.flatMap_cons]
    refine (hperm.append_left _).trans ?_
    simpa using List.filter_append_perm (fun a ↦ decide (f a = k)) as

/-- Of lists for different values of a function, put one behind the other, one gets back the list
for a value. -/
theorem filter_flatMap {f : α → κ} {g : κ → List α} {ks : List κ}
    (hks : ks.Nodup) (hg : ∀ k ∈ ks, ∀ a ∈ g k, f a = k) {k : κ} (hk : k ∈ ks) :
    (ks.flatMap g).filter (f · = k) = g k := by
  induction ks with
  | nil => cases hk
  | cons k' ks ih =>
    obtain ⟨hk', hks⟩ := List.nodup_cons.mp hks
    have hself : ∀ a ∈ g k', f a = k' := hg k' List.mem_cons_self
    have hrest : ∀ k ∈ ks, ∀ a ∈ g k, f a = k := fun k hk ↦ hg k (List.mem_cons_of_mem _ hk)
    rw [List.flatMap_cons, List.filter_append]
    rcases List.mem_cons.mp hk with rfl | hk
    · have hall : (g k).filter (f · = k) = g k :=
        List.filter_eq_self.mpr fun a ha ↦ decide_eq_true (hself a ha)
      have hnone : (ks.flatMap g).filter (f · = k) = [] := by
        rw [List.filter_eq_nil_iff]
        intro a ha hak
        obtain ⟨k', hmem, ha⟩ := List.mem_flatMap.mp ha
        have heq : k' = k := (hrest k' hmem a ha).symm.trans (of_decide_eq_true hak)
        exact hk' (heq ▸ hmem)
      rw [hall, hnone, List.append_nil]
    · have hnone : (g k').filter (f · = k) = [] := by
        rw [List.filter_eq_nil_iff]
        intro a ha hak
        have heq : k' = k := (hself a ha).symm.trans (of_decide_eq_true hak)
        exact hk' (heq ▸ hk)
      rw [hnone, ih hks hrest hk, List.nil_append]

end

/-! ## Modules by their names -/

theorem ModuleName.text_inj {a b : ModuleName} : a.text = b.text ↔ a = b := by
  cases a
  cases b
  rw [mk.injEq]

private theorem moduleNamed_ok {bundle : Bundle} {name : ModuleName} {module : BundleModule}
    (h : bundle.moduleNamed name = .ok module) :
    bundle.module? name = some module ∧ module.name = name := by
  rw [Bundle.moduleNamed] at h
  split at h
  · next found hfound =>
    obtain rfl := Except.ok.inj h
    have hname := hfound
    rw [Bundle.module?] at hname
    have hname := List.find?_some hname
    exact ⟨hfound, of_decide_eq_true hname⟩
  · cases h

/-- A module is missed only when the bundle does not have it. -/
theorem moduleNamed_error {bundle : Bundle} {name : ModuleName} {e : Error}
    (h : bundle.moduleNamed name = .error e) :
    bundle.module? name = none ∧ e = .internal (.unknownModule name) := by
  rw [Bundle.moduleNamed] at h
  split at h
  · cases h
  · next hnone => exact ⟨hnone, (Except.error.inj h).symm⟩

/-- What is built for each of some module names belongs to modules of the bundle. -/
theorem mapM_moduleNamed {α β : Type} {bundle : Bundle} (build : BundleModule → α → β)
    {names : List ModuleName} {content : ModuleName → α} {results : List β}
    (h : (names.map fun name ↦ (name, content name)).mapM (fun entry ↦ do
      let module ← bundle.moduleNamed entry.1
      return build module entry.2) = .ok results) :
    ∃ modules : List BundleModule, names = modules.map (·.name) ∧
      (∀ module ∈ modules, bundle.module? module.name = some module) ∧
      results = modules.map fun module ↦ build module (content module.name) := by
  induction names generalizing results with
  | nil =>
    exact ⟨[], rfl, fun _ hmem ↦ absurd hmem List.not_mem_nil, (Except.ok.inj h).symm⟩
  | cons name names ih =>
    rw [List.map_cons, List.mapM_cons] at h
    obtain ⟨result, hresult, h⟩ := bind_eq_ok_iff.mp h
    obtain ⟨others, hothers, h⟩ := bind_eq_ok_iff.mp h
    obtain ⟨module, hmodule, hbuild⟩ := bind_eq_ok_iff.mp hresult
    obtain ⟨hfound, rfl⟩ := moduleNamed_ok hmodule
    obtain ⟨modules, rfl, hmodules, rfl⟩ := ih hothers
    refine ⟨module :: modules, rfl, fun module' hmem ↦ ?_, ?_⟩
    · rcases List.mem_cons.mp hmem with rfl | hmem
      · exact hfound
      · exact hmodules module' hmem
    · rw [← Except.ok.inj h, ← Except.ok.inj hbuild]
      rfl

/-! ## Variants -/

namespace Variant

/-- The descriptors that a variant lists for a module. -/
def descriptorsOf (v : Variant) (m : ModuleName) : List ArtifactDescriptor :=
  (v.artifactSets.filter (·.moduleMetadata.name = m.text)).flatMap (·.descriptors)

/-- All descriptors that a variant lists. -/
def descriptors (v : Variant) : List ArtifactDescriptor := v.artifactSets.flatMap (·.descriptors)

/-- A variant lists the artifacts of canonical fragments: a set for each of their modules, in the
order of the names, with the artifacts of the fragments of this module in their order. -/
def Lists (bundle : Bundle) (answer : Fragment → ArtifactDescriptor) (cs : List Fragment)
    (v : Variant) : Prop :=
  ∃ modules : List BundleModule,
    (modules.map (·.name)).Pairwise (compare · · = .lt) ∧
      (∀ m, m ∈ modules.map (·.name) ↔ ∃ c ∈ cs, c.module = m) ∧
      (∀ module ∈ modules, bundle.module? module.name = some module) ∧
      v.artifactSets = modules.map fun module ↦
        ⟨module.metadata, (cs.filter (·.module = module.name)).map answer⟩

variable {bundle : Bundle} {numbers : SortedMap VariantKey UInt32}
  {written : List (Fragment × ArtifactDescriptor)} {answer : Fragment → ArtifactDescriptor}

/-- The variant of a key whose artifacts are already filed under their modules. -/
def ofFiled (bundle : Bundle) (numbers : SortedMap VariantKey UInt32)
    (group : VariantKey × List (ModuleName × ArtifactDescriptor)) : Except Error Variant :=
  match numbers.get? group.1 with
  | none => .error (.internal (.unnumbered group.1))
  | some number => do
    let artifactSets ← (SortedMap.group group.2).toList.mapM (artifactSet bundle)
    return ⟨number, group.1.targeting, artifactSets⟩

/-- Canonical fragments that all have artifacts are filed under their modules. -/
theorem ofGroup_eq_ofFiled {key : VariantKey} {cs : List Fragment}
    (hwritten : ∀ c ∈ cs, written.lookup c = some (answer c)) :
    ofGroup bundle numbers written (key, cs) =
      ofFiled bundle numbers (key, cs.map fun c ↦ (c.module, answer c)) := by
  have hfiled : cs.mapM (fileOne written) = .ok (cs.map fun c ↦ (c.module, answer c)) := by
    rw [mapM_eq_ok_iff, List.map_map]
    refine List.map_congr_left fun c hc ↦ ?_
    rw [fileOne, hwritten c hc]
    rfl
  rw [ofGroup, ofFiled]
  cases numbers.get? key with
  | none => rfl
  | some number =>
    dsimp only
    rw [hfiled]
    rfl

/-- **What a variant is made of.** -/
theorem ofGroup_ok {key : VariantKey} {cs : List Fragment} {v : Variant}
    (hwritten : ∀ c ∈ cs, written.lookup c = some (answer c))
    (h : ofGroup bundle numbers written (key, cs) = .ok v) :
    numbers.get? key = some v.number ∧ v.targeting = key.targeting ∧
      v.Lists bundle answer cs := by
  rw [ofGroup_eq_ofFiled hwritten, ofFiled] at h
  split at h
  · cases h
  · next number hnumber =>
    obtain ⟨sets, hsets, h⟩ := bind_eq_ok_iff.mp h
    obtain rfl := Except.ok.inj h
    rw [SortedMap.toList_group] at hsets
    obtain ⟨modules, hnames, hmodule, rfl⟩ := mapM_moduleNamed
      (fun module ds ↦ ArtifactSet.mk module.metadata ds) hsets
    refine ⟨hnumber, rfl, modules, hnames ▸ SortedMap.keys_pairwise _, fun m ↦ ?_, hmodule, ?_⟩
    · rw [← hnames, SortedMap.mem_keys_group, List.map_map, List.mem_map]
      exact Iff.rfl
    · exact List.map_congr_left fun module _ ↦
        congrArg (ArtifactSet.mk _) (SortedMap.valuesAt_map ..)

/-- When every canonical fragment has an artifact, only a module can be missing. -/
theorem ofGroup_error {key : VariantKey} {number : UInt32} {cs : List Fragment} {e : Error}
    (hnumber : numbers.get? key = some number)
    (hwritten : ∀ c ∈ cs, written.lookup c = some (answer c))
    (h : ofGroup bundle numbers written (key, cs) = .error e) :
    ∃ c ∈ cs, bundle.module? c.module = none ∧ e = .internal (.unknownModule c.module) := by
  simp only [ofGroup_eq_ofFiled hwritten, ofFiled, hnumber] at h
  rcases bind_eq_error_iff.mp h with hsets | ⟨sets, -, h⟩
  · obtain ⟨⟨name, ds⟩, hentry, herror⟩ := exists_of_mapM_error hsets
    rcases bind_eq_error_iff.mp herror with hmodule | ⟨module, -, h⟩
    · have hname := (SortedMap.mem_group.mp hentry).2
      rw [List.map_map] at hname
      obtain ⟨c, hc, rfl⟩ := List.mem_map.mp hname
      exact ⟨c, hc, moduleNamed_error hmodule⟩
    · cases h
  · cases h

/-! ## What a variant lists -/

private theorem flatMap_filter_const {β : Type} {modules : List BundleModule} {m : ModuleName}
    (hnames : (modules.map (·.name)).Nodup) (bs : List β) :
    ((modules.filter (·.name = m)).flatMap fun _ ↦ bs) =
      if m ∈ modules.map (·.name) then bs else [] := by
  induction modules with
  | nil => rfl
  | cons module modules ih =>
    obtain ⟨hmodule, hnames⟩ := List.nodup_cons.mp hnames
    rw [List.filter_cons, List.map_cons]
    by_cases hm : module.name = m
    · subst hm
      rw [if_pos (by simp), if_pos List.mem_cons_self, List.flatMap_cons, ih hnames,
        if_neg hmodule, List.append_nil]
    · rw [if_neg (by simpa using hm), ih hnames]
      simp only [List.mem_cons, Ne.symm hm, false_or]

/-- For a module a variant lists the artifacts of the fragments of this module, in their order. -/
theorem Lists.descriptorsOf_eq {cs : List Fragment} {v : Variant} (h : v.Lists bundle answer cs)
    (m : ModuleName) : v.descriptorsOf m = (cs.filter (·.module = m)).map answer := by
  obtain ⟨modules, hsorted, hmem, -, hsets⟩ := h
  have hnames : (modules.map (·.name)).Nodup := hsorted.imp SortedMap.ne_of_compare_lt
  rw [descriptorsOf, hsets, List.filter_map, List.flatMap_map]
  -- the names in the metadata are those of the modules
  have hfilter : modules.filter ((fun set ↦ decide (set.moduleMetadata.name = m.text)) ∘
      fun module ↦ (⟨module.metadata, (cs.filter (·.module = module.name)).map answer⟩ :
        ArtifactSet)) = modules.filter (·.name = m) := by
    exact List.filter_congr fun module _ ↦ decide_eq_decide.mpr ModuleName.text_inj
  have hconst : ∀ module ∈ modules.filter (·.name = m),
      (cs.filter (·.module = module.name)).map answer = (cs.filter (·.module = m)).map answer := by
    intro module hmodule
    rw [of_decide_eq_true (List.mem_filter.mp hmodule).2]
  rw [hfilter, List.flatMap_def, List.map_congr_left hconst, ← List.flatMap_def,
    flatMap_filter_const hnames]
  split
  · rfl
  · next hnot =>
    have hnil : cs.filter (·.module = m) = [] := by
      rw [List.filter_eq_nil_iff]
      intro c hc hcm
      exact hnot ((hmem m).mpr ⟨c, hc, of_decide_eq_true hcm⟩)
    rw [hnil, List.map_nil]

/-- A variant lists an artifact for each of its canonical fragments. -/
theorem Lists.descriptors_perm {cs : List Fragment} {v : Variant} (h : v.Lists bundle answer cs) :
    v.descriptors.Perm (cs.map answer) := by
  obtain ⟨modules, hsorted, hmem, -, hsets⟩ := h
  have hnames : (modules.map (·.name)).Nodup := hsorted.imp SortedMap.ne_of_compare_lt
  have hparts := flatMap_filter_perm (f := Fragment.module) hnames
    fun c hc ↦ (hmem c.module).mpr ⟨c, hc, rfl⟩
  have heq : v.descriptors =
      ((modules.map (·.name)).flatMap fun m ↦ cs.filter (·.module = m)).map answer := by
    rw [descriptors, hsets, List.flatMap_map, List.flatMap_map, List.map_flatMap]
  rw [heq]
  exact hparts.map answer

end Variant

end FragmentArchive
