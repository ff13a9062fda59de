import FragmentArchive.Device.Filter

/-!
# A default tier that is no tier

There is one thing that can be wrong before a fragment is looked at: the device reports no tier, and
the suffix that the configuration names instead is no numeral. Whether this matters to a run depends
on what is filtered. Asset slices are filtered for every device, ordinary fragments for every device
outside of system mode.
-/

namespace FragmentArchive

variable {strippings : SortedMap Dimension SuffixStripping} {e : Error}

namespace Device

/-- The device needs a default tier, and the suffix that is configured for it cannot be read; `e`
says so. -/
def MissesTier (strippings : SortedMap Dimension SuffixStripping) (device : Device) (e : Error) :
    Prop :=
  device.deviceTier = none ∧ ∃ stripping fault, strippings.get? .deviceTier = some stripping ∧
    tierOfSuffix stripping.defaultSuffix = .error fault ∧
    e = .configuration (.deviceTier stripping.defaultSuffix fault)

theorem assumingTier_eq_error_iff {device : Device} :
    device.assumingTier strippings = .error e ↔ device.MissesTier strippings e := by
  rw [assumingTier, MissesTier]
  cases htier : device.deviceTier with
  | some tier =>
    exact iff_of_false (fun h ↦ by cases h) fun h ↦ by cases h.1
  | none =>
    cases hstripping : strippings.get? .deviceTier with
    | none =>
      refine iff_of_false (fun h ↦ by cases h) ?_
      rintro ⟨-, stripping, fault, hstripping, -⟩
      cases hstripping
    | some stripping =>
      dsimp only
      cases hsuffix : tierOfSuffix stripping.defaultSuffix with
      | ok tier =>
        refine iff_of_false (fun h ↦ by cases h) ?_
        rintro ⟨-, _, fault, heq, hfault, -⟩
        obtain rfl := Option.some.inj heq
        cases hsuffix.symm.trans hfault
      | error fault =>
        constructor
        · intro h
          exact ⟨rfl, stripping, fault, rfl, hsuffix, (Except.error.inj h).symm⟩
        · rintro ⟨-, _, fault', heq, hfault, rfl⟩
          obtain rfl := Option.some.inj heq
          rw [Except.error.inj (hsuffix.symm.trans hfault)]

end Device

namespace DeviceFilter

private theorem ofDevice_eq_error_iff {device : Device} :
    ofDevice strippings device = .error e ↔ device.MissesTier strippings e := by
  rw [← Device.assumingTier_eq_error_iff, ofDevice]
  cases device.assumingTier strippings with
  | ok d => exact iff_of_false (fun h ↦ by cases h) fun h ↦ by cases h
  | error e' => exact ⟨fun h ↦ by rw [Except.error.inj h], fun h ↦ by rw [Except.error.inj h]; rfl⟩

/-- Outside of system mode, ordinary fragments cannot be filtered for a device that misses a
tier. -/
theorem ordinary_eq_error_iff {mode : BuildMode} {device : Option Device} :
    ordinary strippings mode device = .error e ↔
      mode ≠ .system ∧ ∃ d, device = some d ∧ d.MissesTier strippings e := by
  cases device with
  | none =>
    refine iff_of_false (fun h ↦ by cases h) ?_
    rintro ⟨-, d, hd, -⟩
    cases hd
  | some device =>
    rw [ordinary]
    split
    · next hmode => exact iff_of_false (fun h ↦ by cases h) fun h ↦ h.1 hmode
    · next hmode => simp [ofDevice_eq_error_iff, hmode]

/-- Asset slices cannot be filtered for a device that misses a tier. -/
theorem slices_eq_error_iff {device : Option Device} :
    slices strippings device = .error e ↔ ∃ d, device = some d ∧ d.MissesTier strippings e := by
  cases device with
  | none =>
    refine iff_of_false (fun h ↦ by cases h) ?_
    rintro ⟨d, hd, -⟩
    cases hd
  | some device => simp [slices, ofDevice_eq_error_iff]

end DeviceFilter

end FragmentArchive
