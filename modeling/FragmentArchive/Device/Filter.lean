import FragmentArchive.Device.Tier
import FragmentArchive.Run

/-!
# Filtering for a device

A build for one concrete device keeps only what the matcher accepts for it; a build for the whole
fleet keeps everything, and then the matcher is not even asked. The device that the matcher sees has
the configured tier filled in.

System builds produce a fused artifact together with language splits that have to stay even when
they do not match, so their ordinary fragments are not filtered.
-/

namespace FragmentArchive

/-- The device that fragments are filtered for, if they are. -/
structure DeviceFilter where
  device : Option Device
deriving DecidableEq

namespace DeviceFilter

/-- The filter that keeps everything. -/
def everything : DeviceFilter := ⟨none⟩

/-- The filter for a device. -/
def ofDevice (strippings : SortedMap Dimension SuffixStripping) (device : Device) :
    Except Error DeviceFilter :=
  (device.assumingTier strippings).map fun d ↦ ⟨some d⟩

/-- The filter for ordinary fragments. -/
def ordinary (strippings : SortedMap Dimension SuffixStripping) (mode : BuildMode) :
    Option Device → Except Error DeviceFilter
  | some device => if mode = .system then .ok everything else ofDevice strippings device
  | none => .ok everything

/-- The filter for asset slices. -/
def slices (strippings : SortedMap Dimension SuffixStripping) :
    Option Device → Except Error DeviceFilter
  | some device => ofDevice strippings device
  | none => .ok everything

/-- Whether a fragment is kept. -/
def keeps {μ ℓ π ω : Type} (filter : DeviceFilter) (matcher : Matcher μ) (f : Fragment) :
    Run (Memory μ ℓ π ω) Bool :=
  match filter.device with
  | some device => Run.ask matcher f device
  | none => pure true

end DeviceFilter

end FragmentArchive
