import FragmentArchive.BuildMode.Admission
import FragmentArchive.Naming
import FragmentArchive.Schedule
import FragmentArchive.Variant.Canonical
import FragmentArchive.Variant.Numbering

/-!
# Serializing a bundle

A run writes the ordinary fragments first and the asset slices after them, each as one batch of jobs
that is waited for, and hands over the table of contents when everything else is in place. Whatever
can be decided without the writer is decided before a batch begins: variants are numbered,
fragments are brought into canonical form, and artifacts are named, all in an order that depends on
the input alone. In which order the jobs of a batch are done can then not show in the names, and in
the table only as far as the writer makes its answers depend on it.

## Filing the artifacts

Equal canonical fragments are written once, so the answers of the writer have to find their way
back to every place that the fragment holds in the variants. They are filed under the fragment
itself.
-/

namespace FragmentArchive

/-! ## Requests and settings -/

/-- What one run is asked to write. -/
structure BuildRequest where
  fragments : List Fragment
  assetSlices : List Fragment
  mode : BuildMode
  /-- The device to build for; none means the whole fleet. -/
  device : Option Device
  localTestingInfo : LocalTestingInfo
  permanentlyFusedModules : List ModuleName
deriving DecidableEq

/-- The settings of a serializer. -/
structure Options where
  firstVariantNumber : UInt32
  verbose : Bool
  workers : Nat
deriving DecidableEq, Repr

/-- There is always at least one worker. -/
def Options.poolSize (options : Options) : Nat := max options.workers 1

/-- A bundle together with the collaborators that serve all of its runs. -/
structure Serializer (μ ℓ π : Type) where
  bundle : Bundle
  options : Options
  matcher : Matcher μ
  modifier : Modifier μ
  listener : Listener ℓ
  assigner : PathAssigner π

/-- In which order the jobs of the two batches start and finish. -/
structure Timing where
  fragments : (jobs : Nat) → Schedule jobs
  assetSlices : (jobs : Nat) → Schedule jobs

/-- Both batches are done by one worker. -/
def Timing.inOrder : Timing := ⟨.inOrder, .inOrder⟩

/-- In both batches the jobs get their turns one after the other. -/
def Timing.serial (fragments assetSlices : (jobs : Nat) → Schedule.Turns jobs) : Timing :=
  ⟨fun jobs ↦ .serial (fragments jobs), fun jobs ↦ .serial (assetSlices jobs)⟩

/-- A single worker gives the jobs their turns as they come. -/
theorem Timing.serial_inOrder : serial Schedule.Turns.inOrder Schedule.Turns.inOrder = inOrder :=
  rfl

/-! ## Filing -/

/-- The module that fragments refer to by a name. -/
def Bundle.moduleNamed (b : Bundle) (name : ModuleName) : Except Error BundleModule :=
  match b.module? name with
  | some module => .ok module
  | none => .error (.internal (.unknownModule name))

namespace Variant

/-- The artifact of a fragment, under its module. -/
def fileOne (written : List (Fragment × ArtifactDescriptor)) (f : Fragment) :
    Except Error (ModuleName × ArtifactDescriptor) :=
  match written.lookup f with
  | some descriptor => .ok (f.module, descriptor)
  | none => .error (.internal (.unwritten f.module))

/-- The artifacts of a module in a variant. -/
def artifactSet (bundle : Bundle) (entry : ModuleName × List ArtifactDescriptor) :
    Except Error ArtifactSet := do
  let module ← bundle.moduleNamed entry.1
  return ⟨module.metadata, entry.2⟩

/-- The variant for the canonical fragments of a key. -/
def ofGroup (bundle : Bundle) (numbers : SortedMap VariantKey UInt32)
    (written : List (Fragment × ArtifactDescriptor)) (group : VariantKey × List Fragment) :
    Except Error Variant :=
  match numbers.get? group.1 with
  | none => .error (.internal (.unnumbered group.1))
  | some number => do
    let filed ← group.2.mapM (fileOne written)
    let artifactSets ← (SortedMap.group filed).toList.mapM (artifactSet bundle)
    return ⟨number, group.1.targeting, artifactSets⟩

end Variant

namespace AssetSliceSet

/-- Puts a descriptor behind the others of its module, or opens a group for the module at the
end. -/
def addTo (groups : List (ModuleName × List ArtifactDescriptor))
    (entry : ModuleName × ArtifactDescriptor) : List (ModuleName × List ArtifactDescriptor) :=
  match groups with
  | [] => [(entry.1, [entry.2])]
  | group :: others =>
    if group.1 = entry.1 then (group.1, group.2 ++ [entry.2]) :: others
    else group :: addTo others entry

/-- The descriptors of each module, the modules in the order in which they are first met. -/
def byModule (written : List (ModuleName × ArtifactDescriptor)) :
    List (ModuleName × List ArtifactDescriptor) :=
  written.foldl addTo []

/-- The slices of a module. -/
def ofGroup (bundle : Bundle) (group : ModuleName × List ArtifactDescriptor) :
    Except Error AssetSliceSet := do
  let module ← bundle.moduleNamed group.1
  return ⟨.ofModule module, group.2⟩

end AssetSliceSet

/-! ## Jobs -/

/-- A fragment and the place that is meant for it. -/
abbrev Job := Fragment × ArchivePath

/-- The error of a job whose fragment could not be written. The writer's own account is kept when it
gives one. -/
def Error.whileWriting (path : ArchivePath) : Error → Error
  | .serialization p fault => .serialization p fault
  | other => .serialization path.text (.reported other.message)

namespace Serializer

variable {μ ℓ π ω : Type}

/-- Writes one fragment and tells the listener. -/
def store (s : Serializer μ ℓ π) (writer : Writer ω) (mode : BuildMode) (job : Job) :
    Run (Memory μ ℓ π ω) ArtifactDescriptor := do
  let descriptor ← (Run.add writer (.forFragment mode job.1 job.2)).mapError (.whileWriting job.2)
  match ← Run.notify s.listener descriptor with
  | .ok _ => pure ()
  | .error e => Run.notice (.unheard descriptor.path e)
  Run.notice (.written s.options.verbose descriptor.path job.1.category)
  return descriptor

/-- Names a fragment. -/
def plan (s : Serializer μ ℓ π) (f : Fragment) : Run (Memory μ ℓ π ω) Job := do
  let path ← Run.name s.assigner f
  return (f, path)

/-! ## Ordinary fragments -/

/-- Writes the ordinary fragments; the result has an entry for every variant of which something is
left. -/
def writeFragments (s : Serializer μ ℓ π) (writer : Writer ω)
    (schedule : (jobs : Nat) → Schedule jobs) (fragments : List Fragment) (mode : BuildMode)
    (device : Option Device) : Run (Memory μ ℓ π ω) (List Variant) := do
  Run.ofExcept (mode.check fragments)
  let filter ← Run.ofExcept
    (DeviceFilter.ordinary s.bundle.config.effectiveStrippings mode device)
  let groups := Fragment.byVariant fragments
  let numbers ← Run.ofExcept
    (VariantKey.numbering groups.keys s.options.firstVariantNumber)
  let canonical ←
    Fragment.canonicalGroups filter s.matcher s.modifier numbers groups.toList
  let all := canonical.flatMap (·.2)
  let distinct := Fragment.distinct all
  Run.notice (.reduced all.length canonical.length distinct.length)
  let jobs ← Run.each s.plan distinct
  let written ← Schedule.runAll jobs (schedule jobs.length) (s.store writer mode)
  Run.ofExcept
    (canonical.mapM (Variant.ofGroup s.bundle numbers ((jobs.map (·.1)).zip written)))

/-! ## Asset slices -/

/-- Names the slices that are kept. A fragment that is no asset slice is found out before the
matcher is asked about it. -/
def planSlices (s : Serializer μ ℓ π) (filter : DeviceFilter) :
    List Fragment → Run (Memory μ ℓ π ω) (List Job)
  | [] => return []
  | slice :: slices =>
    if slice.category ≠ .assetSlice then
      Run.fail (.internal (.notAnAssetSlice slice.category slice.module))
    else do
      if ← filter.keeps s.matcher slice then
        let job ← s.plan slice
        let jobs ← planSlices s filter slices
        return job :: jobs
      else planSlices s filter slices

/-- Writes the asset slices; the result has an entry for every module with slices that are kept. -/
def writeSlices (s : Serializer μ ℓ π) (writer : Writer ω)
    (schedule : (jobs : Nat) → Schedule jobs) (slices : List Fragment) (mode : BuildMode)
    (device : Option Device) : Run (Memory μ ℓ π ω) (List AssetSliceSet) := do
  let filter ← Run.ofExcept
    (DeviceFilter.slices s.bundle.config.effectiveStrippings device)
  let jobs ← s.planSlices filter slices
  let written ← Schedule.runAll jobs (schedule jobs.length) (s.store writer mode)
  Run.ofExcept
    ((AssetSliceSet.byModule ((jobs.map (·.1.module)).zip written)).mapM
      (AssetSliceSet.ofGroup s.bundle))

/-! ## Runs -/

/-- Tells that a serializer was set up. -/
def setUp (s : Serializer μ ℓ π) : Run (Memory μ ℓ π ω) Unit :=
  Run.notice (.created s.bundle.packageName s.options.poolSize)

/-- Writes everything that is asked for, and the table of contents at the end. -/
def build (s : Serializer μ ℓ π) (writer : Writer ω) (timing : Timing)
    (request : BuildRequest) : Run (Memory μ ℓ π ω) TableOfContents := do
  Run.notice (.started request.fragments.length request.assetSlices.length s.bundle.packageName
    request.mode)
  Run.startNaming s.assigner
  let variants ←
    s.writeFragments writer timing.fragments request.fragments request.mode request.device
  let assetSliceSets ←
    s.writeSlices writer timing.assetSlices request.assetSlices request.mode
      request.device
  let toc := TableOfContents.ofResults s.bundle variants assetSliceSets
    request.permanentlyFusedModules request.localTestingInfo
  Run.publish writer toc
  Run.notice (.finished toc.variants.length toc.assetSliceSets.length)
  return toc

end Serializer

end FragmentArchive
