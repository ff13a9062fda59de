import FragmentArchive.Device
import FragmentArchive.Notice
import FragmentArchive.TableOfContents

/-!
# Collaborators

A build is carried out together with five collaborators that are supplied from outside: a matcher
decides which fragments a device receives, a modifier edits manifests, a path assigner names
artifacts, a writer stores them, and a listener is told about each stored artifact.

All of them may remember what they were asked. A collaborator is therefore a function that takes
its memory to its answer and its new memory, and the memories are kept apart: matcher and modifier
share one, since both are consulted about fragments and their questions interleave, and each of the
others has one of its own. What a listener does can thus be seen by nobody but the listener.
-/

namespace FragmentArchive

/-- What a collaborator answers: a result, what it remembers from now on, and its notices. -/
structure Reply (σ α : Type) where
  answer : Except Error α
  memory : σ
  notices : List Notice

/-- A reply without notices. -/
def Reply.silent {σ α : Type} (answer : Except Error α) (memory : σ) : Reply σ α :=
  ⟨answer, memory, []⟩

/-! ## Matcher -/

/-- Decides whether a device receives a fragment. -/
structure Matcher (μ : Type) where
  accepts : Fragment → Device → μ → Reply μ Bool

/-- The matcher by which every device receives everything. -/
def Matcher.always {μ : Type} : Matcher μ where
  accepts _ _ := .silent (.ok true)

/-! ## Modifier -/

/-- A fragment's role among the artifacts of its module. -/
inductive ArtifactType
  | standalone
  | masterSplit
  | configSplit
deriving DecidableEq, Repr

/-- A standalone fragment is nothing else, whether it is a master or not. -/
def ArtifactType.ofFragment (f : Fragment) : ArtifactType :=
  if f.category = .standalone then standalone
  else if f.isMaster then masterSplit
  else configSplit

/-- What a modifier is told about the fragment whose manifest it edits. -/
structure ModificationDescriptor where
  isBase : Bool
  artifactType : ArtifactType
  variantNumber : UInt32
  variantTargeting : VariantTargeting
  targeting : DeviceTargeting
deriving DecidableEq, Repr

/-- The description of a fragment for the modifier. -/
def ModificationDescriptor.ofFragment (f : Fragment) (variantNumber : UInt32) :
    ModificationDescriptor where
  isBase := f.isBaseModule
  artifactType := .ofFragment f
  variantNumber
  variantTargeting := f.variantTargeting
  targeting := f.targeting

/-- Edits the manifest of a fragment before it is written. -/
structure Modifier (μ : Type) where
  modify : Manifest → ModificationDescriptor → μ → Reply μ Manifest

/-- The modifier that leaves manifests as they are. -/
def Modifier.unchanged {μ : Type} : Modifier μ where
  modify manifest _ := .silent (.ok manifest)

/-! ## Path assigner -/

/-- Names artifacts. It is told when a run begins, and it never fails. -/
structure PathAssigner (π : Type) where
  restart : π → π
  path : Fragment → π → ArchivePath × π

/-! ## Writer -/

/-- A request to store a fragment: by which operation, and where. The place is left to the writer
by the operation for universal builds, which have only one artifact. -/
structure WriteCall where
  kind : ArtifactKind
  fragment : Fragment
  path : Option ArchivePath
deriving DecidableEq

/-- The operation for a fragment in a build mode. In system builds the master of the base module is
the fused system artifact, and the others are ordinary splits. -/
def WriteCall.forFragment (mode : BuildMode) (f : Fragment) (path : ArchivePath) : WriteCall :=
  match f.category with
  | .instant => ⟨.instant, f, path⟩
  | .split => ⟨.split, f, path⟩
  | .system => ⟨if f.isBaseModule && f.isMaster then .system else .split, f, path⟩
  | .standalone =>
    if mode = .universal then ⟨.universal, f, none⟩ else ⟨.standalone, f, path⟩
  | .assetSlice => ⟨.assetSlice, f, path⟩
  | .hibernation => ⟨.hibernated, f, path⟩

/-- Stores artifacts and, in the end, the table of contents. -/
structure Writer (ω : Type) where
  add : WriteCall → ω → Reply ω ArtifactDescriptor
  publish : TableOfContents → ω → Reply ω Unit

/-! ## Listener -/

/-- Is told about each artifact that was stored. -/
structure Listener (ℓ : Type) where
  hear : ArtifactDescriptor → ℓ → Reply ℓ Unit

/-- The listener that takes no notice. -/
def Listener.indifferent {ℓ : Type} : Listener ℓ where
  hear _ := .silent (.ok ())

end FragmentArchive
