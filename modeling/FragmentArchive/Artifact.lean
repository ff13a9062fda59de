import FragmentArchive.Names
import FragmentArchive.Targeting

/-!
# Artifacts

An artifact is what has become of a fragment in the archive. Its descriptor is the writer's answer
to the request to write the fragment, and goes into the table of contents as it is.
-/

namespace FragmentArchive

open Json

/-- The operations by which artifacts are added to an archive. -/
inductive ArtifactKind
  | split
  | instant
  | standalone
  | universal
  | system
  | assetSlice
  | hibernated
deriving DecidableEq, Repr, Inhabited

def ArtifactKind.codec : Codec ArtifactKind :=
  .choice [("SPLIT", split), ("INSTANT", instant), ("STANDALONE", standalone),
    ("UNIVERSAL", universal), ("SYSTEM", system), ("ASSET_SLICE", assetSlice),
    ("HIBERNATED", hibernated)]

/-- Where and how a fragment was written. -/
structure ArtifactDescriptor where
  path : ArchivePath
  kind : ArtifactKind
  targeting : DeviceTargeting
  splitId : Option String
  isMasterSplit : Bool
  size : UInt64
  sha256 : String
deriving DecidableEq, Repr, Inhabited

def ArtifactDescriptor.codec : Codec ArtifactDescriptor :=
  Record.codec "ArtifactDescriptor" default [
    .required "path" ArchivePath.codec path fun x d ↦ { d with path := x },
    .required "kind" ArtifactKind.codec kind fun x d ↦ { d with kind := x },
    .withDefault "targeting" DeviceTargeting.codec targeting fun x d ↦ { d with targeting := x },
    .optional "split_id" .string splitId fun x d ↦ { d with splitId := x },
    .withDefault "is_master_split" .bool isMasterSplit fun x d ↦ { d with isMasterSplit := x },
    .withDefault "size" .uint64 size fun x d ↦ { d with size := x },
    .leftOutWhen String.isEmpty "sha256" .string sha256 fun x d ↦ { d with sha256 := x }]

end FragmentArchive
