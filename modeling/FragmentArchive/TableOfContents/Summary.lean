import FragmentArchive.TableOfContents

/-!
# Summaries of tables of contents

What a table of contents says, line by line: the package, then each variant with its modules and
their artifacts, then each asset module with its slices.
-/

namespace FragmentArchive

/-- A delivery type in a summary. -/
def DeliveryType.label : DeliveryType → String
  | .installTime => "InstallTime"
  | .onDemand => "OnDemand"
  | .fastFollow => "FastFollow"

/-- A line for each artifact. -/
def ArtifactDescriptor.summary (descriptors : List ArtifactDescriptor) : List String :=
  descriptors.map fun d ↦ "    " ++ d.path.text

def ArtifactSet.summary (s : ArtifactSet) : List String :=
  ("  " ++ s.moduleMetadata.name) :: ArtifactDescriptor.summary s.descriptors

def Variant.summary (v : Variant) : List String :=
  ("Variant " ++ Decimal.ofNat v.number.toNat ++ ":") :: v.artifactSets.flatMap (·.summary)

def AssetSliceSet.summary (s : AssetSliceSet) : List String :=
  ("Asset module " ++ s.metadata.name ++ " (" ++ s.metadata.deliveryType.label ++ "):")
    :: ArtifactDescriptor.summary s.descriptors

/-- The lines of a summary. -/
def TableOfContents.summary (toc : TableOfContents) : List String :=
  ["Package: " ++ toc.packageName, "Tool version: " ++ toc.toolVersion.text]
    ++ toc.variants.flatMap (·.summary)
    ++ toc.assetSliceSets.flatMap (·.summary)
    ++ if toc.permanentlyFusedModules.isEmpty then []
      else ["Permanently fused: " ++ ", ".intercalate toc.permanentlyFusedModules]

end FragmentArchive
