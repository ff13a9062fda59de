import FragmentArchive.Serializer

/-!
# Build plans

A build plan is a document that holds a bundle and everything that was generated for it. Only the
bundle must be there.
-/

namespace FragmentArchive

open Json

/-- A bundle with what was generated for it. -/
structure BuildPlan where
  bundle : Bundle
  fragments : List Fragment
  assetSlices : List Fragment
  localTestingInfo : LocalTestingInfo
  permanentlyFusedModules : List ModuleName
deriving DecidableEq, Inhabited

namespace BuildPlan

def codec : Codec BuildPlan :=
  Record.codec "BuildPlan" default [
    .required "bundle" Bundle.codec bundle fun x p ↦ { p with bundle := x },
    .withDefault "fragments" (.list Fragment.codec) fragments fun x p ↦ { p with fragments := x },
    .withDefault "asset_slices" (.list Fragment.codec) assetSlices
      fun x p ↦ { p with assetSlices := x },
    .withDefault "local_testing_info" LocalTestingInfo.codec localTestingInfo
      fun x p ↦ { p with localTestingInfo := x },
    .withDefault "permanently_fused_modules" (.list ModuleName.codec) permanentlyFusedModules
      fun x p ↦ { p with permanentlyFusedModules := x }]

/-- The request to write a whole plan, for the whole fleet. -/
def request (plan : BuildPlan) (mode : BuildMode) : BuildRequest where
  fragments := plan.fragments
  assetSlices := plan.assetSlices
  mode
  device := none
  localTestingInfo := plan.localTestingInfo
  permanentlyFusedModules := plan.permanentlyFusedModules

end BuildPlan

end FragmentArchive
