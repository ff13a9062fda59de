import FragmentArchive.BuildConfig
import FragmentArchive.Manifest
import FragmentArchive.Names

/-!
# Bundles

A bundle is what fragments are generated from: a package with its modules and configuration.
Fragments refer to modules by name; where a bundle has several modules of one name, the first one
is meant.
-/

namespace FragmentArchive

open Json

/-- The kinds of bundle modules. -/
inductive ModuleType
  | feature
  | asset
deriving DecidableEq, Repr, Inhabited

def ModuleType.codec : Codec ModuleType := .choice [("FEATURE", feature), ("ASSET", asset)]

/-- The description of a module that stands next to its artifacts. -/
structure ModuleMetadata where
  name : String
  moduleType : ModuleType
  isInstant : Bool
  dependencies : List String
deriving DecidableEq, Repr, Inhabited

def ModuleMetadata.codec : Codec ModuleMetadata :=
  Record.codec "ModuleMetadata" default [
    .required "name" .string name fun x m ↦ { m with name := x },
    .required "module_type" ModuleType.codec moduleType fun x m ↦ { m with moduleType := x },
    .required "is_instant" .bool isInstant fun x m ↦ { m with isInstant := x },
    .leftOutWhen List.isEmpty "dependencies" (.list .string) dependencies
      fun x m ↦ { m with dependencies := x }]

/-- A module of a bundle. -/
structure BundleModule where
  name : ModuleName
  moduleType : ModuleType
  manifest : Manifest
  dependencies : List String
deriving DecidableEq, Inhabited

namespace BundleModule

def codec : Codec BundleModule :=
  Record.codec "BundleModule" default [
    .required "name" ModuleName.codec name fun x m ↦ { m with name := x },
    .withDefault "module_type" ModuleType.codec moduleType fun x m ↦ { m with moduleType := x },
    .required "manifest" Manifest.codec manifest fun x m ↦ { m with manifest := x },
    .withDefault "dependencies" (.list .string) dependencies
      fun x m ↦ { m with dependencies := x }]

/-- The module that depends on no other one. -/
def independent (name : ModuleName) (moduleType : ModuleType) (manifest : Manifest) :
    BundleModule :=
  ⟨name, moduleType, manifest, []⟩

/-- A module is instant when its manifest has the instant attribute or declares instant
delivery. -/
def isInstant (m : BundleModule) : Bool :=
  m.manifest.instant || m.manifest.instantDelivery.isSome

/-- The description of a module for the table of contents. -/
def metadata (m : BundleModule) : ModuleMetadata :=
  ⟨m.name.text, m.moduleType, m.isInstant, m.dependencies⟩

end BundleModule

/-- A package with its modules and configuration. -/
structure Bundle where
  packageName : String
  modules : List BundleModule
  config : BuildConfig
deriving DecidableEq, Inhabited

namespace Bundle

def codec : Codec Bundle :=
  Record.codec "Bundle" default [
    .required "package_name" .string packageName fun x b ↦ { b with packageName := x },
    .withDefault "modules" (.list BundleModule.codec) modules fun x b ↦ { b with modules := x },
    .withDefault "config" BuildConfig.codec config fun x b ↦ { b with config := x }]

/-- The bundle of a package without modules. -/
def ofPackage (packageName : String) : Bundle := { (default : Bundle) with packageName }

/-- The first module with a name. -/
def module? (b : Bundle) (name : ModuleName) : Option BundleModule :=
  b.modules.find? (·.name = name)

end Bundle

end FragmentArchive
