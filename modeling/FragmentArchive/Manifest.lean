import FragmentArchive.Json.Record

/-!
# Manifests

Every fragment and every bundle module carries a manifest: the identity of the package, how the
module is delivered, and free-form attributes. Attributes are kept in the order of their names, so
manifests with the same attributes are equal whatever order they were set in.
-/

namespace FragmentArchive

open Json

/-- The ways of delivery that a module declares. -/
structure DeliveryElement where
  installTime : Bool
  onDemand : Bool
  fastFollow : Bool
deriving DecidableEq, Ord, Repr

namespace DeliveryElement

/-- The element that declares nothing. -/
def none : DeliveryElement := ⟨false, false, false⟩

instance : Inhabited DeliveryElement := ⟨none⟩

/-- Delivery when the user asks for it. -/
def demanded : DeliveryElement := { none with onDemand := true }

/-- Delivery right after the installation. -/
def following : DeliveryElement := { none with fastFollow := true }

/-- Delivery with the installation. -/
def installed : DeliveryElement := { none with installTime := true }

def codec : Codec DeliveryElement :=
  Record.codec "DeliveryElement" none [
    .withDefault "install_time" .bool installTime fun x d ↦ { d with installTime := x },
    .withDefault "on_demand" .bool onDemand fun x d ↦ { d with onDemand := x },
    .withDefault "fast_follow" .bool fastFollow fun x d ↦ { d with fastFollow := x }]

end DeliveryElement

/-- The manifest of a fragment or module. -/
structure Manifest where
  packageName : String
  versionCode : Int64
  splitId : Option String
  /-- Whether the module declaration has the instant attribute. -/
  instant : Bool
  delivery : Option DeliveryElement
  instantDelivery : Option DeliveryElement
  attributes : SortedMap String String
deriving DecidableEq, Ord

namespace Manifest

/-- The manifest that says nothing but the package name. -/
def ofPackage (packageName : String) : Manifest := ⟨packageName, 0, none, false, none, none, ∅⟩

instance : Inhabited Manifest := ⟨ofPackage ""⟩

def codec : Codec Manifest :=
  Record.codec "Manifest" default [
    .required "package_name" .string packageName fun x m ↦ { m with packageName := x },
    .withDefault "version_code" .int64 versionCode fun x m ↦ { m with versionCode := x },
    .optional "split_id" .string splitId fun x m ↦ { m with splitId := x },
    .withDefault "instant" .bool instant fun x m ↦ { m with instant := x },
    .optional "delivery" DeliveryElement.codec delivery fun x m ↦ { m with delivery := x },
    .optional "instant_delivery" DeliveryElement.codec instantDelivery
      fun x m ↦ { m with instantDelivery := x },
    .leftOutWhen SortedMap.isEmpty "attributes" (.map .string) attributes
      fun x m ↦ { m with attributes := x }]

end Manifest

end FragmentArchive
