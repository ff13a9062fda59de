import FragmentArchive.Json.Record

/-!
# Devices

The description of one concrete device that an archive can be built for.
-/

namespace FragmentArchive

open Json

/-- The capabilities of a device. -/
structure Device where
  sdkVersion : UInt32
  abis : List String
  screenDensity : UInt32
  locales : List String
  textureFormats : List String
  deviceTier : Option Int32
  countrySet : Option String
deriving DecidableEq, Inhabited

def Device.codec : Codec Device :=
  Record.codec "DeviceSpec" default [
    .withDefault "sdk_version" .uint32 sdkVersion fun x d ↦ { d with sdkVersion := x },
    .withDefault "abis" (.list .string) abis fun x d ↦ { d with abis := x },
    .withDefault "screen_density" .uint32 screenDensity fun x d ↦ { d with screenDensity := x },
    .withDefault "locales" (.list .string) locales fun x d ↦ { d with locales := x },
    .withDefault "texture_formats" (.list .string) textureFormats
      fun x d ↦ { d with textureFormats := x },
    .optional "device_tier" .int32 deviceTier fun x d ↦ { d with deviceTier := x },
    .optional "country_set" .string countrySet fun x d ↦ { d with countrySet := x }]

end FragmentArchive
