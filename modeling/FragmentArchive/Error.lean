import FragmentArchive.BuildMode
import FragmentArchive.FileTree
import FragmentArchive.Fragment

/-!
# Errors

An error says what went wrong; the wording is a function of that. Collaborators supplied from
outside have errors of their own, of which only the text is known, so every kind of error can also
be a mere report.
-/

namespace FragmentArchive

/-! ## Causes -/

/-- The parts of a build do not fit together. -/
inductive InternalFault
  /-- A variant without number. -/
  | unnumbered (key : VariantKey)
  /-- A module with a fragment for which there is no artifact. -/
  | unwritten (module : ModuleName)
  /-- Jobs that were not done although none failed. -/
  | skipped (jobs : Nat)
  /-- A module that fragments refer to but the bundle does not have. -/
  | unknownModule (module : ModuleName)
  /-- A fragment of another category among the asset slices. -/
  | notAnAssetSlice (category : Category) (module : ModuleName)
  /-- A category that the build mode rules out. -/
  | forbidden (mode : BuildMode) (category : Category)
  | reported (text : String)
deriving DecidableEq, Repr

/-- Why the default suffix of the device tier is no tier. -/
inductive TierFault
  | invalidDigit
  | tooLarge
  | tooSmall
deriving DecidableEq, Repr

/-- The configuration cannot be used. -/
inductive ConfigurationFault
  /-- More variants than there are numbers from the first one on. -/
  | numberRange (variants : Nat) (first : UInt32)
  | deviceTier (suffix : String) (fault : TierFault)
  | reported (text : String)
deriving DecidableEq, Repr

/-- An artifact could not be written. -/
inductive WriteFault
  /-- The path does not lead to a place inside the archive. -/
  | escaping
  /-- The path was used before. -/
  | taken
  | file (fault : FileFault)
  | reported (text : String)
deriving DecidableEq, Repr

/-- An operation on files failed. -/
inductive IoFault
  | file (fault : FileFault)
  | reported (text : String)
deriving DecidableEq, Repr

/-- A document could not be read from its file. -/
inductive DocumentFault
  /-- The file was found, but its content could not be had. -/
  | file (fault : FileFault)
  | text (error : Json.ReadError)
deriving DecidableEq, Repr

/-- Everything that can go wrong. -/
inductive Error
  | internal (fault : InternalFault)
  | modifier (text : String)
  | matcher (text : String)
  | serialization (path : String) (fault : WriteFault)
  | configuration (fault : ConfigurationFault)
  | threadPool (text : String)
  | io (fault : IoFault)
  | document (fault : DocumentFault)
deriving DecidableEq, Repr

/-! ## Wording -/

/-- What the fragments of a build mode are expected to be. -/
def BuildMode.expectation : BuildMode → String
  | .default => "system fragments can only be set in system mode"
  | .universal => "universal builds expect only standalone fragments"
  | .system => "system mode expects only system fragments"
  | .persistent => "system and instant fragments are not expected in persistent mode"
  | .instant => "system and persistent fragments are not expected in instant mode"
  | .archive => "archive mode expects only hibernated fragments"

namespace VariantKey

private def categoryName : Category → String
  | .split => "Split"
  | .instant => "Instant"
  | .standalone => "Standalone"
  | .system => "System"
  | .assetSlice => "AssetSlice"
  | .hibernation => "Hibernation"

private def bracketed (items : List String) : String := "[" ++ ", ".intercalate items ++ "]"

/-- A key with all its parts, as it is shown in internal errors. -/
def inspect (key : VariantKey) : String :=
  let targeting := key.targeting
  let minSdk := match targeting.minSdk with
    | none => "None"
    | some sdk => "Some(" ++ Decimal.ofNat sdk.toNat ++ ")"
  "VariantKey \x7b category: " ++ categoryName key.category
    ++ ", targeting: VariantTargeting \x7b min_sdk: " ++ minSdk
    ++ ", abis: " ++ bracketed (targeting.abis.map Quoted.string)
    ++ ", screen_densities: "
    ++ bracketed (targeting.screenDensities.map fun d ↦ Decimal.ofNat d.toNat)
    ++ ", texture_formats: " ++ bracketed (targeting.textureFormats.map Quoted.string)
    ++ " \x7d \x7d"

end VariantKey

def InternalFault.message : InternalFault → String
  | .unnumbered key => "No variant number assigned to " ++ key.inspect
  | .unwritten module =>
    "No artifact was written for a fragment of module '" ++ module.text ++ "'"
  | .skipped jobs => Decimal.ofNat jobs ++ " tasks were skipped without a recorded failure"
  | .unknownModule module => "Module '" ++ module.text ++ "' is not part of the bundle"
  | .notAnAssetSlice category module =>
    "Unexpected " ++ category.text ++ " fragment of module '" ++ module.text
      ++ "' among asset slices"
  | .forbidden mode category =>
    mode.expectation ++ " (found " ++ category.text ++ " fragments)"
  | .reported text => text

def TierFault.message : TierFault → String
  | .invalidDigit => "invalid digit found in string"
  | .tooLarge => "number too large to fit in target type"
  | .tooSmall => "number too small to fit in target type"

def ConfigurationFault.message : ConfigurationFault → String
  | .numberRange variants first =>
    Decimal.ofNat variants ++ " variants numbered from " ++ Decimal.ofNat first.toNat
      ++ " exceed the variant number range"
  | .deviceTier suffix fault =>
    "Invalid default device tier '" ++ suffix ++ "': " ++ fault.message
  | .reported text => text

def WriteFault.message : WriteFault → String
  | .escaping => "artifact path must be relative and stay inside the archive"
  | .taken => "path already written"
  | .file fault => fault.message
  | .reported text => text

def IoFault.message : IoFault → String
  | .file fault => fault.message
  | .reported text => text

/-- A flaw of notation is named by its class alone. -/
def DocumentFault.message : DocumentFault → String
  | .file fault => fault.message
  | .text (.mismatch cause) => cause.message
  | .text (.flaw .malformed) => "malformed text"
  | .text (.flaw .truncated) => "truncated text"

/-- An error in words. -/
def Error.message : Error → String
  | .internal fault => "Internal error: " ++ fault.message
  | .modifier text => "Manifest modification failed: " ++ text
  | .matcher text => "Device matching failed: " ++ text
  | .serialization path fault => "Failed to serialize '" ++ path ++ "': " ++ fault.message
  | .configuration fault => "Configuration error: " ++ fault.message
  | .threadPool text => "Thread pool error: " ++ text
  | .io fault => "I/O error: " ++ fault.message
  | .document fault => "JSON error: " ++ fault.message

end FragmentArchive
