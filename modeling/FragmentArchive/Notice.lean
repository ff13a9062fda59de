import FragmentArchive.Artifact
import FragmentArchive.Error

/-!
# Notices

What a build tells about its progress. A notice says what happened; its severity and wording are
functions of that.
-/

namespace FragmentArchive

/-- How much attention a notice asks for. -/
inductive Severity
  | debug
  | info
  | warning
deriving DecidableEq, Repr

/-- Something worth telling about a build. -/
inductive Notice
  /-- A build plan is about to be read. -/
  | loading (plan : String)
  /-- A serializer was set up for a package. -/
  | created (package : String) (workers : Nat)
  /-- A run began. -/
  | started (fragments slices : Nat) (package : String) (mode : BuildMode)
  /-- The fragments were brought into their written form. -/
  | reduced (fragments variants artifacts : Nat)
  /-- The listener failed, which nobody minds. -/
  | unheard (path : ArchivePath) (error : Error)
  /-- An artifact was written; the talkative setting raises the severity. -/
  | written (verbose : Bool) (path : ArchivePath) (category : Category)
  /-- A run ended with a table of contents. -/
  | finished (variants sliceSets : Nat)
  /-- A directory was opened as an archive. -/
  | opened (root : String)
  /-- A file was put in place for an artifact. -/
  | stored (path : ArchivePath) (size : Nat) (sha256 : String)
  /-- The table of contents was put in place. -/
  | published (file : String)
deriving DecidableEq, Repr

namespace Notice

def severity : Notice → Severity
  | .created .. | .reduced .. | .opened .. | .stored .. | .written false .. => .debug
  | .loading _ | .started .. | .finished .. | .published .. | .written true .. => .info
  | .unheard .. => .warning

def message : Notice → String
  | .loading plan => "Loading build plan: " ++ plan
  | .created package workers =>
    "Created serializer for " ++ package ++ " with " ++ Decimal.ofNat workers ++ " workers"
  | .started fragments slices package mode =>
    "Serializing " ++ Decimal.ofNat fragments ++ " fragments and " ++ Decimal.ofNat slices
      ++ " asset slices for " ++ package ++ " (" ++ mode.text ++ " mode)"
  | .reduced fragments variants artifacts =>
    Decimal.ofNat fragments ++ " fragments in " ++ Decimal.ofNat variants
      ++ " variants reduce to " ++ Decimal.ofNat artifacts ++ " distinct artifacts"
  | .unheard path error =>
    "Finalization listener failed for '" ++ path.text ++ "': " ++ error.message
  | .written _ path category =>
    "'" ++ path.text ++ "' of type '" ++ category.text ++ "' was written"
  | .finished variants sliceSets =>
    "Wrote table of contents with " ++ Decimal.ofNat variants ++ " variants and "
      ++ Decimal.ofNat sliceSets ++ " asset slice sets"
  | .opened root => "Opened directory archive at " ++ root
  | .stored path size sha256 =>
    "Wrote " ++ path.text ++ " (" ++ Decimal.ofNat size ++ " bytes, sha256 " ++ sha256 ++ ")"
  | .published file => "Table of contents written to " ++ file

end Notice

end FragmentArchive
