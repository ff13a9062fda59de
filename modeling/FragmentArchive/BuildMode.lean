import FragmentArchive.Json.Codec

/-!
# Build modes

A run is made for one build mode, and its fragments were generated for that mode.
-/

namespace FragmentArchive

open Json

/-- What the fragments of a run were generated for. -/
inductive BuildMode
  | default
  | universal
  | system
  | persistent
  | instant
  | archive
deriving DecidableEq, Repr

namespace BuildMode

/-- All modes. -/
def all : List BuildMode := [default, universal, system, persistent, instant, archive]

/-- The name of a mode. -/
def text : BuildMode → String
  | default => "default"
  | universal => "universal"
  | system => "system"
  | persistent => "persistent"
  | instant => "instant"
  | archive => "archive"

/-- The mode with a given name, the case of ASCII letters aside. -/
def ofText (s : String) : Except String BuildMode :=
  match all.find? (·.text = String.ofList (s.toList.map Char.toLower)) with
  | some mode => .ok mode
  | none => .error ("Invalid build mode: " ++ s)

def codec : Codec BuildMode :=
  .choice [("DEFAULT", default), ("UNIVERSAL", universal), ("SYSTEM", system),
    ("PERSISTENT", persistent), ("INSTANT", instant), ("ARCHIVE", archive)]

end BuildMode

end FragmentArchive
