import FragmentArchive.Json.Codec

/-!
# Names

Module names and archive paths are both free-form strings, and they are kept apart because a value
of one is never meant where the other is expected. Both are ordered like their strings, by code
point, which is also the order of their UTF-8 bytes.
-/

open Std

namespace FragmentArchive

/-- The name of a bundle module. -/
structure ModuleName where
  text : String
deriving DecidableEq, Repr, Inhabited

/-- A place inside the archive, as a path relative to its root. -/
structure ArchivePath where
  text : String
deriving DecidableEq, Repr, Inhabited

namespace ModuleName

/-- The name of the module that every bundle is built around. -/
def base : ModuleName := ⟨"base"⟩

/-- Whether this is the base module. -/
def isBase (m : ModuleName) : Bool := m = base

instance : Ord ModuleName := ⟨compareOn text⟩

instance : TransOrd ModuleName := inferInstanceAs (TransCmp (compareOn text))

instance : LawfulEqOrd ModuleName where
  compare_self {a} := compare_self (a := a.text)
  eq_of_compare {a b} h := by
    cases a
    cases b
    exact congrArg mk (LawfulEqOrd.eq_of_compare h)

def codec : Json.Codec ModuleName := Json.Codec.string.via text mk

end ModuleName

namespace ArchivePath

instance : Ord ArchivePath := ⟨compareOn text⟩

instance : TransOrd ArchivePath := inferInstanceAs (TransCmp (compareOn text))

instance : LawfulEqOrd ArchivePath where
  compare_self {a} := compare_self (a := a.text)
  eq_of_compare {a b} h := by
    cases a
    cases b
    exact congrArg mk (LawfulEqOrd.eq_of_compare h)

def codec : Json.Codec ArchivePath := Json.Codec.string.via text mk

end ArchivePath

end FragmentArchive
