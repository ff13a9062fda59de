import FragmentArchive.Collaborator

/-!
# Names of artifacts

An artifact is named after the directory of its category, its module and its role or targeting;
this is the *stem* of the name. Different fragments can have the same stem, and then the second
one to be named gets the number 2 behind its stem, the third the number 3, and so on. A fragment
that is named again keeps its name.

The names given so far are the whole memory of a naming. In particular the number of a new name is
not counted separately, it is the number of names that were given for the stem.
-/

namespace FragmentArchive

/-- The part of a name that says what a fragment is. -/
def Fragment.stem (f : Fragment) : String :=
  let module := f.module.text
  let role := if f.isMaster then "master" else f.targeting.suffix?.getD "config"
  match f.category with
  | .split => "splits/" ++ module ++ "-" ++ role
  | .instant => "instant/instant-" ++ module ++ "-" ++ role
  | .standalone =>
    match f.targeting.suffix? with
    | some suffix => "standalones/standalone-" ++ suffix
    | none => "standalones/standalone"
  | .system =>
    if f.isBaseModule && f.isMaster then "system/system" else "splits/" ++ module ++ "-" ++ role
  | .assetSlice => "asset-slices/" ++ module ++ "-" ++ role
  | .hibernation => "hibernation/" ++ module ++ "-" ++ role

/-- The fragments named in a run, in the order in which they were named, with their names. -/
structure Naming where
  given : List (Fragment × ArchivePath)
deriving DecidableEq

namespace Naming

/-- The beginning of a run. -/
def empty : Naming := ⟨[]⟩

instance : EmptyCollection Naming := ⟨empty⟩

instance : Inhabited Naming := ⟨empty⟩

/-- The number of fragments named so far that have a stem. -/
def count (n : Naming) (stem : String) : Nat := n.given.countP (·.1.stem = stem)

/-- The name of a fragment with a stem, when there are already some. -/
def pathFor (stem : String) (earlier : Nat) : ArchivePath :=
  ⟨stem ++ (if earlier = 0 then "" else "_" ++ Decimal.ofNat (earlier + 1)) ++ ".apk"⟩

/-- Names a fragment. -/
def path (f : Fragment) (n : Naming) : ArchivePath × Naming :=
  match n.given.lookup f with
  | some path => (path, n)
  | none =>
    let path := pathFor f.stem (n.count f.stem)
    (path, ⟨n.given ++ [(f, path)]⟩)

/-- The path assigner that names artifacts in this way. -/
def standard : PathAssigner Naming where
  restart _ := ∅
  path

end Naming

end FragmentArchive
