import FragmentArchive.FileTree

/-!
# Destinations

The path of an artifact names a file below the root of an archive. It must not begin at the top of
the file system, go up, or begin with the directory itself; redundant separators further on are
harmless. A path whose name is followed by a separator or by the directory itself passes this test,
but no file can be put there.

A file is written under a temporary name beside its destination and moved there when it is complete.
The temporary name has the extension `tmp` in place of the last one.
-/

namespace FragmentArchive

/-- The place of a file below a root: a path taken apart at its last name. -/
structure Destination where
  /-- The pieces in front of the name. -/
  above : List String
  name : String
  /-- The pieces behind the name, which lead nowhere. -/
  behind : List String
deriving DecidableEq, Repr

namespace Destination

/-- Whether a path leads to a place below the root: it starts with a name and never goes up. -/
def staysInside (path : String) : Bool :=
  let pieces := Route.pieces path
  pieces.head? ≠ some "" && pieces.head? ≠ some "." && !pieces.contains ".."

/-- The destination that a path names, if it leads to a place below the root. -/
def ofPath? (path : String) : Option Destination :=
  if staysInside path then
    let reversed := (Route.pieces path).reverse
    match reversed.dropWhile Route.isRedundant with
    | name :: above =>
      some ⟨above.reverse, name, (reversed.takeWhile Route.isRedundant).reverse⟩
    | [] => none
  else none

/-- The pieces of the path of the folder, up to its own last name. -/
def folder (d : Destination) : List String :=
  (d.above.reverse.dropWhile Route.isRedundant).reverse

/-! ## Temporary names -/

/-- The part of a name before its last point; a point at the beginning does not count. -/
def stem (name : List Char) : List Char :=
  match (name.reverse.dropWhile (· ≠ '.')).drop 1 with
  | [] => name
  | before => before.reverse

/-- The temporary name beside a name. For a name of two points and an extension it is the name of
the directory above, unless something follows: the extension is cut off at the end of the path, and
then the point, when it stands there alone, is no extension any more. -/
def temporaryName (d : Destination) : String :=
  let stem := stem d.name.toList
  if stem = ['.'] ∧ d.behind = [] then ".."
  else String.ofList (stem ++ ['.', 't', 'm', 'p'])

/-! ## Writing -/

/-- Writes a file under its temporary name and then moves it to its destination. The root is written
in a number of bytes, the separator behind it included. Directories on the way are made, and remain
when the rest fails; the temporary file does not. -/
def write (d : Destination) (root : Location) (rootSize : Nat) (content : ByteArray)
    (t : FileTree) : Except FileFault Unit × FileTree :=
  match t.makeDirectories (.below root rootSize d.folder) with
  | (.error fault, made) => (.error fault, made)
  | (.ok (), made) =>
    let temporary := Route.below root rootSize (d.above ++ [d.temporaryName])
    match made.write temporary content with
    | .error fault => (.error fault, made)
    | .ok prepared =>
      match prepared.moveFile temporary (.below root rootSize (d.above ++ d.name :: d.behind)) with
      | .ok done => (.ok (), done)
      | .error fault => (.error fault, (prepared.removeFile temporary).toOption.getD prepared)

end Destination

end FragmentArchive
