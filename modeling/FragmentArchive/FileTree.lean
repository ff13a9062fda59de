import FragmentArchive.Route

/-!
# File trees

The part of a file system that a build can touch: directories and files below one top directory,
without symbolic links and without permissions. A directory keeps its entries in the order of their
names, so trees with the same files and directories are equal.

The operations are the usual ones of an operating system, and fail in the usual order: a path that
cannot be given to the operating system at all is refused, then the way is walked from the top, and
the first name that is missing, too long or not a directory decides. Each operation that changes the
tree returns the tree together with its success, because making a chain of directories can fail
halfway and what was made remains.
-/

namespace FragmentArchive

/-! ## Faults -/

/-- Why an operation on files failed. -/
inductive FileFault
  | missing
  | busy
  | exists
  | notDirectory
  | isDirectory
  /-- A name is too long, or the path as a whole is. -/
  | nameTooLong
  /-- A name holds the character that ends names for the operating system. -/
  | nameWithNul
deriving DecidableEq, Repr

/-- A fault with the number by which the operating system knows it, if it got that far. -/
def FileFault.message : FileFault → String
  | .missing => "No such file or directory (os error 2)"
  | .busy => "Device or resource busy (os error 16)"
  | .exists => "File exists (os error 17)"
  | .notDirectory => "Not a directory (os error 20)"
  | .isDirectory => "Is a directory (os error 21)"
  | .nameTooLong => "File name too long (os error 36)"
  | .nameWithNul => "file name contained an unexpected NUL byte"

/-! ## Trees -/

/-- A file with its bytes, or a directory with what it holds. -/
inductive FileTree
  | file (content : ByteArray)
  | directory (entries : List (String × FileTree))

namespace FileTree

/-- The directory that holds nothing. -/
def empty : FileTree := .directory []

instance : EmptyCollection FileTree := ⟨empty⟩

instance : Inhabited FileTree := ⟨empty⟩

/-- What stands at a location. -/
def node? : FileTree → Location → Option FileTree
  | t, [] => some t
  | .file _, _ :: _ => none
  | .directory entries, name :: rest => (entries.lookup name).bind (·.node? rest)

/-- Puts something under a name, or takes away what is there. -/
def setEntry (name : String) (t : Option FileTree) (entries : List (String × FileTree)) :
    List (String × FileTree) :=
  entries.filter (·.1 < name) ++ (t.map fun t ↦ (name, t)).toList ++ entries.filter (name < ·.1)

/-- Changes what stands at a location, when the directory above is there. -/
def alter (f : Option FileTree → Option FileTree) :
    Location → Option FileTree → Option FileTree
  | [], t => f t
  | name :: rest, some (.directory entries) =>
    some (.directory (setEntry name (alter f rest (entries.lookup name)) entries))
  | _ :: _, t => t

/-- Puts something at a location, whatever is there. -/
def put (t : FileTree) (location : Location) (node : FileTree) : FileTree :=
  (alter (fun _ ↦ some node) location (some t)).getD t

/-- Takes away what stands at a location. -/
def remove (t : FileTree) (location : Location) : FileTree :=
  (alter (fun _ ↦ none) location (some t)).getD t

/-! ## Walking -/

/-- The number of bytes up to which a name is accepted. -/
def nameLimit : Nat := 255

/-- The number of bytes up to which a path is accepted. -/
def pathLimit : Nat := 4095

/-- Takes steps, through directories, and tells where they lead and what is there. The names on the
way so far come in reverse, with what stands there. -/
def walkOn (t : FileTree) :
    List String → Option FileTree → List (Option String) →
      Except FileFault (Location × Option FileTree)
  | trail, here, [] => .ok (trail.reverse, here)
  | _, none, _ :: _ => .error .missing
  | _, some (.file _), _ :: _ => .error .notDirectory
  | trail, some (.directory entries), some name :: steps =>
    if nameLimit < name.utf8ByteSize then .error .nameTooLong
    else walkOn t (name :: trail) (entries.lookup name) steps
  | trail, some (.directory _), none :: steps =>
    walkOn t trail.tail (t.node? trail.tail.reverse) steps

/-- Walks along a route, whatever its ending asks for. -/
def walk (t : FileTree) (r : Route) : Except FileFault (Location × Option FileTree) :=
  t.walkOn r.start.reverse (t.node? r.start) r.steps

/-- Why a path is refused before anybody looks where it leads. -/
def refusal? (r : Route) : Option FileFault :=
  if r.hasNul then some .nameWithNul
  else if pathLimit < r.size then some .nameTooLong
  else none

/-- Follows a route to its end, where there may be nothing, and tells what is there. -/
def follow (t : FileTree) (r : Route) : Except FileFault (Location × Option FileTree) :=
  match refusal? r with
  | some fault => .error fault
  | none => do
    let found ← t.walk r
    match found.2, r.ending with
    | some (.file _), .separator | some (.file _), .sameDirectory => throw .notDirectory
    | none, .sameDirectory => throw .missing
    | _, _ => return found

/-! ## Files -/

/-- Opens the file at the end of a route; directories can be opened too. -/
def openRoute (t : FileTree) (r : Route) : Except FileFault FileTree := do
  match (← t.follow r).2 with
  | some node => return node
  | none => throw .missing

/-- Opens the file that a path describes. The empty path describes none. -/
def openPath (t : FileTree) (workingDirectory : Location) (path : String) :
    Except FileFault FileTree :=
  if path = "" then .error .missing else t.openRoute (.ofPath workingDirectory path)

/-- The content of the file at the end of a route. -/
def read (t : FileTree) (r : Route) : Except FileFault ByteArray := do
  match ← t.openRoute r with
  | .file content => return content
  | .directory _ => throw .isDirectory

/-- Makes the file at the end of a route or replaces its content. A name with a separator behind it
is taken for that of a directory, even when there is none. -/
def write (t : FileTree) (r : Route) (content : ByteArray) : Except FileFault FileTree := do
  if let some fault := refusal? r then throw fault
  if r.ending = .separator then
    let _ ← t.follow { r with steps := r.steps.dropLast, ending := .sameDirectory }
    throw .isDirectory
  match ← t.follow r with
  | (_, some (.directory _)) => throw .isDirectory
  | (location, _) => return t.put location (.file content)

/-- Removes the file at the end of a route. -/
def removeFile (t : FileTree) (r : Route) : Except FileFault FileTree := do
  match ← t.follow r with
  | (location, some (.file _)) => return t.remove location
  | (_, some (.directory _)) => throw .isDirectory
  | (_, none) => throw .missing

/-- Moves a file to the end of a route, replacing a file that stands there. Whatever is written
behind the name asks for a directory, which a file cannot become. -/
def moveFile (t : FileTree) (source destination : Route) : Except FileFault FileTree := do
  let content ← t.read source
  match destination.ending with
  | .nothing =>
    match ← t.follow destination with
    | (_, some (.directory _)) => throw .isDirectory
    | (location, _) =>
      let (place, _) ← t.follow source
      return (t.remove place).put location (.file content)
  | .separator =>
    let _ ← t.follow { destination with ending := .nothing }
    throw .notDirectory
  | .sameDirectory =>
    let _ ← t.follow destination
    throw .busy

/-! ## Making directories -/

/-- Makes the directory at the end of a route. -/
def makeDirectory (t : FileTree) (r : Route) : Except FileFault FileTree :=
  match t.follow r with
  | .ok (location, none) => .ok (t.put location empty)
  | .ok (_, some _) => .error .exists
  | .error .notDirectory =>
    -- A file that stands at the end is in the way whatever is written behind it.
    match t.walk r, r.ending with
    | .ok _, .separator => .error .exists
    | _, _ => .error .notDirectory
  | .error fault => .error fault

/-- Makes the directory at the end of a route, unless there is one. -/
def ensureDirectory (t : FileTree) (r : Route) : Except FileFault Unit × FileTree :=
  match t.makeDirectory r with
  | .ok made => (.ok (), made)
  | .error .exists =>
    match t.follow r with
    | .ok (_, some (.directory _)) => (.ok (), t)
    | _ => (.error .exists, t)
  | .error fault => (.error fault, t)

/-- Makes a directory, whose steps are given in reverse, with all directories above it that are
missing. -/
def makeReversed (t : FileTree) (r : Route) :
    List (Option String) → Except FileFault Unit × FileTree
  | [] => (.ok (), t)
  | step :: above =>
    let route := { r with steps := (step :: above).reverse }
    match t.makeDirectory route with
    | .error .missing =>
      match makeReversed t { r with ending := .nothing } above with
      | (.ok (), t) => t.ensureDirectory route
      | failed => failed
    | _ => t.ensureDirectory route

/-- Makes a directory together with all directories above it that are missing. On failure some of
them may have been made. -/
def makeDirectories (t : FileTree) (r : Route) : Except FileFault Unit × FileTree :=
  match refusal? r with
  | some fault => (.error fault, t)
  | none => t.makeReversed r r.steps.reverse

/-! ## Listing -/

/-- What stands at a place, without what is below. -/
inductive Node
  | file (content : ByteArray)
  | directory

instance : DecidableEq Node
  | .file a, .file b =>
    decidable_of_iff (a.data = b.data)
      ⟨fun h ↦ congrArg Node.file (ByteArray.ext h), fun h ↦ congrArg (·.data) (Node.file.inj h)⟩
  | .directory, .directory => isTrue rfl
  | .file _, .directory => isFalse nofun
  | .directory, .file _ => isFalse nofun

/-- A tree without what is below its top. -/
def top : FileTree → Node
  | .file content => .file content
  | .directory _ => .directory

mutual

/-- Everything below the top of a tree, by the names on the way from there; what is above comes
first. -/
def nodes : FileTree → List (Location × Node)
  | .file _ => []
  | .directory entries => entryNodes entries

/-- Everything that the entries of a directory lead to. -/
def entryNodes : List (String × FileTree) → List (Location × Node)
  | [] => []
  | (name, t) :: entries =>
    ([name], t.top) :: t.nodes.map (fun e ↦ (name :: e.1, e.2)) ++ entryNodes entries

end

/-- The tree with the given nodes. A node whose directory does not come before it is left out. -/
def ofNodes (nodes : List (Location × Node)) : FileTree :=
  nodes.foldl (fun t e ↦
    match t.node? e.1, e.2 with
    | none, .file content => t.put e.1 (.file content)
    | none, .directory => t.put e.1 empty
    | some _, _ => t) empty

end FileTree

end FragmentArchive
