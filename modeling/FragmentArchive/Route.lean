/-!
# Routes

The path of a file is read as a route: where it starts, which steps it takes, and what is written
behind its last step. Redundant separators vanish, and so does the name of the directory itself
wherever a further step follows, because only a directory can be left by a further step. Behind the
last step it makes a difference: it asks for a directory that is already there, while a separator
asks for a directory that may yet be made.

Steps up stay in the route, since they lead nowhere when what they leave does not exist. The length
of the path stays as well, redundant separators included, because the operating system does not look
at paths that are too long.
-/

namespace FragmentArchive

/-- The names on the way from the top directory to a node. -/
abbrev Location := List String

/-- What is written behind the last name of a path. -/
inductive PathEnd
  | nothing
  | separator
  | sameDirectory
deriving DecidableEq, Repr

/-- A way from a directory to a node. -/
structure Route where
  start : Location
  /-- The names of nodes below; no name stands for the directory above. -/
  steps : List (Option String)
  ending : PathEnd
  /-- The number of bytes in which the path is written. -/
  size : Nat
deriving DecidableEq, Repr

namespace Route

/-! ## Paths as text -/

/-- The pieces of a path between its separators, empty ones included. -/
def pieces (path : String) : List String :=
  (path.toList.splitOn '/').map String.ofList

/-- Whether a piece leads nowhere. -/
def isRedundant (piece : String) : Bool := piece = "" || piece = "."

/-- The step that a piece of a path stands for. -/
def stepOf? (piece : String) : Option (Option String) :=
  if isRedundant piece then none
  else if piece = ".." then some none
  else some (some piece)

/-- What is written behind the last step of a path. -/
def endOf (pieces : List String) : PathEnd :=
  if (pieces.filter (· ≠ "")).getLast? = some "." then .sameDirectory
  else if pieces.getLast? = some "" then .separator
  else .nothing

/-- The route that a path describes from a working directory. -/
def ofPath (workingDirectory : Location) (path : String) : Route where
  start := if path.startsWith "/" then [] else workingDirectory
  steps := (pieces path).filterMap stepOf?
  ending := endOf (pieces path)
  size := path.utf8ByteSize

/-- The path of something below a directory. An absolute path stays as it is. -/
def join (directory path : String) : String :=
  if path.startsWith "/" then path
  else if directory = "" ∨ directory.endsWith "/" then directory ++ path
  else directory ++ "/" ++ path

/-- The route to what a path, given by its pieces, describes below a root that is itself written in
a number of bytes. -/
def below (root : Location) (rootSize : Nat) (pieces : List String) : Route where
  start := []
  steps := root.map some ++ pieces.filterMap stepOf?
  ending := endOf pieces
  size := rootSize + ("/".intercalate pieces).utf8ByteSize

/-- Whether a name on a route holds the character that ends names for the operating system. -/
def hasNul (r : Route) : Bool := r.steps.any (·.any (·.toList.contains '\x00'))

/-! ## Ends -/

/-- Takes a step from a location. The directory above the top one is the top one. -/
def advance (location : Location) : Option String → Location
  | some name => location ++ [name]
  | none => location.dropLast

/-- Where a route ends. -/
def location (r : Route) : Location := r.steps.foldl advance r.start

end Route

end FragmentArchive
