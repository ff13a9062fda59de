import FragmentArchive.Collaborator
import FragmentArchive.DirectoryArchive.Destination
import FragmentArchive.Sha256

/-!
# Archives in directories

An archive can be a directory: each artifact is a file that holds its fragment as a compact
document, and the table of contents is an indented document beside them. The descriptor of an
artifact has the size and the digest of exactly these bytes.

An opened archive remembers the paths it was asked to write and refuses to write one of them twice.
It does not remember what earlier sessions wrote, so opening an archive again allows everything to
be written again.
-/

namespace FragmentArchive

open Json

/-- A directory opened as an archive, together with the file tree it is part of. -/
structure DirectoryArchive where
  /-- The root as it was spelt when the archive was opened. -/
  root : String
  location : Location
  tree : FileTree
  /-- The paths that were asked for since the archive was opened. -/
  written : List ArchivePath

namespace DirectoryArchive

/-- The file name of the table of contents. -/
def tableName : String := "toc.json"

/-- Where the only artifact of a universal build is put. -/
def universalPath : ArchivePath := ⟨"universal.apk"⟩

/-- The place of the table of contents. -/
def tableDestination : Destination := ⟨[], tableName, []⟩

/-- The path of the table of contents, in the spelling of the root. -/
def tablePath (root : String) : String := Route.join root tableName

/-- Opens a directory as an archive and makes it if need be. The tree is returned also on failure,
since directories above may have been made. -/
def establish (workingDirectory : Location) (root : String) (tree : FileTree) :
    Except Error (DirectoryArchive × Notice) × FileTree :=
  let route := Route.ofPath workingDirectory root
  match tree.makeDirectories route with
  | (.ok (), tree) => (.ok (⟨root, route.location, tree, []⟩, .opened root), tree)
  | (.error fault, tree) => (.error (.io (.file fault)), tree)

/-- The number of bytes in which the root is written in front of a path. -/
def rootSize (archive : DirectoryArchive) : Nat := (Route.join archive.root "").utf8ByteSize

/-- Writes a file at a place below the root. -/
def write (d : Destination) (content : ByteArray) (archive : DirectoryArchive) :
    Except FileFault Unit × DirectoryArchive :=
  let (result, tree) := d.write archive.location archive.rootSize content archive.tree
  (result, { archive with tree })

/-- The bytes that are stored for a fragment. -/
def payload (f : Fragment) : ByteArray := (Fragment.codec.compact f).toUTF8

/-- The description of a fragment that was stored. -/
def describe (f : Fragment) (kind : ArtifactKind) (path : ArchivePath) : ArtifactDescriptor where
  path
  kind
  targeting := f.targeting
  splitId := f.manifest.splitId
  isMasterSplit := f.isMaster
  size := .ofNat (payload f).size
  sha256 := Sha256.hexDigest (payload f).toList

/-- Stores a fragment. A path is used up by the attempt, whether it succeeds or not. -/
def add (call : WriteCall) (archive : DirectoryArchive) :
    Reply DirectoryArchive ArtifactDescriptor :=
  let path := call.path.getD universalPath
  let refuse (fault : WriteFault) : Except Error ArtifactDescriptor :=
    .error (.serialization path.text fault)
  match Destination.ofPath? path.text with
  | none => .silent (refuse .escaping) archive
  | some destination =>
    if path ∈ archive.written then .silent (refuse .taken) archive
    else
      let archive := { archive with written := path :: archive.written }
      match archive.write destination (payload call.fragment) with
      | (.error fault, archive) => .silent (refuse (.file fault)) archive
      | (.ok (), archive) =>
        let descriptor := describe call.fragment call.kind path
        ⟨.ok descriptor, archive, [.stored path descriptor.size.toNat descriptor.sha256]⟩

/-- Stores the table of contents. -/
def publish (toc : TableOfContents) (archive : DirectoryArchive) :
    Reply DirectoryArchive Unit :=
  match archive.write tableDestination (TableOfContents.codec.indented toc).toUTF8 with
  | (.error fault, archive) => .silent (.error (.io (.file fault))) archive
  | (.ok (), archive) => ⟨.ok (), archive, [.published (tablePath archive.root)]⟩

/-- A writer that stores everything in a directory. -/
def writer : Writer DirectoryArchive := ⟨add, publish⟩

/-! ## Reading -/

/-- Reads a document from an open file. -/
def readDocument {α : Type} (codec : Codec α) : FileTree → Except DocumentFault α
  | .directory _ => .error (.file .isDirectory)
  | .file content =>
    match String.fromUTF8? content with
    | none => .error (.text (.flaw .malformed))
    | some text => (codec.parse text).mapError .text

/-- Reads the table of contents of the archive with a root. -/
def readTable (workingDirectory : Location) (root : String) (tree : FileTree) :
    Except Error TableOfContents :=
  match tree.openRoute (.ofPath workingDirectory (tablePath root)) with
  | .error fault => .error (.io (.file fault))
  | .ok file => (readDocument TableOfContents.codec file).mapError .document

end DirectoryArchive

end FragmentArchive
