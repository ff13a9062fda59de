import FragmentArchive.Command.Execution

/-!
# The program

Commands are carried out on a file tree, and this is where the tree comes from and goes to. What a
command can look at is read beforehand, and what it changed is written afterwards.
-/

namespace FragmentArchive

/-- The path of a location. -/
private def Location.path (location : Location) : String := "/" ++ "/".intercalate location

/-- The node at a location. -/
private def probe (location : Location) : IO (List (Location × FileTree.Node)) := do
  let place := (← IO.currentDir) / location.path
  if ← place.isDir then return [(location, .directory)]
  else if ← place.pathExists then return [(location, .file (← IO.FS.readBinFile place))]
  else return []

/-- The nodes that a route touches. -/
private def along (r : Route) : IO (List (Location × FileTree.Node)) := do
  let ends := (List.range (r.steps.length + 1)).map fun n ↦
    { r with steps := r.steps.take n }.location
  return (← ends.mapM probe).flatten

/-- The node at a location and everything below it. -/
private partial def survey (location : Location) : IO (List (Location × FileTree.Node)) := do
  let place := (← IO.currentDir) / location.path
  if ← place.isDir then
    let names := (← place.readDir).toList.map (·.fileName)
    let below ← names.mapM fun name ↦ survey (location ++ [name])
    return (location, .directory) :: below.flatten
  else probe location

/-- The part of the file system that a command can look at. -/
private def snapshot (workingDirectory : Location) (command : Command) : IO FileTree := do
  let nodes ← match command with
    | .build settings =>
      let output := Route.ofPath workingDirectory settings.output
      pure [← along (.ofPath workingDirectory settings.plan), ← along output,
        ← survey output.location]
    | .inspect archive =>
      pure [← along (.ofPath workingDirectory (DirectoryArchive.tablePath archive))]
    | _ => pure []
  let above ← along ⟨[], workingDirectory.map some, .nothing, 0⟩
  return .ofNodes (above ++ nodes.flatten)

/-- Makes the file system follow a change of the tree. -/
private def settle (before after : FileTree) : IO Unit := do
  for (location, _) in before.nodes do
    if (after.node? location).isNone then IO.FS.removeFile location.path
  for (location, node) in after.nodes do
    if (before.node? location).map (·.top) ≠ some node then
      match node with
      | .directory => IO.FS.createDir location.path
      | .file content => IO.FS.writeBinFile location.path content

/-- Carries out a command on the file system. -/
private def perform (command : Command) : IO Report := do
  let workingDirectory := (Route.ofPath [] (← IO.currentDir).toString).location
  let before ← snapshot workingDirectory command
  let (report, after) := command.carryOut workingDirectory before
  settle before after
  return report

end FragmentArchive

open FragmentArchive

/-- Does what the arguments ask for. Notices that matter to nobody but a developer are left out. -/
def main (arguments : List String) : IO UInt32 := do
  let report ← match Command.ofArguments arguments with
    | .ok command => perform command
    | .error cause => pure cause.report
  for notice in report.notices do
    if notice.severity ≠ .debug then IO.println notice.message
  IO.print report.output
  IO.eprint report.errors
  return .ofNat report.status.code
