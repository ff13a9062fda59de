import FragmentArchive.BuildPlan
import FragmentArchive.Command.Help
import FragmentArchive.DirectoryArchive
import FragmentArchive.TableOfContents.Summary

/-!
# Carrying out commands

A command is carried out on a file tree, from a working directory in it. What comes of it is a
report and the tree afterwards; a command that fails may have changed the tree too, since a build
writes its artifacts before it knows whether all goes well.
-/

namespace FragmentArchive

/-! ## Reports -/

/-- How a command ended. -/
inductive ExitStatus
  | success
  | failure
  /-- The arguments were not understood. -/
  | misuse
deriving DecidableEq, Repr

/-- The number that stands for a status. -/
def ExitStatus.code : ExitStatus → Nat
  | .success => 0
  | .failure => 1
  | .misuse => 2

/-- What a command tells. -/
structure Report where
  status : ExitStatus
  output : String
  errors : String
  notices : List Notice
deriving DecidableEq, Repr

/-- Lines with their ends. -/
def Report.lines (lines : List String) : String := String.join (lines.map (· ++ "\n"))

/-- The report of a command that succeeded. -/
def Report.success (output : List String) (notices : List Notice) : Report :=
  ⟨.success, lines output, "", notices⟩

/-- Why a command failed. -/
inductive CommandFault
  /-- There is no file for the build plan. -/
  | planNotOpened (plan : String) (fault : FileFault)
  | planNotRead (plan : String) (fault : DocumentFault)
  | tableNotRead (archive : String) (error : Error)
  | build (error : Error)
deriving DecidableEq, Repr

namespace CommandFault

/-- A fault in words. -/
def message : CommandFault → String
  | .planNotOpened plan _ => "Failed to open build plan " ++ plan
  | .planNotRead plan _ => "Failed to parse build plan " ++ plan
  | .tableNotRead archive _ => "Failed to read table of contents from " ++ archive
  | .build error => error.message

/-- What is behind a fault that does not speak for itself. -/
def cause? : CommandFault → Option String
  | .planNotOpened _ fault => some fault.message
  | .planNotRead _ fault => some fault.message
  | .tableNotRead _ error => some error.message
  | .build _ => none

/-- The report of a command that failed. -/
def report (fault : CommandFault) (notices : List Notice) : Report where
  status := .failure
  output := ""
  errors := Report.lines (("Error: " ++ fault.message) ::
    (match fault.cause? with
      | some cause => ["", "Caused by:", "    " ++ cause]
      | none => []))
  notices

end CommandFault

/-- The report about arguments that were not understood. -/
def Arguments.Misuse.report (cause : Misuse) : Report where
  status := .misuse
  output := ""
  errors := Report.lines ["error: " ++ cause.message, "", "For more information, try '--help'."]
  notices := []

/-! ## Builds -/

/-- Reads a build plan. -/
def BuildPlan.load (workingDirectory : Location) (path : String) (tree : FileTree) :
    Except CommandFault BuildPlan := do
  let file ← (tree.openPath workingDirectory path).mapError (.planNotOpened path)
  (DirectoryArchive.readDocument codec file).mapError (.planNotRead path)

namespace BuildSettings

/-- The settings of the serializer. Jobs are done one by one here, so one worker is all that is
available when no number is given. -/
def options (settings : BuildSettings) : Options where
  firstVariantNumber := settings.firstVariantNumber
  verbose := settings.verbose
  workers := settings.workers.getD 1

/-- The serializer of a plan: every device receives everything, and manifests stay as they are. -/
def serializer (settings : BuildSettings) (plan : BuildPlan) : Serializer Unit Unit Naming where
  bundle := plan.bundle
  options := settings.options
  matcher := .always
  modifier := .unchanged
  listener := .indifferent
  assigner := Naming.standard

/-- The one line that a build tells when all went well. -/
def conclusion (settings : BuildSettings) (toc : TableOfContents) : String :=
  "Wrote " ++ Decimal.ofNat toc.variants.length ++ " variants ("
    ++ Decimal.ofNat toc.artifactCount ++ " distinct artifacts) and "
    ++ Decimal.ofNat toc.assetSliceSets.length ++ " asset slice sets to " ++ settings.output

/-- The notices among the events of a run. -/
private def noticesOf (events : List Event) : List Notice :=
  events.filterMap fun
    | .noticed n => some n
    | _ => none

/-- Writes a plan into an archive. -/
def carryOut (settings : BuildSettings) (workingDirectory : Location) (tree : FileTree) :
    Report × FileTree :=
  let loading := [Notice.loading settings.plan]
  match BuildPlan.load workingDirectory settings.plan tree with
  | .error fault => (fault.report loading, tree)
  | .ok plan =>
    match DirectoryArchive.establish workingDirectory settings.output tree with
    | (.error e, tree) => (CommandFault.report (.build e) loading, tree)
    | (.ok (archive, opened), _) =>
      let serializer := settings.serializer plan
      let run : Run (Memory Unit Unit Naming DirectoryArchive) TableOfContents := do
        serializer.setUp
        Run.notice opened
        serializer.build DirectoryArchive.writer .inOrder (plan.request settings.mode)
      let outcome := run ⟨(), (), ∅, archive⟩
      let notices := loading ++ noticesOf outcome.events
      let tree := outcome.memory.archive.tree
      match outcome.result with
      | .ok toc => (.success [settings.conclusion toc] notices, tree)
      | .error e => (CommandFault.report (.build e) notices, tree)

end BuildSettings

/-! ## Commands -/

/-- Tells what the table of contents of an archive says. -/
def inspectArchive (archive : String) (workingDirectory : Location) (tree : FileTree) : Report :=
  match DirectoryArchive.readTable workingDirectory archive tree with
  | .ok toc => .success toc.summary []
  | .error e => CommandFault.report (.tableNotRead archive e) []

namespace Command

/-- Carries out a command. -/
def carryOut (command : Command) (workingDirectory : Location) (tree : FileTree) :
    Report × FileTree :=
  match command with
  | .greet => (.success greeting [], tree)
  | .version => (.success [versionLine] [], tree)
  | .help topic => (.success topic.manual [], tree)
  | .completions shell => (.success shell.script [], tree)
  | .inspect archive => (inspectArchive archive workingDirectory tree, tree)
  | .build settings => settings.carryOut workingDirectory tree

/-- Carries out what the arguments of the program ask for. -/
def call (arguments : List String) (workingDirectory : Location) (tree : FileTree) :
    Report × FileTree :=
  match ofArguments arguments with
  | .ok command => command.carryOut workingDirectory tree
  | .error cause => (cause.report, tree)

end Command

end FragmentArchive
