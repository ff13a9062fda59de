import FragmentArchive.Command
import FragmentArchive.TableOfContents

/-!
# Texts about the program

What the program tells about itself: who it is, how it is used, and how a command interpreter
completes its commands.
-/

namespace FragmentArchive

/-- The name by which the program is called. -/
def programName : String := "splitset"

/-- The introduction for those who ask for nothing. -/
def greeting : List String :=
  ["Splitset Package Serializer v" ++ Version.current.text,
    "Run '" ++ programName ++ " --help' for usage information"]

/-- The name and version of the program. -/
def versionLine : String := programName ++ " " ++ Version.current.text

/-! ## Help -/

namespace Topic

/-- What a topic is about. -/
def about : Topic → String
  | .program => "Serialize generated package splits into an archive with a table of contents"
  | .build => "Serialize a build plan into an archive directory"
  | .inspect => "Summarize the table of contents of an archive directory"
  | .completions => "Generate shell completion scripts"
  | .help => "Print this message or the help of the given subcommand(s)"

/-- The form of the arguments. -/
def usage : Topic → String
  | .program => "[COMMAND]"
  | .build => "build [OPTIONS] <PLAN>"
  | .inspect => "inspect <ARCHIVE>"
  | .completions => "completions <SHELL>"
  | .help => "help [COMMAND]..."

/-- A command with what it is about, in two columns. -/
private def commandLine (command : Topic) : String :=
  "  " ++ String.ofList (command.name.toList.rightpad 13 ' ') ++ command.about

private def helpLines : List String := ["", "Options:", "  -h, --help  Print help"]

/-- The arguments one by one. -/
def details : Topic → List String
  | .program =>
    ["Commands:"] ++ commands.map commandLine ++
      ["", "Options:", "  -h, --help     Print help", "  -V, --version  Print version"]
  | .build =>
    ["Arguments:", "  <PLAN>  Path to the JSON build plan", "", "Options:",
      "  -o, --output <OUTPUT>",
      "          Output archive directory [default: out]",
      "  -m, --mode <MODE>",
      "          Build mode (" ++ ", ".intercalate (BuildMode.all.map (·.text))
        ++ ") [default: default]",
      "      --first-variant-number <FIRST_VARIANT_NUMBER>",
      "          Number given to the first variant [default: 0]",
      "  -w, --workers <WORKERS>",
      "          Worker threads (default: available parallelism)",
      "  -v, --verbose",
      "          Log every written artifact",
      "  -h, --help",
      "          Print help"]
  | .inspect => ["Arguments:", "  <ARCHIVE>  Archive directory"] ++ helpLines
  | .completions =>
    ["Arguments:", "  <SHELL>  Shell type [possible values: "
      ++ ", ".intercalate (Shell.all.map (·.name)) ++ "]"] ++ helpLines
  | .help => ["Arguments:", "  [COMMAND]...  Print help for the subcommand(s)"]

/-- The help about a topic. -/
def manual (topic : Topic) : List String :=
  [topic.about, "", "Usage: " ++ programName ++ " " ++ topic.usage, ""] ++ topic.details

end Topic

/-! ## Completion -/

/-- A script by which a command interpreter completes the names of the commands. -/
def Shell.script (shell : Shell) : List String :=
  let words := " ".intercalate (Topic.commands.map (·.name))
  match shell with
  | .bash => ["complete -W '" ++ words ++ "' " ++ programName]
  | .elvish =>
    ["set edit:completion:arg-completer[" ++ programName ++ "] = \x7b|@words| put " ++ words
      ++ " \x7d"]
  | .fish =>
    ["complete -c " ++ programName ++ " -n __fish_use_subcommand -f -a '" ++ words ++ "'"]
  | .powershell =>
    ["Register-ArgumentCompleter -Native -CommandName " ++ programName
      ++ " -ScriptBlock \x7b -split '" ++ words ++ "' \x7d"]
  | .zsh =>
    ["#compdef " ++ programName, "_arguments '1:command:(" ++ words ++ ")' '*:file:_files'"]

end FragmentArchive
