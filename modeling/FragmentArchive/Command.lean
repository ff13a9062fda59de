import FragmentArchive.Arguments
import FragmentArchive.BuildMode

/-!
# Commands

What the program can be asked to do, and how that is said in arguments. The first argument names
the command, and the rest belong to it. Without arguments the program introduces itself.
-/

namespace FragmentArchive

/-! ## Requests -/

/-- The settings of a build that are given on the command line. -/
structure BuildSettings where
  plan : String
  output : String
  mode : BuildMode
  firstVariantNumber : UInt32
  /-- Without a number there are as many workers as are available. -/
  workers : Option Nat
  verbose : Bool
deriving DecidableEq, Repr

/-- A command interpreter that can complete arguments. -/
inductive Shell
  | bash
  | elvish
  | fish
  | powershell
  | zsh
deriving DecidableEq, Repr

namespace Shell

/-- All interpreters. -/
def all : List Shell := [bash, elvish, fish, powershell, zsh]

def name : Shell → String
  | .bash => "bash"
  | .elvish => "elvish"
  | .fish => "fish"
  | .powershell => "powershell"
  | .zsh => "zsh"

/-- The interpreter with a name. -/
def ofName? (name : String) : Option Shell := all.find? (·.name = name)

end Shell

/-- Something that help is given about: the whole program or a command. -/
inductive Topic
  | program
  | build
  | inspect
  | completions
  | help
deriving DecidableEq, Repr

namespace Topic

/-- The topics that are commands. -/
def commands : List Topic := [build, inspect, completions, help]

/-- The name of a topic; the whole program goes without. -/
def name : Topic → String
  | .program => ""
  | .build => "build"
  | .inspect => "inspect"
  | .completions => "completions"
  | .help => "help"

/-- The command with a name. -/
def ofName? (name : String) : Option Topic := commands.find? (·.name = name)

end Topic

/-- What the program is asked to do. -/
inductive Command
  | greet
  | version
  | help (topic : Topic)
  | build (settings : BuildSettings)
  | inspect (archive : String)
  | completions (shell : Shell)
deriving DecidableEq, Repr

namespace Command

open Arguments

/-! ## Grammars -/

/-- The option that asks for help about a topic. -/
def helpOption (σ : Type) (topic : Topic) : OptionRule Command σ :=
  ⟨"help", some 'h', .interrupt (.help topic)⟩

/-- The arguments that precede all commands. -/
def programGrammar : Grammar Command Unit where
  options := [helpOption Unit .program, ⟨"version", some 'V', .interrupt .version⟩]
  operands := []

/-- The arguments of a build. -/
def buildGrammar : Grammar Command BuildSettings where
  options := [
    ⟨"output", some 'o', .value fun text s ↦ some { s with output := text }⟩,
    ⟨"mode", some 'm', .value fun text s ↦
      (BuildMode.ofText text).toOption.map fun mode ↦ { s with mode }⟩,
    ⟨"first-variant-number", none, .value fun text s ↦
      (signedNatural? UInt32.size text).map fun n ↦ { s with firstVariantNumber := .ofNat n }⟩,
    ⟨"workers", some 'w', .value fun text s ↦
      (natural? UInt64.size text).map fun n ↦ { s with workers := some n }⟩,
    ⟨"verbose", some 'v', .flag fun s ↦ { s with verbose := true }⟩,
    helpOption BuildSettings .build]
  operands := [⟨"<PLAN>", fun text s ↦ some { s with plan := text }⟩]

/-- The settings of a build without options. -/
def buildDefaults : BuildSettings := ⟨"", "out", .default, 0, none, false⟩

/-- The arguments of an inspection. -/
def inspectGrammar : Grammar Command String where
  options := [helpOption String .inspect]
  operands := [⟨"<ARCHIVE>", fun text _ ↦ some text⟩]

/-- The arguments of a request for completions. -/
def completionsGrammar : Grammar Command Shell where
  options := [helpOption Shell .completions]
  operands := [⟨"<SHELL>", fun text _ ↦ Shell.ofName? text⟩]

/-! ## Reading -/

/-- The command of settings, unless the arguments ask for another one. -/
private def fromSettings {σ : Type} (command : σ → Command) :
    Except (Interruption Command) σ → Except Misuse Command
  | .ok settings => .ok (command settings)
  | .error (.request other) => .ok other
  | .error (.misuse cause) => .error cause

/-- Reads a request for help. No command has commands of its own. -/
private def helpFor : List String → Except Misuse Command
  | [] => .ok (.help .program)
  | name :: rest =>
    match Topic.ofName? name, rest with
    | some topic, [] => .ok (.help topic)
    | some _, other :: _ => .error (.unknownCommand other)
    | none, _ => .error (.unknownCommand name)

/-- Reads the arguments of the program. -/
def ofArguments : List String → Except Misuse Command
  | [] => .ok .greet
  | name :: arguments =>
    match Topic.ofName? name with
    | some .build => fromSettings build (buildGrammar.read buildDefaults arguments)
    | some .inspect => fromSettings inspect (inspectGrammar.read "" arguments)
    | some .completions =>
      fromSettings completions (completionsGrammar.read .bash arguments)
    | some .help => helpFor arguments
    | _ => fromSettings (fun _ ↦ greet) (programGrammar.read () (name :: arguments))

end Command

end FragmentArchive
