import FragmentArchive.Text.Decimal

/-!
# Arguments

The arguments of a command are options, which may come in any order, and operands, which are told
apart by their places. An option has a long name and may have a short one, and is either a flag or
takes a value; the value stands behind it as an argument of its own or is attached to it. Short
names can be strung together, up to one that takes a value. After `--` everything is an operand.

A grammar says which options and operands there are and what each does to the settings, so the
arguments are read by one fold over them. The first thing that is wrong decides, and so does the
first option that asks for something else altogether, such as help.
-/

namespace FragmentArchive.Arguments

/-! ## Misuse -/

/-- Why arguments are not understood. -/
inductive Misuse
  /-- There is no such option, or there are too many operands. -/
  | unexpected (argument : String)
  | unknownCommand (name : String)
  | repeated (option : String)
  | valueMissing (option : String)
  | valueNotTaken (option : String)
  | badValue (name value : String)
  | operandMissing (name : String)
deriving DecidableEq, Repr

/-- Misuse in words. -/
def Misuse.message : Misuse → String
  | .unexpected argument => "unexpected argument '" ++ argument ++ "' found"
  | .unknownCommand name => "unrecognized subcommand '" ++ name ++ "'"
  | .repeated option => "the argument '" ++ option ++ "' cannot be used multiple times"
  | .valueMissing option => "a value is required for '" ++ option ++ "' but none was supplied"
  | .valueNotTaken option => "unexpected value for '" ++ option ++ "' found; no more were expected"
  | .badValue name value => "invalid value '" ++ value ++ "' for '" ++ name ++ "'"
  | .operandMissing name => "the argument '" ++ name ++ "' was not provided"

/-- Why the arguments were not read to the end: they are wrong, or one of them asks for something
else. -/
inductive Interruption (ι : Type)
  | misuse (cause : Misuse)
  | request (r : ι)
deriving DecidableEq, Repr

/-! ## Grammars -/

/-- What an option does to the settings. -/
inductive Effect (ι σ : Type)
  /-- Asks for something else. -/
  | interrupt (r : ι)
  | flag (set : σ → σ)
  /-- Takes a value, and refuses some. -/
  | value (set? : String → σ → Option σ)

/-- An option. -/
structure OptionRule (ι σ : Type) where
  long : String
  short : Option Char
  effect : Effect ι σ

/-- The name of an option with its dashes. -/
def OptionRule.name {ι σ : Type} (o : OptionRule ι σ) : String := "--" ++ o.long

/-- An operand; all of them must be given. -/
structure Operand (σ : Type) where
  name : String
  set? : String → σ → Option σ

/-- The options and operands of a command. -/
structure Grammar (ι σ : Type) where
  options : List (OptionRule ι σ)
  operands : List (Operand σ)

/-! ## Reading -/

/-- What is known after some of the arguments. -/
structure Progress (ι σ : Type) where
  settings : σ
  /-- The names of the options that were given. -/
  used : List String
  /-- The option whose value comes next. -/
  pending : Option (OptionRule ι σ)
  /-- The operands that are still to come. -/
  operands : List (Operand σ)
  optionsEnded : Bool

variable {ι σ : Type}

private def misuse {α : Type} (cause : Misuse) : Except (Interruption ι) α := .error (.misuse cause)

/-- Whether an argument is meant as an option. A dash alone is a value. -/
def looksLikeOption (argument : String) : Bool := argument.startsWith "-" && argument ≠ "-"

namespace Progress

/-- Marks an option as given. -/
private def use (o : OptionRule ι σ) (p : Progress ι σ) :
    Except (Interruption ι) (Progress ι σ) :=
  if o.long ∈ p.used then misuse (.repeated o.name) else .ok { p with used := o.long :: p.used }

/-- Gives an option its value. -/
private def give (o : OptionRule ι σ) (value : String) (p : Progress ι σ) :
    Except (Interruption ι) (Progress ι σ) :=
  match o.effect with
  | .value set? =>
    match set? value p.settings with
    | some settings => .ok { p with settings, pending := none }
    | none => misuse (.badValue o.name value)
  | _ => misuse (.valueNotTaken o.name)

/-- Takes an argument as the next operand. -/
private def operand (argument : String) (p : Progress ι σ) :
    Except (Interruption ι) (Progress ι σ) :=
  match p.operands with
  | [] => misuse (.unexpected argument)
  | next :: operands =>
    match next.set? argument p.settings with
    | some settings => .ok { p with settings, operands }
    | none => misuse (.badValue next.name argument)

/-- Takes an option by its long name, with the value that is attached to it. -/
private def long (g : Grammar ι σ) (name : String) (attached : Option String)
    (p : Progress ι σ) : Except (Interruption ι) (Progress ι σ) :=
  match g.options.find? (·.long = name) with
  | none => misuse (.unexpected ("--" ++ name))
  | some o =>
    match o.effect, attached with
    | .value _, some value => do (← p.use o).give o value
    | .value _, none => do return { ← p.use o with pending := some o }
    | _, some _ => misuse (.valueNotTaken o.name)
    | .interrupt r, none => .error (.request r)
    | .flag set, none => do
      let p ← p.use o
      return { p with settings := set p.settings }

/-- Takes options by their short names. The first that takes a value takes what follows it, without
the equals sign that may stand between them. -/
private def short (g : Grammar ι σ) :
    List Char → Progress ι σ → Except (Interruption ι) (Progress ι σ)
  | [], p => .ok p
  | c :: cs, p =>
    match g.options.find? (·.short = some c) with
    | none => misuse (.unexpected (String.ofList ['-', c]))
    | some o =>
      match o.effect with
      | .interrupt r => .error (.request r)
      | .flag set => do
        let p ← p.use o
        short g cs { p with settings := set p.settings }
      | .value _ => do
        let p ← p.use o
        match cs with
        | [] => return { p with pending := some o }
        | '=' :: value => p.give o (String.ofList value)
        | value => p.give o (String.ofList value)

/-- Takes the next argument. -/
def take (g : Grammar ι σ) (p : Progress ι σ) (argument : String) :
    Except (Interruption ι) (Progress ι σ) :=
  match p.pending with
  | some o =>
    if looksLikeOption argument then misuse (.valueMissing o.name) else p.give o argument
  | none =>
    if p.optionsEnded || !looksLikeOption argument then p.operand argument
    else match argument.toList with
      | ['-', '-'] => .ok { p with optionsEnded := true }
      | '-' :: '-' :: text =>
        let name := text.takeWhile (· ≠ '=')
        let attached := (text.dropWhile (· ≠ '=')).tail?
        p.long g (String.ofList name) (attached.map String.ofList)
      | text => p.short g text.tail

/-- The settings after the last argument. -/
def finish (p : Progress ι σ) : Except (Interruption ι) σ :=
  match p.pending, p.operands with
  | some o, _ => misuse (.valueMissing o.name)
  | none, next :: _ => misuse (.operandMissing next.name)
  | none, [] => .ok p.settings

end Progress

/-- Reads all arguments of a command. -/
def Grammar.read (g : Grammar ι σ) (initial : σ) (arguments : List String) :
    Except (Interruption ι) σ := do
  let p ← arguments.foldlM (Progress.take g) ⟨initial, [], none, g.operands, false⟩
  p.finish

/-! ## Numbers -/

/-- A natural number below a limit, in decimal and perhaps with a plus sign. -/
def natural? (limit : Nat) (text : String) : Option Nat :=
  let digits := match text.toList with
    | '+' :: digits => digits
    | digits => digits
  if digits.isEmpty || !digits.all Char.isDigit then none
  else if Decimal.value digits < limit then some (Decimal.value digits)
  else none

/-- A natural number below a limit, in decimal and perhaps with a sign; behind a minus sign there
is only zero. -/
def signedNatural? (limit : Nat) (text : String) : Option Nat :=
  match text.toList with
  | '-' :: digits => (natural? 1 (String.ofList ('+' :: digits)))
  | _ => natural? limit text

end FragmentArchive.Arguments
