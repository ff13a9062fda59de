import FragmentArchive.Json.Value
import FragmentArchive.SortedMap

/-!
# Codecs

A codec says for a type how its values are written as documents and how they are read from the
structure of a text. Reading is the more tolerant direction: it accepts other spellings of a value
than the one that is written, and it has to say precisely what is wrong with everything else. A
reader meets the parts of a value in the order of the text, so that of several faults the first one
is reported.
-/

open Std

namespace FragmentArchive.Json

/-- The two directions between a type and documents. -/
structure Codec (α : Type) where
  write : α → Value
  read : Tree → Except ReadError α

/-- The report about a value that is not of the expected kind. -/
def unexpected {α : Type} (tree : Tree) (expected : String) : Except ReadError α :=
  match tree.found with
  | .ok found => .error (.mismatch (.type found expected))
  | .error flaw => .error (.flaw flaw)

/-- Ends the reading of a list or object at its ending. -/
def Ending.finish (ending : Ending) : Except ReadError Unit :=
  match ending.readFlaw? with
  | none => .ok ()
  | some flaw => .error (.flaw flaw)

namespace Codec

variable {α β : Type}

/-- The compact text of a value. -/
def compact (c : Codec α) (a : α) : String := (c.write a).compact

/-- The text of a value on indented lines. -/
def indented (c : Codec α) (a : α) : String := (c.write a).indented

/-- Reads a text that holds a value and nothing else. -/
def parse (c : Codec α) (text : String) : Except ReadError α := do
  let (tree, rest) := Tree.ofTokens (tokens text.toList)
  let a ← c.read tree
  if rest.isEmpty then return a else throw (.flaw .malformed)

/-! ## Scalars -/

/-- The only value of the unit type is written `null`. -/
def unit : Codec Unit where
  write _ := .null
  read
    | .scalar .null => .ok ()
    | tree => unexpected tree "unit"

def bool : Codec Bool where
  write := .bool
  read
    | .scalar (.bool b) => .ok b
    | tree => unexpected tree "a boolean"

def string : Codec String where
  write := .string
  read
    | .scalar (.string s) => .ok s
    | tree => unexpected tree "a string"

/-- An integer type, given by its name and its place among the integers. -/
def integer (name : String) (toInt : α → Int) (ofInt? : Int → Option α) : Codec α where
  write a := .integer (toInt a)
  read tree :=
    match tree.found with
    | .ok (.integer n) =>
      match ofInt? n with
      | some a => .ok a
      | none => .error (.mismatch (.range (.integer n) name))
    | .ok found => .error (.mismatch (.type found name))
    | .error flaw => .error (.flaw flaw)

def uint8 : Codec UInt8 :=
  integer "u8" (fun n ↦ n.toNat) fun n ↦
    if 0 ≤ n ∧ n < UInt8.size then some (.ofNat n.toNat) else none

def uint32 : Codec UInt32 :=
  integer "u32" (fun n ↦ n.toNat) fun n ↦
    if 0 ≤ n ∧ n < UInt32.size then some (.ofNat n.toNat) else none

def uint64 : Codec UInt64 :=
  integer "u64" (fun n ↦ n.toNat) fun n ↦
    if 0 ≤ n ∧ n < UInt64.size then some (.ofNat n.toNat) else none

def int32 : Codec Int32 :=
  integer "i32" (fun n ↦ n.toInt) fun n ↦
    if Int32.minValue.toInt ≤ n ∧ n ≤ Int32.maxValue.toInt then some (.ofInt n) else none

def int64 : Codec Int64 :=
  integer "i64" (fun n ↦ n.toInt) fun n ↦
    if Int64.minValue.toInt ≤ n ∧ n ≤ Int64.maxValue.toInt then some (.ofInt n) else none

/-! ## Composition -/

/-- A type that is written like another one it corresponds to. -/
def via (c : Codec α) (toBase : β → α) (ofBase : α → β) : Codec β where
  write b := c.write (toBase b)
  read tree := (c.read tree).map ofBase

/-- A value that may be missing, and is `null` then. -/
def option (c : Codec α) : Codec (Option α) where
  write
    | none => .null
    | some a => c.write a
  read
    | .scalar .null => .ok none
    | .scalar (.broken .null read _) => .error (.flaw read)
    | tree => (c.read tree).map some

/-- The values of the items of a list. -/
def readItems (read : Tree → Except ReadError α) :
    List Tree → Except ReadError (List α)
  | [] => .ok []
  | item :: items => do
    let a ← read item
    let rest ← readItems read items
    return a :: rest

/-- A list of values of one type. -/
def list (c : Codec α) : Codec (List α) where
  write as := .array (as.map c.write)
  read
    | .array items ending => do
      let as ← readItems c.read items
      ending.finish
      return as
    | tree => unexpected tree "a sequence"

/-- The values of the members of an object under their names. -/
def readMembers (read : Tree → Except ReadError α) :
    List (Option String × Tree) → Except ReadError (List (String × α))
  | [] => .ok []
  | (none, _) :: _ => .error (.flaw .malformed)
  | (some key, value) :: members => do
    let a ← read value
    let rest ← readMembers read members
    return (key, a) :: rest

/-- A map from names to values of one type. A name may be given more than once, and then its last
value counts. -/
def map (c : Codec α) : Codec (SortedMap String α) where
  write m := .object (m.toList.map fun e ↦ (e.1, c.write e.2))
  read
    | .object members ending => do
      let entries ← readMembers c.read members
      ending.finish
      return .ofList entries
    | tree => unexpected tree "a map"

/-! ## Choices -/

/-- The choice with a name. -/
def choose (choices : List (String × α)) (name : String) : Except ReadError α :=
  match choices.lookup name with
  | some a => .ok a
  | none => .error (.mismatch (.choice name (choices.map (·.1))))

/-- One of a fixed list of values, each with its name. Besides the name alone, an object with the
name as its only key and `null` under it is accepted. -/
def choice [DecidableEq α] (choices : List (String × α)) : Codec α where
  write a := .string (((choices.find? fun e ↦ e.2 = a).map (·.1)).getD "")
  read
    | .scalar (.string name) => choose choices name
    | .scalar (.broken .string read _) => .error (.flaw read)
    | .absent => .error (.flaw .truncated)
    | .object [] ending => .error (.flaw (ending.readFlaw?.getD .malformed))
    | .object ((some name, value) :: members) ending => do
      let a ← choose choices name
      unit.read value
      match members, ending with
      | [], .closed => return a
      | [], .cut false none => throw (.flaw .truncated)
      | _, _ => throw (.flaw .malformed)
    | _ => .error (.flaw .malformed)

end Codec

end FragmentArchive.Json
