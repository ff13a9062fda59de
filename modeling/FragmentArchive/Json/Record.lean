import FragmentArchive.Json.Codec

/-!
# Records

A record is written as an object with one member for each field, in the order of the fields, except
that a field may be left out while it has its default value. Read is either such an object, in
which fields may stand in any order, unknown ones are skipped and none may be given twice, or a
list of the field values in order.

A field is described by how it is taken out of a record and put into one. Reading starts from a
blank record, which holds the default of every field that has one, and puts in what it meets; that
no field without default was forgotten is checked at the end, and so the value that the blank
record has for such a field is never seen.
-/

namespace FragmentArchive.Json

/-- Whether a field must be given, and otherwise for which values it is left out. -/
inductive Presence (α : Type)
  | required
  | optional (isLeftOut : α → Bool)

/-- Whether a field must be given. -/
def Presence.isRequired {α : Type} : Presence α → Bool
  | .required => true
  | .optional _ => false

/-- A field of a record. -/
structure Field (ρ : Type) : Type 1 where
  name : String
  {Content : Type}
  codec : Codec Content
  presence : Presence Content
  get : ρ → Content
  set : Content → ρ → ρ

namespace Field

variable {ρ α : Type}

/-- A field that must be given. -/
def required (name : String) (codec : Codec α) (get : ρ → α) (set : α → ρ → ρ) : Field ρ :=
  ⟨name, codec, .required, get, set⟩

/-- A field with a default that is always written. -/
def withDefault (name : String) (codec : Codec α) (get : ρ → α) (set : α → ρ → ρ) : Field ρ :=
  ⟨name, codec, .optional fun _ ↦ false, get, set⟩

/-- A field with a default that is left out while it satisfies a condition. -/
def leftOutWhen (isLeftOut : α → Bool) (name : String) (codec : Codec α) (get : ρ → α)
    (set : α → ρ → ρ) : Field ρ :=
  ⟨name, codec, .optional isLeftOut, get, set⟩

/-- A field that is left out when there is nothing to say. -/
def optional (name : String) (codec : Codec α) (get : ρ → Option α)
    (set : Option α → ρ → ρ) : Field ρ :=
  leftOutWhen Option.isNone name codec.option get set

/-- The member that is written for a field, unless it is left out. -/
def member? (f : Field ρ) (r : ρ) : Option (String × Value) :=
  let member := (f.name, f.codec.write (f.get r))
  match f.presence with
  | .required => some member
  | .optional isLeftOut => if isLeftOut (f.get r) then none else some member

/-- Reads a field's content and puts it into a record. -/
def read (f : Field ρ) (tree : Tree) (r : ρ) : Except ReadError ρ :=
  (f.codec.read tree).map fun a ↦ f.set a r

end Field

namespace Record

variable {ρ : Type}

/-- Walks through the members, keeping the names of the fields met so far. -/
def readMembers (fields : List (Field ρ)) :
    List (Option String × Tree) → List String → ρ → Except ReadError (List String × ρ)
  | [], seen, r => .ok (seen, r)
  | (none, _) :: _, _, _ => .error (.flaw .malformed)
  | (some key, value) :: members, seen, r =>
    match fields.find? (·.name = key) with
    | some field =>
      if key ∈ seen then .error (.mismatch (.duplicate key))
      else do
        let r ← field.read value r
        readMembers fields members (key :: seen) r
    | none =>
      match value.skipFlaw? with
      | some flaw => .error (.flaw flaw)
      | none => readMembers fields members seen r

/-- Walks through the items of a list, one for each field. The list may end early when all further
fields have a default. -/
def readItems (expected : String) :
    Nat → List (Field ρ) → List Tree → Ending → ρ → Except ReadError ρ
  | _, [], [], ending, r => ending.finish.map fun _ ↦ r
  | _, [], _ :: _, _, _ => .error (.flaw .malformed)
  | i, field :: fields, item :: items, ending, r => do
    let r ← field.read item r
    readItems expected (i + 1) fields items ending r
  | i, field :: fields, [], ending, r => do
    ending.finish
    if field.presence.isRequired then throw (.mismatch (.length i expected))
    else readItems expected (i + 1) fields [] ending r

/-- The number of elements in words. -/
private def elements (n : Nat) : String :=
  Decimal.ofNat n ++ (if n = 1 then " element" else " elements")

/-- A record type, given by its name in reports, the blank record and the fields. -/
def codec (name : String) (blank : ρ) (fields : List (Field ρ)) : Codec ρ where
  write r := .object (fields.filterMap (·.member? r))
  read
    | .object members ending => do
      let (seen, r) ← readMembers fields members [] blank
      ending.finish
      match fields.find? fun f ↦ f.presence.isRequired && f.name ∉ seen with
      | some field => throw (.mismatch (.missing field.name))
      | none => return r
    | .array items ending =>
      readItems ("struct " ++ name ++ " with " ++ elements fields.length) 0 fields items ending
        blank
    | tree => unexpected tree ("struct " ++ name)

end Record

end FragmentArchive.Json
