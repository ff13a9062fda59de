import FragmentArchive.Json.Token

/-!
# The structure of a text

Every list of tokens has a structure, including the ones that are no document: what is missing or
out of place is marked where it is met, and what comes behind the first such mark is dropped. So
parsing has no failure of its own. It is the reader of a type who walks the tree in the order of
the text and reports whatever comes first, a mark or a mismatch.
-/

namespace FragmentArchive.Json

/-- How a list of items or members ends. -/
inductive Ending
  /-- With its closing bracket. -/
  | closed
  /-- With something else, or with the text. `keyDue` tells that the next thing should have been
  the key of a member. -/
  | cut (keyDue : Bool) (next : Option Token)
deriving DecidableEq, Repr

/-- The structure of a text, flaws included. A key without value in Unicode is `none`. -/
inductive Tree
  | scalar (value : Scalar)
  | array (items : List Tree) (ending : Ending)
  | object (members : List (Option String × Tree)) (ending : Ending)
  /-- Something that begins no value stands where a value is due. -/
  | misplaced
  /-- The text ends where a value is due. -/
  | absent
deriving Repr

namespace Tree

/-! ## Parsing

The fuel counts nested values and items, so the number of tokens is always enough. -/

mutual

def parseValue : Nat → List Token → Tree × List Token
  | 0, _ | _, [] => (.absent, [])
  | _ + 1, .scalar value :: rest => (.scalar value, rest)
  | _ + 1, .beginArray :: .endArray :: rest => (.array [] .closed, rest)
  | fuel + 1, .beginArray :: rest =>
    let (items, ending, rest) := parseItems fuel rest
    (.array items ending, rest)
  | _ + 1, .beginObject :: .endObject :: rest => (.object [] .closed, rest)
  | fuel + 1, .beginObject :: rest =>
    let (members, ending, rest) := parseMembers fuel rest
    (.object members ending, rest)
  | _ + 1, _ :: _ => (.misplaced, [])

/-- The items of a list, from where an item is due. -/
def parseItems : Nat → List Token → List Tree × Ending × List Token
  | 0, _ => ([], .cut false none, [])
  | fuel + 1, tokens =>
    let (item, rest) := parseValue fuel tokens
    match rest with
    | .comma :: rest =>
      let (items, ending, rest) := parseItems fuel rest
      (item :: items, ending, rest)
    | .endArray :: rest => ([item], .closed, rest)
    | rest => ([item], .cut false rest.head?, [])

/-- The members of an object, from where a key is due. -/
def parseMembers :
    Nat → List Token → List (Option String × Tree) × Ending × List Token
  | fuel + 1, .scalar (.string key) :: rest => parseMember fuel (some key) rest
  | fuel + 1, .scalar .unpaired :: rest => parseMember fuel none rest
  | _, tokens => ([], .cut true tokens.head?, [])

/-- A member and those after it, from behind its key. -/
def parseMember (fuel : Nat) (key : Option String) :
    List Token → List (Option String × Tree) × Ending × List Token
  | .colon :: rest =>
    match fuel with
    | 0 => ([], .cut false none, [])
    | fuel + 1 =>
      let (value, rest) := parseValue fuel rest
      match rest with
      | .comma :: rest =>
        let (members, ending, rest) := parseMembers fuel rest
        ((key, value) :: members, ending, rest)
      | .endObject :: rest => ([(key, value)], .closed, rest)
      | rest => ([(key, value)], .cut false rest.head?, [])
  | [] => ([(key, .absent)], .cut false none, [])
  | _ :: _ => ([(key, .misplaced)], .cut false none, [])

end

/-- The structure of the first value of a list of tokens, and the tokens behind it. -/
def ofTokens (tokens : List Token) : Tree × List Token :=
  parseValue (2 * tokens.length + 2) tokens

/-! ## Flaws -/

end Tree

/-- The flaw with which a list or an object ends, when the next thing met is not its bracket. -/
def Ending.flaw? (view : Flaw → Flaw → Flaw) : Ending → Option Flaw
  | .closed => none
  | .cut _ none => some .truncated
  | .cut true (some (.scalar (.broken .string read skipped))) => some (view read skipped)
  | .cut _ (some _) => some .malformed

/-- The flaw an ending has for a reader. -/
def Ending.readFlaw? : Ending → Option Flaw := flaw? fun read _ ↦ read

namespace Tree

mutual

/-- The first flaw met on the way past a value. -/
def skipFlaw? : Tree → Option Flaw
  | .scalar (.broken _ _ skipped) => some skipped
  | .scalar _ => none
  | .array items ending => skipItems items <|> ending.flaw? fun _ skipped ↦ skipped
  | .object members ending => skipMembers members <|> ending.flaw? fun _ skipped ↦ skipped
  | .misplaced => some .malformed
  | .absent => some .truncated

def skipItems : List Tree → Option Flaw
  | [] => none
  | item :: items => item.skipFlaw? <|> skipItems items

def skipMembers : List (Option String × Tree) → Option Flaw
  | [] => none
  | (_, value) :: members => value.skipFlaw? <|> skipMembers members

end

/-- What a value is called when it is not what was expected, or the flaw that keeps it from being
looked at. Lists and objects are named by their opening bracket alone. -/
def found : Tree → Except Flaw Found
  | .scalar .null => .ok .null
  | .scalar (.bool b) => .ok (.bool b)
  | .scalar (.number n) =>
    match n.value? with
    | some (.integer n) => .ok (.integer n)
    | some (.float bits) => .ok (.float bits)
    | none => .error .malformed
  | .scalar (.string s) => .ok (.string s)
  | .scalar .unpaired => .error .malformed
  | .scalar (.broken _ read _) => .error read
  | .array _ _ => .ok .sequence
  | .object _ _ => .ok .map
  | .misplaced => .error .malformed
  | .absent => .error .truncated

end Tree

end FragmentArchive.Json
