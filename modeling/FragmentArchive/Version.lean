import FragmentArchive.Json.Codec

/-!
# Semantic versions

A version has three numbers, and may have pre-release identifiers behind a hyphen and build
identifiers behind a plus sign. Identifiers are separated by points and made of ASCII letters,
digits and hyphens; a pre-release identifier of digits alone is a number and so has no leading
zero. The identifiers carry the proof of that, hence the text of every version is a version again.
-/

namespace FragmentArchive

namespace Version

/-- The characters of identifiers. -/
def isIdentifierChar (c : Char) : Bool := c.isAlphanum || c == '-'

/-- Whether a list of characters is a build identifier. -/
def isBuildIdentifier (s : List Char) : Bool := !s.isEmpty && s.all isIdentifierChar

/-- Whether a list of characters is a number with a leading zero. -/
def isPaddedNumber (s : List Char) : Bool :=
  s.all Char.isDigit && 1 < s.length && s.head? == some '0'

/-- Whether a list of characters is a pre-release identifier. -/
def isPreIdentifier (s : List Char) : Bool := isBuildIdentifier s && !isPaddedNumber s

/-- An identifier behind the hyphen. -/
abbrev PreIdentifier := { s : List Char // isPreIdentifier s = true }

/-- An identifier behind the plus sign. -/
abbrev BuildIdentifier := { s : List Char // isBuildIdentifier s = true }

end Version

/-- A semantic version. -/
structure Version where
  major : UInt64
  minor : UInt64
  patch : UInt64
  pre : List Version.PreIdentifier
  build : List Version.BuildIdentifier
deriving DecidableEq

namespace Version

/-! ## Text -/

/-- Identifiers with their points, behind a mark; nothing when there are none. -/
def tail (mark : Char) (identifiers : List (List Char)) : List Char :=
  if identifiers.isEmpty then [] else mark :: List.intercalate ['.'] identifiers

/-- The text of a version. -/
def text (v : Version) : String :=
  let number (n : UInt64) : List Char := Decimal.digits n.toNat
  String.ofList (number v.major ++ '.' :: number v.minor ++ '.' :: number v.patch
    ++ tail '-' (v.pre.map (·.1)) ++ tail '+' (v.build.map (·.1)))

/-! ## Reading -/

/-- The parts of a version, in their order. -/
inductive Part
  | major
  | minor
  | patch
  | pre
  | build
deriving DecidableEq, Repr

/-- The name of a part in reports. -/
def Part.text : Part → String
  | .major => "major version number"
  | .minor => "minor version number"
  | .patch => "patch version number"
  | .pre => "pre-release identifier"
  | .build => "build metadata"

/-- Why a text is no version. -/
inductive Fault
  | empty
  | endsIn (part : Part)
  | unexpectedIn (part : Part) (c : Char)
  | unexpectedAfter (part : Part) (c : Char)
  | leadingZero (part : Part)
  | tooLarge (part : Part)
  | emptyIdentifier (part : Part)
deriving DecidableEq, Repr

/-- A fault in words. -/
def Fault.message : Fault → String
  | .empty => "empty string, expected a semver version"
  | .endsIn part => "unexpected end of input while parsing " ++ part.text
  | .unexpectedIn part c =>
    "unexpected character " ++ Quoted.char c ++ " while parsing " ++ part.text
  | .unexpectedAfter part c => "unexpected character " ++ Quoted.char c ++ " after " ++ part.text
  | .leadingZero part => "invalid leading zero in " ++ part.text
  | .tooLarge part => "value of " ++ part.text ++ " exceeds u64::MAX"
  | .emptyIdentifier part => "empty identifier segment in " ++ part.text

/-- The number at the start of a text, and what follows it. -/
def readNumber (part : Part) (s : List Char) : Except Fault (UInt64 × List Char) :=
  let digits := s.takeWhile Char.isDigit
  let value := Decimal.value digits
  match digits, s.dropWhile Char.isDigit with
  | [], [] => .error (.endsIn part)
  | [], c :: _ => .error (.unexpectedIn part c)
  | _, rest =>
    if isPaddedNumber digits then .error (.leadingZero part)
    else if value < UInt64.size then .ok (.ofNat value, rest)
    else .error (.tooLarge part)

/-- What follows the point behind a number. -/
def readPoint (part : Part) : List Char → Except Fault (List Char)
  | '.' :: rest => .ok rest
  | c :: _ => .error (.unexpectedAfter part c)
  | [] => .error (.endsIn part)

/-- The identifiers at the start of a text, none of which is empty, and what follows them. -/
def readIdentifiers {ι : Type} (part : Part) (ofChars : List Char → Except Fault ι)
    (s : List Char) : Except Fault (List ι × List Char) :=
  let identifier := s.takeWhile isIdentifierChar
  match identifier, h : s.dropWhile isIdentifierChar with
  | [], _ => .error (.emptyIdentifier part)
  | _, '.' :: rest => do
    have : rest.length < s.length := by
      have := (List.dropWhile_sublist isIdentifierChar (l := s)).length_le
      rw [h, List.length_cons] at this
      exact this
    let first ← ofChars identifier
    let others ← readIdentifiers part ofChars rest
    return (first :: others.1, others.2)
  | _, rest => do
    let last ← ofChars identifier
    return ([last], rest)
termination_by s.length

/-- A pre-release identifier of given characters. -/
def preIdentifier (s : List Char) : Except Fault PreIdentifier :=
  if h : isPreIdentifier s then .ok ⟨s, h⟩ else .error (.leadingZero .pre)

/-- A build identifier of given characters. -/
def buildIdentifier (s : List Char) : Except Fault BuildIdentifier :=
  if h : isBuildIdentifier s then .ok ⟨s, h⟩ else .error (.emptyIdentifier .build)

/-- Identifiers that may be missing together with their mark. -/
def readTail {ι : Type} (mark : Char) (part : Part)
    (ofChars : List Char → Except Fault ι) :
    Part × List Char → Except Fault (List ι × Part × List Char)
  | (last, c :: s) =>
    if c = mark then
      (readIdentifiers part ofChars s).map fun r ↦ (r.1, part, r.2)
    else .ok ([], last, c :: s)
  | (last, []) => .ok ([], last, [])

/-- Reads a version that makes up a whole text. -/
def ofText (text : String) : Except Fault Version := do
  let s := text.toList
  if s.isEmpty then throw .empty
  let (major, s) ← readNumber .major s
  let s ← readPoint .major s
  let (minor, s) ← readNumber .minor s
  let s ← readPoint .minor s
  let (patch, s) ← readNumber .patch s
  let (pre, part, s) ← readTail '-' .pre preIdentifier (.patch, s)
  let (build, part, s) ← readTail '+' .build buildIdentifier (part, s)
  match s with
  | [] => return ⟨major, minor, patch, pre, build⟩
  | c :: _ => throw (.unexpectedAfter part c)

/-- Versions are written as their text. -/
def codec : Json.Codec Version where
  write v := .string v.text
  read
    | .scalar (.string s) => (ofText s).mapError fun fault ↦ .mismatch (.content fault.message)
    | tree => Json.unexpected tree "semver version"

end Version

end FragmentArchive
