import FragmentArchive.Text.Binary64
import FragmentArchive.Text.Quoted

/-!
# What can be wrong with a document

A text is at fault in one of two ways. It can have a *flaw*, which is a matter of the notation: the
text ends too early, or something stands where it may not. Or it is a document, but not one of the
expected kind; then a *mismatch* says what was found and what would have been accepted. A flaw is
reported by its class alone, a mismatch in words.
-/

namespace FragmentArchive.Json

/-- A fault of notation. -/
inductive Flaw
  /-- Something stands where it may not. -/
  | malformed
  /-- The text ends before the document does. -/
  | truncated
deriving DecidableEq, Repr

/-- A value as it is named in a report about it. -/
inductive Found
  | null
  | bool (value : Bool)
  | integer (value : Int)
  /-- A number with a fraction or an exponent, or one too large for 64 bits; given by its bits. -/
  | float (bits : UInt64)
  | string (value : String)
  | sequence
  | map
deriving DecidableEq, Repr

/-- How a found value is described. -/
def Found.text : Found → String
  | .null => "null"
  | .bool value => "boolean `" ++ (if value then "true" else "false") ++ "`"
  | .integer value => "integer `" ++ Decimal.ofInt value ++ "`"
  | .float bits => "floating point `" ++ Binary64.text bits ++ "`"
  | .string value => "string " ++ Quoted.string value
  | .sequence => "sequence"
  | .map => "map"

/-- A document that is not of the expected kind. -/
inductive Mismatch
  /-- A value of another type. -/
  | type (found : Found) (expected : String)
  /-- A value of the right type outside its range. -/
  | range (found : Found) (expected : String)
  /-- A record written as a list that ends before a field without default. -/
  | length (found : Nat) (expected : String)
  /-- A name that is none of the accepted ones. -/
  | choice (name : String) (accepted : List String)
  /-- A field that is given twice. -/
  | duplicate (field : String)
  /-- A field without default that is not given. -/
  | missing (field : String)
  /-- A string whose content was rejected, with the reason. -/
  | content (reason : String)
deriving DecidableEq, Repr

/-- The accepted names of a choice, each quoted. -/
private def choices : List String → String
  | [] => "there are no variants"
  | [a] => "expected `" ++ a ++ "`"
  | [a, b] => "expected `" ++ a ++ "` or `" ++ b ++ "`"
  | names => "expected one of " ++ ", ".intercalate (names.map fun n ↦ "`" ++ n ++ "`")

/-- A mismatch in words. -/
def Mismatch.message : Mismatch → String
  | .type found expected => "invalid type: " ++ found.text ++ ", expected " ++ expected
  | .range found expected => "invalid value: " ++ found.text ++ ", expected " ++ expected
  | .length found expected =>
    "invalid length " ++ Decimal.ofNat found ++ ", expected " ++ expected
  | .choice name accepted => "unknown variant `" ++ name ++ "`, " ++ choices accepted
  | .duplicate field => "duplicate field `" ++ field ++ "`"
  | .missing field => "missing field `" ++ field ++ "`"
  | .content reason => reason

/-- Why a text could not be read as a value. -/
inductive ReadError
  | flaw (flaw : Flaw)
  | mismatch (cause : Mismatch)
deriving DecidableEq, Repr

end FragmentArchive.Json
