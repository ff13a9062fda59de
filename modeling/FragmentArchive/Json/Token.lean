import FragmentArchive.Json.Numeral
import FragmentArchive.Json.Text

/-!
# Tokens

A text is cut into tokens before anything is asked about its structure. Cutting never fails: what
is no token is recorded as such, in its place, and the text is not looked at beyond it. Whether the
flaw matters is decided later by whoever meets it, and nobody does if a mismatch comes first.

A flaw inside a string or a number can look different to a reader, who wants the value, and to
somebody who only wants to get past it, so both views are recorded.
-/

namespace FragmentArchive.Json

/-- The sorts of values that have no parts, each recognised by its first character. -/
inductive Shape
  | null
  | bool
  | number
  | string
deriving DecidableEq, Repr

/-- A value without parts, as found in a text. -/
inductive Scalar
  | null
  | bool (value : Bool)
  | number (numeral : Numeral)
  | string (value : String)
  /-- A string with half a surrogate pair: it has no value but can be skipped. -/
  | unpaired
  /-- A beginning that was not carried through, with its flaw for a reader and for a skipper. -/
  | broken (shape : Shape) (read skipped : Flaw)
deriving DecidableEq, Repr

/-- A unit of notation. -/
inductive Token
  | beginObject
  | endObject
  | beginArray
  | endArray
  | comma
  | colon
  | scalar (value : Scalar)
  /-- A character that begins no token. -/
  | stray (c : Char)
deriving DecidableEq, Repr

/-- The characters that may stand between tokens. -/
def isBlank (c : Char) : Bool := c == ' ' || c == '\n' || c == '\t' || c == '\r'

/-! ## Cutting

The first character decides what is read. A token that is broken off ends the list, so the rest
after it is empty. -/

/-- A word that has to follow a first letter, character by character. -/
private def scanWord : List Char → List Char → Except Flaw (List Char)
  | [], s => .ok s
  | _ :: _, [] => .error .truncated
  | w :: word, c :: s => if w = c then scanWord word s else .error .malformed

private def literal (shape : Shape) (value : Scalar) (word : String) (s : List Char) :
    Scalar × List Char :=
  match scanWord word.toList s with
  | .ok rest => (value, rest)
  | .error flaw => (.broken shape flaw flaw, [])

private def string (s : List Char) : Scalar × List Char :=
  match Text.read s with
  | .ok (value, rest) => (.string (String.ofList value), rest)
  | .error read =>
    match Text.skip s with
    | .ok rest => (.unpaired, rest)
    | .error skipped => (.broken .string read skipped, [])

/-- A number that is broken off is malformed to a skipper, also at the end of the text. -/
private def number (s : List Char) : Scalar × List Char :=
  match Numeral.scan s with
  | .ok (numeral, rest) => (.number numeral, rest)
  | .error flaw => (.broken .number flaw .malformed, [])

/-- The token that begins with `c`, and the text behind it. -/
def scanToken (c : Char) (s : List Char) : Token × List Char :=
  match c with
  | '{' => (.beginObject, s)
  | '}' => (.endObject, s)
  | '[' => (.beginArray, s)
  | ']' => (.endArray, s)
  | ',' => (.comma, s)
  | ':' => (.colon, s)
  | 'n' => (literal .null .null "ull" s).map .scalar id
  | 't' => (literal .bool (.bool true) "rue" s).map .scalar id
  | 'f' => (literal .bool (.bool false) "alse" s).map .scalar id
  | '"' => (string s).map .scalar id
  | c =>
    if c = '-' ∨ c.isDigit then (number (c :: s)).map .scalar id
    else (.stray c, [])

private theorem length_scanWord {word s rest : List Char} (h : scanWord word s = .ok rest) :
    rest.length ≤ s.length := by
  fun_induction scanWord word s with
  | case1 =>
    cases h
    exact Nat.le_refl _
  | case2 => cases h
  | case3 _ _ _ ih => exact Nat.le_succ_of_le (ih h)
  | case4 => cases h

private theorem length_literal (shape : Shape) (value : Scalar) (word : String) (s : List Char) :
    (literal shape value word s).2.length ≤ s.length := by
  unfold literal
  split
  · next h => exact length_scanWord h
  · exact Nat.zero_le _

private theorem length_string (s : List Char) : (string s).2.length ≤ s.length := by
  unfold string
  split
  · next h => exact Nat.le_of_lt (Text.length_lt_of_read h)
  · split
    · next h => exact Nat.le_of_lt (Text.length_lt_of_skip h)
    · exact Nat.zero_le _

private theorem length_number (c : Char) (s : List Char) :
    (number (c :: s)).2.length ≤ s.length := by
  unfold number
  split
  · next h => exact Nat.le_of_lt_succ (Numeral.length_lt_of_scan h)
  · exact Nat.zero_le _

theorem length_scanToken (c : Char) (s : List Char) : (scanToken c s).2.length ≤ s.length := by
  unfold scanToken
  split
  any_goals exact Nat.le_refl _
  any_goals exact length_literal _ _ _ s
  · exact length_string s
  · split
    · exact length_number _ s
    · exact Nat.zero_le _

/-- A string that can be read is a token. -/
theorem scanToken_string {s value rest : List Char} (h : Text.read s = .ok (value, rest)) :
    scanToken '"' s = (.scalar (.string (String.ofList value)), rest) := by
  have hstring : string s = (.string (String.ofList value), rest) := by rw [string, h]
  rw [scanToken, hstring]
  rfl

/-- A number that can be read is a token. -/
theorem scanToken_number {c : Char} {s rest : List Char} {n : Numeral} (hc : c = '-' ∨ c.isDigit)
    (h : Numeral.scan (c :: s) = .ok (n, rest)) :
    scanToken c s = (.scalar (.number n), rest) := by
  have hnumber : number (c :: s) = (.number n, rest) := by rw [number, h]
  have hfirst : ∀ c' : Char, c' ≠ '-' → c'.isDigit = false → c ≠ c' := by
    rintro c' hminus hdigit rfl
    rcases hc with rfl | hc
    · exact hminus rfl
    · rw [hc] at hdigit
      cases hdigit
  unfold scanToken
  split
  case h_11 =>
    rw [if_pos hc, hnumber]
    rfl
  all_goals exact absurd rfl (hfirst _ (by decide) (by decide))

/-- The tokens of a text. -/
def tokens (s : List Char) : List Token :=
  match s with
  | [] => []
  | c :: s =>
    if isBlank c then tokens s
    else
      have := length_scanToken c s
      (scanToken c s).1 :: tokens (scanToken c s).2
termination_by s.length

end FragmentArchive.Json
