import FragmentArchive.Json.Tree

/-!
# Documents

The documents that are written: all numbers are integers and every string has a value. They are
written in two layouts. The *compact* one has no blanks at all and is the form whose bytes are
stored and digested; the *indented* one puts every item and member on a line of its own, two spaces
further in than its bracket, and is meant to be read. A layout is the blanks before each item and
after each colon, so both layouts are one function and differ in nothing else.
-/

namespace FragmentArchive.Json

/-- A document without flaws. -/
inductive Value
  | null
  | bool (value : Bool)
  | integer (value : Int)
  | string (value : String)
  | array (items : List Value)
  | object (members : List (String × Value))
deriving Repr, Inhabited

/-- The blanks that separate the parts of a document: before an item at some depth, and after a
colon. -/
structure Layout where
  gap : Nat → List Char
  space : List Char

namespace Layout

/-- No blanks. -/
def compact : Layout := ⟨fun _ ↦ [], []⟩

/-- One line for each item, indented by two spaces for each level. -/
def indented : Layout := ⟨fun depth ↦ '\n' :: List.replicate (2 * depth) ' ', [' ']⟩

end Layout

namespace Value

mutual

/-- The text of a document whose opening bracket stands at the given depth. -/
def chars (layout : Layout) (depth : Nat) : Value → List Char
  | .null => ['n', 'u', 'l', 'l']
  | .bool true => ['t', 'r', 'u', 'e']
  | .bool false => ['f', 'a', 'l', 's', 'e']
  | .integer n => (Decimal.ofInt n).toList
  | .string s => Text.write s
  | .array [] => ['[', ']']
  | .array (item :: items) =>
    '[' :: layout.gap (depth + 1) ++ chars layout (depth + 1) item
      ++ itemChars layout (depth + 1) items ++ layout.gap depth ++ [']']
  | .object [] => ['{', '}']
  | .object ((key, value) :: members) =>
    '{' :: layout.gap (depth + 1) ++ Text.write key ++ ':' :: layout.space
      ++ chars layout (depth + 1) value
      ++ memberChars layout (depth + 1) members ++ layout.gap depth ++ ['}']

/-- The items after the first, each behind its comma. -/
def itemChars (layout : Layout) (depth : Nat) : List Value → List Char
  | [] => []
  | item :: items =>
    ',' :: layout.gap depth ++ chars layout depth item ++ itemChars layout depth items

/-- The members after the first, each behind its comma. -/
def memberChars (layout : Layout) (depth : Nat) : List (String × Value) → List Char
  | [] => []
  | (key, value) :: members =>
    ',' :: layout.gap depth ++ Text.write key ++ ':' :: layout.space
      ++ chars layout depth value ++ memberChars layout depth members

end

/-- The text of a document without blanks. -/
def compact (v : Value) : String := String.ofList (v.chars .compact 0)

/-- The text of a document on indented lines. -/
def indented (v : Value) : String := String.ofList (v.chars .indented 0)

/-! ## Structure -/

mutual

/-- The structure that the text of a document has. -/
def tree : Value → Tree
  | .null => .scalar .null
  | .bool b => .scalar (.bool b)
  | .integer n => .scalar (.number (.ofInt n))
  | .string s => .scalar (.string s)
  | .array items => .array (itemTrees items) .closed
  | .object members => .object (memberTrees members) .closed

def itemTrees : List Value → List Tree
  | [] => []
  | item :: items => item.tree :: itemTrees items

def memberTrees : List (String × Value) → List (Option String × Tree)
  | [] => []
  | (key, value) :: members => (some key, value.tree) :: memberTrees members

end

end Value

end FragmentArchive.Json
