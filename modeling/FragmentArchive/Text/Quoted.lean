import FragmentArchive.Text.Printable

/-!
# Quoted text

Names that come from the input are shown in reports between quotes, in a form in which nothing is
hidden: the quote, the backslash and the usual control characters have short escapes, and every
other character that could not be seen is written as its code point in braces.
-/

namespace FragmentArchive.Quoted

/-- The code point of a character in lower-case hexadecimal. -/
private def codePoint (c : Char) : List Char := Nat.toDigits 16 c.toNat

/-- The shown form of a character between the given quotes. -/
private def escape (quote c : Char) : List Char :=
  if c = quote then ['\\', c]
  else match c with
  | '\\' => ['\\', '\\']
  | '\t' => ['\\', 't']
  | '\n' => ['\\', 'n']
  | '\r' => ['\\', 'r']
  | c =>
    if c.toNat = 0 then ['\\', '0']
    else if Printable.isVisible c then [c]
    else ['\\', 'u', '{'] ++ codePoint c ++ ['}']

/-- A text between double quotes. -/
def string (s : String) : String :=
  String.ofList ('"' :: s.toList.flatMap (escape '"') ++ ['"'])

/-- A character between single quotes. -/
def char (c : Char) : String :=
  String.ofList ('\'' :: escape '\'' c ++ ['\''])

end FragmentArchive.Quoted
