/-!
# Decimal notation

Whole numbers are written without leading zeros and with a minus sign when they are negative. The
digits are lists of characters, so that reading them back is a statement about lists.
-/

namespace FragmentArchive.Decimal

/-- The digits of a natural number, the leading one first; zero has the digit `0`. -/
def digits (n : Nat) : List Char := Nat.toDigits 10 n

/-- The number that a list of digits denotes. -/
def value (ds : List Char) : Nat := Nat.ofDigitChars 10 ds 0

/-- The value of one digit. -/
def digitValue (c : Char) : Nat := c.toNat - '0'.toNat

theorem value_digits (n : Nat) : value (digits n) = n :=
  Nat.ofDigitChars_toDigits (by decide) (by decide)

theorem isDigit_of_mem_digits {n : Nat} {c : Char} (h : c ∈ digits n) : c.isDigit :=
  Nat.isDigit_of_mem_toDigits (by decide) (by decide) h

/-- The text of a natural number. -/
def ofNat (n : Nat) : String := String.ofList (digits n)

/-- The text of an integer. -/
def ofInt : Int → String
  | .ofNat n => ofNat n
  | .negSucc n => "-" ++ ofNat (n + 1)

end FragmentArchive.Decimal
