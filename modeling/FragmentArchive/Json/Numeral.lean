import FragmentArchive.Fallible
import FragmentArchive.Json.Error

/-!
# Numbers

A numeral is kept as it is spelt; its value is computed only when somebody asks. That matters
because a numeral can be well formed and still have no value, when it is larger than every binary
floating point number, and such a numeral is harmless as long as it is skipped.

Numerals without fraction and exponent that fit into 64 bits are integers. All others are floating
point numbers: the digits are collected into a 64 bit significand, those that no longer fit count
as places only, and the significand is scaled by the power of ten in floating point arithmetic.
-/

namespace FragmentArchive.Json

/-- The spelling of a number: digits before and after the point, and the exponent's sign and
digits. -/
structure Numeral where
  negative : Bool
  whole : List Char
  fraction : List Char
  exponent : Option (Bool × List Char)
deriving DecidableEq, Repr

namespace Numeral

/-- The numeral of an integer. -/
def ofInt : Int → Numeral
  | .ofNat n => ⟨false, Decimal.digits n, [], none⟩
  | .negSucc n => ⟨true, Decimal.digits (n + 1), [], none⟩

/-! ## Scanning -/

/-- The flaw of a numeral that stops before `rest`: a digit is missing there. -/
private def stop (rest : List Char) : Flaw :=
  if rest.isEmpty then .truncated else .malformed

/-- At least one digit, and what follows the digits. -/
def scanDigits (s : List Char) : Except Flaw (List Char × List Char) :=
  let digits := s.takeWhile Char.isDigit
  let rest := s.dropWhile Char.isDigit
  if digits.isEmpty then .error (stop rest) else .ok (digits, rest)

/-- The digits behind a point, if there is one, and what follows them. -/
def scanFraction : List Char → Except Flaw (List Char × List Char)
  | '.' :: s => scanDigits s
  | s => .ok ([], s)

/-- The exponent, if there is one, and what follows it. -/
def scanExponent : List Char → Except Flaw (Option (Bool × List Char) × List Char)
  | c :: s =>
    if c = 'e' ∨ c = 'E' then
      match s with
      | '-' :: s => (scanDigits s).map fun r ↦ (some (true, r.1), r.2)
      | '+' :: s => (scanDigits s).map fun r ↦ (some (false, r.1), r.2)
      | s => (scanDigits s).map fun r ↦ (some (false, r.1), r.2)
    else .ok (none, c :: s)
  | [] => .ok (none, [])

/-- Whether there is a minus sign, and what follows it. -/
def scanSign : List Char → Bool × List Char
  | '-' :: s => (true, s)
  | s => (false, s)

/-- The numeral at the start of a text and what follows it. A leading zero stands alone. -/
def scan (s : List Char) : Except Flaw (Numeral × List Char) := do
  let sign := scanSign s
  let whole ← scanDigits sign.2
  if whole.1.head? = some '0' ∧ 1 < whole.1.length then
    throw .malformed
  let fraction ← scanFraction whole.2
  let exponent ← scanExponent fraction.2
  return (⟨sign.1, whole.1, fraction.1, exponent.1⟩, exponent.2)

private theorem length_scanDigits {s : List Char} {r : List Char × List Char}
    (h : scanDigits s = .ok r) : r.2.length < s.length := by
  rw [scanDigits] at h
  split at h
  · cases h
  · next hne =>
    cases h
    have hsplit := congrArg List.length (List.takeWhile_append_dropWhile (p := Char.isDigit) (l := s))
    have := List.length_pos_iff.2 (fun he ↦ hne (List.isEmpty_iff.2 he))
    rw [List.length_append] at hsplit
    change (s.dropWhile Char.isDigit).length < s.length
    omega

private theorem length_scanFraction {s : List Char} {r : List Char × List Char}
    (h : scanFraction s = .ok r) : r.2.length ≤ s.length := by
  unfold scanFraction at h
  split at h
  · have := length_scanDigits h
    simp only [List.length_cons]
    omega
  · cases h
    exact Nat.le_refl _

private theorem length_scanExponent {s : List Char} {r : Option (Bool × List Char) × List Char}
    (h : scanExponent s = .ok r) : r.2.length ≤ s.length := by
  unfold scanExponent at h
  split at h
  · split at h
    · split at h
      all_goals
        obtain ⟨d, hd, rfl⟩ := map_eq_ok_iff.1 h
        have := length_scanDigits hd
        simp only [List.length_cons]
        omega
    · cases h
      exact Nat.le_refl _
  · cases h
    exact Nat.le_refl _

private theorem length_scanSign (s : List Char) : (scanSign s).2.length ≤ s.length := by
  unfold scanSign
  split
  · exact Nat.le_succ _
  · exact Nat.le_refl _

/-- A numeral takes up at least one character. -/
theorem length_lt_of_scan {s : List Char} {r : Numeral × List Char} (h : scan s = .ok r) :
    r.2.length < s.length := by
  obtain ⟨whole, hwhole, h⟩ := bind_eq_ok_iff.1 h
  have hrest : ∃ fraction, scanFraction whole.2 = .ok fraction ∧
      ∃ exponent, scanExponent fraction.2 = .ok exponent ∧ r.2 = exponent.2 := by
    split at h
    · cases h
    · obtain ⟨fraction, hfraction, h⟩ := bind_eq_ok_iff.1 h
      obtain ⟨exponent, hexponent, h⟩ := bind_eq_ok_iff.1 h
      cases h
      exact ⟨fraction, hfraction, exponent, hexponent, rfl⟩
  obtain ⟨fraction, hfraction, exponent, hexponent, hr⟩ := hrest
  have h1 := length_scanSign s
  have h2 := length_scanDigits hwhole
  have h3 := length_scanFraction hfraction
  have h4 := length_scanExponent hexponent
  rw [hr]
  omega

/-! ## Value -/

/-- What a numeral denotes: a number with an exact value, or the bits of an approximate one. -/
inductive Number
  | integer (value : Int)
  | float (bits : UInt64)
deriving DecidableEq, Repr

/-- Appends digits to a significand as long as it fits into 64 bits; the rest are left over. -/
private def accumulate : Nat → List Char → Nat × List Char
  | n, [] => (n, [])
  | n, c :: s =>
    let next := n * 10 + Decimal.digitValue c
    if next < UInt64.size then accumulate next s else (n, c :: s)

private def powerOfTen (e : Nat) : Float := Float.ofScientific 1 false e

/-- Divides by a power of ten, in steps when the power itself is out of range. -/
private def scaleDown (f : Float) (e : Nat) : Float :=
  if e ≤ 308 then f / powerOfTen e
  else if f == 0 then f
  else scaleDown (f / powerOfTen 308) (e - 308)
termination_by e

/-- Scales a significand by a power of ten; `none` when the result is infinite. -/
private def scale (significand : Nat) : Int → Option Float
  | .negSucc e => some (scaleDown significand.toUInt64.toFloat (e + 1))
  | .ofNat e =>
    let f := significand.toUInt64.toFloat
    if e ≤ 308 then
      let scaled := f * powerOfTen e
      if scaled.isInf then none else some scaled
    else if f == 0 then some f
    else none

/-- The value of a numeral with fraction or exponent, or too long for an integer. -/
private def float? (n : Numeral) : Option Number :=
  let (significand, surplus) := accumulate 0 n.whole
  let (significand, dropped) := accumulate significand n.fraction
  let places := n.fraction.length - dropped.length
  let exponent : Int := match n.exponent with
    | none => 0
    | some (negative, ds) => if negative then -(Decimal.value ds : Int) else Decimal.value ds
  (scale significand (surplus.length - places + exponent)).map fun f ↦
    .float (if n.negative then -f else f).toBits

/-- The value of a numeral; `none` when it is larger than every floating point number. A negative
zero is a floating point number, since integers have no such value. -/
def value? (n : Numeral) : Option Number :=
  let whole := Decimal.value n.whole
  if n.fraction ≠ [] ∨ n.exponent ≠ none then n.float?
  else if n.negative then
    if 0 < whole ∧ (whole : Int) ≤ -Int64.minValue.toInt then some (.integer (-whole)) else n.float?
  else if whole < UInt64.size then some (.integer whole)
  else n.float?

end Numeral

end FragmentArchive.Json
