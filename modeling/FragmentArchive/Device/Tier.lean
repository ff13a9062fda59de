import FragmentArchive.BuildConfig
import FragmentArchive.Device
import FragmentArchive.Error

/-!
# Default device tier

A device that reports no tier gets the one that the configuration names as the default suffix of
the tier dimension, if it names one. The suffix is a decimal numeral of 32 bits with at most one
sign, and the empty suffix means the lowest tier, zero.
-/

namespace FragmentArchive.Device

/-- Appends digits to a number, going away from zero, as long as the number fits into 32 bits. -/
def appendDigits (negative : Bool) : Int → List Char → Except TierFault Int
  | n, [] => .ok n
  | n, c :: cs =>
    if !c.isDigit then .error .invalidDigit
    else
      let digit : Int := Decimal.digitValue c
      let next := if negative then n * 10 - digit else n * 10 + digit
      if next < Int32.minValue.toInt then .error .tooSmall
      else if Int32.maxValue.toInt < next then .error .tooLarge
      else appendDigits negative next cs

/-- The number that a suffix denotes. A sign needs a digit behind it. -/
def suffixValue : List Char → Except TierFault Int
  | [] => .ok 0
  | ['+'] | ['-'] => .error .invalidDigit
  | '+' :: digits => appendDigits false 0 digits
  | '-' :: digits => appendDigits true 0 digits
  | digits => appendDigits false 0 digits

/-- The tier that a suffix denotes. -/
def tierOfSuffix (suffix : String) : Except TierFault Int32 :=
  (suffixValue suffix.toList).map Int32.ofInt

/-- The device with the configured tier, unless it has one of its own. -/
def assumingTier (strippings : SortedMap Dimension SuffixStripping) (device : Device) :
    Except Error Device :=
  match device.deviceTier, strippings.get? .deviceTier with
  | none, some stripping =>
    match tierOfSuffix stripping.defaultSuffix with
    | .ok tier => .ok { device with deviceTier := some tier }
    | .error fault => .error (.configuration (.deviceTier stripping.defaultSuffix fault))
  | _, _ => .ok device

end FragmentArchive.Device
