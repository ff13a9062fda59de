import FragmentArchive.Text.Decimal

/-!
# Shortest text of a binary floating point number

A number is written with the fewest significant digits that no other number of the format is
closer to. The bits of the number give `m · 2 ^ q`; the reals that round to it form an interval
around it, whose ends belong to it exactly when `m` is even. For one digit, two digits and so on up
to seventeen, the two neighbours of the number on the grid of decimals with so many digits are
tested against the interval, all in exact natural number arithmetic: the first grid with a
neighbour inside gives the digits, of two neighbours the nearer one, and of two equally near ones
the one whose last digit is even.
-/

namespace FragmentArchive.Binary64

/-- Significant digits without trailing zeros, and the power of ten of the leading one. -/
structure Scientific where
  digits : List Char
  exponent : Int
deriving DecidableEq

/-- A positive quotient of natural numbers. -/
private structure Ratio where
  num : Nat
  den : Nat

private def Ratio.scale (r : Ratio) (base : Nat) : Int → Ratio
  | .ofNat e => ⟨r.num * Nat.pow base e, r.den⟩
  | .negSucc e => ⟨r.num, r.den * Nat.pow base (e + 1)⟩

private def Ratio.lt (r s : Ratio) : Bool := r.num * s.den < s.num * r.den

/-- The leading bit of a significand, which is not stored. -/
def leadingBit : Nat := 0x10000000000000

/-- The significand and the power of two of a finite number, its sign left out. -/
def magnitude (bits : UInt64) : Nat × Int :=
  let field := ((bits >>> 52) &&& 0x7ff).toNat
  let fraction := (bits &&& 0xfffffffffffff).toNat
  if field = 0 then (fraction, -1074) else (fraction + leadingBit, (field : Int) - 1075)

/-- Whether the sign bit is set. -/
def isNegative (bits : UInt64) : Bool := bits >>> 63 == 1

/-- The largest `k` with `10 ^ k ≤ r`, looked for downwards from `k`. -/
private def leadingExponent (r : Ratio) : Nat → Int → Int
  | 0, k => k
  | fuel + 1, k =>
    if r.lt ((⟨1, 1⟩ : Ratio).scale 10 k) then leadingExponent r fuel (k - 1) else k

private def stripZeros (ds : List Char) : List Char :=
  (ds.reverse.dropWhile (· == '0')).reverse

/-- The neighbour of the number on the grid with `n` digits that lies in its interval. -/
private def onGrid (value low high : Ratio) (closed : Bool) (k : Int) (n : Nat) :
    Option Scientific :=
  let unit := k - (n : Int) + 1
  let scaled := value.scale 10 (-unit)
  let below := scaled.num / scaled.den
  let inside (c : Nat) : Bool :=
    let r := (⟨c, 1⟩ : Ratio).scale 10 unit
    0 < c && (low.lt r || (closed && !r.lt low)) && (r.lt high || (closed && !high.lt r))
  let rest := scaled.num % scaled.den
  let belowFirst := 2 * rest < scaled.den || (2 * rest == scaled.den && below % 2 == 0)
  let candidates := if belowFirst then [below, below + 1] else [below + 1, below]
  (candidates.find? inside).map fun c ↦
    let ds := Decimal.digits c
    ⟨stripZeros ds, unit + (ds.length : Int) - 1⟩

/-- The shortest digits of a positive finite number. -/
def shortest (bits : UInt64) : Scientific :=
  let (m, q) := magnitude bits
  let at4 (c : Nat) : Ratio := (⟨c, 4⟩ : Ratio).scale 2 q
  let value := at4 (4 * m)
  let low := at4 (if m = leadingBit ∧ q ≠ -1074 then 4 * m - 1 else 4 * m - 2)
  let high := at4 (4 * m + 2)
  let k := leadingExponent value 700 309
  ((List.range 17).findSome? fun i ↦ onGrid value low high (m % 2 == 0) k (i + 1)).getD
    ⟨['0'], 0⟩

/-- Numbers whose leading digit stands between the fifth place after the point and the sixteenth
before it are written positionally and always show the point; all others have an exponent with its
sign. -/
def Scientific.text (s : Scientific) : List Char :=
  if s.exponent < -5 ∨ 15 < s.exponent then
    let mantissa := match s.digits with
      | d :: e :: rest => d :: '.' :: e :: rest
      | ds => ds
    let sign := if s.exponent < 0 then '-' else '+'
    mantissa ++ 'e' :: sign :: Decimal.digits s.exponent.natAbs
  else if s.exponent < 0 then
    '0' :: '.' :: List.replicate (s.exponent.natAbs - 1) '0' ++ s.digits
  else
    let places := s.exponent.toNat + 1
    let whole := s.digits.take places ++ List.replicate (places - s.digits.length) '0'
    let fraction := s.digits.drop places
    whole ++ '.' :: (if fraction.isEmpty then ['0'] else fraction)

/-- The text of a finite number. -/
def text (bits : UInt64) : String :=
  let sign := if isNegative bits then ['-'] else []
  let body := if (magnitude bits).1 = 0 then ['0', '.', '0'] else (shortest bits).text
  String.ofList (sign ++ body)

end FragmentArchive.Binary64
