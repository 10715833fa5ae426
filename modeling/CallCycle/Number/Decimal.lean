import CallCycle.Number.Binary64

/-!
# Decimal text of floating point numbers

`Binary64.shortest` finds the fewest decimal digits that are read back as the same magnitude, and
of those the nearest to it.  `DecimalLayout` holds the decisions of a format: which exponents are
written positionally, and how an exponent is written.
-/

namespace CallCycle

namespace Binary64

/-- A power of ten above which every positive magnitude has a whole part. -/
def liftTen : Nat := 400

/-- Whether `c` units of `10 ^ (place - liftTen)` round to the magnitude `x`.  An end of the
    interval around `x` belongs to it if the mantissa is even. -/
def readsBack (x : Binary64) (place c : Nat) : Bool :=
  let point := c * tenPow place * 4 * twoPow unitBits
  -- below a power of two the magnitudes are twice as dense
  let below := if x.mantissa = twoPow (mantissaBits - 1) ∧ 0 < x.scale then 1 else 2
  let low := (4 * x.mantissa - below) * twoPow x.scale * tenPow liftTen
  let high := (4 * x.mantissa + 2) * twoPow x.scale * tenPow liftTen
  if x.mantissa % 2 = 0 then low ≤ point && point ≤ high else low < point && point < high

/-- The decimal of `n` digits or fewer that reads back as `x` and is nearest to it, as a count of
    units of `10 ^ (place - liftTen)`. -/
def nearest? (x : Binary64) (place : Nat) : Option Nat :=
  let c := x.units * tenPow liftTen / (tenPow place * twoPow unitBits)
  match readsBack x place c, readsBack x place (c + 1) with
  | true, false => some c
  | false, true => some (c + 1)
  | false, false => none
  -- both read back: the nearer one, and the even one of two
  | true, true =>
    let twice := 2 * (x.units * tenPow liftTen)
    let middle := (2 * c + 1) * (tenPow place * twoPow unitBits)
    if twice < middle ∨ twice = middle ∧ c % 2 = 0 then some c else some (c + 1)

/-- The decimal digits of a natural number. -/
def digits (n : Nat) : List Char :=
  Nat.toDigits 10 n

/-- Drops the zeros at the end of a list of digits. -/
def dropZeros (ds : List Char) : List Char :=
  (ds.reverse.dropWhile (· = '0')).reverse

/-- Tries `n` digits, then `n + 1`, up to `n + tries`; `top` is the place of the first digit.  The
    result is the digits and the place of the first of them. -/
def shortestFrom (x : Binary64) (top : Nat) : (n tries : Nat) → List Char × Nat
  | n, 0 => let c := (nearest? x (top + 1 - n)).getD 0; (digits c, (digits c).length + top - n)
  | n, tries + 1 =>
    match nearest? x (top + 1 - n) with
    | some c => (digits c, (digits c).length + top - n)
    | none => shortestFrom x top (n + 1) tries

/-- The shortest digits that read back as `x`, nearest to it among those, and the decimal exponent
    of the first digit. -/
def shortest (x : Binary64) : List Char × Int :=
  let top := (digits (x.units * tenPow liftTen / twoPow unitBits)).length - 1
  -- no magnitude needs more than 17 digits
  let (ds, place) := shortestFrom x top 1 16
  (dropZeros ds, (place : Int) - liftTen)

end Binary64

/-- How a format writes digits and a decimal exponent. -/
structure DecimalLayout where
  /-- The least exponent written positionally. -/
  lowest : Int
  /-- The least exponent above those written positionally. -/
  limit : Int
  /-- Whether a whole number keeps a point and a zero. -/
  keepsPoint : Bool
  /-- What stands in front of the exponent. -/
  mark : List Char
  /-- Whether a positive exponent has a sign. -/
  signsPlus : Bool

namespace DecimalLayout

/-- The digits with a point after the first `n + 1` of them, filled up with zeros. -/
def positional (layout : DecimalLayout) (ds : List Char) (n : Nat) : List Char :=
  let whole := ds.take (n + 1) ++ List.replicate (n + 1 - ds.length) '0'
  match ds.drop (n + 1) with
  | [] => if layout.keepsPoint then whole ++ ['.', '0'] else whole
  | fraction => whole ++ '.' :: fraction

/-- The exponent with its mark and sign. -/
def exponent (layout : DecimalLayout) (e : Int) : List Char :=
  let ds := Binary64.digits e.natAbs
  let sign := if e < 0 then ['-'] else if layout.signsPlus then ['+'] else []
  layout.mark ++ sign ++ ds

/-- The text of digits whose first has the decimal exponent `e`. -/
def write (layout : DecimalLayout) (ds : List Char) (e : Int) : List Char :=
  if layout.lowest ≤ e ∧ e < layout.limit then
    if e < 0 then '0' :: '.' :: (List.replicate (e.natAbs - 1) '0' ++ ds)
    else layout.positional ds e.natAbs
  else
    match ds with
    | [] => []
    | [d] => d :: layout.exponent e
    | d :: ds => d :: '.' :: ds ++ layout.exponent e

/-- The text of a magnitude with a sign. -/
def text (layout : DecimalLayout) (negative : Bool) (x : Binary64) : List Char :=
  let body :=
    if x.isZero then layout.write ['0'] 0
    else let (ds, e) := x.shortest; layout.write ds e
  if negative then '-' :: body else body

end DecimalLayout

end CallCycle
