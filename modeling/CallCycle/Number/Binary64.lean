/-!
# Binary floating point in 64 bits

A finite magnitude of the 64-bit format is `mantissa * 2 ^ scale` least units, where the least unit
is `2 ^ (-1074)` and the mantissa has at most 53 bits.  All operations are exact on natural numbers
followed by one rounding to the nearest magnitude, a tie going to the even mantissa; a result above
the largest magnitude is `none`.
-/

namespace CallCycle

/-- The magnitude `mantissa * 2 ^ scale * 2 ^ (-1074)`. -/
structure Binary64 where
  mantissa : Nat
  scale : Nat
  deriving DecidableEq, Repr

namespace Binary64

/-- Two to the power `k`. -/
def twoPow (k : Nat) : Nat := Nat.pow 2 k

/-- Ten to the power `k`. -/
def tenPow (k : Nat) : Nat := Nat.pow 10 k

/-- Number of least units in one, as a power of two. -/
def unitBits : Nat := 1074

/-- Bits of a full mantissa. -/
def mantissaBits : Nat := 53

/-- The scale of the largest magnitudes. -/
def maxScale : Nat := 2045

/-- The integer nearest to `n / d`; the even one of two. -/
def roundQuotient (n d : Nat) : Nat :=
  let q := n / d
  let r := n % d
  if 2 * r < d then q
  else if d < 2 * r then q + 1
  else q + q % 2

/-- The magnitude nearest to `n / d` least units. -/
def ofUnits? (n d : Nat) : Option Binary64 :=
  -- so many bits do not fit into the mantissa
  let scale := (n / d).log2 + 1 - mantissaBits
  let mantissa := roundQuotient n (d * twoPow scale)
  let (mantissa, scale) :=
    -- rounding up may give one bit more
    if mantissa = twoPow mantissaBits then (twoPow (mantissaBits - 1), scale + 1)
    else (mantissa, scale)
  if scale ≤ maxScale then some ⟨mantissa, scale⟩ else none

/-- The magnitude zero. -/
def zero : Binary64 := ⟨0, 0⟩

/-- Whether a magnitude is zero. -/
def isZero (x : Binary64) : Bool := x.mantissa == 0

/-- The number of least units of a magnitude. -/
def units (x : Binary64) : Nat := x.mantissa * twoPow x.scale

/-- The magnitude nearest to a natural number. -/
def ofNat? (n : Nat) : Option Binary64 :=
  ofUnits? (n * twoPow unitBits) 1

/-- The magnitude nearest to a product. -/
def mul? (x y : Binary64) : Option Binary64 :=
  ofUnits? (x.units * y.units) (twoPow unitBits)

/-- The magnitude nearest to a quotient. -/
def div? (x y : Binary64) : Option Binary64 :=
  ofUnits? (x.units * twoPow unitBits) y.units

/-- The largest power of ten below the largest magnitude. -/
def maxTen : Nat := 308

/-- The magnitude nearest to a power of ten. -/
def tenPow? (k : Nat) : Option Binary64 :=
  ofNat? (tenPow k)

/-- Divides `x` by `10 ^ 308` as often as `n` says, or until nothing is left of it. -/
def shrink? : (n : Nat) → (x : Binary64) → Option Binary64
  | 0, x => some x
  -- stops at zero, which no division changes
  | n + 1, x => if x.isZero then some x else ((tenPow? maxTen).bind (div? x)).bind (shrink? n)

/-- Scales `x` by the power of ten with exponent `k`.  A power above `10 ^ 308` is out of range,
    and one below `10 ^ (-308)` is divided out in steps. -/
def scaleTen? (x : Binary64) (k : Int) : Option Binary64 :=
  if 0 ≤ k then
    if k.natAbs ≤ maxTen then (tenPow? k.natAbs).bind (mul? x)
    else if x.isZero then some x
    else none
  else
    let steps := (k.natAbs - 1) / maxTen
    (shrink? steps x).bind fun y => (tenPow? (k.natAbs - maxTen * steps)).bind (div? y)

/-- The magnitude that a decimal significand and exponent are read as: the significand is rounded
    first, then scaled. -/
def ofDecimal? (significand : Nat) (exponent : Int) : Option Binary64 :=
  (ofNat? significand).bind (scaleTen? · exponent)

end Binary64

end CallCycle
