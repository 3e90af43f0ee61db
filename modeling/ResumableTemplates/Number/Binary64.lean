/-!
Finite double-precision numbers taken apart into sign, significand and a power of two, and put
together again; the exact remainder of a division by them.
-/
namespace ResumableTemplates

/-- The number `± significand * 2 ^ exponent`. -/
structure Binary64 where
  isNegative : Bool
  significand : Nat
  exponent : Int
deriving DecidableEq

namespace Binary64

def minExponent : Int := -1074

def minNormal : Nat := 1 <<< 52

def ofFloat (x : Float) : Binary64 :=
  let bits := x.toBits.toNat
  let biased := (bits >>> 52) % 2048
  let fraction := bits % minNormal
  { isNegative := bits >>> 63 == 1
    significand := if biased = 0 then fraction else minNormal + fraction
    exponent := minExponent + (biased - 1 : Nat) }

def toFloat (b : Binary64) : Float :=
  let room := if b.significand = 0 then 0 else 52 - Nat.log2 b.significand
  let shift := min room (b.exponent - minExponent).toNat
  let significand := b.significand <<< shift
  let biased := if significand < minNormal then 0
    else (b.exponent - shift - minExponent).toNat + 1
  let sign := if b.isNegative then 1 <<< 63 else 0
  Float.ofBits (UInt64.ofNat (sign + biased <<< 52 + significand % minNormal))

/-- What is left of `x` after the largest whole multiple of `y` within it, with the sign of `x`.
Both are counted in the smaller power of two, so the division is one of natural numbers. -/
def remainder (x y : Binary64) : Binary64 :=
  let unit := min x.exponent y.exponent
  let dividend := x.significand <<< (x.exponent - unit).toNat
  let divisor := y.significand <<< (y.exponent - unit).toNat
  ⟨x.isNegative, dividend % divisor, unit⟩

end Binary64

/-- The remainder of a float division: exact, with the sign of the dividend. There is none for an
infinite dividend or for division by zero; dividing by an infinity leaves the dividend. -/
def floatRemainder (x y : Float) : Float :=
  if x.isNaN || y.isNaN || x.isInf || y == 0 then 0 / 0
  else if y.isInf then x
  else ((Binary64.ofFloat x).remainder (Binary64.ofFloat y)).toFloat

end ResumableTemplates
