import ResumableTemplates.Number.Binary64

/-!
The decimal text of a float: the fewest digits that read back as the same number, of those the
nearest to it, and of two equally near the larger. Digits are always written out in full, without
a power of ten.
-/
namespace ResumableTemplates

structure Decimal where
  digits : Nat
  exponent : Int
deriving DecidableEq

namespace Decimal

def width (n : Nat) : Nat := (Nat.toDigits 10 n).length

/-- The numbers that read back as one positive double, over a common denominator: from `low` to
`high` around `value`, the ends included or not. -/
structure Interval where
  low : Nat
  value : Nat
  high : Nat
  denominator : Nat
  hasEnds : Bool

/-- The interval of `b`. It ends half way to either neighbour, and the neighbour below a power of
two is twice as near; an end reads back as the even significand. -/
def Interval.of (b : Binary64) : Interval :=
  let isPower := b.significand = Binary64.minNormal ∧ Binary64.minExponent < b.exponent
  let up := (b.exponent - 2).toNat
  let down := (2 - b.exponent).toNat
  { low := (4 * b.significand - if isPower then 1 else 2) <<< up
    value := (4 * b.significand) <<< up
    high := (4 * b.significand + 2) <<< up
    denominator := 1 <<< down
    hasEnds := b.significand % 2 == 0 }

def Interval.magnitude (i : Interval) : Int :=
  if i.denominator ≤ i.value then (width (i.value / i.denominator) - 1 : Nat)
  else -(width ((i.denominator - 1) / i.value) : Int)

def Interval.inUnits (i : Interval) (e : Int) : Interval :=
  let scale := Nat.pow 10 (-e).toNat
  { i with
    low := i.low * scale
    value := i.value * scale
    high := i.high * scale
    denominator := i.denominator * Nat.pow 10 e.toNat }

def Interval.nearest? (i : Interval) : Option Nat :=
  let d := i.value / i.denominator
  let fits (a b : Nat) : Bool := if i.hasEnds then a ≤ b else a < b
  let downFits := fits i.low (d * i.denominator)
  let upFits := fits ((d + 1) * i.denominator) i.high
  let isUpNearer := i.denominator ≤ 2 * (i.value % i.denominator)
  if upFits && (isUpNearer || !downFits) then some (d + 1)
  else if downFits then some d
  else none

def Interval.search (i : Interval) : (fuel n : Nat) → Decimal
  | 0, n =>
    let e := i.magnitude - (n - 1 : Nat)
    ⟨(i.inUnits e).value / (i.inUnits e).denominator, e⟩
  | fuel + 1, n =>
    let e := i.magnitude - (n - 1 : Nat)
    match (i.inUnits e).nearest? with
    | some d => if d % 10 = 0 then ⟨d / 10, e + 1⟩ else ⟨d, e⟩
    | none => i.search fuel (n + 1)

def shortest (b : Binary64) : Decimal := (Interval.of b).search 17 1

def positional (d : Decimal) : String :=
  let ds := Nat.toDigits 10 d.digits
  if 0 ≤ d.exponent then String.ofList (ds ++ List.replicate d.exponent.toNat '0')
  else
    let places := (-d.exponent).toNat
    let padded := List.replicate (places + 1 - ds.length) '0' ++ ds
    let whole := padded.length - places
    String.ofList (padded.take whole ++ '.' :: padded.drop whole)

end Decimal

def floatText (x : Float) : String :=
  if x.isNaN then "NaN"
  else
    let sign := if (Binary64.ofFloat x).isNegative then "-" else ""
    if x.isInf then sign ++ "inf"
    else if x == 0 then sign ++ "0"
    else sign ++ (Decimal.shortest (Binary64.ofFloat x)).positional

end ResumableTemplates
