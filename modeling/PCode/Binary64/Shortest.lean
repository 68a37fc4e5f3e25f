import PCode.Binary64

namespace PCode
namespace Binary64

/-!
Numbers as text.

A finite number is written with the fewest digits that read back as the same
number, and of those with the digits nearest to it.  The reals that read back
form an interval around the number; for one digit, two digits and so on, the two
decimals next to the number are held against that interval, in exact integers.
Seventeen digits always suffice.  The digits are laid out positionally, however
large or small the number is.
-/

/-- A positive decimal: `digits * 10 ^ power`. -/
structure Decimal where
  digits : Nat
  power : Int
deriving DecidableEq, Repr, Inhabited

/-- The reals that read back as one number, as ratios over one denominator. -/
structure Interval where
  low : Nat
  value : Nat
  high : Nat
  denominator : Nat
  /-- Whether the ends belong to the interval. -/
  closed : Bool
deriving DecidableEq, Repr, Inhabited

/-- The interval of a positive finite number.  Below a power of two the
neighbours lie half as far apart. -/
def interval (value : Binary64) : Interval :=
  let (significand, power) := value.significandAndPower
  let narrow := value.fraction == 0 && decide (1 < value.exponent)
  let up := if 2 <= power then Nat.pow 2 (power - 2).toNat else 1
  { low := (4 * significand - (if narrow then 1 else 2)) * up
    value := 4 * significand * up
    high := (4 * significand + 2) * up
    denominator := if 2 <= power then 1 else Nat.pow 2 (2 - power).toNat
    closed := significand % 2 == 0 }

/-- Whether `digits` units of `unitTop / unitBottom` lie in the interval. -/
def Interval.holds (interval : Interval) (digits unitTop unitBottom : Nat) : Bool :=
  let point := digits * unitTop * interval.denominator
  let low := interval.low * unitBottom
  let high := interval.high * unitBottom
  if interval.closed then decide (low <= point) && decide (point <= high)
  else decide (low < point) && decide (point < high)

/-- The decimal with `count` digits that lies in the interval and is nearest to
the number, if there is one.  `top` is the power of the number's first digit. -/
def Interval.decimal? (interval : Interval) (top : Int) (count : Nat) : Option Decimal :=
  let power : Int := top - count + 1
  let unitTop := if 0 <= power then Nat.pow 10 power.toNat else 1
  let unitBottom := if 0 <= power then 1 else Nat.pow 10 (-power).toNat
  let scaled := interval.value * unitBottom
  let unit := unitTop * interval.denominator
  let below := scaled / unit
  let rest := scaled % unit
  match interval.holds below unitTop unitBottom,
      interval.holds (below + 1) unitTop unitBottom with
  | true, true =>
    some ⟨if 2 * rest < unit || (2 * rest == unit && below % 2 == 0) then below else below + 1,
      power⟩
  | true, false => some ⟨below, power⟩
  | false, true => some ⟨below + 1, power⟩
  | false, false => none

def decimalWidth (value : Nat) : Nat := (Nat.toDigits 10 value).length

/-- The power of ten of a number's first digit. -/
def Interval.topPower (interval : Interval) : Int :=
  if interval.denominator <= interval.value then
    (decimalWidth (interval.value / interval.denominator) : Int) - 1
  else
    let ratio := (interval.denominator + interval.value - 1) / interval.value
    0 - (decimalWidth (ratio - 1) : Int)

/-- The shortest decimal that reads back as a positive finite number. -/
def shortest (value : Binary64) : Decimal :=
  let interval := value.interval
  let counts := (List.range 17).map (· + 1)
  (counts.findSome? fun count => interval.decimal? interval.topPower count).getD ⟨0, 0⟩

/-- A decimal without exponent. -/
def Decimal.positional (decimal : Decimal) : String :=
  let digits := Nat.toDigits 10 decimal.digits
  if 0 <= decimal.power then
    String.ofList (digits ++ List.replicate decimal.power.toNat '0')
  else
    let places := (-decimal.power).toNat
    let padded := List.replicate (places + 1 - digits.length) '0' ++ digits
    let whole := padded.take (padded.length - places)
    let decimals := (padded.drop (padded.length - places)).reverse.dropWhile (· == '0')
    if decimals.isEmpty then String.ofList whole
    else String.ofList (whole ++ '.' :: decimals.reverse)

/-- A number as text, without exponent. -/
def text (value : Binary64) : String :=
  if value.isFinite then
    let sign := if value.isNegative then "-" else ""
    if value.exponent = 0 && value.fraction = 0 then sign ++ "0"
    else sign ++ value.shortest.positional
  else if value.fraction = 0 then (if value.isNegative then "-Inf" else "+Inf")
  else "NaN"

end Binary64
end PCode
