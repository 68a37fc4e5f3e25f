import PCode.Binary64

namespace PCode
namespace Binary64

/-!
Numbers from text.

A numeral is scanned into its digits and the power that scales them, and the
exact ratio it stands for is rounded to the nearest number of the format, to the
even one of two that are equally near.  Numerals are decimal or hexadecimal;
infinity and what is no number have names.  A ratio beyond the format rounds to
an infinity, which is reported as out of range.
-/

/-- Rounds a ratio of positive integers.  The power of two is chosen so that the
quotient has 53 bits, unless the format has no smaller power. -/
def roundRatio (num den : Nat) : Nat × Int :=
  let scale : Int := (num.log2 : Int) - (den.log2 : Int)
  let below :=
    if 0 <= scale then decide (num < den * Nat.pow 2 scale.toNat)
    else decide (num * Nat.pow 2 (-scale).toNat < den)
  let power : Int := max (scale - (if below then 53 else 52)) (-1074)
  let top := if 0 <= power then num else num * Nat.pow 2 (-power).toNat
  let bottom := if 0 <= power then den * Nat.pow 2 power.toNat else den
  let quotient := top / bottom
  let remainder := top % bottom
  let up := decide (bottom < 2 * remainder) || (2 * remainder == bottom && quotient % 2 == 1)
  (if up then quotient + 1 else quotient, power)

/-- The bits of a rounded ratio without its sign.  A quotient that rounding has
carried to 54 bits moves the exponent by itself. -/
def magnitude (rounded : Nat × Int) : Nat :=
  (rounded.2 + 1074).toNat * Nat.pow 2 52 + rounded.1

/-- What a numeral stands for. -/
inductive Reading where
  | value (value : Binary64)
  /-- Beyond the format: the infinity that stands for it. -/
  | outOfRange (value : Binary64)
  /-- Not a numeral. -/
  | malformed
deriving DecidableEq, Repr, Inhabited

def ofRatio (negative : Bool) (num den : Nat) : Reading :=
  if num = 0 then .value (ofParts negative 0 0)
  else
    let bits := magnitude (roundRatio num den)
    if bits < topExponent * Nat.pow 2 52 then
      .value ⟨UInt64.ofNat ((if negative then Nat.pow 2 63 else 0) + bits)⟩
    else .outOfRange (infinity negative)

/-- A scanned numeral: digits in a base, and the power of the scale. -/
structure Numeral where
  negative : Bool
  digits : Nat
  /-- Number of digits from the first one that is not zero. -/
  width : Nat
  power : Int
deriving DecidableEq, Repr, Inhabited

/-- The number nearest to decimal digits times a power of ten.  Powers far
outside the format are not computed. -/
def Numeral.decimal (numeral : Numeral) : Reading :=
  let reach : Int := numeral.power + numeral.width
  if numeral.digits = 0 || reach < -400 then .value (ofParts numeral.negative 0 0)
  else if 400 < reach then .outOfRange (infinity numeral.negative)
  else if 0 <= numeral.power then
    ofRatio numeral.negative (numeral.digits * Nat.pow 10 numeral.power.toNat) 1
  else ofRatio numeral.negative numeral.digits (Nat.pow 10 (-numeral.power).toNat)

/-- The number nearest to hexadecimal digits times a power of two. -/
def Numeral.binary (numeral : Numeral) : Reading :=
  let reach : Int := numeral.power + 4 * numeral.width
  if numeral.digits = 0 || reach < -1200 then .value (ofParts numeral.negative 0 0)
  else if 1200 < reach then .outOfRange (infinity numeral.negative)
  else if 0 <= numeral.power then
    ofRatio numeral.negative (numeral.digits * Nat.pow 2 numeral.power.toNat) 1
  else ofRatio numeral.negative numeral.digits (Nat.pow 2 (-numeral.power).toNat)

def digit? (base : Nat) (char : Char) : Option Nat :=
  let value :=
    if '0' <= char && char <= '9' then char.toNat - 48
    else if 'a' <= char && char <= 'f' then char.toNat - 87
    else if 'A' <= char && char <= 'F' then char.toNat - 55
    else base
  if value < base then some value else none

/-- The digits at the start of a text: how many, their value after `start`, and
the rest. -/
def scanDigits (base : Nat) : Nat -> Nat -> List Char -> Nat × Nat × List Char
  | count, start, [] => (count, start, [])
  | count, start, char :: chars =>
    match digit? base char with
    | some value => scanDigits base (count + 1) (start * base + value) chars
    | none => (count, start, char :: chars)

/-- The exponent at the end of a numeral: a letter, a sign if any, and digits. -/
def scanExponent (letter : Char) : List Char -> Option Int
  | [] => some 0
  | mark :: chars =>
    if mark.toLower = letter then
      let (negative, digits) := match chars with
        | '-' :: digits => (true, digits)
        | '+' :: digits => (false, digits)
        | digits => (false, digits)
      match scanDigits 10 0 0 digits with
      | (0, _, _) => none
      | (_, value, []) => some (if negative then -(value : Int) else value)
      | _ => none
    else none

/-- Number of digits of a number in a base, from the first that is not zero. -/
def digitWidth (base value : Nat) : Nat :=
  if value = 0 then 0 else (Nat.toDigits base value).length

/-- Scans a numeral without its sign.  Each digit after the point scales by
`perDigit`. -/
def scanNumeral (negative : Bool) (base : Nat) (letter : Char) (perDigit : Nat)
    (chars : List Char) : Option Numeral :=
  let (whole, start, rest) := scanDigits base 0 0 chars
  let (decimals, digits, rest) := match rest with
    | '.' :: rest => scanDigits base 0 start rest
    | rest => (0, start, rest)
  if whole + decimals = 0 then none
  else (scanExponent letter rest).map fun exponent =>
    { negative, digits, width := digitWidth base digits,
      power := exponent - (perDigit * decimals : Nat) }

def readDecimal (negative : Bool) (chars : List Char) : Reading :=
  match scanNumeral negative 10 'e' 1 chars with
  | some numeral => numeral.decimal
  | none => .malformed

/-- Reads a hexadecimal numeral without its sign and its mark.  It must have an
exponent. -/
def readHexadecimal (negative : Bool) (chars : List Char) : Reading :=
  if chars.any fun char => char.toLower = 'p' then
    match scanNumeral negative 16 'p' 4 chars with
    | some numeral => numeral.binary
    | none => .malformed
  else .malformed

def readUnsigned (negative : Bool) (chars : List Char) : Reading :=
  let lower := String.ofList (chars.map Char.toLower)
  if lower = "inf" || lower = "infinity" then .value (infinity negative)
  else match chars with
    | '0' :: 'x' :: digits => readHexadecimal negative digits
    | '0' :: 'X' :: digits => readHexadecimal negative digits
    | _ => readDecimal negative chars

def read (text : String) : Reading :=
  match text.toList with
  | '-' :: chars => readUnsigned true chars
  | '+' :: chars => readUnsigned false chars
  | chars =>
    if (text.map Char.toLower) = "nan" then .value notANumber else readUnsigned false chars

/-- The number that a numeral stands for: an infinity when it is out of range,
and zero when it is none. -/
def Reading.orNearest : Reading -> Binary64
  | .value number => number
  | .outOfRange number => number
  | .malformed => zero

end Binary64
end PCode
