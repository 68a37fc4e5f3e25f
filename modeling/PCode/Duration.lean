namespace PCode

/-!
Spans of time.

A span is a number of nanoseconds in 64 bits.  It is written as a sequence of
decimal numbers with units, and printed in the largest unit that leaves a whole
part, from hours to seconds in several parts.
-/

structure Duration where
  nanoseconds : Int64
deriving DecidableEq, Repr, Inhabited

namespace Duration

def ofSeconds (seconds : Nat) : Duration := ⟨Int64.ofNat (seconds * 1000000000)⟩

/-- Decimal places of a fraction with a point in front, zeros at the end left
out. -/
def fractionText (places value : Nat) : String :=
  let digits := (Nat.toDigits 10 value)
  let padded := List.replicate (places - digits.length) '0' ++ digits
  let shown := (padded.reverse.dropWhile fun digit => digit == '0').reverse
  if shown.isEmpty then "" else String.ofList ('.' :: shown)

def unitText (places value : Nat) : String :=
  toString (value / Nat.pow 10 places) ++ fractionText places (value % Nat.pow 10 places)

def magnitudeText (value : Nat) : String :=
  if value = 0 then "0s"
  else if value < 1000 then s!"{value}ns"
  else if value < 1000000 then unitText 3 value ++ "µs"
  else if value < 1000000000 then unitText 6 value ++ "ms"
  else
    let seconds := value / 1000000000
    let last := toString (seconds % 60) ++ fractionText 9 (value % 1000000000) ++ "s"
    let minutes := seconds / 60
    if minutes = 0 then last
    else if minutes / 60 = 0 then s!"{minutes}m" ++ last
    else s!"{minutes / 60}h{minutes % 60}m" ++ last

def text (duration : Duration) : String :=
  let value := duration.nanoseconds.toInt
  (if value < 0 then "-" else "") ++ magnitudeText value.natAbs

def unit? (name : List Char) : Option Nat :=
  match String.ofList name with
  | "ns" => some 1
  | "us" => some 1000
  | "µs" => some 1000
  | "μs" => some 1000
  | "ms" => some 1000000
  | "s" => some 1000000000
  | "m" => some 60000000000
  | "h" => some 3600000000000
  | _ => none

def isDigit (char : Char) : Bool := '0' <= char && char <= '9'

def digitsValue (digits : List Char) : Nat :=
  digits.foldl (fun value digit => value * 10 + (digit.toNat - 48)) 0

/-- The number of nanoseconds that a sequence of numbers with units adds up to.
Every number has a digit, before its point or behind it. -/
def scan : Nat -> Nat -> List Char -> Option Nat
  | _, total, [] => some total
  | 0, _, _ => none
  | fuel + 1, total, chars =>
    let whole := chars.takeWhile isDigit
    let rest := chars.dropWhile isDigit
    let (fraction, rest) := match rest with
      | '.' :: rest => (rest.takeWhile isDigit, rest.dropWhile isDigit)
      | rest => ([], rest)
    let name := rest.takeWhile fun char => char != '.' && !isDigit char
    if whole.isEmpty && fraction.isEmpty then none
    else
      match unit? name with
      | none => none
      | some unit =>
        let part := digitsValue whole * unit
          + digitsValue fraction * unit / Nat.pow 10 fraction.length
        if digitsValue whole > Nat.pow 2 63 || total + part > Nat.pow 2 63 then none
        else scan fuel (total + part) (rest.drop name.length)

def read (text : String) : Option Duration :=
  let (negative, chars) := match text.toList with
    | '-' :: chars => (true, chars)
    | '+' :: chars => (false, chars)
    | chars => (false, chars)
  if chars = ['0'] then some ⟨0⟩
  else if chars.isEmpty then none
  else
    match scan (chars.length + 1) 0 chars with
    | none => none
    | some total =>
      if negative then some ⟨Int64.ofInt (-(total : Int))⟩
      else if total < Nat.pow 2 63 then some ⟨Int64.ofNat total⟩
      else none

end Duration
end PCode
