namespace PCode

/-!
Binary floating-point numbers of 64 bits.

A number is its bits: a sign, eleven bits of exponent and 52 bits of fraction.
Nothing is computed with such numbers here; they are read from text and written
as text, and both directions work on the bits with exact integers.
-/

structure Binary64 where
  bits : UInt64
deriving DecidableEq, Repr, Inhabited

namespace Binary64

/-- The exponent bits of infinities and of what is no number. -/
def topExponent : Nat := 2047

def isNegative (value : Binary64) : Bool := value.bits.toNat / Nat.pow 2 63 == 1

def exponent (value : Binary64) : Nat := value.bits.toNat / Nat.pow 2 52 % Nat.pow 2 11

def fraction (value : Binary64) : Nat := value.bits.toNat % Nat.pow 2 52

def ofParts (negative : Bool) (exponent fraction : Nat) : Binary64 :=
  ⟨UInt64.ofNat ((if negative then Nat.pow 2 63 else 0)
    + exponent % Nat.pow 2 11 * Nat.pow 2 52 + fraction % Nat.pow 2 52)⟩

def zero : Binary64 := ⟨0⟩

def infinity (negative : Bool) : Binary64 := ofParts negative topExponent 0

def notANumber : Binary64 := ofParts false topExponent (Nat.pow 2 51 + 1)

def isFinite (value : Binary64) : Bool := value.exponent != topExponent

/-- The size of a finite number as `significand * 2 ^ power`, with the power
that the format gives it.  Numbers without exponent bits have no hidden bit. -/
def significandAndPower (value : Binary64) : Nat × Int :=
  if value.exponent = 0 then (value.fraction, -1074)
  else (Nat.pow 2 52 + value.fraction, (value.exponent : Int) - 1075)

end Binary64

end PCode
