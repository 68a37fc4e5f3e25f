namespace PCode

/-!
JSON values.

A number keeps its text, because readers ask for integers and for reals in
different ways.  An object keeps all its members in order, repeated keys
included, because what a repeated key means is up to the reader.
-/

inductive Json where
  | null
  | bool (value : Bool)
  | number (text : String)
  | string (value : String)
  | array (values : List Json)
  | object (members : List (String × Json))
deriving Repr, Inhabited

namespace Json

/-- The word for the sort of a value in messages. -/
def sort : Json -> String
  | .null => "null"
  | .bool _ => "bool"
  | .number _ => "number"
  | .string _ => "string"
  | .array _ => "array"
  | .object _ => "object"

/-- Upper case for ASCII letters, and for the two letters beyond ASCII whose
simple case folding is an ASCII letter: long s and the kelvin sign. -/
def foldChar (char : Char) : Char :=
  if char.toNat = 0x17f then 'S'
  else if char.toNat = 0x212a then 'K'
  else char.toUpper

/-- A key without regard to case. -/
def foldKey (key : String) : List Char := key.toList.map foldChar

/-- The known key that a key of a document means: the key itself, or else the
known key that differs from it in case only. -/
def matchKey? (known : List String) (key : String) : Option String :=
  if known.contains key then some key
  else known.find? fun name => foldKey name == foldKey key

/-- The digits at the start of a text, as a number after `start`. -/
def decimalDigits (start : Nat) : List Char -> Option Nat
  | [] => some start
  | char :: chars =>
    if '0' <= char && char <= '9' then decimalDigits (start * 10 + (char.toNat - 48)) chars
    else none

/-- The value of a number that is written without fraction and exponent and fits
into 64 bits. -/
def int64? (text : String) : Option Int64 :=
  let bounded (value : Int) : Option Int64 :=
    if -9223372036854775808 <= value && value <= 9223372036854775807 then
      some (Int64.ofInt value)
    else none
  match text.toList with
  | '-' :: digits => (decimalDigits 0 digits).bind fun value => bounded (-(value : Int))
  | digits => (decimalDigits 0 digits).bind fun value => bounded value

end Json

end PCode
