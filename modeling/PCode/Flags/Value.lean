import PCode.Text.Quoted

namespace PCode

/-!
Values of flags.

A flag holds a text, a truth value, an integer of 64 bits or a growing list of
texts.  Every setting of a flag is a text, and the sort of its value says how
that text is read.
-/

inductive FlagValue where
  | text (value : String)
  | toggle (value : Bool)
  | number (value : Int64)
  | texts (values : List String)
deriving DecidableEq, Repr, Inhabited

/-- Why a text is no number. -/
inductive NumeralProblem where
  | malformed
  | outOfRange
deriving DecidableEq, Repr, Inhabited

def NumeralProblem.message : NumeralProblem -> String
  | .malformed => "invalid syntax"
  | .outOfRange => "value out of range"

/-- The value of decimal digits behind `start`.  The first character that is no
digit ends the reading, and so does the first digit that takes the value out of
64 bits without sign. -/
def decimalMagnitude (start : Nat) : List Char -> Except NumeralProblem Nat
  | [] => .ok start
  | char :: chars =>
    if '0' <= char && char <= '9' then
      let value := start * 10 + (char.toNat - 48)
      if value < Nat.pow 2 64 then decimalMagnitude value chars else .error .outOfRange
    else .error .malformed

/-- The magnitude of a numeral, which has one digit at least. -/
def numeralMagnitude (digits : List Char) : Except NumeralProblem Nat :=
  if digits.isEmpty then .error .malformed else decimalMagnitude 0 digits

/-- Reads a decimal integer of 64 bits with an optional sign. -/
def readInteger (text : String) : Except NumeralProblem Int64 :=
  let (negative, digits) := match text.toList with
    | '-' :: digits => (true, digits)
    | '+' :: digits => (false, digits)
    | digits => (false, digits)
  match numeralMagnitude digits with
  | .error problem => .error problem
  | .ok magnitude =>
    if negative then
      if magnitude <= Nat.pow 2 63 then .ok (Int64.ofInt (-(magnitude : Int)))
      else .error .outOfRange
    else if magnitude < Nat.pow 2 63 then .ok (Int64.ofNat magnitude)
    else .error .outOfRange

def readTruth (text : String) : Option Bool :=
  if ["1", "t", "T", "true", "TRUE", "True"].contains text then some true
  else if ["0", "f", "F", "false", "FALSE", "False"].contains text then some false
  else none

/-- Why arguments could not be read. -/
inductive FlagError where
  | emptyName
  | unknown (spelled : String)
  | needsArgument (spelled : String)
  | badToggle (text : String)
  | badNumber (text : String) (problem : NumeralProblem)
deriving DecidableEq, Repr, Inhabited

def FlagError.message : FlagError -> String
  | .emptyName => "empty flag name"
  | .unknown spelled => s!"unknown flag: {spelled}"
  | .needsArgument spelled => s!"flag needs an argument: {spelled}"
  | .badToggle text =>
    s!"invalid boolean value '{text}': strconv.ParseBool: parsing {Text.quoted text}: "
      ++ NumeralProblem.malformed.message
  | .badNumber text problem =>
    s!"invalid integer value '{text}': strconv.Atoi: parsing {Text.quoted text}: "
      ++ problem.message

namespace FlagValue

def shown : FlagValue -> String
  | .text value => value
  | .toggle value => if value then "true" else "false"
  | .number value => toString value
  | .texts values => ", ".intercalate values

/-- Whether the value is a truth value, which needs no argument. -/
def isToggle : FlagValue -> Bool
  | .toggle _ => true
  | _ => false

/-- The value after one more setting.  An empty setting turns a truth value
on. -/
def set (setting : String) : FlagValue -> Except FlagError FlagValue
  | .text _ => .ok (.text setting)
  | .toggle _ =>
    if setting.isEmpty then .ok (.toggle true)
    else
      match readTruth setting with
      | some value => .ok (.toggle value)
      | none => .error (.badToggle setting)
  | .number _ =>
    match readInteger setting with
    | .ok value => .ok (.number value)
    | .error problem => .error (.badNumber setting problem)
  | .texts values => .ok (.texts (values ++ [setting]))

end FlagValue

end PCode
