import PCode.Duration
import PCode.Flags.Value

namespace PCode

/-!
Plain command lines.

A plain flag is written with one dash or two, and its setting stands behind an
equals sign or is the next argument.  Flags come first: the first argument that
is no flag, or `--`, ends them.  Numbers may have a base in front and
underscores between digits.
-/

/-- What a plain flag holds. -/
inductive PlainValue where
  | text (value : String)
  | toggle (value : Bool)
  | number (value : Int64)
  | span (value : Duration)
deriving DecidableEq, Repr, Inhabited

structure PlainFlag where
  name : String
  value : PlainValue
  usage : String
deriving DecidableEq, Repr, Inhabited

/-- Why a setting does not fit its flag. -/
inductive SettingProblem where
  | unreadable
  | outOfRange
deriving DecidableEq, Repr, Inhabited

def SettingProblem.message : SettingProblem -> String
  | .unreadable => "parse error"
  | .outOfRange => "value out of range"

/-- The digit that a character stands for; letters count on from ten. -/
def digitOf? (char : Char) : Option Nat :=
  if '0' <= char && char <= '9' then some (char.toNat - 48)
  else if 'a' <= char.toLower && char.toLower <= 'z' then some (char.toLower.toNat - 87)
  else none

/-- The value of digits of a base behind `start`, underscores left out. -/
def baseMagnitude (base start : Nat) : List Char -> Except SettingProblem Nat
  | [] => .ok start
  | char :: chars =>
    if char = '_' then baseMagnitude base start chars
    else
      match digitOf? char with
      | none => .error .unreadable
      | some digit =>
        let value := start * base + digit
        if digit >= base then .error .unreadable
        else if value < Nat.pow 2 64 then baseMagnitude base value chars
        else .error .outOfRange

/-- What an underscore may follow: a digit, which it must be followed by. -/
inductive Before where
  | nothing
  | digit
  | underscore
  | other
deriving DecidableEq, Repr

/-- Whether every underscore stands between digits. -/
def underscoresFit (hexadecimal : Bool) (before : Before) : List Char -> Bool
  | [] => before != .underscore
  | char :: chars =>
    if ('0' <= char && char <= '9')
        || (hexadecimal && 'a' <= char.toLower && char.toLower <= 'f') then
      underscoresFit hexadecimal .digit chars
    else if char = '_' then before == .digit && underscoresFit hexadecimal .underscore chars
    else before != .underscore && underscoresFit hexadecimal .other chars

/-- Base and digits of a numeral.  A leading zero means octal, unless a letter
names another base. -/
def splitBase : List Char -> Nat × List Char
  | '0' :: letter :: next :: rest =>
    if letter.toLower = 'b' then (2, next :: rest)
    else if letter.toLower = 'o' then (8, next :: rest)
    else if letter.toLower = 'x' then (16, next :: rest)
    else (8, letter :: next :: rest)
  | '0' :: rest => (8, rest)
  | chars => (10, chars)

/-- Whether the underscores of a numeral stand between digits; a base counts as
a digit. -/
def numeralUnderscoresFit : List Char -> Bool
  | '0' :: letter :: rest =>
    if ['b', 'o', 'x'].contains letter.toLower then
      underscoresFit (letter.toLower == 'x') .digit rest
    else underscoresFit false .nothing ('0' :: letter :: rest)
  | chars => underscoresFit false .nothing chars

/-- Reads an integer of 64 bits with an optional sign and an optional base. -/
def readNumber (text : String) : Except SettingProblem Int64 :=
  let (negative, chars) := match text.toList with
    | '-' :: chars => (true, chars)
    | '+' :: chars => (false, chars)
    | chars => (false, chars)
  if chars.isEmpty then .error .unreadable
  else
    let (base, digits) := splitBase chars
    match baseMagnitude base 0 digits with
    | .error problem => .error problem
    | .ok magnitude =>
      if chars.contains '_' && !numeralUnderscoresFit chars then .error .unreadable
      else if negative then
        if magnitude <= Nat.pow 2 63 then .ok (Int64.ofInt (-(magnitude : Int)))
        else .error .outOfRange
      else if magnitude < Nat.pow 2 63 then .ok (Int64.ofNat magnitude)
      else .error .outOfRange

namespace PlainValue

/-- Whether the value is a truth value, which needs no argument. -/
def isToggle : PlainValue -> Bool
  | .toggle _ => true
  | _ => false

def set (setting : String) : PlainValue -> Except SettingProblem PlainValue
  | .text _ => .ok (.text setting)
  | .toggle _ =>
    match readTruth setting with
    | some value => .ok (.toggle value)
    | none => .error .unreadable
  | .number _ => (readNumber setting).map .number
  | .span _ =>
    match Duration.read setting with
    | some value => .ok (.span value)
    | none => .error .unreadable

def sort : PlainValue -> String
  | .text _ => "string"
  | .toggle _ => ""
  | .number _ => "int"
  | .span _ => "duration"

def initialText : PlainValue -> String
  | .text value => if value.isEmpty then "" else s!" (default {Text.quoted value})"
  | .toggle value => if value then " (default true)" else ""
  | .number value => if value = 0 then "" else s!" (default {value})"
  | .span value => if value.nanoseconds = 0 then "" else s!" (default {value.text})"

end PlainValue

/-- Why a plain command line cannot be read. -/
inductive PlainError where
  | badSyntax (arg : String)
  | undefined (name : String)
  | badToggle (name setting : String) (problem : SettingProblem)
  | badSetting (name setting : String) (problem : SettingProblem)
  | needsArgument (name : String)
deriving DecidableEq, Repr, Inhabited

def PlainError.message : PlainError -> String
  | .badSyntax arg => s!"bad flag syntax: {arg}"
  | .undefined name => s!"flag provided but not defined: -{name}"
  | .badToggle name setting problem =>
    s!"invalid boolean value {Text.quoted setting} for -{name}: {problem.message}"
  | .badSetting name setting problem =>
    s!"invalid value {Text.quoted setting} for flag -{name}: {problem.message}"
  | .needsArgument name => s!"flag needs an argument: -{name}"

/-- How a plain command line is read. -/
inductive PlainReading where
  | done (flags : List PlainFlag) (args : List String)
  | help
  | failed (error : PlainError)
deriving DecidableEq, Repr, Inhabited

namespace PlainFlag

/-- Divides a flag at its first equals sign, which is not its first character. -/
def cut : List Char -> List Char × Option (List Char)
  | [] => ([], none)
  | first :: rest =>
    let name := rest.takeWhile fun char => char != '='
    match rest.dropWhile fun char => char != '=' with
    | [] => (first :: name, none)
    | _ :: setting => (first :: name, some setting)

/-- What is written behind the dashes of a flag; nothing for an argument that is
no flag. -/
def body? (arg : String) : Option (List Char) :=
  match arg.toList with
  | ['-', '-'] => none
  | '-' :: '-' :: body => some body
  | '-' :: char :: body => some (char :: body)
  | _ => none

def argumentsFrom : List String -> List String
  | "--" :: rest => rest
  | args => args

def assign (name setting : String) : List PlainFlag -> Except PlainError (List PlainFlag)
  | [] => .error (.undefined name)
  | flag :: flags =>
    if flag.name = name then
      match flag.value.set setting with
      | .ok value => .ok ({ flag with value } :: flags)
      | .error problem =>
        .error (if flag.value.isToggle then .badToggle name setting problem
          else .badSetting name setting problem)
    else (assign name setting flags).map fun flags => flag :: flags

def parse (flags : List PlainFlag) : List String -> PlainReading
  | [] => .done flags []
  | arg :: rest =>
    match body? arg with
    | none => .done flags (argumentsFrom (arg :: rest))
    | some body =>
      if body.isEmpty || body.head? == some '-' || body.head? == some '=' then
        .failed (.badSyntax arg)
      else
        let (letters, setting) := cut body
        let name := String.ofList letters
        match flags.find? fun flag => flag.name == name with
        | none =>
          if name = "help" || name = "h" then .help else .failed (.undefined name)
        | some flag =>
          match setting with
          | some setting =>
            match assign name (String.ofList setting) flags with
            | .ok flags => parse flags rest
            | .error error => .failed error
          | none =>
            if flag.value.isToggle then
              match assign name "true" flags with
              | .ok flags => parse flags rest
              | .error error => .failed error
            else
              match rest with
              | [] => .failed (.needsArgument name)
              | setting :: rest =>
                match assign name setting flags with
                | .ok flags => parse flags rest
                | .error error => .failed error

/-- The help on one flag.  A flag of one letter without argument has its text on
the same line. -/
def help (flag : PlainFlag) : String :=
  let sort := flag.value.sort
  let head := "  -" ++ flag.name ++ (if sort.isEmpty then "" else " " ++ sort)
  head ++ (if head.utf8ByteSize <= 4 then "\t" else "\n    \t") ++ flag.usage
    ++ flag.value.initialText ++ "\n"

def page (name : String) (flags : List PlainFlag) : String :=
  let sorted := flags.mergeSort fun first second => first.name <= second.name
  s!"Usage of {name}:\n" ++ String.join (sorted.map help)

end PlainFlag

end PCode
