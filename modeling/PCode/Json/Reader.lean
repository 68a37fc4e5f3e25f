import PCode.Json.Value
import PCode.Text.Quoted
import PCode.Text.Utf8

namespace PCode
namespace Json

/-!
JSON values from bytes.

The leaves come first: blanks, words, numbers, and strings with their escapes.
Arrays and objects follow.  A reader returns the value and what is left of the
text, or the byte that it could not use together with what it expected there.
Values may be nested ten thousand deep.
-/

/-- What was being read when a byte did not fit. -/
inductive Context where
  | value
  | key
  | afterKey
  | afterMember
  | afterElement
  | afterTop
  | inString
  | inEscape
  | inHexEscape
  | inNumber
  | afterPoint
  | inExponent
  | inWord (word : String) (expected : Char)
deriving DecidableEq, Repr, Inhabited

def Context.message : Context -> String
  | .value => "looking for beginning of value"
  | .key => "looking for beginning of object key string"
  | .afterKey => "after object key"
  | .afterMember => "after object key:value pair"
  | .afterElement => "after array element"
  | .afterTop => "after top-level value"
  | .inString => "in string literal"
  | .inEscape => "in string escape code"
  | .inHexEscape => "in \\u hexadecimal character escape"
  | .inNumber => "in numeric literal"
  | .afterPoint => "after decimal point in numeric literal"
  | .inExponent => "in exponent of numeric literal"
  | .inWord word expected =>
    "in literal " ++ word ++ " (expecting " ++ Text.quotedChar expected ++ ")"

inductive SyntaxError where
  /-- There is nothing but blanks. -/
  | empty
  /-- The text ends inside a value. -/
  | truncated
  | unexpected (byte : UInt8) (context : Context)
  | tooDeep
deriving DecidableEq, Repr, Inhabited

/-- A byte as messages show it. -/
def shownByte (byte : UInt8) : String :=
  if byte = 0x27 then "'\\''"
  else if byte = 0x22 then "'\"'"
  else
    let char := Char.ofNat byte.toNat
    String.ofList ('\'' :: Text.escaped '"' char ++ ['\''])

/-- The wording for a text that should be one value. -/
def SyntaxError.message : SyntaxError -> String
  | .empty => "unexpected end of JSON input"
  | .truncated => "unexpected end of JSON input"
  | .unexpected byte context => s!"invalid character {shownByte byte} {context.message}"
  | .tooDeep => "exceeded max depth"

/-- The wording for a text that starts with a value. -/
def SyntaxError.leadingMessage : SyntaxError -> String
  | .empty => "EOF"
  | .truncated => "unexpected EOF"
  | error => error.message

/-- What a reader gives: a result and the rest of the text. -/
abbrev Scanned (Result : Type) := Except SyntaxError (Result × List UInt8)

/-- Whether a byte is blank between tokens. -/
def isBlankByte (byte : UInt8) : Bool :=
  byte == 0x20 || byte == 0x09 || byte == 0x0a || byte == 0x0d

def skipBlanks (bytes : List UInt8) : List UInt8 := bytes.dropWhile isBlankByte

def scanWord (word : String) (result : Json) : List Char -> List UInt8 -> Scanned Json
  | [], bytes => .ok (result, bytes)
  | _ :: _, [] => .error .truncated
  | expected :: letters, byte :: bytes =>
    if byte.toNat = expected.toNat then scanWord word result letters bytes
    else .error (.unexpected byte (.inWord word expected))

def isDigitByte (byte : UInt8) : Bool := 0x30 <= byte && byte <= 0x39

/-- Reads one digit and those that follow it onto the number read so far. -/
def scanDigits (context : Context) (read : List UInt8) (bytes : List UInt8) :
    Scanned (List UInt8) :=
  match bytes with
  | [] => .error .truncated
  | byte :: _ =>
    if isDigitByte byte then
      .ok (read ++ bytes.takeWhile isDigitByte, bytes.dropWhile isDigitByte)
    else .error (.unexpected byte context)

/-- Reads the part of a number before its point. -/
def scanWhole (read : List UInt8) : List UInt8 -> Scanned (List UInt8)
  | 0x30 :: bytes => .ok (read ++ [0x30], bytes)
  | bytes => scanDigits .inNumber read bytes

/-- Reads the point of a number and the digits behind it, if there is a point. -/
def scanFraction (read : List UInt8) : List UInt8 -> Scanned (List UInt8)
  | 0x2e :: bytes => scanDigits .afterPoint (read ++ [0x2e]) bytes
  | bytes => .ok (read, bytes)

def scanExponent (read : List UInt8) (bytes : List UInt8) : Scanned (List UInt8) :=
  match bytes with
  | [] => .ok (read, [])
  | byte :: rest =>
    if byte = 0x65 || byte = 0x45 then
      match rest with
      | 0x2b :: digits => scanDigits .inExponent (read ++ [byte, 0x2b]) digits
      | 0x2d :: digits => scanDigits .inExponent (read ++ [byte, 0x2d]) digits
      | digits => scanDigits .inExponent (read ++ [byte]) digits
    else .ok (read, bytes)

def scanNumber (bytes : List UInt8) : Except SyntaxError (Json × List UInt8) := do
  let (sign, digits) : List UInt8 × List UInt8 := match bytes with
    | 0x2d :: digits => ([0x2d], digits)
    | digits => ([], digits)
  let (read, bytes) ← scanWhole sign digits
  let (read, bytes) ← scanFraction read bytes
  let (read, bytes) ← scanExponent read bytes
  return (.number (Text.ofBytes read), bytes)

def hexValue? (byte : UInt8) : Option Nat :=
  if isDigitByte byte then some (byte.toNat - 0x30)
  else if 0x61 <= byte && byte <= 0x66 then some (byte.toNat - 0x57)
  else if 0x41 <= byte && byte <= 0x46 then some (byte.toNat - 0x37)
  else none

/-- The value of hexadecimal digits after `start`, or the first byte that is
none. -/
def hexValue (start : Nat) : List UInt8 -> Except UInt8 Nat
  | [] => .ok start
  | byte :: bytes =>
    match hexValue? byte with
    | some value => hexValue (start * 16 + value) bytes
    | none => .error byte

def escapeByte? (letter : UInt8) : Option UInt8 :=
  match letter.toNat with
  | 0x22 => some 0x22
  | 0x5c => some 0x5c
  | 0x2f => some 0x2f
  | 0x62 => some 0x08
  | 0x66 => some 0x0c
  | 0x6e => some 0x0a
  | 0x72 => some 0x0d
  | 0x74 => some 0x09
  | _ => none

/-- The code point of two units, if they are a surrogate pair. -/
def surrogatePair? (high low : Nat) : Option Nat :=
  if 0xd800 <= high && high < 0xdc00 && 0xdc00 <= low && low < 0xe000 then
    some ((high - 0xd800) * 0x400 + (low - 0xdc00) + 0x10000)
  else none

def isSurrogate (unit : Nat) : Bool := 0xd800 <= unit && unit < 0xe000

/-- The unit of the escape that the text starts with, if it starts with one. -/
def leadingUnit? : List UInt8 -> Option Nat
  | 0x5c :: 0x75 :: a :: b :: c :: d :: _ => (hexValue 0 [a, b, c, d]).toOption
  | _ => none

/-- The bytes of an escaped unit, given the unit that follows it directly if
one does.  A surrogate without its partner gives the replacement character. -/
def unitBytes (unit : Nat) (next : Option Nat) : List UInt8 × Bool :=
  if isSurrogate unit then
    match next.bind (surrogatePair? unit) with
    | some code => (Text.encodeCode code, true)
    | none => (Text.encodeCode 0xfffd, false)
  else (Text.encodeCode unit, false)

/-- Reads a string from behind its opening mark.  The bytes read so far come
last first. -/
def scanString (read : List UInt8) : List UInt8 -> Scanned (List UInt8)
  | [] => .error .truncated
  | 0x22 :: bytes => .ok (read.reverse, bytes)
  | 0x5c :: 0x75 :: a :: b :: c :: d :: bytes =>
    match hexValue 0 [a, b, c, d] with
    | .error byte => .error (.unexpected byte .inHexEscape)
    | .ok unit =>
      let (encoded, paired) := unitBytes unit (leadingUnit? bytes)
      if paired then
        match bytes with
        | _ :: _ :: _ :: _ :: _ :: _ :: rest => scanString (encoded.reverse ++ read) rest
        | _ => .error .truncated
      else scanString (encoded.reverse ++ read) bytes
  | 0x5c :: 0x75 :: bytes =>
    match hexValue 0 bytes with
    | .error byte => .error (.unexpected byte .inHexEscape)
    | .ok _ => .error .truncated
  | [0x5c] => .error .truncated
  | 0x5c :: letter :: bytes =>
    match escapeByte? letter with
    | some byte => scanString (byte :: read) bytes
    | none => .error (.unexpected letter .inEscape)
  | byte :: bytes =>
    if byte < 0x20 then .error (.unexpected byte .inString)
    else scanString (byte :: read) bytes

def scanText (bytes : List UInt8) : Scanned String :=
  (scanString [] bytes).map fun (read, rest) => (Text.ofBytes read, rest)

/-- How deep values may be nested. -/
def maxDepth : Nat := 10000

mutual

/-- Reads a value inside `depth` arrays and objects. -/
def scanValue (fuel depth : Nat) (bytes : List UInt8) : Scanned Json :=
  match fuel, skipBlanks bytes with
  | 0, _ => .error .truncated
  | _, [] => .error .truncated
  | fuel + 1, byte :: rest =>
    if byte = 0x22 then (scanText rest).map fun (text, rest) => (.string text, rest)
    else if byte = 0x5b then
      if depth < maxDepth then scanArray fuel (depth + 1) rest else .error .tooDeep
    else if byte = 0x7b then
      if depth < maxDepth then scanObject fuel (depth + 1) rest else .error .tooDeep
    else if byte = 0x74 then scanWord "true" (.bool true) ['r', 'u', 'e'] rest
    else if byte = 0x66 then scanWord "false" (.bool false) ['a', 'l', 's', 'e'] rest
    else if byte = 0x6e then scanWord "null" .null ['u', 'l', 'l'] rest
    else if byte = 0x2d || isDigitByte byte then scanNumber (byte :: rest)
    else .error (.unexpected byte .value)

def scanArray (fuel depth : Nat) (bytes : List UInt8) : Scanned Json :=
  match fuel, skipBlanks bytes with
  | 0, _ => .error .truncated
  | _, 0x5d :: rest => .ok (.array [], rest)
  | fuel + 1, bytes => scanElements fuel depth [] bytes

/-- Reads the elements of an array.  Those read so far come last first. -/
def scanElements (fuel depth : Nat) (read : List Json) (bytes : List UInt8) : Scanned Json :=
  match fuel with
  | 0 => .error .truncated
  | fuel + 1 =>
    match scanValue fuel depth bytes with
    | .error error => .error error
    | .ok (value, rest) =>
      match skipBlanks rest with
      | [] => .error .truncated
      | 0x2c :: rest => scanElements fuel depth (value :: read) rest
      | 0x5d :: rest => .ok (.array (value :: read).reverse, rest)
      | byte :: _ => .error (.unexpected byte .afterElement)

def scanObject (fuel depth : Nat) (bytes : List UInt8) : Scanned Json :=
  match fuel, skipBlanks bytes with
  | 0, _ => .error .truncated
  | _, 0x7d :: rest => .ok (.object [], rest)
  | fuel + 1, bytes => scanMembers fuel depth [] bytes

/-- Reads the members of an object.  Those read so far come last first. -/
def scanMembers (fuel depth : Nat) (read : List (String × Json)) (bytes : List UInt8) :
    Scanned Json :=
  match fuel, skipBlanks bytes with
  | 0, _ => .error .truncated
  | _, [] => .error .truncated
  | fuel + 1, 0x22 :: rest =>
    match scanText rest with
    | .error error => .error error
    | .ok (key, rest) =>
      match skipBlanks rest with
      | [] => .error .truncated
      | 0x3a :: rest =>
        match scanValue fuel depth rest with
        | .error error => .error error
        | .ok (value, rest) =>
          match skipBlanks rest with
          | [] => .error .truncated
          | 0x2c :: rest => scanMembers fuel depth ((key, value) :: read) rest
          | 0x7d :: rest => .ok (.object ((key, value) :: read).reverse, rest)
          | byte :: _ => .error (.unexpected byte .afterMember)
      | byte :: _ => .error (.unexpected byte .afterKey)
  | _, byte :: _ => .error (.unexpected byte .key)

end

/-- Reads the value that a text starts with.  At most three steps are taken
between two bytes, so the length of the text bounds the number of steps. -/
def scanLeading (bytes : List UInt8) : Scanned Json :=
  if (skipBlanks bytes).isEmpty then .error .empty
  else scanValue (4 * bytes.length + 4) 0 bytes

/-- The value that a text starts with; what follows it is not looked at. -/
def readLeading (bytes : List UInt8) : Except SyntaxError Json :=
  (scanLeading bytes).map Prod.fst

def readWhole (bytes : List UInt8) : Except SyntaxError Json := do
  let (value, rest) ← scanLeading bytes
  match skipBlanks rest with
  | [] => return value
  | byte :: _ => .error (.unexpected byte .afterTop)

end Json
end PCode
