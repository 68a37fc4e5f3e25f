import PCode.Text.Printable

namespace PCode
namespace Text

/-!
Quoted text.

A text is quoted between two equal marks.  The mark itself and the backslash get
a backslash in front; printable characters stand as they are; seven controls
have a letter; what is left is written by its number in hexadecimal, with two
digits below the space and for delete, with four digits up to 65535, and with
eight digits beyond.
-/

def hexDigit (value : Nat) : Char :=
  if value < 10 then Char.ofNat (48 + value) else Char.ofNat (87 + value)

/-- The last `width` hexadecimal digits of a number. -/
def hexDigits : Nat -> Nat -> List Char
  | 0, _ => []
  | width + 1, value => hexDigits width (value / 16) ++ [hexDigit (value % 16)]

/-- The letter of a control character that has one. -/
def controlLetter? (char : Char) : Option Char :=
  match char.toNat with
  | 7 => some 'a'
  | 8 => some 'b'
  | 9 => some 't'
  | 10 => some 'n'
  | 11 => some 'v'
  | 12 => some 'f'
  | 13 => some 'r'
  | _ => none

/-- A character inside marks. -/
def escaped (mark char : Char) : List Char :=
  if char = mark || char = '\\' then ['\\', char]
  else if isPrintable char then [char]
  else match controlLetter? char with
    | some letter => ['\\', letter]
    | none =>
      if char.toNat < 0x20 || char.toNat = 0x7f then '\\' :: 'x' :: hexDigits 2 char.toNat
      else if char.toNat < 0x10000 then '\\' :: 'u' :: hexDigits 4 char.toNat
      else '\\' :: 'U' :: hexDigits 8 char.toNat

def quotedChar (char : Char) : String := String.ofList ('\'' :: escaped '\'' char ++ ['\''])

def quoted (text : String) : String :=
  String.ofList ('"' :: text.toList.flatMap (escaped '"') ++ ['"'])

/-- The character of a code point; what is no code point gives the replacement
character. -/
def charOfCode (code : Int) : Char :=
  let value := code.toNat
  if 0 <= code && (value < 0xd800 || (0xdfff < value && value < 0x110000)) then Char.ofNat value
  else Char.ofNat 0xfffd

end Text
end PCode
