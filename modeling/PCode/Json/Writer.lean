import PCode.Json.Value
import PCode.Text.Quoted

namespace PCode
namespace Json

/-!
JSON values as indented text.

Every member and every element stands on a line of its own, indented by two
spaces for each value around it.  Besides what JSON demands, the characters
that mean something in web pages and the two line separators beyond ASCII are
escaped.
-/

def codeEscape (char : Char) : List Char := "\\u".toList ++ Text.hexDigits 4 char.toNat

def escapedChar (char : Char) : List Char :=
  if char = '"' then ['\\', '"']
  else if char = '\\' then ['\\', '\\']
  else if char = '\n' then ['\\', 'n']
  else if char = '\r' then ['\\', 'r']
  else if char = '\t' then ['\\', 't']
  else if char.toNat = 8 then ['\\', 'b']
  else if char.toNat = 12 then ['\\', 'f']
  else if char.toNat < 0x20 || ['<', '>', '&'].contains char || char.toNat = 0x2028
      || char.toNat = 0x2029 then
    codeEscape char
  else [char]

def quotedText (text : String) : String :=
  String.ofList ('"' :: text.toList.flatMap escapedChar ++ ['"'])

/-- The start of a line inside `depth` values. -/
def lineStart (depth : Nat) : String :=
  String.ofList ('\n' :: List.replicate (2 * depth) ' ')

mutual

/-- The text of a value that stands inside `depth` others. -/
def indentedFrom (depth : Nat) : Json -> String
  | .null => "null"
  | .bool value => if value then "true" else "false"
  | .number text => text
  | .string value => quotedText value
  | .array [] => "[]"
  | .array values =>
    "[" ++ ",".intercalate (elementLines (depth + 1) values) ++ lineStart depth ++ "]"
  | .object [] => "\x7b\x7d"
  | .object members =>
    "\x7b" ++ ",".intercalate (memberLines (depth + 1) members) ++ lineStart depth ++ "\x7d"

def elementLines (depth : Nat) : List Json -> List String
  | [] => []
  | value :: values =>
    (lineStart depth ++ indentedFrom depth value) :: elementLines depth values

def memberLines (depth : Nat) : List (String × Json) -> List String
  | [] => []
  | (key, value) :: members =>
    (lineStart depth ++ quotedText key ++ ": " ++ indentedFrom depth value)
      :: memberLines depth members

end

def indented (value : Json) : String := indentedFrom 0 value

end Json
end PCode
