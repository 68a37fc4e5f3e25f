namespace PCode
namespace Text

/-!
Text from bytes.

Bytes are read as UTF-8.  A byte that starts no valid sequence becomes one
replacement character, and reading goes on with the byte after it; overlong
forms, surrogates and code points beyond the last are not valid.
-/

def replacement : Char := Char.ofNat 0xfffd

/-- Whether a byte continues a sequence. -/
def isTail (byte : UInt8) : Bool := 0x80 <= byte && byte <= 0xbf

/-- The character of a lead byte and one tail byte. -/
def char2? (a b : UInt8) : Option Char :=
  if 0xc2 <= a && a <= 0xdf && isTail b then
    some (Char.ofNat ((a.toNat - 0xc0) * 64 + (b.toNat - 0x80)))
  else none

/-- The character of a lead byte and two tail bytes. -/
def char3? (a b c : UInt8) : Option Char :=
  let code := (a.toNat - 0xe0) * 4096 + (b.toNat - 0x80) * 64 + (c.toNat - 0x80)
  if 0xe0 <= a && a <= 0xef && isTail b && isTail c && 0x800 <= code
      && (code < 0xd800 || 0xdfff < code) then
    some (Char.ofNat code)
  else none

/-- The character of a lead byte and three tail bytes. -/
def char4? (a b c d : UInt8) : Option Char :=
  let code := (a.toNat - 0xf0) * 262144 + (b.toNat - 0x80) * 4096 + (c.toNat - 0x80) * 64
    + (d.toNat - 0x80)
  if 0xf0 <= a && a <= 0xf4 && isTail b && isTail c && isTail d && 0x10000 <= code
      && code < 0x110000 then
    some (Char.ofNat code)
  else none

/-- Reads bytes in front of characters that have been read already, the last of
them first. -/
def decodeOnto (read : List Char) : List UInt8 -> List Char
  | [] => read.reverse
  | a :: rest =>
    if a < 0x80 then decodeOnto (Char.ofNat a.toNat :: read) rest
    else match rest with
      | [] => decodeOnto (replacement :: read) []
      | b :: rest2 =>
        match char2? a b with
        | some char => decodeOnto (char :: read) rest2
        | none =>
          match rest2 with
          | [] => decodeOnto (replacement :: read) (b :: [])
          | c :: rest3 =>
            match char3? a b c with
            | some char => decodeOnto (char :: read) rest3
            | none =>
              match rest3 with
              | [] => decodeOnto (replacement :: read) (b :: c :: [])
              | d :: rest4 =>
                match char4? a b c d with
                | some char => decodeOnto (char :: read) rest4
                | none => decodeOnto (replacement :: read) (b :: c :: d :: rest4)

def decode (bytes : List UInt8) : List Char := decodeOnto [] bytes

def ofBytes (bytes : List UInt8) : String := String.ofList (decode bytes)

def encodeCode (code : Nat) : List UInt8 :=
  let tail (value : Nat) : UInt8 := UInt8.ofNat (0x80 + value % 64)
  if code < 0x80 then [UInt8.ofNat code]
  else if code < 0x800 then [UInt8.ofNat (0xc0 + code / 64), tail code]
  else if code < 0x10000 then [UInt8.ofNat (0xe0 + code / 4096), tail (code / 64), tail code]
  else [UInt8.ofNat (0xf0 + code / 262144), tail (code / 4096), tail (code / 64), tail code]

end Text
end PCode
