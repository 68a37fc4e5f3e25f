namespace PCode
namespace Digest

/-!
A digest of 64 bits.

The bytes are taken in stripes of four words of eight bytes, each word going
into a lane of its own.  The lanes are merged, and the bytes that fill no stripe
follow: whole words, half a word, and single bytes.  All arithmetic is modulo
2^64.  The digest is the XXH64 function with seed zero.
-/

def prime1 : UInt64 := 0x9E3779B185EBCA87
def prime2 : UInt64 := 0xC2B2AE3D27D4EB4F
def prime3 : UInt64 := 0x165667B19E3779F9
def prime4 : UInt64 := 0x85EBCA77C2B2AE63
def prime5 : UInt64 := 0x27D4EB2F165667C5

def rotate (word : UInt64) (count : UInt64) : UInt64 :=
  (word <<< count) ||| (word >>> (64 - count))

/-- The number whose bytes are given, the least significant first. -/
def littleEndian (bytes : List UInt8) : UInt64 :=
  bytes.foldr (fun byte word => word * 256 + byte.toUInt64) 0

/-- Takes a word into a lane. -/
def round (lane input : UInt64) : UInt64 := rotate (lane + input * prime2) 31 * prime1

def mergeLane (digest lane : UInt64) : UInt64 :=
  (digest ^^^ round 0 lane) * prime1 + prime4

structure Lanes where
  first : UInt64
  second : UInt64
  third : UInt64
  fourth : UInt64
deriving DecidableEq, Repr, Inhabited

/-- The lanes before any byte. -/
def Lanes.initial : Lanes := ⟨prime1 + prime2, prime2, 0, 0 - prime1⟩

def wordAt (bytes : List UInt8) (offset : Nat) : UInt64 :=
  littleEndian ((bytes.drop offset).take 8)

def stripes : Nat -> Lanes -> List UInt8 -> Lanes
  | 0, lanes, _ => lanes
  | count + 1, lanes, bytes =>
    stripes count
      { first := round lanes.first (wordAt bytes 0)
        second := round lanes.second (wordAt bytes 8)
        third := round lanes.third (wordAt bytes 16)
        fourth := round lanes.fourth (wordAt bytes 24) }
      (bytes.drop 32)

def Lanes.merged (lanes : Lanes) : UInt64 :=
  let sum := rotate lanes.first 1 + rotate lanes.second 7 + rotate lanes.third 12
    + rotate lanes.fourth 18
  mergeLane (mergeLane (mergeLane (mergeLane sum lanes.first) lanes.second) lanes.third)
    lanes.fourth

def wholeWords : Nat -> UInt64 -> List UInt8 -> UInt64
  | 0, digest, _ => digest
  | count + 1, digest, bytes =>
    let mixed := rotate (digest ^^^ round 0 (wordAt bytes 0)) 27 * prime1 + prime4
    wholeWords count mixed (bytes.drop 8)

/-- Takes half a word into the digest, if there is one. -/
def halfWord (digest : UInt64) (bytes : List UInt8) : UInt64 :=
  if bytes.length < 4 then digest
  else
    rotate (digest ^^^ (littleEndian (bytes.take 4) * prime1)) 23 * prime2 + prime3

def singleByte (digest : UInt64) (byte : UInt8) : UInt64 :=
  rotate (digest ^^^ (byte.toUInt64 * prime5)) 11 * prime1

/-- Spreads the bits of the digest. -/
def avalanche (digest : UInt64) : UInt64 :=
  let digest := (digest ^^^ (digest >>> 33)) * prime2
  let digest := (digest ^^^ (digest >>> 29)) * prime3
  digest ^^^ (digest >>> 32)

def ofBytes (bytes : List UInt8) : UInt64 :=
  let length := bytes.length
  let start :=
    if length < 32 then prime5 else (stripes (length / 32) Lanes.initial bytes).merged
  let rest := bytes.drop (length / 32 * 32)
  let words := wholeWords (rest.length / 8) (start + UInt64.ofNat length) rest
  let tail := rest.drop (rest.length / 8 * 8)
  let halves := halfWord words tail
  avalanche ((tail.drop (tail.length / 4 * 4)).foldl singleByte halves)

/-- A digest in hexadecimal digits, without leading zeros. -/
def text (digest : UInt64) : String := String.ofList (Nat.toDigits 16 digest.toNat)

end Digest
end PCode
