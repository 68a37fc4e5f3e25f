import PCode.Text.Utf8

namespace PCode
namespace Text

/-!
Text to bytes and back.

The bytes of a text are read as that text again.  The bytes of one character come first: they are
those of its code point, and reading takes all of them at once.
-/

/-- The bytes of characters. -/
def encode (chars : List Char) : List UInt8 :=
  chars.flatMap fun char => encodeCode char.toNat

theorem encode_append (first second : List Char) :
    encode (first ++ second) = encode first ++ encode second :=
  List.flatMap_append

theorem encode_cons (char : Char) (chars : List Char) :
    encode (char :: chars) = encodeCode char.toNat ++ encode chars :=
  List.flatMap_cons

/-! ## The bytes of a text -/

theorem toList_loop (bytes : ByteArray) (index : Nat) (before : List UInt8) :
    ByteArray.toList.loop bytes index before
      = before.reverse ++ bytes.data.toList.drop index := by
  fun_induction ByteArray.toList.loop bytes index before with
  | case1 index before inside ih =>
    have bound : index < bytes.data.toList.length := inside
    rw [ih, List.reverse_cons, List.append_assoc,
      List.drop_eq_getElem_cons bound]
    congr 1
    simp [ByteArray.get!, getElem!_pos, inside]
  | case2 index before outside =>
    have bound : bytes.data.toList.length ≤ index := Nat.le_of_not_lt outside
    rw [List.drop_eq_nil_of_le bound, List.append_nil]

/-- The code points of characters, between which there are no surrogates. -/
theorem toNat_valid (char : Char) :
    char.toNat < 0xd800 ∨ 0xdfff < char.toNat ∧ char.toNat < 0x110000 :=
  char.valid

theorem utf8EncodeChar_eq_encodeCode (char : Char) :
    String.utf8EncodeChar char = encodeCode char.toNat := by
  have bound := toNat_valid char
  have same : char.val.toNat = char.toNat := rfl
  rw [String.utf8EncodeChar, encodeCode, same]
  dsimp only
  by_cases one : char.toNat < 0x80
  · rw [if_pos (by omega), if_pos one]
  by_cases two : char.toNat < 0x800
  · have lead : char.toNat / 64 % 32 + 192 = 0xc0 + char.toNat / 64 := by omega
    rw [if_neg (by omega), if_pos (by omega), if_neg one, if_pos two, lead, Nat.add_comm (_ % 64)]
  by_cases three : char.toNat < 0x10000
  · have lead : char.toNat / 4096 % 16 + 224 = 0xe0 + char.toNat / 4096 := by omega
    rw [if_neg (by omega), if_neg (by omega), if_pos (by omega), if_neg one, if_neg two,
      if_pos three, lead, Nat.add_comm (_ % 64), Nat.add_comm (_ % 64)]
  · have lead : char.toNat / 262144 % 8 + 240 = 0xf0 + char.toNat / 262144 := by omega
    rw [if_neg (by omega), if_neg (by omega), if_neg (by omega), if_neg one, if_neg two,
      if_neg three, lead, Nat.add_comm (_ % 64), Nat.add_comm (_ % 64), Nat.add_comm (_ % 64)]

theorem toList_toUTF8 (text : String) : text.toUTF8.toList = encode text.toList := by
  rw [ByteArray.toList, toList_loop, List.drop_zero, List.reverse_nil, List.nil_append,
    String.toUTF8_eq_toByteArray, ← String.utf8Encode_toList, List.utf8Encode,
    List.data_toByteArray, List.toList_toArray, encode]
  exact congrArg (fun bytes => text.toList.flatMap bytes) (funext utf8EncodeChar_eq_encodeCode)

/-! ## Reading characters -/

theorem toNat_byte {value : Nat} (small : value < 256) : (UInt8.ofNat value).toNat = value :=
  UInt8.toNat_ofNat_of_lt' small

/-- The byte of a sequence that stands for six bits of a code point. -/
theorem toNat_tail (value : Nat) : (UInt8.ofNat (0x80 + value % 64)).toNat = 0x80 + value % 64 :=
  toNat_byte (by omega)

theorem isTail_tail (value : Nat) : isTail (UInt8.ofNat (0x80 + value % 64)) = true := by
  simp only [isTail, Bool.and_eq_true, decide_eq_true_eq, UInt8.le_iff_toNat_le, toNat_tail,
    UInt8.reduceToNat]
  omega

variable {lead code : Nat}

/-- A lead byte of three or four bytes does not start two. -/
theorem char2?_of_large (large : 0xdf < lead) (small : lead < 256) (tail : UInt8) :
    char2? (UInt8.ofNat lead) tail = none := by
  rw [char2?, if_neg]
  simp only [Bool.and_eq_true, decide_eq_true_eq, UInt8.le_iff_toNat_le, toNat_byte small,
    UInt8.reduceToNat]
  omega

/-- A lead byte of four bytes does not start three. -/
theorem char3?_of_large (large : 0xef < lead) (small : lead < 256) (second third : UInt8) :
    char3? (UInt8.ofNat lead) second third = none := by
  rw [char3?, if_neg]
  simp only [Bool.and_eq_true, decide_eq_true_eq, UInt8.le_iff_toNat_le, toNat_byte small,
    UInt8.reduceToNat]
  omega

theorem char2?_encoded (least : 0x80 <= code) (most : code < 0x800) :
    char2? (UInt8.ofNat (0xc0 + code / 64)) (UInt8.ofNat (0x80 + code % 64))
      = some (Char.ofNat code) := by
  have lead := toNat_byte (show 0xc0 + code / 64 < 256 by omega)
  have value : (0xc0 + code / 64 - 0xc0) * 64 + (0x80 + code % 64 - 0x80) = code := by omega
  rw [char2?, lead, toNat_tail, value, if_pos]
  simp only [Bool.and_eq_true, decide_eq_true_eq, UInt8.le_iff_toNat_le, lead, isTail_tail,
    and_true, UInt8.reduceToNat]
  omega

theorem char3?_encoded (least : 0x800 <= code) (most : code < 0x10000)
    (proper : code < 0xd800 ∨ 0xdfff < code) :
    char3? (UInt8.ofNat (0xe0 + code / 4096)) (UInt8.ofNat (0x80 + code / 64 % 64))
        (UInt8.ofNat (0x80 + code % 64)) = some (Char.ofNat code) := by
  have lead := toNat_byte (show 0xe0 + code / 4096 < 256 by omega)
  have value : (0xe0 + code / 4096 - 0xe0) * 4096 + (0x80 + code / 64 % 64 - 0x80) * 64
      + (0x80 + code % 64 - 0x80) = code := by omega
  rw [char3?, lead, toNat_tail, toNat_tail, value, if_pos]
  simp only [Bool.and_eq_true, Bool.or_eq_true, decide_eq_true_eq, UInt8.le_iff_toNat_le, lead,
    isTail_tail, and_true, UInt8.reduceToNat]
  omega

theorem char4?_encoded (least : 0x10000 <= code) (most : code < 0x110000) :
    char4? (UInt8.ofNat (0xf0 + code / 262144)) (UInt8.ofNat (0x80 + code / 4096 % 64))
        (UInt8.ofNat (0x80 + code / 64 % 64)) (UInt8.ofNat (0x80 + code % 64))
      = some (Char.ofNat code) := by
  have lead := toNat_byte (show 0xf0 + code / 262144 < 256 by omega)
  have value : (0xf0 + code / 262144 - 0xf0) * 262144 + (0x80 + code / 4096 % 64 - 0x80) * 4096
      + (0x80 + code / 64 % 64 - 0x80) * 64 + (0x80 + code % 64 - 0x80) = code := by omega
  rw [char4?, lead, toNat_tail, toNat_tail, toNat_tail, value, if_pos]
  simp only [Bool.and_eq_true, decide_eq_true_eq, UInt8.le_iff_toNat_le, lead, isTail_tail,
    and_true, UInt8.reduceToNat]
  omega

theorem not_ascii (large : 0x80 <= lead) (small : lead < 256) : ¬ UInt8.ofNat lead < 0x80 := by
  rw [UInt8.lt_iff_toNat_lt, toNat_byte small]
  exact Nat.not_lt.mpr large

/-- The bytes of a character are read as that character, whatever follows them. -/
theorem decodeOnto_encodeCode (read : List Char) (char : Char) (rest : List UInt8) :
    decodeOnto read (encodeCode char.toNat ++ rest) = decodeOnto (char :: read) rest := by
  have proper := toNat_valid char
  rw [encodeCode]
  dsimp only
  by_cases one : char.toNat < 0x80
  · have byte := toNat_byte (show char.toNat < 256 by omega)
    rw [if_pos one, List.singleton_append, decodeOnto.eq_def]
    dsimp only
    rw [if_pos (by rw [UInt8.lt_iff_toNat_lt, byte]; exact one), byte, Char.ofNat_toNat]
  by_cases two : char.toNat < 0x800
  · rw [if_neg one, if_pos two, decodeOnto.eq_def]
    dsimp only [List.cons_append, List.nil_append]
    rw [if_neg (not_ascii (by omega) (by omega)), char2?_encoded (by omega) two, Char.ofNat_toNat]
  by_cases three : char.toNat < 0x10000
  · rw [if_neg one, if_neg two, if_pos three, decodeOnto.eq_def]
    dsimp only [List.cons_append, List.nil_append]
    rw [if_neg (not_ascii (by omega) (by omega)), char2?_of_large (by omega) (by omega)]
    dsimp only
    rw [char3?_encoded (by omega) three (by omega), Char.ofNat_toNat]
  · rw [if_neg one, if_neg two, if_neg three, decodeOnto.eq_def]
    dsimp only [List.cons_append, List.nil_append]
    rw [if_neg (not_ascii (by omega) (by omega)), char2?_of_large (by omega) (by omega)]
    dsimp only
    rw [char3?_of_large (by omega) (by omega)]
    dsimp only
    rw [char4?_encoded (by omega) (by omega), Char.ofNat_toNat]

theorem decodeOnto_encode (read chars : List Char) :
    decodeOnto read (encode chars) = read.reverse ++ chars := by
  induction chars generalizing read with
  | nil => rw [encode, List.flatMap_nil, decodeOnto, List.append_nil]
  | cons char chars ih =>
    rw [encode_cons, decodeOnto_encodeCode, ih, List.reverse_cons,
      List.append_assoc, List.singleton_append]

/-- The bytes of a text are read as that text. -/
theorem ofBytes_encode (chars : List Char) : ofBytes (encode chars) = String.ofList chars := by
  rw [ofBytes, decode, decodeOnto_encode, List.reverse_nil, List.nil_append]

end Text
end PCode
