import Mathlib.Data.List.DropRight
import PCode.Json.Writer
import PCode.Proofs.Json.Numerals
import PCode.Proofs.Text.Utf8

namespace PCode
namespace Json

/-!
Indented text is read as the value it was written for.

Strings, numbers and words are read back first, each with whatever follows it.  A value is read back
together with its parts, by induction on how deep they may still be nested.  The steps that the
reader is given are counted against the length of the text.
-/

open Text (encode encode_append encode_cons encodeCode)

/-- The bytes of a text. -/
def written (text : String) : List UInt8 := encode text.toList

theorem written_append (first second : String) :
    written (first ++ second) = written first ++ written second := by
  rw [written, String.toList_append, encode_append]
  rfl

theorem written_ofList (chars : List Char) : written (String.ofList chars) = encode chars := by
  rw [written, String.toList_ofList]

/-! ## Strings -/

/-- A byte that stands for itself inside a string. -/
structure PlainByte (byte : UInt8) : Prop where
  notQuote : byte ≠ 0x22
  notBackslash : byte ≠ 0x5c
  notControl : ¬ byte < 0x20

theorem scanString_plain {byte} (plain : PlainByte byte) (read rest : List UInt8) :
    scanString read (byte :: rest) = scanString (byte :: read) rest := by
  have notBackslash := plain.notBackslash
  rw [scanString.eq_7 _ _ _ plain.notQuote (fun _ _ _ _ _ same => absurd same notBackslash)
    (fun _ same => absurd same notBackslash) (fun same => absurd same notBackslash)
    (fun _ _ same => absurd same notBackslash), if_neg plain.notControl]

variable {bytes rest : List UInt8} {char : Char} {digits : List Char}

theorem scanString_plains (plain : forall byte, byte ∈ bytes -> PlainByte byte)
    (read rest : List UInt8) :
    scanString read (bytes ++ rest) = scanString (bytes.reverse ++ read) rest := by
  induction bytes generalizing read with
  | nil => rfl
  | cons byte bytes ih =>
    rcases List.forall_mem_cons.mp plain with ⟨first, others⟩
    rw [List.cons_append, scanString_plain first, ih others, List.reverse_cons,
      List.append_assoc, List.singleton_append]

/-- An escape by a letter. -/
theorem scanString_letter {letter byte} (escape : escapeByte? letter = some byte)
    (read rest : List UInt8) :
    scanString read (0x5c :: letter :: rest) = scanString (byte :: read) rest := by
  have notUnit : letter ≠ 0x75 := by
    rintro rfl
    cases escape
  rw [scanString.eq_6 _ _ _ (fun _ _ _ _ _ same => absurd same notUnit) notUnit, escape]

/-- An escape by a code point that is no surrogate. -/
theorem scanString_unit {a b c d unit} (value : hexValue 0 [a, b, c, d] = .ok unit)
    (whole : isSurrogate unit = false) (read rest : List UInt8) :
    scanString read (0x5c :: 0x75 :: a :: b :: c :: d :: rest)
      = scanString ((encodeCode unit).reverse ++ read) rest := by
  rw [scanString, value]
  simp only [unitBytes, whole, Bool.false_eq_true, if_false]

/-- What holds of every number below a bound is decided one by one. -/
theorem hexValue?_hexDigit {value} (small : value < 16) :
    encodeCode (Text.hexDigit value).toNat = [UInt8.ofNat (Text.hexDigit value).toNat]
      ∧ hexValue? (UInt8.ofNat (Text.hexDigit value).toNat) = some value := by
  have each : forall digit : Fin 16,
      encodeCode (Text.hexDigit digit).toNat = [UInt8.ofNat (Text.hexDigit digit).toNat]
        ∧ hexValue? (UInt8.ofNat (Text.hexDigit digit).toNat) = some digit.val := by decide
  exact each ⟨value, small⟩

/-- The digits of a code point up to 65535 give it back. -/
theorem scanString_codeEscape (short : char.toNat < 0x10000) (read rest : List UInt8) :
    scanString read (encode (codeEscape char) ++ rest)
      = scanString ((encodeCode char.toNat).reverse ++ read) rest := by
  have bounds := Text.toNat_valid char
  have whole : isSurrogate char.toNat = false := by
    simp only [isSurrogate, Bool.and_eq_false_iff, decide_eq_false_iff_not]
    omega
  rcases hexValue?_hexDigit (show char.toNat / 16 / 16 / 16 % 16 < 16 by omega) with ⟨one, first⟩
  rcases hexValue?_hexDigit (show char.toNat / 16 / 16 % 16 < 16 by omega) with ⟨two, second⟩
  rcases hexValue?_hexDigit (show char.toNat / 16 % 16 < 16 by omega) with ⟨three, third⟩
  rcases hexValue?_hexDigit (show char.toNat % 16 < 16 by omega) with ⟨four, fourth⟩
  have digits : encode (codeEscape char)
      = [0x5c, 0x75, UInt8.ofNat (Text.hexDigit (char.toNat / 16 / 16 / 16 % 16)).toNat,
          UInt8.ofNat (Text.hexDigit (char.toNat / 16 / 16 % 16)).toNat,
          UInt8.ofNat (Text.hexDigit (char.toNat / 16 % 16)).toNat,
          UInt8.ofNat (Text.hexDigit (char.toNat % 16)).toNat] := by
    have mark : encode "\\u".toList = [0x5c, 0x75] := by decide
    rw [codeEscape, encode_append, mark]
    simp only [Text.hexDigits, encode_append, encode_cons, one, two, three, four]
    rfl
  rw [digits]
  refine scanString_unit ?_ whole read rest
  simp only [hexValue, first, second, third, fourth]
  congr 1
  omega

theorem plainByte_ofNat {value : Nat} (small : value < 256) (notControl : 0x20 <= value)
    (notQuote : value ≠ 0x22) (notBackslash : value ≠ 0x5c) : PlainByte (UInt8.ofNat value) := by
  have same := Text.toNat_byte small
  constructor
  · intro equal
    exact notQuote (same.symm.trans (congrArg UInt8.toNat equal))
  · intro equal
    exact notBackslash (same.symm.trans (congrArg UInt8.toNat equal))
  · rw [UInt8.lt_iff_toNat_lt, same]
    exact Nat.not_lt.mpr notControl

/-- The bytes of a code point that needs no escape. -/
theorem plainByte_of_mem_encodeCode {code} (bound : code < 0x110000) (notControl : 0x20 <= code)
    (notQuote : code ≠ 0x22) (notBackslash : code ≠ 0x5c) :
    forall byte, byte ∈ encodeCode code -> PlainByte byte := by
  have lead {value : Nat} (large : 0x80 <= value) (small : value < 256) :
      PlainByte (UInt8.ofNat value) :=
    plainByte_ofNat small (by omega) (by omega) (by omega)
  intro byte member
  rw [encodeCode] at member
  dsimp only at member
  split at member
  · rw [List.mem_singleton.mp member]
    exact plainByte_ofNat (by omega) notControl notQuote notBackslash
  split at member
  · simp only [List.mem_cons, List.not_mem_nil, or_false] at member
    rcases member with rfl | rfl <;> exact lead (by omega) (by omega)
  split at member
  · simp only [List.mem_cons, List.not_mem_nil, or_false] at member
    rcases member with rfl | rfl | rfl <;> exact lead (by omega) (by omega)
  · simp only [List.mem_cons, List.not_mem_nil, or_false] at member
    rcases member with rfl | rfl | rfl | rfl <;> exact lead (by omega) (by omega)

/-- The characters that are escaped by a letter. -/
def lettered : List Nat := [0x22, 0x5c, 0x0a, 0x0d, 0x09, 8, 12]

theorem escapedChar_of_not_lettered (long : char.toNat ∉ lettered) :
    escapedChar char = if char.toNat < 0x20 || ['<', '>', '&'].contains char
        || char.toNat = 0x2028 || char.toNat = 0x2029 then codeEscape char else [char] := by
  simp only [lettered, List.mem_cons, List.not_mem_nil, or_false, not_or] at long
  have differs (other : Char) (code : char.toNat ≠ other.toNat) : char ≠ other :=
    fun equal => code (congrArg Char.toNat equal)
  rcases long with ⟨quote, backslash, feed, carriage, tab, backspace, form⟩
  rw [escapedChar, if_neg (differs '"' quote), if_neg (differs '\\' backslash),
    if_neg (differs '\n' feed), if_neg (differs '\r' carriage), if_neg (differs '\t' tab),
    if_neg backspace, if_neg form]

/-- However a character is written inside a string, its own bytes are read. -/
theorem scanString_escapedChar (char : Char) (read rest : List UInt8) :
    scanString read (encode (escapedChar char) ++ rest)
      = scanString ((encodeCode char.toNat).reverse ++ read) rest := by
  by_cases short : char.toNat ∈ lettered
  · have known := (Char.ofNat_toNat char).symm
    simp only [lettered, List.mem_cons, List.not_mem_nil, or_false] at short
    rcases short with code | code | code | code | code | code | code <;> rw [code] at known <;>
      subst known <;> exact scanString_letter rfl read rest
  have bounds := Text.toNat_valid char
  rw [escapedChar_of_not_lettered short]
  split
  · rename_i special
    refine scanString_codeEscape ?_ read rest
    simp only [Bool.or_eq_true, decide_eq_true_eq, List.contains_iff_mem, List.mem_cons,
      List.not_mem_nil, or_false] at special
    rcases special with ((small | rfl | rfl | rfl) | equal) | equal
    · omega
    · decide
    · decide
    · decide
    · omega
    · omega
  · rename_i ordinary
    simp only [Bool.or_eq_true, decide_eq_true_eq, not_or] at ordinary
    simp only [lettered, List.mem_cons, List.not_mem_nil, or_false, not_or] at short
    rw [encode_cons, encode, List.flatMap_nil, List.append_nil]
    refine scanString_plains (plainByte_of_mem_encodeCode ?_ ?_ short.1 short.2.1) read rest
    · omega
    · omega

theorem scanString_escaped (chars : List Char) (read rest : List UInt8) :
    scanString read (encode (chars.flatMap escapedChar) ++ 0x22 :: rest)
      = .ok (read.reverse ++ encode chars, rest) := by
  induction chars generalizing read with
  | nil =>
    rw [List.flatMap_nil, encode, List.flatMap_nil, List.nil_append, List.append_nil]
    rfl
  | cons char chars ih =>
    rw [List.flatMap_cons, encode_append, List.append_assoc, scanString_escapedChar,
      ih, encode_cons, List.reverse_append, List.reverse_reverse,
      List.append_assoc]

theorem written_quotedText (text : String) :
    written (quotedText text) = 0x22 :: (encode (text.toList.flatMap escapedChar) ++ [0x22]) := by
  rw [quotedText, written_ofList, List.cons_append, encode_cons, encode_append]
  rfl

/-- A quoted text is read back from behind its opening mark. -/
theorem scanText_quotedText (text : String) (rest : List UInt8) :
    scanText (encode (text.toList.flatMap escapedChar) ++ 0x22 :: rest) = .ok (text, rest) := by
  rw [scanText, scanString_escaped, List.reverse_nil, List.nil_append]
  simp only [Except.map, Text.ofBytes_encode, String.ofList_toList]

/-! ## Numbers -/

/-- Bytes that do not begin with a digit. -/
def NoDigit (bytes : List UInt8) : Prop :=
  forall byte, bytes.head? = some byte -> isDigitByte byte = false

/-- What may follow a number: nothing, or a byte that cannot belong to it. -/
def Ends (bytes : List UInt8) : Prop :=
  forall byte, bytes.head? = some byte ->
    isDigitByte byte = false ∧ byte ≠ 0x2e ∧ byte ≠ 0x65 ∧ byte ≠ 0x45

theorem encodeCode_of_isDigit (isDigit : char.isDigit = true) :
    encodeCode char.toNat = [UInt8.ofNat char.toNat]
      ∧ isDigitByte (UInt8.ofNat char.toNat) = true := by
  have bounds : 48 <= char.toNat ∧ char.toNat <= 57 := by
    simpa [Char.isDigit, UInt32.le_iff_toNat_le] using isDigit
  have byte := Text.toNat_byte (show char.toNat < 256 by omega)
  constructor
  · rw [encodeCode]
    exact if_pos (by omega)
  · rw [isDigitByte, Bool.and_eq_true, decide_eq_true_eq, decide_eq_true_eq,
      UInt8.le_iff_toNat_le, UInt8.le_iff_toNat_le, byte]
    exact bounds

theorem isDigitByte_of_mem_encode (proper : Digits digits) (byte : UInt8)
    (member : byte ∈ encode digits) : isDigitByte byte = true := by
  rcases List.mem_flatMap.mp member with ⟨char, isChar, isByte⟩
  rcases encodeCode_of_isDigit (proper.all char isChar) with ⟨single, isDigit⟩
  rw [single, List.mem_singleton] at isByte
  rw [isByte]
  exact isDigit

theorem encode_eq_cons_of_digits (proper : Digits digits) :
    exists byte bytes, encode digits = byte :: bytes ∧ isDigitByte byte = true
      ∧ (byte = 0x30 -> digits.head? = some '0') := by
  cases digits with
  | nil => exact absurd rfl proper.nonempty
  | cons char chars =>
    rcases encodeCode_of_isDigit (proper.all char List.mem_cons_self) with ⟨single, isDigit⟩
    refine ⟨UInt8.ofNat char.toNat, encode chars, ?_, isDigit, ?_⟩
    · rw [encode_cons, single, List.singleton_append]
    · intro zero
      have bounds : 48 <= char.toNat ∧ char.toNat <= 57 := by
        simpa [Char.isDigit, UInt32.le_iff_toNat_le] using proper.all char List.mem_cons_self
      have code : char.toNat = 48 := by
        rw [← Text.toNat_byte (show char.toNat < 256 by omega), zero]
        rfl
      rw [List.head?_cons, ← Char.ofNat_toNat char, code]

theorem takeWhile_isDigitByte (none : NoDigit bytes) :
    bytes.takeWhile isDigitByte = [] ∧ bytes.dropWhile isDigitByte = bytes := by
  cases bytes with
  | nil => exact ⟨rfl, rfl⟩
  | cons byte bytes =>
    have noDigit := none byte rfl
    simp [noDigit]

theorem scanDigits_encode (proper : Digits digits)
    (stops : NoDigit rest) (context : Context) (read : List UInt8) :
    scanDigits context read (encode digits ++ rest) = .ok (read ++ encode digits, rest) := by
  rcases encode_eq_cons_of_digits proper with ⟨byte, bytes, equal, isDigit, _⟩
  have all := isDigitByte_of_mem_encode proper
  rcases takeWhile_isDigitByte stops with ⟨taken, dropped⟩
  have takes : (encode digits ++ rest).takeWhile isDigitByte = encode digits := by
    rw [List.takeWhile_append_of_pos all, taken, List.append_nil]
  have drops : (encode digits ++ rest).dropWhile isDigitByte = rest := by
    rw [List.dropWhile_append_of_pos all, dropped]
  rw [scanDigits.eq_def]
  rw [equal, List.cons_append] at takes drops ⊢
  dsimp only
  rw [if_pos isDigit, takes, drops]

theorem scanWhole_encode {whole} (proper : WholePart whole) (stops : NoDigit rest)
    (read : List UInt8) :
    scanWhole read (encode whole ++ rest) = .ok (read ++ encode whole, rest) := by
  rw [scanWhole.eq_def]
  split
  · rename_i bytes equal
    -- A whole part that begins with a zero is that zero.
    rcases encode_eq_cons_of_digits proper.toDigits with ⟨byte, others, parted, _, leading⟩
    rw [parted, List.cons_append] at equal
    rcases List.cons.inj equal with ⟨zero, rfl⟩
    have single := proper.leading (leading zero)
    subst single
    cases parted
    rfl
  · exact scanDigits_encode proper.toDigits stops .inNumber read

/-- An integer is read as the number that it is, if the text goes on with something else. -/
theorem scanNumber_integerText (value : Int) (ends : Ends rest) :
    scanNumber (written (integerText value) ++ rest) = .ok (.number (integerText value), rest) := by
  have whole := whole_toDigits value.natAbs
  have wholeRead := scanWhole_encode whole (fun byte first => (ends byte first).1)
  have fractionRead (read : List UInt8) : scanFraction read rest = .ok (read, rest) :=
    scanFraction.eq_2 _ _ fun _ point => (ends 0x2e (by rw [point]; rfl)).2.1 rfl
  have exponentRead (read : List UInt8) : scanExponent read rest = .ok (read, rest) := by
    cases rest with
    | nil => rfl
    | cons byte rest =>
      rcases ends byte rfl with ⟨_, _, notLower, notUpper⟩
      rw [scanExponent.eq_def]
      exact if_neg (by simp [notLower, notUpper])
  rw [integerText, written_ofList, encode_append, List.append_assoc, ← Text.ofBytes_encode,
    encode_append]
  cases decide (value < 0) with
  | true =>
    rw [show encode (signChars true) = [0x2d] by decide, List.singleton_append, scanNumber]
    simp only [wholeRead, fractionRead, exponentRead, bind, Except.bind, pure, Except.pure]
  | false =>
    have unsigned : forall bytes, encode (Nat.toDigits 10 value.natAbs) ++ rest ≠ 0x2d :: bytes := by
      rcases encode_eq_cons_of_digits whole.toDigits with ⟨byte, bytes, first, isDigit, _⟩
      intro others minus
      rw [first] at minus
      cases minus
      cases isDigit
    rw [show encode (signChars false) = [] from rfl, List.nil_append, scanNumber.eq_2 _ unsigned]
    simp only [wholeRead, fractionRead, exponentRead, bind, Except.bind, pure, Except.pure]

/-! ## Blanks and words -/

theorem skipBlanks_append {blanks} (blank : forall byte, byte ∈ blanks -> isBlankByte byte = true)
    (bytes : List UInt8) : skipBlanks (blanks ++ bytes) = skipBlanks bytes :=
  List.dropWhile_append_of_pos blank

theorem skipBlanks_cons {byte} (solid : isBlankByte byte = false) (bytes : List UInt8) :
    skipBlanks (byte :: bytes) = byte :: bytes := by
  simp [skipBlanks, solid]

theorem skipBlanks_skipBlanks (bytes : List UInt8) :
    skipBlanks (skipBlanks bytes) = skipBlanks bytes :=
  List.dropWhile_idempotent _ bytes

theorem scanValue_skipBlanks (fuel depth : Nat) (bytes : List UInt8) :
    scanValue fuel depth (skipBlanks bytes) = scanValue fuel depth bytes := by
  rw [scanValue.eq_def fuel depth (skipBlanks bytes), scanValue.eq_def fuel depth bytes,
    skipBlanks_skipBlanks]

/-- The first byte of a value says how it is read. -/
theorem scanValue_cons {byte} (solid : isBlankByte byte = false) (fuel depth : Nat)
    (rest : List UInt8) :
    scanValue (fuel + 1) depth (byte :: rest)
      = if byte = 0x22 then (scanText rest).map fun (text, rest) => (.string text, rest)
        else if byte = 0x5b then
          if depth < maxDepth then scanArray fuel (depth + 1) rest else .error .tooDeep
        else if byte = 0x7b then
          if depth < maxDepth then scanObject fuel (depth + 1) rest else .error .tooDeep
        else if byte = 0x74 then scanWord "true" (.bool true) ['r', 'u', 'e'] rest
        else if byte = 0x66 then scanWord "false" (.bool false) ['a', 'l', 's', 'e'] rest
        else if byte = 0x6e then scanWord "null" .null ['u', 'l', 'l'] rest
        else if byte = 0x2d || isDigitByte byte then scanNumber (byte :: rest)
        else .error (.unexpected byte .value) :=
  scanValue.eq_3 _ _ _ _ _ (skipBlanks_cons solid rest)

theorem scanElements_skipBlanks (fuel depth : Nat) (read : List Json) (bytes : List UInt8) :
    scanElements fuel depth read (skipBlanks bytes) = scanElements fuel depth read bytes := by
  cases fuel with
  | zero => rw [scanElements, scanElements]
  | succ fuel => rw [scanElements, scanElements, scanValue_skipBlanks]

theorem scanMembers_skipBlanks (fuel depth : Nat) (read : List (String × Json))
    (bytes : List UInt8) :
    scanMembers fuel depth read (skipBlanks bytes) = scanMembers fuel depth read bytes := by
  rw [scanMembers.eq_def fuel depth read (skipBlanks bytes),
    scanMembers.eq_def fuel depth read bytes, skipBlanks_skipBlanks]

theorem written_lineStart (depth : Nat) :
    written (lineStart depth) = 0x0a :: List.replicate (2 * depth) 0x20 := by
  have spaces (count : Nat) : encode (List.replicate count ' ') = List.replicate count 0x20 := by
    induction count with
    | zero => rfl
    | succ count ih =>
      rw [List.replicate_succ, encode_cons, ih]
      rfl
  rw [lineStart, written_ofList, encode_cons, spaces]
  rfl

theorem isBlankByte_lineStart (depth : Nat) (byte : UInt8)
    (member : byte ∈ written (lineStart depth)) : isBlankByte byte = true := by
  rw [written_lineStart] at member
  rcases List.mem_cons.mp member with rfl | space
  · rfl
  · rw [List.eq_of_mem_replicate space]
    rfl

theorem ends_lineStart (depth : Nat) (rest : List UInt8) :
    Ends (written (lineStart depth) ++ rest) := by
  rw [written_lineStart]
  rintro byte ⟨⟩
  decide

theorem ends_comma (rest : List UInt8) : Ends (0x2c :: rest) := by
  rintro byte ⟨⟩
  decide

theorem length_lineStart (depth : Nat) : 1 <= (written (lineStart depth)).length := by
  rw [written_lineStart]
  exact Nat.succ_le_succ (Nat.zero_le _)

theorem written_intercalate (line : String) (lines : List String) :
    exists others, written (",".intercalate (line :: lines)) = written line ++ others := by
  cases lines with
  | nil => exact ⟨[], by rw [String.intercalate_singleton, List.append_nil]⟩
  | cons next lines =>
    exact ⟨_, by rw [String.intercalate_cons_cons, written_append, written_append,
      List.append_assoc]⟩

/-! ## Values -/

/-- A value whose numbers are integers, and whose arrays and objects are nested no deeper than there
is room for. -/
inductive Readable : Nat -> Json -> Prop
  | null {room} : Readable room .null
  | bool {room} (value : Bool) : Readable room (.bool value)
  | number {room} (value : Int) : Readable room (.number (integerText value))
  | string {room} (value : String) : Readable room (.string value)
  | array {room values} :
    (forall value, value ∈ values -> Readable room value) -> Readable (room + 1) (.array values)
  | object {room members} :
    (forall member, member ∈ members -> Readable room member.2) ->
    Readable (room + 1) (.object members)

/-- A value is read back from its text inside `level` others, whatever follows.  The text begins
with neither a blank nor a closing bracket. -/
structure ReadsBack (level depth : Nat) (value : Json) : Prop where
  first : exists byte bytes, written (indentedFrom depth value) = byte :: bytes
    ∧ isBlankByte byte = false ∧ byte ≠ 0x5d
  reads : forall {fuel rest}, 4 * (written (indentedFrom depth value)).length <= fuel ->
    Ends rest -> scanValue fuel level (written (indentedFrom depth value) ++ rest) = .ok (value, rest)

section Parts

variable {level depth fuel : Nat} {value : Json} {blanks rest : List UInt8}

/-- A value behind blanks. -/
theorem ReadsBack.behind (back : ReadsBack level depth value)
    (enough : 4 * (written (indentedFrom depth value)).length <= fuel)
    (blank : forall byte, byte ∈ blanks -> isBlankByte byte = true) (ends : Ends rest) :
    scanValue fuel level (blanks ++ (written (indentedFrom depth value) ++ rest))
      = .ok (value, rest) := by
  rw [← scanValue_skipBlanks, skipBlanks_append blank, scanValue_skipBlanks]
  exact back.reads enough ends

/-- A text that is not empty leaves the reader at least one step. -/
theorem ReadsBack.of_text {byte} (text : written (indentedFrom depth value) = byte :: bytes)
    (opens : isBlankByte byte = false ∧ byte ≠ 0x5d)
    (reads : forall fuel rest, 4 * (bytes.length + 1) <= fuel + 1 -> Ends rest ->
      scanValue (fuel + 1) level (byte :: (bytes ++ rest)) = .ok (value, rest)) :
    ReadsBack level depth value := by
  constructor
  · exact ⟨byte, bytes, text, opens⟩
  · intro fuel rest enough ends
    rw [text] at enough ⊢
    cases fuel with
    | zero => cases enough
    | succ fuel => exact reads fuel rest enough ends

end Parts

/-! ### Lines -/

section Lines

variable {Item : Type} {scan : Nat -> List Item -> List UInt8 -> Scanned Json}
  {build : List Item -> Json} {close : UInt8} {line : Item -> String} {items : List Item}

/-- An item is read back from its line, whether a comma follows it or what closes the list.  The line
does not begin with what closes the list. -/
structure ReadsLine (scan : Nat -> List Item -> List UInt8 -> Scanned Json)
    (build : List Item -> Json) (close : UInt8) (line : Item -> String) (item : Item) : Prop where
  first : forall tail, exists byte bytes,
    skipBlanks (written (line item) ++ tail) = byte :: bytes ∧ byte ≠ close
  long : 1 <= (written (line item)).length
  more : forall {fuel read tail rest}, 4 * (written (line item)).length <= fuel + 1 -> Ends tail ->
    skipBlanks tail = 0x2c :: rest ->
    scan (fuel + 1) read (written (line item) ++ tail) = scan fuel (item :: read) rest
  last : forall {fuel read tail rest}, 4 * (written (line item)).length <= fuel + 1 -> Ends tail ->
    skipBlanks tail = close :: rest ->
    scan (fuel + 1) read (written (line item) ++ tail) = .ok (build (item :: read).reverse, rest)

/-- The items of a list are read back one after another. -/
theorem scan_lines (solid : isBlankByte close = false) (nonempty : items ≠ [])
    (each : forall item, item ∈ items -> ReadsLine scan build close line item) (outer : Nat) {fuel}
    (read : List Item) (rest : List UInt8)
    (enough : 4 * (written (",".intercalate (items.map line))).length <= fuel) :
    scan fuel read (written (",".intercalate (items.map line))
        ++ (written (lineStart outer) ++ close :: rest))
      = .ok (build (read.reverse ++ items), rest) := by
  induction items generalizing fuel read with
  | nil => exact absurd rfl nonempty
  | cons item items ih =>
    rcases List.forall_mem_cons.mp each with ⟨here, others⟩
    have long := here.long
    cases items with
    | nil =>
      rw [List.map_cons, List.map_nil, String.intercalate_singleton] at enough ⊢
      cases fuel with
      | zero => omega
      | succ fuel =>
        rw [here.last enough (ends_lineStart outer _), List.reverse_cons]
        rw [skipBlanks_append (isBlankByte_lineStart outer), skipBlanks_cons solid]
    | cons next items =>
      have lines : written (",".intercalate ((item :: next :: items).map line))
          = written (line item)
            ++ 0x2c :: written (",".intercalate ((next :: items).map line)) := by
        rw [List.map_cons, List.map_cons, String.intercalate_cons_cons, written_append,
          written_append, List.append_assoc]
        rfl
      rw [lines] at enough ⊢
      rw [List.length_append, List.length_cons] at enough
      cases fuel with
      | zero => omega
      | succ fuel =>
        rw [List.append_assoc, List.cons_append, here.more (by omega) (ends_comma _)
          (skipBlanks_cons (by decide) _), ih (List.cons_ne_nil _ _) others _ (by omega),
          List.reverse_cons, List.append_assoc, List.singleton_append]

/-- A list of items between brackets is read back. -/
theorem readsBack_lines {level depth} {enter : Nat -> List UInt8 -> Scanned Json} {opens}
    (each : forall item, item ∈ items -> ReadsLine scan build close line item)
    (solid : (isBlankByte opens = false ∧ opens ≠ 0x5d) ∧ isBlankByte close = false)
    (empty : written (indentedFrom depth (build [])) = [opens, close])
    (text : items ≠ [] -> written (indentedFrom depth (build items)) = opens
      :: (written (",".intercalate (items.map line)) ++ (written (lineStart depth) ++ [close])))
    (opened : forall fuel bytes, scanValue (fuel + 1) level (opens :: bytes) = enter fuel bytes)
    (closes : forall fuel bytes rest, skipBlanks bytes = close :: rest ->
      enter (fuel + 1) bytes = .ok (build [], rest))
    (entered : forall fuel bytes, (forall rest, skipBlanks bytes ≠ close :: rest) ->
      enter (fuel + 1) bytes = scan fuel [] bytes) : ReadsBack level depth (build items) := by
  cases items with
  | nil =>
    refine .of_text empty solid.1 ?_
    intro fuel rest enough _
    cases fuel with
    | zero => exact absurd enough (by simp)
    | succ fuel =>
      rw [opened]
      exact closes fuel _ rest (skipBlanks_cons solid.2 rest)
  | cons item items =>
    refine .of_text (text (List.cons_ne_nil item items)) solid.1 ?_
    intro fuel rest enough _
    rw [List.length_append] at enough
    cases fuel with
    | zero => omega
    | succ fuel =>
      rw [opened, List.append_assoc, List.append_assoc, List.singleton_append, entered]
      · exact scan_lines solid.2 (List.cons_ne_nil item items) each depth [] rest (by omega)
      · intro others closed
        rcases written_intercalate (line item) (items.map line) with ⟨tail, lines⟩
        rw [List.map_cons, lines, List.append_assoc] at closed
        rcases (each item List.mem_cons_self).first _ with ⟨byte, bytes, starts, notClosed⟩
        rw [starts] at closed
        exact notClosed (List.cons.inj closed).1

end Lines

section Items

variable {level depth : Nat} {value : Json}

theorem elementLines_eq_map (values : List Json) :
    elementLines depth values = values.map (fun value => lineStart depth ++ indentedFrom depth value) := by
  induction values with
  | nil => rfl
  | cons value values ih => exact congrArg (_ :: ·) ih

theorem memberLines_eq_map (members : List (String × Json)) :
    memberLines depth members = members.map (fun member =>
      lineStart depth ++ quotedText member.1 ++ ": " ++ indentedFrom depth member.2) := by
  induction members with
  | nil => rfl
  | cons member members ih => exact congrArg (_ :: ·) ih

theorem readsLine_element (back : ReadsBack level depth value) :
    ReadsLine (fun fuel => scanElements fuel level) .array 0x5d
      (fun value => lineStart depth ++ indentedFrom depth value) value := by
  have blank := isBlankByte_lineStart depth
  have long := length_lineStart depth
  rcases back.first with ⟨byte, bytes, opened, solid, notClosed⟩
  constructor
  · intro tail
    refine ⟨byte, bytes ++ tail, ?_, notClosed⟩
    rw [written_append, List.append_assoc, skipBlanks_append blank, opened]
    exact skipBlanks_cons solid _
  · rw [written_append, List.length_append]
    omega
  · intro fuel read tail rest enough ends comma
    rw [written_append, List.length_append] at enough
    rw [written_append, List.append_assoc]
    simp only [scanElements, back.behind (show _ <= fuel by omega) blank ends, comma]
  · intro fuel read tail rest enough ends closed
    rw [written_append, List.length_append] at enough
    rw [written_append, List.append_assoc]
    simp only [scanElements, back.behind (show _ <= fuel by omega) blank ends, closed]

theorem readsLine_member {member} (back : ReadsBack level depth member.2) :
    ReadsLine (fun fuel => scanMembers fuel level) .object 0x7d (fun member =>
      lineStart depth ++ quotedText member.1 ++ ": " ++ indentedFrom depth member.2) member := by
  rcases member with ⟨key, value⟩
  have text (tail : List UInt8) :
      written (lineStart depth ++ quotedText key ++ ": " ++ indentedFrom depth value) ++ tail
        = written (lineStart depth) ++ 0x22 :: (encode (key.toList.flatMap escapedChar)
          ++ 0x22 :: 0x3a :: ([0x20] ++ (written (indentedFrom depth value) ++ tail))) := by
    simp only [written_append, written_quotedText, List.append_assoc, List.cons_append,
      List.nil_append]
    rfl
  have opened (tail : List UInt8) : skipBlanks
      (written (lineStart depth ++ quotedText key ++ ": " ++ indentedFrom depth value) ++ tail)
        = 0x22 :: (encode (key.toList.flatMap escapedChar)
          ++ 0x22 :: 0x3a :: ([0x20] ++ (written (indentedFrom depth value) ++ tail))) := by
    rw [text, skipBlanks_append (isBlankByte_lineStart depth), skipBlanks_cons (by decide)]
  have long : (written (indentedFrom depth value)).length + 1 <= (written
      (lineStart depth ++ quotedText key ++ ": " ++ indentedFrom depth value)).length := by
    have long := length_lineStart depth
    simp only [written_append, List.length_append]
    omega
  have space : forall byte, byte ∈ [(0x20 : UInt8)] -> isBlankByte byte = true :=
    List.forall_mem_singleton.mpr rfl
  have colon (bytes : List UInt8) : skipBlanks (0x3a :: bytes) = 0x3a :: bytes :=
    skipBlanks_cons (by decide) bytes
  constructor
  · exact fun tail => ⟨0x22, _, opened tail, by decide⟩
  · dsimp only
    omega
  · intro fuel read tail rest enough ends comma
    simp only [scanMembers.eq_3 _ _ _ _ _ (opened tail), scanText_quotedText, colon,
      back.behind (show _ <= fuel by dsimp only at enough ⊢; omega) space ends, comma]
  · intro fuel read tail rest enough ends closed
    simp only [scanMembers.eq_3 _ _ _ _ _ (opened tail), scanText_quotedText, colon,
      back.behind (show _ <= fuel by dsimp only at enough ⊢; omega) space ends, closed]

end Items

/-- The first byte of a number is that of no other value. -/
theorem apart_of_numeric : forall {byte}, (byte = 0x2d || isDigitByte byte) = true ->
    isBlankByte byte = false ∧ byte ≠ 0x5d ∧ byte ≠ 0x22 ∧ byte ≠ 0x5b ∧ byte ≠ 0x7b
      ∧ byte ≠ 0x74 ∧ byte ≠ 0x66 ∧ byte ≠ 0x6e := by
  apply forall_byte
  decide +kernel

theorem scanValue_number {byte} (numeric : (byte = 0x2d || isDigitByte byte) = true)
    (fuel level : Nat) (rest : List UInt8) :
    scanValue (fuel + 1) level (byte :: rest) = scanNumber (byte :: rest) := by
  rcases apart_of_numeric numeric with ⟨solid, _, quote, bracket, brace, isTrue, isFalse, null⟩
  rw [scanValue_cons solid, if_neg quote, if_neg bracket, if_neg brace, if_neg isTrue,
    if_neg isFalse, if_neg null, if_pos numeric]

section Constructors

variable {level depth : Nat}

theorem readsBack_array (deep : level < maxDepth) {values}
    (each : forall value, value ∈ values -> ReadsBack (level + 1) (depth + 1) value) :
    ReadsBack level depth (.array values) := by
  have opened (fuel : Nat) (bytes : List UInt8) : scanValue (fuel + 1) level (0x5b :: bytes)
      = scanArray fuel (level + 1) bytes := by
    rw [scanValue_cons (by decide)]
    exact if_pos deep
  refine readsBack_lines (fun value member => readsLine_element (each value member)) ?_ ?_ ?_ opened
    (fun _ _ _ closed => scanArray.eq_2 _ _ _ _ (Nat.succ_ne_zero _) closed)
    (fun _ _ notClosed => by rw [scanArray.eq_3 _ _ _ notClosed, scanElements_skipBlanks])
  · decide
  · change written "[]" = _
    decide
  · intro nonempty
    rw [← elementLines_eq_map, indentedFrom, written_append, written_append, written_append,
      List.append_assoc, List.append_assoc]
    · rfl
    · exact nonempty

theorem readsBack_object (deep : level < maxDepth) {members}
    (each : forall member, member ∈ members -> ReadsBack (level + 1) (depth + 1) member.2) :
    ReadsBack level depth (.object members) := by
  have opened (fuel : Nat) (bytes : List UInt8) : scanValue (fuel + 1) level (0x7b :: bytes)
      = scanObject fuel (level + 1) bytes := by
    rw [scanValue_cons (by decide)]
    exact if_pos deep
  refine readsBack_lines (fun member isMember => readsLine_member (each member isMember)) ?_ ?_ ?_
    opened (fun _ _ _ closed => scanObject.eq_2 _ _ _ _ (Nat.succ_ne_zero _) closed)
    (fun _ _ notClosed => by rw [scanObject.eq_3 _ _ _ notClosed, scanMembers_skipBlanks])
  · decide
  · change written "\x7b\x7d" = _
    decide
  · intro nonempty
    rw [← memberLines_eq_map, indentedFrom, written_append, written_append, written_append,
      List.append_assoc, List.append_assoc]
    · rfl
    · exact nonempty

theorem readsBack_null : ReadsBack level depth .null := by
  refine .of_text (show written "null" = [0x6e, 0x75, 0x6c, 0x6c] by decide) (by decide)
    fun fuel rest _ _ => ?_
  rw [scanValue_cons (by decide)]
  rfl

theorem readsBack_bool (value : Bool) : ReadsBack level depth (.bool value) := by
  cases value with
  | true =>
    refine .of_text (show written "true" = [0x74, 0x72, 0x75, 0x65] by decide) (by decide)
      fun fuel rest _ _ => ?_
    rw [scanValue_cons (by decide)]
    rfl
  | false =>
    refine .of_text (show written "false" = [0x66, 0x61, 0x6c, 0x73, 0x65] by decide) (by decide)
      fun fuel rest _ _ => ?_
    rw [scanValue_cons (by decide)]
    rfl

theorem readsBack_string (value : String) : ReadsBack level depth (.string value) := by
  refine .of_text (written_quotedText value) (by decide) fun fuel rest _ _ => ?_
  rw [List.append_assoc, List.singleton_append,
    scanValue_cons (by decide), if_pos rfl, scanText_quotedText]
  rfl

theorem readsBack_number (value : Int) :
    ReadsBack level depth (.number (integerText value)) := by
  have first : exists byte bytes, written (integerText value) = byte :: bytes
      ∧ (byte = 0x2d || isDigitByte byte) = true := by
    rcases (isNumeral_integerText value).begins with ⟨negative, digit, chars, isDigit, equal⟩
    rcases encodeCode_of_isDigit isDigit with ⟨single, isByte⟩
    rw [written, equal, encode_append, encode_cons, single]
    cases negative with
    | true => exact ⟨0x2d, _, rfl, by decide⟩
    | false => exact ⟨UInt8.ofNat digit.toNat, _, rfl, by rw [isByte, Bool.or_true]⟩
  rcases first with ⟨byte, bytes, equal, numeric⟩
  rcases apart_of_numeric numeric with ⟨solid, notClosed, _⟩
  refine .of_text equal ⟨solid, notClosed⟩ fun fuel rest _ ends => ?_
  rw [scanValue_number numeric, ← List.cons_append, ← equal]
  exact scanNumber_integerText value ends

end Constructors

/-- A value that can be read is read back from its text. -/
theorem Readable.readsBack {room value} (readable : Readable room value) {level}
    (deep : level + room <= maxDepth) (depth : Nat) : ReadsBack level depth value := by
  induction readable generalizing level depth with
  | null => exact readsBack_null
  | bool value => exact readsBack_bool value
  | number value => exact readsBack_number value
  | string value => exact readsBack_string value
  | array _ ih =>
    exact readsBack_array (by omega)
      fun value member => ih value member (by omega) (depth + 1)
  | object _ ih =>
    exact readsBack_object (by omega)
      fun member isMember => ih member isMember (by omega) (depth + 1)

/-- The indented text of a value is read as that value. -/
theorem readWhole_indented {value} (readable : Readable maxDepth value) :
    readWhole value.indented.toUTF8.toList = .ok value := by
  have back := readable.readsBack (Nat.le_of_eq (Nat.zero_add maxDepth)) 0
  rcases back.first with ⟨byte, bytes, opened, solid, _⟩
  have ends : Ends [] := by
    rintro byte ⟨⟩
  have scanned := back.reads (Nat.le_add_right _ 4) ends
  rw [List.append_nil] at scanned
  have leading : scanLeading (written value.indented) = .ok (value, []) := by
    rw [scanLeading, if_neg]
    · exact scanned
    · rw [indented, opened, skipBlanks_cons solid]
      exact Bool.false_ne_true
  rw [Text.toList_toUTF8, ← written, readWhole, leading]
  rfl

end Json
end PCode
