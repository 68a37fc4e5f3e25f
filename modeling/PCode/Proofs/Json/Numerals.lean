import PCode.Json.Reader
import PCode.Proofs.Results

namespace PCode
namespace Json

/-!
Numerals of JSON.

The reader keeps the text of a number.  That text is a numeral of the grammar: a sign, a whole part
without leading zeros, a fraction and an exponent, of which only the whole part must be there.  In
particular it begins with a digit behind its sign, and so it is none of the names that a number may
have elsewhere.
-/

/-! ## The grammar -/

/-- One or more digits. -/
structure Digits (chars : List Char) : Prop where
  nonempty : chars ≠ []
  all : forall char, char ∈ chars -> char.isDigit = true

inductive SignPart : List Char -> Prop
  | none : SignPart []
  | minus : SignPart ['-']

/-- The digits in front of the point.  Only zero itself begins with a zero. -/
structure WholePart (chars : List Char) : Prop extends Digits chars where
  leading : chars.head? = some '0' -> chars = ['0']

inductive FractionPart : List Char -> Prop
  | none : FractionPart []
  | digits {digits} : Digits digits -> FractionPart ('.' :: digits)

inductive ExponentPart : List Char -> Prop
  | none : ExponentPart []
  | digits {mark sign digits} :
    mark = 'e' ∨ mark = 'E' -> sign = [] ∨ sign = ['+'] ∨ sign = ['-'] -> Digits digits ->
    ExponentPart (mark :: (sign ++ digits))

/-- A text that is a number of JSON. -/
inductive IsNumeral (text : String) : Prop
  | intro {sign whole fraction exponent} :
    SignPart sign -> WholePart whole -> FractionPart fraction -> ExponentPart exponent ->
    text.toList = sign ++ whole ++ fraction ++ exponent -> IsNumeral text

/-- The sign of a number. -/
def signChars (negative : Bool) : List Char := if negative then ['-'] else []

theorem signPart_signChars (negative : Bool) : SignPart (signChars negative) := by
  cases negative
  · exact .none
  · exact .minus

variable {text : String} {bytes read result rest : List UInt8} {value : Json}

/-- Behind its sign a numeral begins with a digit. -/
theorem IsNumeral.begins (numeral : IsNumeral text) :
    exists negative digit chars, digit.isDigit = true
      ∧ text.toList = signChars negative ++ digit :: chars := by
  rcases numeral with @⟨_, _, fraction, exponent, sign, whole, _, _, equal⟩
  rw [List.append_assoc, List.append_assoc] at equal
  rcases List.exists_cons_of_ne_nil whole.nonempty with ⟨digit, digits, rfl⟩
  have isDigit := whole.all digit List.mem_cons_self
  cases sign with
  | none => exact ⟨false, digit, digits ++ (fraction ++ exponent), isDigit, equal⟩
  | minus => exact ⟨true, digit, digits ++ (fraction ++ exponent), isDigit, equal⟩

/-! ## Writing numerals -/

/-- Only zero is written with a leading zero. -/
theorem eq_zero_of_head_toDigits {number} (zero : (Nat.toDigits 10 number).head? = some '0') :
    number = 0 := by
  induction number using Nat.strongRecOn with
  | ind number ih =>
    rcases Nat.lt_or_ge number 10 with small | large
    · rw [Nat.toDigits_of_lt_base small] at zero
      have digits : forall digit : Fin 10, digit.val.digitChar = '0' -> digit.val = 0 := by
        decide
      exact digits ⟨number, small⟩ (Option.some.inj zero)
    · rcases List.exists_cons_of_ne_nil (Nat.toDigits_ne_nil (n := number / 10) (b := 10))
        with ⟨digit, digits, equal⟩
      rw [Nat.toDigits_of_base_le (by decide) large, equal] at zero
      have quotient := ih (number / 10) (by omega) (equal ▸ zero)
      omega

theorem digits_toDigits (number : Nat) : Digits (Nat.toDigits 10 number) :=
  ⟨Nat.toDigits_ne_nil, fun _ => Nat.isDigit_of_mem_toDigits (by decide) (by decide)⟩

theorem whole_toDigits (number : Nat) : WholePart (Nat.toDigits 10 number) := by
  refine ⟨digits_toDigits number, ?_⟩
  intro zero
  rw [eq_zero_of_head_toDigits zero]
  rfl

/-- An integer as it is written. -/
def integerText (value : Int) : String :=
  String.ofList (signChars (decide (value < 0)) ++ Nat.toDigits 10 value.natAbs)

theorem isNumeral_integerText (value : Int) : IsNumeral (integerText value) := by
  refine .intro (signPart_signChars (decide (value < 0))) (whole_toDigits value.natAbs) .none .none ?_
  rw [integerText, String.toList_ofList, List.append_nil, List.append_nil]

theorem decimalDigits_of_digits {chars} (digits : forall char, char ∈ chars -> char.isDigit = true)
    (start : Nat) : decimalDigits start chars = some (Nat.ofDigitChars 10 chars start) := by
  induction chars generalizing start with
  | nil => rfl
  | cons char chars ih =>
    have isDigit : ('0' <= char && char <= '9') = true := digits char List.mem_cons_self
    rw [decimalDigits, if_pos isDigit, Nat.ofDigitChars_cons, Nat.mul_comm 10 start]
    exact ih (List.forall_mem_cons.mp digits).2 _

/-- An integer of 64 bits is read as it was written. -/
theorem int64?_integerText (value : Int64) : int64? (integerText value.toInt) = some value := by
  have digits := decimalDigits_of_digits (digits_toDigits value.toInt.natAbs).all 0
  rw [Nat.ofDigitChars_ten_toDigits] at digits
  have bounded : (-9223372036854775808 <= value.toInt && value.toInt <= 9223372036854775807)
      = true := by
    have lower := value.le_toInt
    have upper := value.toInt_lt
    rw [Bool.and_eq_true, decide_eq_true_eq, decide_eq_true_eq]
    omega
  rw [int64?, integerText, String.toList_ofList, signChars]
  split
  · rename_i rest equal
    by_cases negative : value.toInt < 0
    · have size : -((value.toInt.natAbs : Nat) : Int) = value.toInt := by omega
      rw [if_pos (decide_eq_true negative), List.cons_append, List.nil_append] at equal
      rcases List.cons.inj equal with ⟨_, rfl⟩
      rw [digits, Option.bind_some, size]
      dsimp only
      rw [if_pos bounded, Int64.ofInt_toInt]
    · rw [if_neg (by simpa using negative), List.nil_append] at equal
      have isDigit := (digits_toDigits value.toInt.natAbs).all '-' (equal ▸ List.mem_cons_self)
      exact absurd isDigit (by decide)
  · rename_i unsigned
    have nonneg : ¬ value.toInt < 0 := by
      intro negative
      rw [if_pos (decide_eq_true negative)] at unsigned
      exact unsigned _ rfl
    have size : ((value.toInt.natAbs : Nat) : Int) = value.toInt := by omega
    rw [if_neg (by simpa using nonneg), List.nil_append, digits, Option.bind_some, size]
    dsimp only
    rw [if_pos bounded, Int64.ofInt_toInt]

/-! ## Characters of bytes -/

/-- The characters of bytes that are ASCII. -/
def asChars (bytes : List UInt8) : List Char := bytes.map fun byte => Char.ofNat byte.toNat

/-- Bytes each of which is a character. -/
def Ascii (bytes : List UInt8) : Prop := forall byte, byte ∈ bytes -> byte < 0x80

theorem decodeOnto_of_ascii (ascii : Ascii bytes) (read : List Char) :
    Text.decodeOnto read bytes = read.reverse ++ asChars bytes := by
  induction bytes generalizing read with
  | nil =>
    rw [Text.decodeOnto]
    exact (List.append_nil _).symm
  | cons byte bytes ih =>
    rw [Text.decodeOnto.eq_def]
    dsimp only
    rw [if_pos (ascii byte List.mem_cons_self),
      ih (List.forall_mem_cons.mp ascii).2,
      List.reverse_cons, List.append_assoc]
    rfl

theorem toList_ofBytes (ascii : Ascii bytes) : (Text.ofBytes bytes).toList = asChars bytes := by
  rw [Text.ofBytes, String.toList_ofList, Text.decode, decodeOnto_of_ascii ascii]
  rfl

theorem Ascii.nil : Ascii [] := nofun

theorem Ascii.cons {byte} (first : byte < 0x80) (rest : Ascii bytes) : Ascii (byte :: bytes) :=
  List.forall_mem_cons.mpr ⟨first, rest⟩

theorem Ascii.append {first second} (left : Ascii first) (right : Ascii second) :
    Ascii (first ++ second) := by
  intro byte member
  rcases List.mem_append.mp member with before | behind
  · exact left byte before
  · exact right byte behind

/-- What holds of the byte of every code holds of every byte. -/
theorem forall_byte {Holds : UInt8 -> Prop} (each : forall code : Fin 256, Holds (.ofNat code))
    (byte : UInt8) : Holds byte := by
  have holds := each ⟨byte.toNat, byte.toNat_lt⟩
  rwa [UInt8.ofNat_toNat] at holds

theorem isDigit_of_isDigitByte : forall {byte}, isDigitByte byte = true ->
    byte < 0x80 ∧ (Char.ofNat byte.toNat).isDigit = true := by
  apply forall_byte
  decide +kernel

theorem eq_zero_of_char : forall {byte : UInt8}, Char.ofNat byte.toNat = '0' -> byte = 0x30 := by
  apply forall_byte
  decide +kernel

/-! ## Numbers that are read -/

/-- Bytes of one part of a number. -/
structure PartBytes (Part : List Char -> Prop) (bytes : List UInt8) : Prop where
  ascii : Ascii bytes
  part : Part (asChars bytes)

theorem digits_takeWhile {byte} (digit : isDigitByte byte = true) :
    PartBytes Digits ((byte :: bytes).takeWhile isDigitByte) where
  ascii := fun _ member =>
    (isDigit_of_isDigitByte (List.all_eq_true.mp List.all_takeWhile _ member)).1
  part := by
    constructor
    · rw [List.takeWhile_cons, if_pos digit]
      exact List.cons_ne_nil _ _
    · intro char member
      rcases List.mem_map.mp member with ⟨other, isDigit, rfl⟩
      exact (isDigit_of_isDigitByte (List.all_eq_true.mp List.all_takeWhile _ isDigit)).2

theorem scanDigits_eq_ok {context} (scanned : scanDigits context read bytes = .ok (result, rest)) :
    exists digits, PartBytes Digits digits ∧ result = read ++ digits
      ∧ digits.head? = bytes.head? := by
  rw [scanDigits.eq_def] at scanned
  split at scanned
  · cases scanned
  · rename_i byte bytes
    split at scanned
    · rename_i digit
      cases scanned
      refine ⟨_, digits_takeWhile digit, rfl, ?_⟩
      rw [List.takeWhile_cons, if_pos digit]
      rfl
    · cases scanned

theorem scanWhole_eq_ok (scanned : scanWhole read bytes = .ok (result, rest)) :
    exists whole, PartBytes WholePart whole ∧ result = read ++ whole := by
  rw [scanWhole.eq_def] at scanned
  split at scanned
  · cases scanned
    have digit : Digits [Char.ofNat 0x30] :=
      ⟨List.cons_ne_nil _ _, List.forall_mem_singleton.mpr (by decide)⟩
    exact ⟨[0x30], ⟨.cons (by decide) .nil, digit, fun _ => rfl⟩, rfl⟩
  · rename_i other
    rcases scanDigits_eq_ok scanned with ⟨digits, ⟨ascii, part⟩, equal, first⟩
    refine ⟨digits, ⟨ascii, part, ?_⟩, equal⟩
    intro zero
    cases digits with
    | nil => cases zero
    | cons byte digits =>
      cases bytes with
      | nil => cases first
      | cons head tail =>
        cases first
        rw [eq_zero_of_char (Option.some.inj zero)] at other
        exact absurd rfl (other tail)

theorem scanFraction_eq_ok (scanned : scanFraction read bytes = .ok (result, rest)) :
    exists fraction, PartBytes FractionPart fraction ∧ result = read ++ fraction := by
  rw [scanFraction.eq_def] at scanned
  split at scanned
  · rcases scanDigits_eq_ok scanned with ⟨digits, ⟨ascii, part⟩, equal, _⟩
    exact ⟨0x2e :: digits, ⟨.cons (by decide) ascii, .digits part⟩,
      equal.trans (List.append_assoc _ _ _)⟩
  · cases scanned
    exact ⟨[], ⟨.nil, .none⟩, (List.append_nil _).symm⟩

theorem scanExponent_eq_ok (scanned : scanExponent read bytes = .ok (result, rest)) :
    exists exponent, PartBytes ExponentPart exponent ∧ result = read ++ exponent := by
  rw [scanExponent.eq_def] at scanned
  split at scanned
  · cases scanned
    exact ⟨[], ⟨.nil, .none⟩, (List.append_nil _).symm⟩
  · rename_i byte bytes
    split at scanned
    · rename_i marked
      rw [Bool.or_eq_true, decide_eq_true_eq, decide_eq_true_eq] at marked
      have mark : byte < 0x80 ∧ (Char.ofNat byte.toNat = 'e' ∨ Char.ofNat byte.toNat = 'E') := by
        rcases marked with rfl | rfl
        · exact ⟨by decide, .inl (by decide)⟩
        · exact ⟨by decide, .inr (by decide)⟩
      split at scanned
      · rcases scanDigits_eq_ok scanned with ⟨digits, ⟨ascii, part⟩, equal, _⟩
        exact ⟨byte :: 0x2b :: digits,
          ⟨.cons mark.1 (.cons (by decide) ascii), .digits mark.2 (.inr (.inl rfl)) part⟩,
          equal.trans (List.append_assoc _ _ _)⟩
      · rcases scanDigits_eq_ok scanned with ⟨digits, ⟨ascii, part⟩, equal, _⟩
        exact ⟨byte :: 0x2d :: digits,
          ⟨.cons mark.1 (.cons (by decide) ascii), .digits mark.2 (.inr (.inr rfl)) part⟩,
          equal.trans (List.append_assoc _ _ _)⟩
      · rcases scanDigits_eq_ok scanned with ⟨digits, ⟨ascii, part⟩, equal, _⟩
        exact ⟨byte :: digits, ⟨.cons mark.1 ascii, .digits mark.2 (.inl rfl) part⟩,
          equal.trans (List.append_assoc _ _ _)⟩
    · cases scanned
      exact ⟨[], ⟨.nil, .none⟩, (List.append_nil _).symm⟩

/-- The text of a number that was read is a numeral. -/
theorem scanNumber_eq_ok (scanned : scanNumber bytes = .ok (value, rest)) :
    exists text, value = .number text ∧ IsNumeral text := by
  unfold scanNumber at scanned
  split at scanned
  rename_i sign digits parted
  have signed : PartBytes SignPart sign := by
    split at parted
    · cases parted
      exact ⟨.cons (by decide) .nil, .minus⟩
    · cases parted
      exact ⟨.nil, .none⟩
  rcases Results.of_binds scanned
    with ⟨⟨read, rest⟩, wholeScanned, ⟨read, rest⟩, fractionScanned, scanned⟩
  rcases Results.of_bind scanned with ⟨⟨read, rest⟩, exponentScanned, scanned⟩
  rcases scanWhole_eq_ok wholeScanned with ⟨whole, wholePart, rfl⟩
  rcases scanFraction_eq_ok fractionScanned with ⟨fraction, fractionPart, rfl⟩
  rcases scanExponent_eq_ok exponentScanned with ⟨exponent, exponentPart, rfl⟩
  cases scanned
  refine ⟨_, rfl, .intro signed.part wholePart.part fractionPart.part exponentPart.part ?_⟩
  have ascii := ((signed.ascii.append wholePart.ascii).append fractionPart.ascii).append
    exponentPart.ascii
  rw [toList_ofBytes ascii, asChars, List.map_append, List.map_append, List.map_append]
  rfl

/-! ## Values that are read -/

/-- The values directly inside a value. -/
def parts : Json -> List Json
  | .array values => values
  | .object members => members.map Prod.snd
  | _ => []

/-- A value in which every number is a numeral. -/
inductive Legible : Json -> Prop
  | intro {value : Json} :
    (forall text, value = .number text -> IsNumeral text) ->
    (forall part, part ∈ value.parts -> Legible part) -> Legible value

theorem Legible.numeral (legible : Legible (.number text)) : IsNumeral text := by
  cases legible with
  | intro number _ => exact number text rfl

theorem Legible.part {part} (legible : Legible value) (member : part ∈ value.parts) :
    Legible part := by
  cases legible with
  | intro _ inside => exact inside part member

theorem legible_number (numeral : IsNumeral text) : Legible (.number text) :=
  .intro (fun _ equal => by cases equal; exact numeral) nofun

theorem legible_array {values} (each : forall value, value ∈ values -> Legible value) :
    Legible (.array values) :=
  .intro nofun each

theorem legible_object {members} (each : forall member, member ∈ members -> Legible member.2) :
    Legible (.object members) := by
  refine .intro nofun ?_
  intro part isPart
  rcases List.mem_map.mp isPart with ⟨member, isMember, rfl⟩
  exact each member isMember

theorem legible_null : Legible .null := .intro nofun nofun

theorem legible_bool (value : Bool) : Legible (.bool value) := .intro nofun nofun

theorem legible_string (text : String) : Legible (.string text) := .intro nofun nofun

theorem scanWord_eq_ok {word result letters}
    (scanned : scanWord word result letters bytes = .ok (value, rest)) : value = result := by
  induction letters generalizing bytes with
  | nil =>
    cases scanned
    rfl
  | cons letter letters ih =>
    cases bytes with
    | nil => cases scanned
    | cons byte bytes =>
      rw [scanWord] at scanned
      split at scanned
      · exact ih scanned
      · cases scanned

/-- What the readers of values give within a number of steps. -/
structure ReadsLegible (fuel : Nat) : Prop where
  value {depth : Nat} {bytes rest : List UInt8} {value : Json} :
    scanValue fuel depth bytes = .ok (value, rest) -> Legible value
  array {depth : Nat} {bytes rest : List UInt8} {value : Json} :
    scanArray fuel depth bytes = .ok (value, rest) -> Legible value
  elements {depth : Nat} {read : List Json} {bytes rest : List UInt8} {value : Json} :
    (forall earlier, earlier ∈ read -> Legible earlier) ->
    scanElements fuel depth read bytes = .ok (value, rest) -> Legible value
  object {depth : Nat} {bytes rest : List UInt8} {value : Json} :
    scanObject fuel depth bytes = .ok (value, rest) -> Legible value
  members {depth : Nat} {read : List (String × Json)} {bytes rest : List UInt8} {value : Json} :
    (forall earlier, earlier ∈ read -> Legible earlier.2) ->
    scanMembers fuel depth read bytes = .ok (value, rest) -> Legible value

theorem readsLegible_zero : ReadsLegible 0 where
  value := by simp [scanValue]
  array := by simp [scanArray]
  elements := by simp [scanElements]
  object := by simp [scanObject]
  members := by simp [scanMembers]

theorem readsLegible_succ {fuel} (reads : ReadsLegible fuel) : ReadsLegible (fuel + 1) where
  value := by
    intro depth bytes rest value scanned
    rw [scanValue.eq_def] at scanned
    split at scanned
    · cases scanned
    · cases scanned
    rename_i counted _
    cases counted
    split at scanned
    · rcases Results.of_map scanned with ⟨_, _, equal⟩
      cases equal
      exact legible_string _
    split at scanned
    · split at scanned
      · exact reads.array scanned
      · cases scanned
    split at scanned
    · split at scanned
      · exact reads.object scanned
      · cases scanned
    split at scanned
    · rw [scanWord_eq_ok scanned]
      exact legible_bool _
    split at scanned
    · rw [scanWord_eq_ok scanned]
      exact legible_bool _
    split at scanned
    · rw [scanWord_eq_ok scanned]
      exact legible_null
    split at scanned
    · rcases scanNumber_eq_ok scanned with ⟨text, rfl, numeral⟩
      exact legible_number numeral
    · cases scanned
  array := by
    intro depth bytes rest value scanned
    rw [scanArray.eq_def] at scanned
    split at scanned
    · cases scanned
    · cases scanned
      exact legible_array (List.forall_mem_nil _)
    · rename_i counted _
      cases counted
      exact reads.elements (List.forall_mem_nil _) scanned
  elements := by
    intro depth read bytes rest value earlier scanned
    rw [scanElements] at scanned
    split at scanned
    · cases scanned
    rename_i valueScanned
    have extended := List.forall_mem_cons.mpr ⟨reads.value valueScanned, earlier⟩
    split at scanned
    · cases scanned
    · exact reads.elements extended scanned
    · cases scanned
      exact legible_array fun part member => extended part (List.mem_reverse.mp member)
    · cases scanned
  object := by
    intro depth bytes rest value scanned
    rw [scanObject.eq_def] at scanned
    split at scanned
    · cases scanned
    · cases scanned
      exact legible_object (List.forall_mem_nil _)
    · rename_i counted _
      cases counted
      exact reads.members (List.forall_mem_nil _) scanned
  members := by
    intro depth read bytes rest value earlier scanned
    rw [scanMembers.eq_def] at scanned
    split at scanned
    · cases scanned
    · cases scanned
    · rename_i counted _
      cases counted
      split at scanned
      · cases scanned
      rename_i key _ _
      split at scanned
      · cases scanned
      · split at scanned
        · cases scanned
        rename_i valueScanned
        have extended : forall member, member ∈ (key, _) :: read -> Legible member.2 :=
          List.forall_mem_cons.mpr ⟨reads.value valueScanned, earlier⟩
        split at scanned
        · cases scanned
        · exact reads.members extended scanned
        · cases scanned
          exact legible_object fun part member => extended part (List.mem_reverse.mp member)
        · cases scanned
      · cases scanned
    · cases scanned

theorem readsLegible (fuel : Nat) : ReadsLegible fuel := by
  induction fuel with
  | zero => exact readsLegible_zero
  | succ fuel ih => exact readsLegible_succ ih

/-- Every number in a value that a text starts with is a numeral. -/
theorem legible_of_readLeading (read : readLeading bytes = .ok value) : Legible value := by
  rcases Results.of_map read with ⟨⟨value, rest⟩, scanned, rfl⟩
  rw [scanLeading] at scanned
  split at scanned
  · cases scanned
  · exact (readsLegible _).value scanned

end Json
end PCode
