import Mathlib.Data.Nat.Cast.Order.Ring
import PCode.Binary64.Reading
import PCode.Proofs.Binary64.Rounding
import PCode.Proofs.Json.Numerals

namespace PCode
namespace Binary64

/-!
Numerals and finite numbers.

A numeral of JSON has no name for an infinity, so it is read as a finite number or refused.
Conversely every finite number has a numeral: its size is a whole number over a power of ten,
because a power of two below one is a power of five over a power of ten.  That numeral is exact,
and reading it gives the number back.
-/

/-! ## Numerals are read as finite numbers -/

variable {value : Binary64} {negative : Bool} {chars : List Char} {digit : Char}

theorem isFinite_of_decimal {numeral : Numeral} (read : numeral.decimal = .value value) :
    value.isFinite = true := by
  rw [Numeral.decimal] at read
  split at read
  · cases read
    exact isFinite_zero numeral.negative
  split at read
  · cases read
  split at read
  · exact isFinite_of_ofRatio read
  · exact isFinite_of_ofRatio read

theorem isFinite_of_binary {numeral : Numeral} (read : numeral.binary = .value value) :
    value.isFinite = true := by
  rw [Numeral.binary] at read
  split at read
  · cases read
    exact isFinite_zero numeral.negative
  split at read
  · cases read
  split at read
  · exact isFinite_of_ofRatio read
  · exact isFinite_of_ofRatio read

theorem isFinite_of_readDecimal (read : readDecimal negative chars = .value value) :
    value.isFinite = true := by
  rw [readDecimal] at read
  split at read
  · exact isFinite_of_decimal read
  · cases read

theorem isFinite_of_readHexadecimal (read : readHexadecimal negative chars = .value value) :
    value.isFinite = true := by
  rw [readHexadecimal] at read
  split at read
  · split at read
    · exact isFinite_of_binary read
    · cases read
  · cases read

theorem toLower_of_isDigit {char : Char} (digit : char.isDigit = true) : char.toLower = char := by
  rw [Char.isDigit, Bool.and_eq_true, decide_eq_true_eq, decide_eq_true_eq] at digit
  refine dif_neg fun upper => ?_
  have contradiction : 'A'.val <= '9'.val := UInt32.le_trans upper.1 digit.2
  exact absurd contradiction (by decide)

/-- A text that begins with a digit is no name. -/
theorem ne_of_digit {letter name} (isDigit : digit.isDigit = true)
    (isLetter : letter.isDigit = false) : (digit :: chars).map Char.toLower ≠ letter :: name := by
  intro equal
  rw [List.map_cons, toLower_of_isDigit isDigit] at equal
  rw [(List.cons.inj equal).1, isLetter] at isDigit
  cases isDigit

/-- What begins with a digit is read as digits, hexadecimal ones if they are marked so. -/
theorem readUnsigned_of_digit (negative : Bool) (chars : List Char)
    (isDigit : digit.isDigit = true) :
    readUnsigned negative (digit :: chars) = readDecimal negative (digit :: chars)
      ∨ exists letter digits, digit :: chars = '0' :: letter :: digits ∧ letter.toLower = 'x'
        ∧ readUnsigned negative (digit :: chars) = readHexadecimal negative digits := by
  have unnamed : ¬ (decide (String.ofList ((digit :: chars).map Char.toLower) = "inf")
      || decide (String.ofList ((digit :: chars).map Char.toLower) = "infinity")) = true := by
    rw [Bool.or_eq_true, decide_eq_true_eq, decide_eq_true_eq]
    rintro (named | named)
    · exact ne_of_digit isDigit (by decide) (String.ofList_injective named)
    · exact ne_of_digit isDigit (by decide) (String.ofList_injective named)
  rw [readUnsigned.eq_def]
  dsimp only
  rw [if_neg unnamed]
  split
  · rename_i digits equal
    exact .inr ⟨'x', digits, equal, by decide, rfl⟩
  · rename_i digits equal
    exact .inr ⟨'X', digits, equal, by decide, rfl⟩
  · exact .inl rfl

/-- A text that begins with a digit behind its sign is read without regard to names. -/
theorem read_of_digit {text} (isDigit : digit.isDigit = true)
    (equal : text.toList = Json.signChars negative ++ digit :: chars) :
    read text = readUnsigned negative (digit :: chars) := by
  rw [read.eq_def, equal]
  cases negative with
  | true => rfl
  | false =>
    have unnamed : ¬ text.map Char.toLower = "nan" := by
      intro named
      have lower := String.toList_map (s := text) (f := Char.toLower)
      rw [named, equal] at lower
      exact ne_of_digit isDigit (by decide) lower.symm
    dsimp only [Json.signChars]
    split
    · rename_i equal'
      cases equal'
      cases isDigit
    · rename_i equal'
      cases equal'
      cases isDigit
    · exact if_neg unnamed

/-- Reading a numeral gives no infinity, and nothing that is no number. -/
theorem isFinite_of_read {text} (numeral : Json.IsNumeral text) (read : read text = .value value) :
    value.isFinite = true := by
  rcases numeral.begins with ⟨negative, digit, chars, isDigit, equal⟩
  rw [read_of_digit isDigit equal] at read
  rcases readUnsigned_of_digit negative chars isDigit with decimal | ⟨_, _, _, _, hexadecimal⟩
  · exact isFinite_of_readDecimal (decimal ▸ read)
  · exact isFinite_of_readHexadecimal (hexadecimal ▸ read)

/-! ## Every finite number has a numeral -/

theorem digit?_of_isDigit {char} (digit : char.isDigit = true) :
    digit? 10 char = some (char.toNat - '0'.toNat) := by
  have isDigit : ('0' <= char && char <= '9') = true := digit
  rw [digit?, if_pos isDigit]
  rw [Char.isDigit, Bool.and_eq_true, decide_eq_true_eq, decide_eq_true_eq] at digit
  have upper : char.toNat <= 57 := digit.2
  exact if_pos (by omega)

/-- Digits are scanned up to the first character that is none. -/
theorem scanDigits_of_digits {rest} (digits : forall char, char ∈ chars -> char.isDigit = true)
    (ends : forall letter, rest.head? = some letter -> digit? 10 letter = none)
    (count start : Nat) :
    scanDigits 10 count start (chars ++ rest)
      = (count + chars.length, Nat.ofDigitChars 10 chars start, rest) := by
  induction chars generalizing count start with
  | nil =>
    cases rest with
    | nil => rfl
    | cons letter rest =>
      rw [List.nil_append, scanDigits, ends letter rfl]
      rfl
  | cons char chars ih =>
    rw [List.cons_append, scanDigits, digit?_of_isDigit (digits char List.mem_cons_self)]
    dsimp only
    rw [ih (List.forall_mem_cons.mp digits).2,
      Nat.ofDigitChars_cons, Nat.mul_comm 10 start, List.length_cons, Nat.add_assoc,
      Nat.add_comm 1]

theorem scanDigits_toDigits (number : Nat) (rest : List Char)
    (ends : forall letter, rest.head? = some letter -> digit? 10 letter = none) :
    scanDigits 10 0 0 (Nat.toDigits 10 number ++ rest)
      = ((Nat.toDigits 10 number).length, number, rest) := by
  rw [scanDigits_of_digits (Json.digits_toDigits number).all ends, Nat.zero_add,
    Nat.ofDigitChars_ten_toDigits]

/-- The characters of a whole number over a power of ten. -/
def fractionChars (digits scale : Nat) : List Char :=
  Nat.toDigits 10 digits ++ 'e' :: '-' :: Nat.toDigits 10 scale

theorem scanExponent_toDigits (scale : Nat) :
    scanExponent 'e' ('e' :: '-' :: Nat.toDigits 10 scale) = some (-(scale : Int)) := by
  have scanned := scanDigits_toDigits scale [] (by rintro _ ⟨⟩)
  rw [List.append_nil] at scanned
  have counted : (Nat.toDigits 10 scale).length ≠ 0 := Nat.length_toDigits_pos.ne'
  rw [scanExponent.eq_def]
  dsimp only
  rw [if_pos (by decide)]
  split
  · rename_i found
    exact absurd (congrArg Prod.fst (scanned.symm.trans found)) counted
  · rename_i found
    cases scanned.symm.trans found
    rfl
  · rename_i other
    exact absurd scanned (other _ _)

theorem scanNumeral_fractionChars (negative : Bool) (digits scale : Nat) :
    scanNumeral negative 10 'e' 1 (fractionChars digits scale)
      = some { negative, digits, width := digitWidth 10 digits, power := -(scale : Int) } := by
  have scanned := scanDigits_toDigits digits ('e' :: '-' :: Nat.toDigits 10 scale)
    (by rintro _ ⟨⟩; decide)
  have counted : ¬ (Nat.toDigits 10 digits).length + 0 = 0 := Nat.length_toDigits_pos.ne'
  rw [scanNumeral, fractionChars, scanned]
  change (if (Nat.toDigits 10 digits).length + 0 = 0 then none
    else (scanExponent 'e' ('e' :: '-' :: Nat.toDigits 10 scale)).map fun exponent =>
      ({ negative, digits, width := digitWidth 10 digits
         power := exponent - ((1 * 0 : Nat) : Int) } : Numeral)) = _
  have power : -(scale : Int) - ((1 * 0 : Nat) : Int) = -(scale : Int) := Int.sub_zero _
  rw [if_neg counted, scanExponent_toDigits, Option.map_some, power]

/-- The whole number of which the size of a number is a fraction. -/
def exactDigits (value : Binary64) : Nat :=
  value.significandAndPower.1
    * (if 0 <= value.significandAndPower.2 then 2 ^ value.significandAndPower.2.toNat
      else 5 ^ (-value.significandAndPower.2).toNat)

/-- The power of ten below that whole number. -/
def exactScale (value : Binary64) : Nat := (-value.significandAndPower.2).toNat

theorem size_eq_fraction (value : Binary64) :
    value.size = (value.exactDigits : ℚ) / (10 ^ value.exactScale : Nat) := by
  rw [size, exactDigits, exactScale]
  split
  · rename_i whole
    have scale : (-value.significandAndPower.2).toNat = 0 := by omega
    rw [scale, Nat.cast_mul, Nat.cast_pow, Nat.cast_ofNat, zpow_toNat whole, pow_zero,
      Nat.cast_one, div_one]
  · rename_i small
    have power : value.significandAndPower.2 = -((-value.significandAndPower.2).toNat : Int) := by
      omega
    have product : (10 : ℚ) ^ (-value.significandAndPower.2).toNat
        = 2 ^ (-value.significandAndPower.2).toNat * 5 ^ (-value.significandAndPower.2).toNat := by
      rw [← mul_pow]
      norm_num
    conv_lhs => rw [power]
    rw [zpow_neg, zpow_natCast, Nat.cast_mul, Nat.cast_pow, Nat.cast_pow, Nat.cast_ofNat,
      Nat.cast_ofNat, product]
    field_simp

/-- The exact numeral of a finite number. -/
def numeral (value : Binary64) : String :=
  String.ofList
    (Json.signChars value.isNegative ++ fractionChars value.exactDigits value.exactScale)

theorem isNumeral_numeral (value : Binary64) : Json.IsNumeral value.numeral := by
  refine .intro (Json.signPart_signChars value.isNegative) (Json.whole_toDigits value.exactDigits)
    .none (.digits (.inl rfl) (.inr (.inr rfl)) (Json.digits_toDigits value.exactScale)) ?_
  rw [numeral, String.toList_ofList, List.append_nil, List.append_assoc]
  rfl

theorem two_pow_le (count : Nat) : 2 ^ (3 * count) <= 10 ^ count := by
  rw [pow_mul]
  gcongr
  decide

/-- The size of a number that is not zero is no less than the least of the format. -/
theorem le_exactDigits (positive : 0 < value.exactDigits) {limit} (above : 1074 <= limit) :
    10 ^ value.exactScale <= value.exactDigits * 2 ^ limit := by
  have least := (canonical_significandAndPower value).least
  have significand : 1 <= value.significandAndPower.1 := Nat.pos_of_mul_pos_right positive
  have bounded : value.exactScale <= limit := by
    rw [exactScale]
    omega
  rcases Nat.eq_zero_or_pos value.exactScale with whole | small
  · rw [whole]
    exact Nat.mul_pos positive (by positivity)
  · have fraction : value.exactDigits = value.significandAndPower.1 * 5 ^ value.exactScale := by
      rw [exactScale] at small
      rw [exactDigits, if_neg (by omega), exactScale]
    calc 10 ^ value.exactScale
        = 5 ^ value.exactScale * 2 ^ value.exactScale := mul_pow 5 2 value.exactScale
      _ <= 5 ^ value.exactScale * 2 ^ limit :=
          Nat.mul_le_mul_left _ (Nat.pow_le_pow_right (by decide) bounded)
      _ <= value.exactDigits * 2 ^ limit := by
          rw [fraction]
          gcongr
          exact Nat.le_mul_of_pos_left _ significand

theorem power_le (finite : value.isFinite = true) : value.significandAndPower.2 <= 971 := by
  have bound := value.exponent_lt
  rw [isFinite, bne_iff_ne, topExponent] at finite
  rw [significandAndPower]
  split
  · dsimp only
    omega
  · dsimp only
    omega

/-- The size of a finite number is below the range of the format. -/
theorem exactDigits_lt (finite : value.isFinite = true) {limit} (above : 1024 <= limit) :
    value.exactDigits < 10 ^ value.exactScale * 2 ^ limit := by
  have significand := (canonical_significandAndPower value).bounded
  have greatest := power_le finite
  rw [exactDigits]
  split
  · calc value.significandAndPower.1 * 2 ^ value.significandAndPower.2.toNat
        < 2 ^ 53 * 2 ^ value.significandAndPower.2.toNat :=
          Nat.mul_lt_mul_of_pos_right significand (by positivity)
      _ = 2 ^ (53 + value.significandAndPower.2.toNat) := (pow_add 2 _ _).symm
      _ <= 2 ^ limit := Nat.pow_le_pow_right (by decide) (by omega)
      _ <= 10 ^ value.exactScale * 2 ^ limit := Nat.le_mul_of_pos_left _ (by positivity)
  · calc value.significandAndPower.1 * 5 ^ value.exactScale
        < 2 ^ 53 * 5 ^ value.exactScale :=
          Nat.mul_lt_mul_of_pos_right significand (by positivity)
      _ <= 2 ^ limit * 10 ^ value.exactScale :=
          Nat.mul_le_mul (Nat.pow_le_pow_right (by decide) (by omega))
            (Nat.pow_le_pow_left (by decide) _)
      _ = 10 ^ value.exactScale * 2 ^ limit := Nat.mul_comm _ _

/-- Where the first digit of the size of a number stands. -/
theorem reach_bounds (finite : value.isFinite = true) (positive : 0 < value.exactDigits) :
    -400 <= -(value.exactScale : Int) + digitWidth 10 value.exactDigits
      ∧ -(value.exactScale : Int) + digitWidth 10 value.exactDigits <= 400 := by
  have width : digitWidth 10 value.exactDigits = (Nat.toDigits 10 value.exactDigits).length :=
    if_neg positive.ne'
  have some : 0 < (Nat.toDigits 10 value.exactDigits).length := Nat.length_toDigits_pos
  rw [width]
  constructor
  · by_contra far
    have below := (Nat.length_toDigits_le_iff (by decide) some).mp (Nat.le_refl _)
    have least := le_exactDigits positive (by decide : 1074 <= 3 * 400)
    have scale : (Nat.toDigits 10 value.exactDigits).length + 400 <= value.exactScale := by omega
    have chain : value.exactDigits * 2 ^ (3 * 400) < 10 ^ value.exactScale :=
      calc value.exactDigits * 2 ^ (3 * 400)
          < 10 ^ (Nat.toDigits 10 value.exactDigits).length * 2 ^ (3 * 400) :=
            Nat.mul_lt_mul_of_pos_right below (by positivity)
        _ <= 10 ^ (Nat.toDigits 10 value.exactDigits).length * 10 ^ 400 :=
            Nat.mul_le_mul_left _ (two_pow_le 400)
        _ = 10 ^ ((Nat.toDigits 10 value.exactDigits).length + 400) := (pow_add 10 _ _).symm
        _ <= 10 ^ value.exactScale := Nat.pow_le_pow_right (by decide) scale
    omega
  · by_contra far
    have greatest := exactDigits_lt finite (by decide : 1024 <= 3 * 400)
    have scale : value.exactScale + 400 < (Nat.toDigits 10 value.exactDigits).length := by omega
    have above : 10 ^ (value.exactScale + 400) <= value.exactDigits := by
      rw [← Nat.not_lt]
      intro small
      have short := (Nat.length_toDigits_le_iff (by decide) (by omega)).mpr small
      omega
    have chain : value.exactDigits < 10 ^ (value.exactScale + 400) :=
      calc value.exactDigits < 10 ^ value.exactScale * 2 ^ (3 * 400) := greatest
        _ <= 10 ^ value.exactScale * 10 ^ 400 :=
            Nat.mul_le_mul_left _ (two_pow_le 400)
        _ = 10 ^ (value.exactScale + 400) := (pow_add 10 _ _).symm
    omega

theorem decimal_exact (finite : value.isFinite = true) :
    Numeral.decimal
        { negative := value.isNegative, digits := value.exactDigits
          width := digitWidth 10 value.exactDigits, power := -(value.exactScale : Int) }
      = .value value := by
  have exact := (size_eq_fraction value).symm
  rw [Numeral.decimal]
  dsimp only
  rcases Nat.eq_zero_or_pos value.exactDigits with zero | positive
  · rw [if_pos (by rw [zero]; rfl)]
    have read := ofRatio_of_size finite (Nat.pow_pos (by decide)) exact
    rw [zero] at read
    exact read
  · have bounds := reach_bounds finite positive
    have kept : ¬ (decide (value.exactDigits = 0)
        || decide (-(value.exactScale : Int) + digitWidth 10 value.exactDigits < -400)) = true := by
      rw [Bool.or_eq_true, decide_eq_true_eq, decide_eq_true_eq]
      omega
    rw [if_neg kept, if_neg (by omega)]
    split
    · rename_i whole
      have scale : value.exactScale = 0 := by omega
      rw [scale] at exact ⊢
      refine ofRatio_of_size finite (by decide) ?_
      rw [← exact, pow_zero]
      change ((value.exactDigits * 1 : Nat) : ℚ) / (1 : Nat) = _
      rw [Nat.mul_one]
    · rw [neg_neg, Int.toNat_natCast]
      exact ofRatio_of_size finite (Nat.pow_pos (by decide)) exact

/-- The exact numeral of a finite number is read as that number. -/
theorem read_numeral (finite : value.isFinite = true) : read value.numeral = .value value := by
  have whole := Json.whole_toDigits value.exactDigits
  rcases List.exists_cons_of_ne_nil whole.nonempty with ⟨digit, digits, equal⟩
  have isDigit := whole.all digit (equal ▸ List.mem_cons_self)
  have chars : fractionChars value.exactDigits value.exactScale
      = digit :: (digits ++ 'e' :: '-' :: Nat.toDigits 10 value.exactScale) := by
    rw [fractionChars, equal, List.cons_append]
  have begins : value.numeral.toList = Json.signChars value.isNegative
      ++ digit :: (digits ++ 'e' :: '-' :: Nat.toDigits 10 value.exactScale) := by
    rw [numeral, String.toList_ofList, chars]
  rw [read_of_digit isDigit begins]
  rcases readUnsigned_of_digit value.isNegative _ isDigit with decimal | ⟨_, _, marked, isMark, _⟩
  · rw [decimal, ← chars, readDecimal, scanNumeral_fractionChars]
    exact decimal_exact finite
  · -- A leading zero stands alone, and what follows it is the exponent.
    rcases List.cons.inj marked with ⟨rfl, rest⟩
    have alone := equal.symm.trans (whole.leading (equal ▸ rfl))
    cases (List.cons.inj alone).2
    rw [← (List.cons.inj rest).1] at isMark
    exact absurd isMark (by decide)

end Binary64
end PCode
