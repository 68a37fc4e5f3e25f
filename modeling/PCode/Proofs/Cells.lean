import PCode.Ty

namespace PCode
namespace Ty

/-!
Exact cell counts.

Machine counts wrap, so they say nothing by themselves.  Here every type has an
exact count, an unbounded integer, and the test against a limit is shown to be a
test of that count: a type that passes has a machine count without wrapping, and
a type with positive array lengths passes exactly when its exact count is within
the limit.  Everything else in the development speaks of exact counts only.
-/

/-! ## Counts without a bound -/

mutual

/-- The exact number of cells of a value. -/
def cells : Ty -> Int
  | .unknown => 0
  | .struct _ fields => fieldCells fields
  | .array length elem => length.toInt * cells elem
  | _ => 1

/-- The exact number of cells of a list of fields. -/
def fieldCells : List (String × Ty) -> Int
  | [] => 0
  | (_, type) :: fields => cells type + fieldCells fields

end

/-- The largest number of cells, as an exact count. -/
def cellLimit : Int := 2147483647

theorem maxCells_toInt : maxCells.toInt = cellLimit := rfl

mutual

/-- Whether every array length in a type is at least one. -/
def LengthsPositive : Ty -> Prop
  | .struct _ fields => FieldLengthsPositive fields
  | .array length elem => 1 <= length.toInt ∧ LengthsPositive elem
  | _ => True

/-- Whether every array length in the types of fields is at least one. -/
def FieldLengthsPositive : List (String × Ty) -> Prop
  | [] => True
  | (_, type) :: fields => LengthsPositive type ∧ FieldLengthsPositive fields

end

mutual

theorem cells_nonneg : forall type : Ty, LengthsPositive type -> 0 <= type.cells
  | .unknown, _ => by simp [cells]
  | .integer, _ => by simp [cells]
  | .boolean, _ => by simp [cells]
  | .real, _ => by simp [cells]
  | .char, _ => by simp [cells]
  | .other _, _ => by simp [cells]
  | .struct _ fields, positive => by
    rw [cells]
    exact fieldCells_nonneg fields positive
  | .array length elem, positive => by
    rw [cells]
    have lengthNonneg : 0 <= length.toInt := by
      have atLeastOne : 1 <= length.toInt := positive.1
      omega
    exact Int.mul_nonneg lengthNonneg (cells_nonneg elem positive.2)

theorem fieldCells_nonneg : forall fields : List (String × Ty),
    FieldLengthsPositive fields -> 0 <= fieldCells fields
  | [], _ => by simp [fieldCells]
  | (_, type) :: fields, positive => by
    rw [fieldCells]
    exact Int.add_nonneg (cells_nonneg type positive.1) (fieldCells_nonneg fields positive.2)

end

/-! ## Machine counts -/

mutual

/-- A machine count is the exact count, wrapped. -/
theorem size_eq_ofInt_cells : forall type : Ty, type.size = Int64.ofInt type.cells
  | .unknown => rfl
  | .integer => rfl
  | .boolean => rfl
  | .real => rfl
  | .char => rfl
  | .other _ => rfl
  | .struct _ fields => by rw [size, cells, sizeFields_eq_ofInt_cells fields]
  | .array length elem => by
    rw [size, cells, Int64.ofInt_mul, Int64.ofInt_toInt, size_eq_ofInt_cells elem]

theorem sizeFields_eq_ofInt_cells : forall fields : List (String × Ty),
    sizeFields fields = Int64.ofInt (fieldCells fields)
  | [] => rfl
  | (_, type) :: fields => by
    rw [sizeFields, fieldCells, Int64.ofInt_add, size_eq_ofInt_cells type,
      sizeFields_eq_ofInt_cells fields]

end

/-! ## Machine arithmetic within a limit -/

variable {left right limit : Int64} {type elem : Ty}

private theorem toInt_ofInt_of_le {count} (nonneg : 0 <= count) (bounded : count <= limit.toInt) :
    (Int64.ofInt count).toInt = count := by
  have top := limit.toInt_lt
  apply Int64.toInt_ofInt_of_le <;> omega

/-- An exact count within the limit is the machine count. -/
theorem toInt_ofInt_cells {count} (nonneg : 0 <= count) (bounded : count <= cellLimit) :
    (Int64.ofInt count).toInt = count :=
  toInt_ofInt_of_le nonneg (maxCells_toInt ▸ bounded)

private theorem size_toInt_of_le (nonneg : 0 <= type.cells) (bounded : type.cells <= limit.toInt) :
    type.size.toInt = type.cells := by
  rw [size_eq_ofInt_cells]
  exact toInt_ofInt_of_le nonneg bounded

theorem toInt_sub_of_nonneg (nonneg : 0 <= right.toInt) (bounded : right.toInt <= left.toInt) :
    (left - right).toInt = left.toInt - right.toInt := by
  have top := left.toInt_lt
  rw [Int64.toInt_sub]
  apply Int.bmod_eq_of_le <;> omega

/-- What a field leaves over of the limit. -/
private theorem toInt_sub_size (nonneg : 0 <= type.cells) (bounded : type.cells <= limit.toInt) :
    (limit - type.size).toInt = limit.toInt - type.cells := by
  have counted := size_toInt_of_le nonneg bounded
  rw [toInt_sub_of_nonneg (by omega) (by omega), counted]

private theorem one_le_iff : decide (1 <= limit) = true <-> 1 <= limit.toInt := by
  rw [decide_eq_true_eq, Int64.le_iff_toInt_le]
  rfl

/-- Dividing the limit decides the product: a length is at most the quotient exactly when
the product is at most the limit. -/
private theorem le_div_iff {length} (nonneg : 0 <= elem.cells)
    (bounded : elem.cells <= limit.toInt) :
    (elem.size == 0 || decide (length <= limit / elem.size)) = true
      <-> length.toInt * elem.cells <= limit.toInt := by
  have counted := size_toInt_of_le nonneg bounded
  by_cases empty : elem.size = 0
  · have none : elem.cells = 0 := by rw [← counted, empty, Int64.toInt_zero]
    simp only [empty, beq_self_eq_true, Bool.true_or, none, Int.mul_zero, true_iff]
    exact Int.le_trans nonneg bounded
  · have positive : 0 < elem.size.toInt := by
      have notZero : elem.size.toInt ≠ 0 := fun equal => empty (Int64.toInt_inj.mp equal)
      omega
    have notMinusOne : elem.size ≠ -1 := by
      intro equal
      rw [equal] at positive
      exact absurd positive (by decide)
    rw [beq_false_of_ne empty, Bool.false_or, decide_eq_true_eq, Int64.le_iff_toInt_le,
      Int64.toInt_div_of_ne_right limit elem.size notMinusOne,
      Int.tdiv_eq_ediv_of_nonneg (by omega), Int.le_ediv_iff_mul_le positive, counted]

/-- One element is at most the whole array, because the length is positive. -/
theorem cells_elem_le {length} (positive : LengthsPositive (.array length elem)) :
    elem.cells <= length.toInt * elem.cells := by
  have single : 1 * elem.cells <= length.toInt * elem.cells :=
    Int.mul_le_mul_of_nonneg_right positive.1 (cells_nonneg elem positive.2)
  omega

/-! ## What the test against a limit decides -/

mutual

/-- A type that passes the test has an exact count within the limit. -/
theorem cells_le_of_fitsIn : forall (type : Ty) {limit}, 0 <= limit.toInt ->
    type.fitsIn limit = true -> 0 <= type.cells ∧ type.cells <= limit.toInt
  | .unknown, _, limitNonneg, _ => ⟨Int.le_refl 0, limitNonneg⟩
  | .integer, _, _, fits => ⟨Int.zero_le_ofNat 1, one_le_iff.mp fits⟩
  | .boolean, _, _, fits => ⟨Int.zero_le_ofNat 1, one_le_iff.mp fits⟩
  | .real, _, _, fits => ⟨Int.zero_le_ofNat 1, one_le_iff.mp fits⟩
  | .char, _, _, fits => ⟨Int.zero_le_ofNat 1, one_le_iff.mp fits⟩
  | .other _, _, _, fits => ⟨Int.zero_le_ofNat 1, one_le_iff.mp fits⟩
  | .struct _ fields, limit, limitNonneg, fits => by
    rw [fitsIn] at fits
    rw [cells]
    exact fieldCells_le_of_fieldsFitIn fields limitNonneg fits
  | .array length elem, limit, limitNonneg, fits => by
    rw [fitsIn] at fits
    split at fits
    · exact absurd fits (by decide)
    rename_i lengthNotNegative
    split at fits
    case isFalse => exact absurd fits (by decide)
    rename_i elemFits
    rcases cells_le_of_fitsIn elem limitNonneg elemFits with ⟨elemNonneg, elemBounded⟩
    rw [Int64.lt_iff_toInt_lt, Int64.toInt_zero, Int.not_lt] at lengthNotNegative
    rw [cells]
    exact ⟨Int.mul_nonneg lengthNotNegative elemNonneg, (le_div_iff elemNonneg elemBounded).mp fits⟩

/-- The same for fields, whose limit shrinks from one field to the next. -/
theorem fieldCells_le_of_fieldsFitIn : forall (fields : List (String × Ty)) {limit},
    0 <= limit.toInt -> fieldsFitIn fields limit = true ->
    0 <= fieldCells fields ∧ fieldCells fields <= limit.toInt
  | [], _, limitNonneg, _ => ⟨Int.le_refl 0, limitNonneg⟩
  | (_, type) :: fields, limit, limitNonneg, fits => by
    rw [fieldsFitIn] at fits
    split at fits
    case isFalse => exact absurd fits (by decide)
    rename_i typeFits
    rcases cells_le_of_fitsIn type limitNonneg typeFits with ⟨typeNonneg, typeBounded⟩
    have left := toInt_sub_size typeNonneg typeBounded
    rcases fieldCells_le_of_fieldsFitIn fields (by omega) fits with ⟨restNonneg, restBounded⟩
    rw [fieldCells]
    exact ⟨by omega, by omega⟩

end

/-- The machine count of a type that passes is its exact count. -/
theorem cells_of_fitsIn (type : Ty) (limitNonneg : 0 <= limit.toInt)
    (fits : type.fitsIn limit = true) :
    0 <= type.cells ∧ type.cells <= limit.toInt ∧ type.size.toInt = type.cells := by
  rcases cells_le_of_fitsIn type limitNonneg fits with ⟨nonneg, bounded⟩
  exact ⟨nonneg, bounded, size_toInt_of_le nonneg bounded⟩

mutual

/-- A type with positive lengths whose exact count is within the limit passes. -/
theorem fitsIn_of_cells_le : forall (type : Ty) {limit}, LengthsPositive type ->
    0 <= limit.toInt -> type.cells <= limit.toInt -> type.fitsIn limit = true
  | .unknown, _, _, _, _ => rfl
  | .integer, _, _, _, bounded => one_le_iff.mpr bounded
  | .boolean, _, _, _, bounded => one_le_iff.mpr bounded
  | .real, _, _, _, bounded => one_le_iff.mpr bounded
  | .char, _, _, _, bounded => one_le_iff.mpr bounded
  | .other _, _, _, _, bounded => one_le_iff.mpr bounded
  | .struct _ fields, _, positive, limitNonneg, bounded => by
    rw [fitsIn]
    rw [cells] at bounded
    exact fieldsFitIn_of_cells_le fields positive limitNonneg bounded
  | .array length elem, limit, positive, limitNonneg, bounded => by
    rw [cells] at bounded
    have elemBounded := Int.le_trans (cells_elem_le positive) bounded
    have elemFits := fitsIn_of_cells_le elem positive.2 limitNonneg elemBounded
    have lengthNotNegative : ¬ length < 0 := by
      have atLeastOne : 1 <= length.toInt := positive.1
      rw [Int64.lt_iff_toInt_lt, Int64.toInt_zero]
      omega
    rw [fitsIn, if_neg lengthNotNegative, if_pos elemFits]
    exact (le_div_iff (cells_nonneg elem positive.2) elemBounded).mpr bounded

theorem fieldsFitIn_of_cells_le : forall (fields : List (String × Ty)) {limit},
    FieldLengthsPositive fields -> 0 <= limit.toInt -> fieldCells fields <= limit.toInt ->
    fieldsFitIn fields limit = true
  | [], limit, _, limitNonneg, _ => by
    simpa [fieldsFitIn, Int64.le_iff_toInt_le] using limitNonneg
  | (_, type) :: fields, limit, positive, limitNonneg, bounded => by
    rw [fieldCells] at bounded
    have typeNonneg := cells_nonneg type positive.1
    have restNonneg := fieldCells_nonneg fields positive.2
    have typeBounded : type.cells <= limit.toInt := by omega
    have left := toInt_sub_size typeNonneg typeBounded
    rw [fieldsFitIn, if_pos (fitsIn_of_cells_le type positive.1 limitNonneg typeBounded)]
    exact fieldsFitIn_of_cells_le fields positive.2 (by omega) (by omega)

end

/-- The test is exact and never wraps.  A type that passes takes a number of cells between zero and
the limit, and its machine count is that number; a type with positive lengths whose exact count is
within the limit passes.  Nothing is asked of the type otherwise: lengths may be negative or zero,
and parts may be missing or have a tag outside the table. -/
theorem fitsIn_exact (type : Ty) {limit : Int64} (nonneg : 0 <= limit.toInt) :
    (type.fitsIn limit = true ->
        0 <= type.cells ∧ type.cells <= limit.toInt ∧ type.size.toInt = type.cells)
      ∧ (type.LengthsPositive -> type.cells <= limit.toInt -> type.fitsIn limit = true) := by
  constructor
  · intro fits
    exact cells_of_fitsIn type nonneg fits
  · intro positive bounded
    exact fitsIn_of_cells_le type positive nonneg bounded

/-- Two rows of three pairs take exactly twelve cells, which is the least limit that they pass.
Arrays whose machine count has wrapped to zero do not pass. -/
theorem fitsIn_exact_rows :
    let pair : Ty := .struct "Pair" [("key", .integer), ("mark", .array 1 .boolean)]
    let rows : Ty := .array 2 (.array 3 pair)
    let huge : Ty := .array 4294967296 (.array 4294967296 .integer)
    rows.fitsIn 12 = true ∧ rows.cells = 12 ∧ rows.size.toInt = 12 ∧ rows.fitsIn 11 = false
      ∧ huge.size = 0 ∧ huge.fitsIn 9223372036854775807 = false := by
  intro pair rows huge
  have positive : rows.LengthsPositive := by
    simp [rows, pair, LengthsPositive, FieldLengthsPositive]
  have count : rows.cells = 12 := by decide
  have fits : rows.fitsIn 12 = true := (fitsIn_exact rows (by decide)).2 positive (by decide)
  have exactly := (fitsIn_exact rows (by decide)).1 fits
  exact ⟨fits, count, exactly.2.2.trans count, by decide, by decide, by decide⟩

/-! ## Counting without wrapping -/

mutual

/-- Whether no product and no sum wraps while the cells of a type are counted.  Fields
may be added up in any grouping: the machine count of every run of them is exact. -/
def CountsExactly : Ty -> Prop
  | .struct _ fields =>
    EachCountsExactly fields
      ∧ forall front middle back, fields = front ++ middle ++ back ->
          (sizeFields middle).toInt = fieldCells middle
  | .array length elem =>
    CountsExactly elem ∧ (length * size elem).toInt = length.toInt * (size elem).toInt
  | _ => True

/-- Whether the cells of every field are counted without wrapping. -/
def EachCountsExactly : List (String × Ty) -> Prop
  | [] => True
  | (_, type) :: fields => CountsExactly type ∧ EachCountsExactly fields

end

theorem fieldCells_append (front back : List (String × Ty)) :
    fieldCells (front ++ back) = fieldCells front + fieldCells back := by
  induction front with
  | nil => simp only [List.nil_append, fieldCells, Int.zero_add]
  | cons field front ih =>
    simp only [List.cons_append, fieldCells, ih, Int.add_assoc]

theorem fieldLengthsPositive_append {front back} (positive : FieldLengthsPositive (front ++ back)) :
    FieldLengthsPositive front ∧ FieldLengthsPositive back := by
  induction front with
  | nil => exact ⟨trivial, positive⟩
  | cons field front ih =>
    rcases ih positive.2 with ⟨inFront, inBack⟩
    exact ⟨⟨positive.1, inFront⟩, inBack⟩

/-- A run of fields is at most as large as all fields together. -/
theorem sizeFields_toInt_of_segment {front middle back}
    (positive : FieldLengthsPositive (front ++ middle ++ back))
    (bounded : fieldCells (front ++ middle ++ back) <= cellLimit) :
    (sizeFields middle).toInt = fieldCells middle := by
  rcases fieldLengthsPositive_append positive with ⟨positiveFront, positiveBack⟩
  rcases fieldLengthsPositive_append positiveFront with ⟨positiveFront, positiveMiddle⟩
  have frontNonneg := fieldCells_nonneg front positiveFront
  have middleNonneg := fieldCells_nonneg middle positiveMiddle
  have backNonneg := fieldCells_nonneg back positiveBack
  rw [fieldCells_append, fieldCells_append] at bounded
  rw [sizeFields_eq_ofInt_cells]
  exact toInt_ofInt_cells middleNonneg (by omega)

mutual

/-- A type with positive lengths within the limit is counted without wrapping. -/
theorem countsExactly_of_cells_le : forall (type : Ty), LengthsPositive type ->
    type.cells <= cellLimit -> CountsExactly type
  | .unknown, _, _ => trivial
  | .integer, _, _ => trivial
  | .boolean, _, _ => trivial
  | .real, _, _ => trivial
  | .char, _, _ => trivial
  | .other _, _, _ => trivial
  | .struct _ fields, positive, bounded => by
    refine ⟨eachCountsExactly_of_cells_le fields positive bounded, ?_⟩
    intro front middle back split
    subst split
    exact sizeFields_toInt_of_segment positive bounded
  | .array length elem, positive, bounded => by
    have elemBounded := Int.le_trans (cells_elem_le positive) bounded
    have elemExact : elem.size.toInt = elem.cells :=
      size_toInt_of_le (cells_nonneg elem positive.2) (maxCells_toInt ▸ elemBounded)
    refine ⟨countsExactly_of_cells_le elem positive.2 elemBounded, ?_⟩
    rw [elemExact]
    exact size_toInt_of_le (cells_nonneg (.array length elem) positive) (maxCells_toInt ▸ bounded)

theorem eachCountsExactly_of_cells_le : forall (fields : List (String × Ty)),
    FieldLengthsPositive fields -> fieldCells fields <= cellLimit -> EachCountsExactly fields
  | [], _, _ => trivial
  | (_, type) :: fields, positive, bounded => by
    have typeNonneg := cells_nonneg type positive.1
    have restNonneg := fieldCells_nonneg fields positive.2
    rw [fieldCells] at bounded
    exact ⟨countsExactly_of_cells_le type positive.1 (by omega),
      eachCountsExactly_of_cells_le fields positive.2 (by omega)⟩

end

end Ty
end PCode
