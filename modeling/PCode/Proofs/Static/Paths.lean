import PCode.Proofs.Static.Typing

namespace PCode
namespace Static

/-!
Parts of variables.

A part of a variable is reached by selecting fields and elements, one after another.
The selectors say which part it is, and the layout of types says where it starts,
counted in cells from the start of the variable.  Parts that are reached by different
selectors have no cell in common; this is where the offsets of fields and the sizes of
elements have to fit together.
-/

/-- One step into a value: a field of a structure or an element of an array. -/
inductive Selector where
  | field (name : String)
  | index (value : Int)
deriving DecidableEq, Repr

/-- The part of a type that selectors lead to, and the number of cells before it. -/
inductive PartAt : Ty -> List Selector -> Ty -> Int -> Prop
  | whole {type} : PartAt type [] type 0
  | field {structName name fields type part path before offset} :
    FieldAt name fields type before -> PartAt type path part offset ->
    PartAt (.struct structName fields) (.field name :: path) part (before + offset)
  | index {length elem part path value offset} :
    0 <= value -> value < length.toInt -> PartAt elem path part offset ->
    PartAt (.array length elem) (.index value :: path) part (value * elem.cells + offset)

/-! ## Fields -/

theorem FieldAt.unique {field fields type type' before before'}
    (left : FieldAt field fields type before) (right : FieldAt field fields type' before') :
    type = type' ∧ before = before' := by
  induction left generalizing before' with
  | here =>
    cases right with
    | here => exact ⟨rfl, rfl⟩
    | behind different _ => exact absurd rfl different
  | behind different _ ih =>
    cases right with
    | here => exact absurd rfl different
    | behind _ right =>
      rcases ih right with ⟨sameType, sameBefore⟩
      exact ⟨sameType, by rw [sameBefore]⟩

/-- Fields of different names have no cell in common. -/
theorem FieldAt.apart {field other fields type otherType before otherBefore}
    (left : FieldAt field fields type before) (right : FieldAt other fields otherType otherBefore)
    (different : field ≠ other) (proper : ProperFields fields) :
    before + type.cells <= otherBefore ∨ otherBefore + otherType.cells <= before := by
  induction left generalizing otherBefore with
  | here =>
    cases right with
    | here => exact absurd rfl different
    | behind _ right =>
      have low := (right.inside proper.2).2.1
      omega
  | behind _ left ih =>
    cases right with
    | here =>
      have low := (left.inside proper.2).2.1
      omega
    | behind _ right =>
      have apart := ih right proper.2
      omega

/-! ## Parts -/

namespace PartAt

variable {type part other : Ty} {path path' : List Selector} {offset offset' : Int}

/-- A part of a part is a part of the whole. -/
theorem append (front : PartAt type path part offset) (back : PartAt part path' other offset') :
    PartAt type (path ++ path') other (offset + offset') := by
  induction front with
  | whole =>
    rw [Int.zero_add]
    exact back
  | field found _ ih =>
    rw [List.cons_append, Int.add_assoc]
    exact .field found (ih back)
  | index low high _ ih =>
    rw [List.cons_append, Int.add_assoc]
    exact .index low high (ih back)

/-- Selectors lead to one part. -/
theorem unique (left : PartAt type path part offset) (right : PartAt type path other offset') :
    part = other ∧ offset = offset' := by
  induction left generalizing offset' with
  | whole =>
    cases right
    exact ⟨rfl, rfl⟩
  | field found _ ih =>
    cases right with
    | field found' rest =>
      rcases found.unique found' with ⟨rfl, rfl⟩
      rcases ih rest with ⟨samePart, sameOffset⟩
      exact ⟨samePart, by rw [sameOffset]⟩
  | index _ _ _ ih =>
    cases right with
    | index _ _ rest =>
      rcases ih rest with ⟨samePart, sameOffset⟩
      exact ⟨samePart, by rw [sameOffset]⟩

/-- The elements before another one end where it starts, at the latest. -/
theorem elements_le {cells value limit : Int} (nonneg : 0 <= cells) (before : value < limit) :
    value * cells + cells <= limit * cells := by
  have next : value + 1 <= limit := before
  have scaled := Int.mul_le_mul_of_nonneg_right next nonneg
  rw [Int.add_mul, Int.one_mul] at scaled
  exact scaled

/-- A part of a finished type is finished and lies inside it. -/
theorem inside (place : PartAt type path part offset) (sized : Sized type) :
    Sized part ∧ 0 <= offset ∧ offset + part.cells <= type.cells := by
  induction place with
  | whole => exact ⟨sized, Int.le_refl 0, by omega⟩
  | @field _ _ fields _ _ _ _ _ found _ ih =>
    rcases found.inside sized.proper.2 with ⟨_, low, high⟩
    rcases ih (sized.field found) with ⟨sizedPart, lowPart, highPart⟩
    refine ⟨sizedPart, by omega, ?_⟩
    rw [Ty.cells]
    omega
  | @index length elem _ _ value _ low high _ ih =>
    have sizedElem := sized.elem
    have nonneg := sizedElem.cells_nonneg
    have room := elements_le nonneg high
    have start := Int.mul_nonneg low nonneg
    rcases ih sizedElem with ⟨sizedPart, lowPart, highPart⟩
    refine ⟨sizedPart, by omega, ?_⟩
    rw [Ty.cells]
    omega

/-- Parts that are reached by different selectors have no cell in common. -/
theorem apart_of_ne {first second} (left : PartAt type (first :: path) part offset)
    (right : PartAt type (second :: path') other offset') (different : first ≠ second)
    (sized : Sized type) : offset + part.cells <= offset' ∨ offset' + other.cells <= offset := by
  cases left with
  | field found inner =>
    cases right with
    | field found' inner' =>
      have names : _ ≠ _ := fun same => different (congrArg Selector.field same)
      have apart := found.apart found' names sized.proper.2
      have bounds := inner.inside (sized.field found)
      have bounds' := inner'.inside (sized.field found')
      omega
  | @index _ _ _ _ value _ _ _ inner =>
    cases right with
    | @index _ _ _ _ value' _ _ _ inner' =>
      have values : value ≠ value' := fun same => different (congrArg Selector.index same)
      have nonneg := sized.elem.cells_nonneg
      have bounds := inner.inside sized.elem
      have bounds' := inner'.inside sized.elem
      rcases Int.lt_or_gt_of_ne values with less | greater
      · have room := elements_le nonneg less
        omega
      · have room := elements_le nonneg greater
        omega

/-- Paths that first differ behind a common beginning lead to parts that have no cell
in common. -/
theorem apart {first second} : forall {common type offset offset'},
    PartAt type (common ++ first :: path) part offset ->
    PartAt type (common ++ second :: path') other offset' -> first ≠ second -> Sized type ->
    offset + part.cells <= offset' ∨ offset' + other.cells <= offset
  | [], _, _, _, left, right, different, sized => left.apart_of_ne right different sized
  | .field _ :: _, _, _, _, .field found left, right, different, sized => by
    cases right with
    | field found' right =>
      rcases found.unique found' with ⟨rfl, rfl⟩
      have apart := PartAt.apart left right different (sized.field found)
      omega
  | .index _ :: _, _, _, _, .index _ _ left, right, different, sized => by
    cases right with
    | index _ _ right =>
      have apart := PartAt.apart left right different sized.elem
      omega

/-- A part that is reached through another one is a part of that. -/
theorem split (front : PartAt type path part offset)
    (whole : PartAt type (path ++ path') other offset') :
    exists before, PartAt part path' other before ∧ offset' = offset + before := by
  induction front generalizing offset' with
  | whole => exact ⟨offset', whole, (Int.zero_add offset').symm⟩
  | field found _ ih =>
    cases whole with
    | field found' rest =>
      rcases found.unique found' with ⟨rfl, rfl⟩
      rcases ih rest with ⟨before, inner, rfl⟩
      exact ⟨before, inner, (Int.add_assoc _ _ _).symm⟩
  | index _ _ _ ih =>
    cases whole with
    | index _ _ rest =>
      rcases ih rest with ⟨before, inner, rfl⟩
      exact ⟨before, inner, (Int.add_assoc _ _ _).symm⟩

/-- A scalar has no part but itself. -/
theorem eq_nil_of_scalar (place : PartAt type path part offset)
    (scalar : type.isComposite = false) : path = [] := by
  cases place with
  | whole => rfl
  | field _ _ | index _ _ _ => cases scalar

/-- A scalar lies in a part, or it has no cell in common with it. -/
theorem apart_of_scalar (place : PartAt type path part offset)
    (leaf : PartAt type path' other offset') (scalar : other.isComposite = false)
    (outside : forall rest, path' ≠ path ++ rest) (sized : Sized type) :
    offset + part.cells <= offset' ∨ offset' + other.cells <= offset := by
  induction place generalizing path' offset' with
  | whole => exact absurd rfl (outside path')
  | @field _ name _ _ _ _ _ _ found inner ih =>
    cases leaf with
    | whole => cases scalar
    | @field _ name' _ _ _ _ _ _ found' inner' =>
      by_cases same : name = name'
      · subst same
        rcases found.unique found' with ⟨rfl, rfl⟩
        have apart := ih inner'
          (fun rest equal => outside rest (congrArg (Selector.field name :: ·) equal))
          (sized.field found)
        omega
      · have different : Selector.field name ≠ .field name' :=
          fun equal => same (Selector.field.inj equal)
        exact apart_of_ne (.field found inner) (.field found' inner') different sized
  | @index _ _ _ _ value _ low high inner ih =>
    cases leaf with
    | whole => cases scalar
    | @index _ _ _ _ value' _ low' high' inner' =>
      by_cases same : value = value'
      · subst same
        have apart := ih inner'
          (fun rest equal => outside rest (congrArg (Selector.index value :: ·) equal))
          sized.elem
        omega
      · have different : Selector.index value ≠ .index value' :=
          fun equal => same (Selector.index.inj equal)
        exact apart_of_ne (.index low high inner) (.index low' high' inner') different sized

end PartAt

end Static
end PCode
