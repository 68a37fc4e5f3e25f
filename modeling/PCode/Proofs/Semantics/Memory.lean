import Mathlib.Data.List.Basic
import PCode.Proofs.Semantics.Machine
import PCode.Proofs.Static.Frames

namespace PCode
namespace Semantics

open Static

/-!
Stores in frames.

A frame shows a store when every scalar part of every variable has its contents in its
cell.  Composite parts have no contents of their own, so nothing else has to be said.
Changing a part of a variable in the frame and in the store keeps this, because parts
either lie inside each other or have no cell in common.
-/

/-! ## Changed stores -/

section Stores

variable {Value : Type} {store : Store Value} {number : Nat} {path : List Selector}
  {contents : List Selector -> Value}

theorem Store.write_inside (rest : List Selector) :
    store.write number path contents number (path ++ rest) = contents rest := by
  have dropped : (path ++ rest).dropPrefix? path = some rest :=
    List.dropPrefix?_eq_some_iff.mpr ⟨path, rfl, beq_self_eq_true path⟩
  rw [Store.write, if_pos rfl, dropped]

theorem Store.write_outside {selectors} (outside : forall rest, selectors ≠ path ++ rest) :
    store.write number path contents number selectors = store number selectors := by
  rw [Store.write, if_pos rfl]
  split
  · rename_i rest dropped
    rcases List.dropPrefix?_eq_some_iff.mp dropped with ⟨front, equal, same⟩
    rw [beq_iff_eq.mp same] at equal
    exact absurd equal (outside rest)
  · rfl

theorem Store.write_other {other} (different : other ≠ number) (selectors : List Selector) :
    store.write number path contents other selectors = store other selectors := by
  rw [Store.write, if_neg different]

end Stores

/-! ## Frames -/

/-- Variables with their own cells, none of them outside the frame. -/
structure InFrame (slots : List Slot) (size : Int) : Prop where
  sized : forall slot, slot ∈ slots -> Sized slot.type
  low : forall slot, slot ∈ slots -> 0 <= slot.first
  high : forall slot, slot ∈ slots -> slot.first + slot.type.cells <= size
  apart : slots.Pairwise fun slot later => slot.first + slot.type.cells <= later.first

theorem inFrame_of_row {first stop size slots} (row : Row first slots stop) (low : 0 <= first)
    (high : stop <= size) : InFrame slots size := by
  rcases row with ⟨tiles, direct⟩
  have ends : forall slot, slot ∈ slots -> slot.stop = slot.first + slot.type.cells := by
    intro slot member
    have behind := (tiles.sized member).slot_stop
    rw [direct slot member] at behind
    exact behind
  refine ⟨fun _ => tiles.sized, ?_, ?_, ?_⟩
  · intro slot member
    exact Int.le_trans low (tiles.inside member).1
  · intro slot member
    rw [← ends slot member]
    exact Int.le_trans (tiles.inside member).2 high
  · refine tiles.ordered.imp_of_mem ?_
    intro slot later member _ ordered
    rw [← ends slot member]
    exact ordered

namespace InFrame

variable {slots : List Slot} {size : Int} {number other : Nat} {slot slot' : Slot}

/-- Variables with different numbers have no cell in common. -/
theorem disjoint (inFrame : InFrame slots size) (found : slots[number]? = some slot)
    (found' : slots[other]? = some slot') (different : other ≠ number) :
    slot.first + slot.type.cells <= slot'.first ∨ slot'.first + slot'.type.cells <= slot.first := by
  rcases List.getElem?_eq_some_iff.mp found with ⟨bound, rfl⟩
  rcases List.getElem?_eq_some_iff.mp found' with ⟨bound', rfl⟩
  have ordered := List.pairwise_iff_getElem.mp inFrame.apart
  rcases Nat.lt_or_gt_of_ne different with before | behind
  · exact .inr (ordered other number bound' bound before)
  · exact .inl (ordered number other bound bound' behind)

/-- A part of a variable lies in the frame. -/
theorem inside (inFrame : InFrame slots size) (found : slots[number]? = some slot)
    {path part offset} (place : PartAt slot.type path part offset) :
    0 <= slot.first + offset ∧ slot.first + offset + part.cells <= size := by
  have member := List.mem_of_getElem? found
  have bounds := place.inside (inFrame.sized slot member)
  have low := inFrame.low slot member
  have high := inFrame.high slot member
  omega

end InFrame

/-! ## Frames that show stores -/

section Represents

variable {Value : Type}

/-- Every scalar part of every variable has its contents in its cell. -/
def Represents (slots : List Slot) (cells : Int -> Value) (store : Store Value) : Prop :=
  forall number slot path part offset, slots[number]? = some slot ->
    PartAt slot.type path part offset -> part.isComposite = false ->
    cells (slot.first + offset) = store number path

/-- All cells that belong to no variable are as before. -/
def Untouched (slots : List Slot) (cells after : Int -> Value) : Prop :=
  forall cell, (forall slot, slot ∈ slots -> ¬ (slot.first <= cell
    ∧ cell < slot.first + slot.type.cells)) -> after cell = cells cell

theorem Untouched.refl {slots} {cells : Int -> Value} : Untouched slots cells cells :=
  fun _ _ => rfl

theorem Untouched.trans {slots} {cells between after : Int -> Value}
    (first : Untouched slots cells between) (second : Untouched slots between after) :
    Untouched slots cells after :=
  fun cell outside => (second cell outside).trans (first cell outside)

/-- Every frame shows a store. -/
theorem exists_represents (slots : List Slot) (cells : Int -> Value) :
    exists store : Store Value, Represents slots cells store := by
  have contents : forall (number : Nat) (path : List Selector), exists value,
      forall (slot : Slot) (part : Ty) (offset : Int), slots[number]? = some slot ->
        PartAt slot.type path part offset -> cells (slot.first + offset) = value := by
    intro number path
    by_cases known : exists (slot : Slot) (part : Ty) (offset : Int),
        slots[number]? = some slot ∧ PartAt slot.type path part offset
    · rcases known with ⟨slot, part, offset, found, place⟩
      refine ⟨cells (slot.first + offset), ?_⟩
      intro slot' part' offset' found' place'
      cases found.symm.trans found'
      rw [(place.unique place').2]
    · refine ⟨cells 0, ?_⟩
      intro slot part offset found place
      exact absurd ⟨slot, part, offset, found, place⟩ known
  choose store shown using contents
  exact ⟨store, fun number slot path part offset found place _ =>
    shown number path slot part offset found place⟩

/-! ## Changes -/

section Changes

variable {slots : List Slot} {size : Int} {cells : Int -> Value} {store : Store Value}
  {number : Nat} {slot : Slot} {path : List Selector} {part : Ty} {offset : Int}
  {contents : Int -> Value} {data : List Selector -> Value}

/-- A frame goes on showing the store when a part of a variable is changed in both. -/
theorem Represents.write (represents : Represents slots cells store) (inFrame : InFrame slots size)
    (found : slots[number]? = some slot) (place : PartAt slot.type path part offset)
    (same : forall rest leaf before, PartAt part rest leaf before -> leaf.isComposite = false ->
      contents before = data rest) :
    Represents slots (overwrite cells (slot.first + offset) part.cells contents)
      (store.write number path data) := by
  intro other slot' selectors leaf leafOffset found' leafPlace scalar
  have sized := inFrame.sized slot (List.mem_of_getElem? found)
  have sized' := inFrame.sized slot' (List.mem_of_getElem? found')
  have bounds := place.inside sized
  have leafBounds := leafPlace.inside sized'
  have single := leafBounds.1.cells_eq_one scalar
  have before := represents other slot' selectors leaf leafOffset found' leafPlace scalar
  by_cases isSame : other = number
  · subst isSame
    cases found.symm.trans found'
    by_cases within : exists rest, selectors = path ++ rest
    · rcases within with ⟨rest, rfl⟩
      rcases place.split leafPlace with ⟨distance, inner, rfl⟩
      have innerBounds := inner.inside bounds.1
      rw [overwrite, if_pos (by omega), Store.write_inside, ← same rest leaf distance inner scalar]
      exact congrArg contents (by omega)
    · have outside : forall rest, selectors ≠ path ++ rest :=
        fun rest equal => within ⟨rest, equal⟩
      have apart := place.apart_of_scalar leafPlace scalar outside sized
      rw [overwrite, if_neg (by omega), Store.write_outside outside]
      exact before
  · have apart := inFrame.disjoint found found' isSame
    rw [overwrite, if_neg (by omega), Store.write_other isSame]
    exact before

/-- Changing a part of a variable leaves other cells alone. -/
theorem Untouched.write (inFrame : InFrame slots size) (found : slots[number]? = some slot)
    (place : PartAt slot.type path part offset) :
    Untouched slots cells (overwrite cells (slot.first + offset) part.cells contents) := by
  intro cell outside
  have member := List.mem_of_getElem? found
  have bounds := place.inside (inFrame.sized slot member)
  have away := outside slot member
  rw [overwrite, if_neg (by omega)]

end Changes

end Represents

end Semantics
end PCode
