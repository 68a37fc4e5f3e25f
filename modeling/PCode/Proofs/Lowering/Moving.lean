import PCode.Proofs.Lowering.Erasure

namespace PCode
namespace Lowering

/-!
Code at another address.

When the functions of a program change places, their code starts elsewhere and calls
go to other positions.  Nothing is left out, so each piece of code keeps its size and
is moved as a whole.
-/

variable {new move : Nat -> Nat}

/-! ## Linked code -/

/-- The entries of functions at new positions are the old ones moved. -/
structure Relinks (new move : Nat -> Nat) (entries entries' : List (Option Nat)) : Prop where
  moved : forall function, (entries'[new function]?).join = (entries[function]?).join.map move
  fixed : forall function, (entries[function]?).join = none -> new function = function

/-- Linked code is carried along with the code. -/
theorem link_carry {entries entries'} (relinks : Relinks new move entries entries')
    (instruction : Instruction) :
    link entries' (carry new move instruction) = relocate move (link entries instruction) := by
  rw [carry]
  unfold redirect
  split
  · rename_i count name function
    have entry := relinks.moved function
    have same : relocate move ⟨.cup, [count, .entry name (some (new function))]⟩
        = ⟨.cup, [count, .entry name (some (new function))]⟩ := rfl
    rw [same, link, link]
    cases known : (entries[function]?).join with
    | some address =>
      rw [entry, known]
      rfl
    | none =>
      rw [entry, known, relinks.fixed function known]
      rfl
  · rename_i plain
    have unlinked : link entries instruction = instruction := by
      unfold link
      split
      · exact absurd rfl (plain _ _ _)
      · rfl
    rw [unlinked]
    unfold relocate
    split
    · rfl
    · rfl
    · rfl
    · unfold link
      split
      · exact absurd rfl (plain _ _ _)
      · rfl

/-! ## Pieces of code -/

/-- Code keeps all of its instructions. -/
def displacement (new move : Nat -> Nat) : Turn := { new, move }

/-- Code and the same code with its calls redirected and its addresses moved. -/
abbrev Carries (new move : Nat -> Nat) (code later : Code) : Prop :=
  Turns (displacement new move) code later

variable {config : Config} {start start' : Nat} {code later : Code}

theorem displacement_suits : (displacement new move).Suits config config :=
  ⟨(Bool.and_true _).symm, (Bool.and_true _).symm⟩

theorem tree_displacement : (displacement new move).tree = Node.reindex new :=
  funext fun _ => Node.rename_keep _

theorem Carries.instructions_eq (carries : Carries new move code later) :
    later.instructions = code.instructions.map (carry new move) := by
  rw [carries, Turn.apply_full rfl, Turn.image_of_keep rfl]
  rfl

theorem Carries.size_eq (carries : Carries new move code later) : later.size = code.size :=
  Turns.size_eq rfl carries

theorem carries_function (new : Nat -> Nat) {name size body}
    (lowered : lowerFunction config start name size body = .ok code)
    (slides : forall offset, offset < code.size -> move (start + offset) = start' + offset) :
    exists later, lowerFunction config start' name size (body.reindex new) = .ok later
      ∧ Carries new move code later := by
  rw [← tree_displacement]
  refine turns_function displacement_suits lowered fun offset inside => ?_
  rw [Follows.length_full rfl (Nat.le_of_lt inside)]
  exact slides offset inside

theorem carries_blocks (new : Nat -> Nat) {number blocks}
    (lowered : lowerBlocks config start number blocks = .ok code)
    (slides : forall offset, offset <= code.size -> move (start + offset) = start' + offset) :
    exists later, lowerBlocks config start' number (blocks.map (Node.reindex new)) = .ok later
      ∧ Carries new move code later := by
  rw [← tree_displacement]
  refine turns_blocks displacement_suits lowered fun offset inside => ?_
  rw [Follows.length_full rfl inside]
  exact slides offset inside

end Lowering
end PCode
