import PCode.Listing

namespace PCode

/-!
Code: instructions, and references that can be printed.

Code is put together from pieces, so facts about it are facts about pieces that
carry over to their concatenation.  The first such fact is that all references
are resolved.  Code that refers to nothing but functions of a list in which all
functions are placed can be printed to its end, in every style.
-/

namespace Code

@[simp] theorem instructions_append (first second : Code) :
    Code.instructions (first ++ second) = first.instructions ++ second.instructions :=
  List.filterMap_append

@[simp] theorem instructions_emit (opcode : Opcode) (operands : List Operand) :
    (Code.emit opcode operands).instructions = [⟨opcode, operands⟩] :=
  rfl

@[simp] theorem instructions_comment (text : String) : Code.instructions [.comment text] = [] := rfl

theorem mem_instructions {code : Code} {instruction} :
    instruction ∈ code.instructions <-> Item.instruction instruction ∈ code := by
  rw [Code.instructions, List.mem_filterMap]
  constructor
  · rintro ⟨item, member, found⟩
    cases item with
    | instruction other =>
      cases found
      exact member
    | comment text => cases found
  · exact fun member => ⟨_, member, rfl⟩

@[simp] theorem size_append (first second : Code) :
    Code.size (first ++ second) = first.size + second.size := by
  rw [Code.size, instructions_append, List.length_append]
  rfl

@[simp] theorem size_emit (opcode : Opcode) (operands : List Operand) :
    (Code.emit opcode operands).size = 1 :=
  rfl

end Code

/-! ## References -/

/-- An operand that is known, or that refers to one of the first `count`
functions. -/
def Operand.RefersBelow (count : Nat) : Operand -> Prop
  | .int _ => True
  | .literal _ => True
  | .entry _ (some tail) => tail < count
  | _ => False

/-- Code all of whose operands are known or refer to the first `count` functions. -/
def Code.RefersBelow (count : Nat) (code : Code) : Prop :=
  forall instruction, instruction ∈ code.instructions ->
    forall operand, operand ∈ instruction.operands -> operand.RefersBelow count

/-! ## Printing -/

/-- Bindings in which the first `count` functions are placed. -/
def Bindings.Place (bindings : Bindings) (count : Nat) : Prop :=
  forall tail, tail < count -> exists address, (bindings.tails[tail]?).join = some address

section Printing

variable {count : Nat} {bindings : Bindings} (placed : bindings.Place count)
include placed

theorem Operand.text_of_refersBelow {operand : Operand} (known : operand.RefersBelow count) :
    exists text, operand.text bindings = .ok text := by
  match operand, known with
  | .int value, _ => exact ⟨_, rfl⟩
  | .literal text, _ => exact ⟨_, rfl⟩
  | .entry name (some tail), known =>
    rcases placed tail known with ⟨address, found⟩
    rw [Operand.text, found]
    exact ⟨_, rfl⟩

theorem Instruction.operandTexts_of_refersBelow {operands}
    (known : forall operand, operand ∈ operands -> operand.RefersBelow count) :
    exists text, Instruction.operandTexts bindings operands = .ok text := by
  induction operands with
  | nil => exact ⟨_, rfl⟩
  | cons operand operands ih =>
    rcases Operand.text_of_refersBelow placed (known operand List.mem_cons_self)
        with ⟨first, here⟩
    rcases ih (List.forall_mem_cons.mp known).2 with ⟨rest, later⟩
    rw [Instruction.operandTexts, here, later]
    exact ⟨_, rfl⟩

theorem Instruction.text_of_refersBelow {instruction : Instruction}
    (known : forall operand, operand ∈ instruction.operands -> operand.RefersBelow count) :
    exists text, instruction.text bindings = .ok text := by
  rcases Instruction.operandTexts_of_refersBelow placed known with ⟨text, found⟩
  rw [Instruction.text, found]
  exact ⟨_, rfl⟩

theorem Code.textsFrom_of_refersBelow {code : Code} (known : code.RefersBelow count)
    (address : Nat) :
    exists texts, code.textsFrom bindings address = .ok texts := by
  induction code generalizing address with
  | nil => exact ⟨[], rfl⟩
  | cons item code ih =>
    cases item with
    | comment text => exact ih known address
    | instruction instruction =>
      rcases Instruction.text_of_refersBelow placed (known instruction List.mem_cons_self)
          with ⟨text, here⟩
      rcases ih (List.forall_mem_cons.mp known).2 (address + 1)
          with ⟨texts, later⟩
      rw [Code.textsFrom, here, later]
      exact ⟨_, rfl⟩

theorem Code.listingFrom_of_refersBelow {code : Code} (known : code.RefersBelow count)
    (style : Style) (address : Nat) : (code.listingFrom bindings style address).error = none := by
  induction code generalizing address with
  | nil => rfl
  | cons item code ih =>
    cases item with
    | comment text =>
      rw [Code.listingFrom]
      split
      · exact ih known address
      · exact ih known address
    | instruction instruction =>
      rcases Instruction.text_of_refersBelow placed (known instruction List.mem_cons_self)
          with ⟨text, here⟩
      rw [Code.listingFrom, here]
      exact ih (List.forall_mem_cons.mp known).2 (address + 1)

end Printing

/-- The texts of code are those of its instructions, in order. -/
theorem Code.text_of_textsFrom {bindings} {code : Code} {address texts}
    (listed : code.textsFrom bindings address = .ok texts) {index : Nat} {instruction}
    (found : code.instructions[index]? = some instruction) :
    exists text, instruction.text bindings = .ok text ∧ texts[index]? = some text := by
  induction code generalizing address texts index with
  | nil => cases found
  | cons item code ih =>
    cases item with
    | comment text => exact ih listed found
    | instruction first =>
      rw [Code.textsFrom] at listed
      split at listed
      · cases listed
      · rename_i text here
        split at listed
        · cases listed
        · rename_i rest later
          cases listed
          cases index with
          | zero =>
            cases found
            exact ⟨text, here, rfl⟩
          | succ index => exact ih later found

end PCode
