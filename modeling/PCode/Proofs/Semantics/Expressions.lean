import PCode.Proofs.Lowering.Rules
import PCode.Proofs.Semantics.Memory
import PCode.Proofs.Semantics.Scopes

namespace PCode
namespace Semantics

open Static
open Lowering

/-!
The code of expressions computes their meaning.

An expression that denotes a part of a variable has code that pushes the address of that
part, and the code of a value pushes the value.  Where the meaning does not exist the code
fails, so an index that is out of range never leads to another part.
-/

section Expressions

variable {Value : Type} {machine : Machine Value} {config : Config} {slots : List Slot}
  {env : Env} {scope : Scope}

/-- What the code of an expression relies on: bounds are checked, the variables have
places in the frame, and names stand for them. -/
structure Setting (machine : Machine Value) (config : Config) (slots : List Slot) (env : Env)
    (scope : Scope) : Prop where
  bounds : config.features .boundsCheck = true
  inFrame : InFrame slots machine.size
  finished : env.Finished
  agrees : Agrees slots env scope

variable (machine slots) in
/-- A run that pushes the address of the part that an expression means, or fails where it
means nothing. -/
def Locates (type : Ty) (memory : Memory Value) (found : Option (Meaning Value))
    (ran : Option (Memory Value)) : Prop :=
  (found = none ∧ ran = none)
    ∨ exists number slot path offset, found = some (.place number path type)
      ∧ slots[number]? = some slot ∧ PartAt slot.type path type offset
      ∧ ran = some ⟨machine.int (slot.first + offset) :: memory.stack, memory.cells⟩

variable (machine slots scope) in
/-- The code of an expression computes its meaning in every frame. -/
def Computes (source : Node) (type : Ty) (code : Code) : Form -> Prop
  | .value => forall (memory : Memory Value) (store : Store Value),
    Represents slots memory.cells store ->
    machine.run code.instructions memory
      = (value? machine.toInterpretation scope store source).map
          fun value => ⟨value :: memory.stack, memory.cells⟩
  | .address => forall (memory : Memory Value) (store : Store Value),
    Represents slots memory.cells store ->
    Locates machine slots type memory (meaning machine.toInterpretation scope store source)
      (machine.run code.instructions memory)

/-! ## Instructions -/

theorem run_constant (operand : Operand) {value} (memory : Memory Value)
    (pushed : machine.operation? ⟨.ldc, [operand]⟩ = some (.push value)) :
    machine.run (constant operand).instructions memory
      = some ⟨value :: memory.stack, memory.cells⟩ := by
  rw [constant, Machine.run_emit, Machine.effect, pushed]
  rfl

variable {stack : List Value} {cells : Int -> Value} {address : Int}

variable {operator : Operator} {opcode : Opcode} {length : Int64}

theorem effect_unary {operand} (known : unaryOpcode? operator = some opcode) :
    machine.effect ⟨opcode, []⟩ ⟨operand :: stack, cells⟩
      = (machine.unary operator operand).map fun value => ⟨value :: stack, cells⟩ := by
  cases operator <;> cases known <;> rfl

theorem effect_binary {left right} (known : binaryOpcode? operator = some opcode) :
    machine.effect ⟨opcode, []⟩ ⟨right :: left :: stack, cells⟩
      = (machine.binary operator left right).map fun value => ⟨value :: stack, cells⟩ := by
  cases operator <;> cases known <;> rfl

theorem effect_load (inside : machine.Inside address 1) :
    machine.effect ⟨.ind, []⟩ ⟨machine.int address :: stack, cells⟩
      = some ⟨cells address :: stack, cells⟩ := by
  have known := machine.int?_int address
  show (machine.int? (machine.int address)).bind _ = _
  rw [known, Option.bind_some, if_pos inside]

theorem effect_advance {count} :
    machine.effect ⟨.inc, [.int count]⟩ ⟨machine.int address :: stack, cells⟩
      = some ⟨machine.int (address + count) :: stack, cells⟩ := by
  have known := machine.int?_int address
  show (machine.int? (machine.int address)).map _ = _
  rw [known, Option.map_some]

/-- With bounds checked, the code of an index selects an element that exists, or fails. -/
theorem run_indexCode (bounds : config.features .boundsCheck = true) {elem}
    (sized : Sized (.array length elem)) {index} :
    machine.run (indexCode config length elem).instructions
        ⟨index :: machine.int address :: stack, cells⟩
      = (machine.int? index).bind fun number =>
          if 0 <= number ∧ number < length.toInt then
            some ⟨machine.int (address + number * elem.cells) :: stack, cells⟩
          else none := by
  have last : (length - 1).toInt = length.toInt - 1 :=
    Ty.toInt_sub_of_nonneg (by decide) sized.proper.1
  have known := machine.int?_int address
  rw [indexCode, if_pos bounds, last, sized.elem.size_toInt, Code.instructions_append,
    Machine.run_append, Machine.run_emit]
  show ((machine.int? index).bind _).bind _ = _
  cases isNumber : machine.int? index with
  | none => rfl
  | some number =>
    rw [Option.bind_some, Option.bind_some]
    by_cases inRange : 0 <= number ∧ number < length.toInt
    · rw [if_pos (by omega), if_pos inRange, Option.bind_some, Machine.run_emit]
      show (machine.int? index).bind _ = _
      rw [isNumber, Option.bind_some, known, Option.map_some]
    · rw [if_neg (by omega), if_neg inRange]
      rfl

/-! ## Forms -/

section Forms

variable {note : Note} {source sourceBase sourceArray sourceIndex sourceOperand sourceLeft
  sourceRight : Node} {type elem wanted wanted' : Ty} {code arrayCode valueCode leftCode
  rightCode : Code}

theorem computes_ident (setting : Setting machine config slots env scope) {name out place byRef}
    (binds : Binds env name out (.variable type place byRef)) :
    Computes machine slots scope (.ident note name) type
      (variableAddress (useNote note out type place byRef).address) .address := by
  intro memory store _
  rcases setting.agrees.numbered name out type place byRef binds with ⟨rfl, number, named, found⟩
  refine .inr ⟨number, _, [], 0, ?_, found, .whole, ?_⟩
  · rw [meaning, named]
    rfl
  · rw [Int.add_zero]
    rfl

theorem computes_member {structName field fields before offset}
    (sized : Sized (.struct structName fields))
    (base : Computes machine slots scope sourceBase (.struct structName fields) code .address)
    (found : FieldAt field fields type before) :
    Computes machine slots scope (.member note sourceBase field offset) type
      (code ++ Code.emit .inc [.int (Int64.ofInt before).toInt]) .address := by
  intro memory store represents
  have bounds := found.inside sized.proper.2
  have nonneg := (sized.field found).cells_nonneg
  have limit : Ty.fieldCells fields <= Ty.cellLimit := sized.bounded
  have exactOffset : (Int64.ofInt before).toInt = before :=
    Ty.toInt_ofInt_cells bounds.2.1 (by omega)
  rw [meaning]
  rcases base memory store represents with ⟨nothing, failed⟩ | located
  · rw [nothing, Machine.run_failed _ _ failed]
    exact .inl ⟨rfl, rfl⟩
  · rcases located with ⟨number, slot, path, offset, isPlace, isSlot, place, ran⟩
    rw [isPlace, Machine.run_code _ ran, Machine.run_emit, effect_advance, exactOffset]
    refine .inr ⟨number, slot, path ++ [.field field], offset + (before + 0), ?_, isSlot,
      place.append (.field found .whole), ?_⟩
    · rw [Option.bind_some, Meaning.field?, Ty.field?, findField_of_fieldAt found]
      rfl
    · rw [Int.add_zero, Int.add_assoc]

theorem computes_subscript (bounds : config.features .boundsCheck = true)
    (sized : Sized (.array length elem))
    (array : Computes machine slots scope sourceArray (.array length elem) arrayCode .address)
    (index : Computes machine slots scope sourceIndex wanted valueCode .value) :
    Computes machine slots scope (.subscript note sourceArray sourceIndex) elem
      (arrayCode ++ valueCode ++ indexCode config length elem) .address := by
  intro memory store represents
  rw [meaning_subscript]
  rcases array memory store represents with ⟨nothing, failed⟩ | located
  · rw [nothing, List.append_assoc, Machine.run_failed _ _ failed]
    exact .inl ⟨rfl, rfl⟩
  · rcases located with ⟨number, slot, path, offset, isPlace, isSlot, place, ran⟩
    have indexed := index ⟨machine.int (slot.first + offset) :: memory.stack, memory.cells⟩ store
      represents
    rw [isPlace, List.append_assoc, Machine.run_code _ ran, Code.instructions_append,
      Machine.run_append, indexed]
    cases value? machine.toInterpretation scope store sourceIndex with
    | none => exact .inl ⟨rfl, rfl⟩
    | some value =>
      rw [Option.map_some, Option.bind_some, Option.bind_some, Option.bind_some,
        run_indexCode bounds sized]
      cases machine.int? value with
      | none => exact .inl ⟨rfl, rfl⟩
      | some chosen =>
        rw [Option.bind_some, Option.bind_some, Meaning.element?]
        by_cases inRange : 0 <= chosen ∧ chosen < length.toInt
        · rw [if_pos inRange, if_pos inRange]
          refine .inr ⟨number, slot, path ++ [.index chosen],
            offset + (chosen * elem.cells + 0), rfl, isSlot,
            place.append (.index inRange.1 inRange.2 .whole), ?_⟩
          rw [Int.add_zero, Int.add_assoc]
        · rw [if_neg inRange, if_neg inRange]
          exact .inl ⟨rfl, rfl⟩

theorem computes_load (inFrame : InFrame slots machine.size)
    (address : Computes machine slots scope source type code .address) (sized : Sized type)
    (scalar : type.isComposite = false) :
    Computes machine slots scope source type (code ++ Code.emit .ind []) .value := by
  intro memory store represents
  rw [value?]
  rcases address memory store represents with ⟨nothing, failed⟩ | located
  · rw [nothing, Machine.run_failed _ _ failed]
    rfl
  · rcases located with ⟨number, slot, path, offset, isPlace, isSlot, place, ran⟩
    have inside : machine.Inside (slot.first + offset) 1 := by
      have bounds := inFrame.inside isSlot place
      rw [sized.cells_eq_one scalar] at bounds
      exact bounds
    rw [isPlace, Machine.run_code _ ran, Machine.run_emit, effect_load inside,
      represents number slot path type offset isSlot place scalar]
    rfl

theorem computes_unary (known : unaryOpcode? operator = some opcode)
    (operand : Computes machine slots scope sourceOperand wanted code .value) :
    Computes machine slots scope (.unary note operator sourceOperand) type
      (code ++ Code.emit opcode []) .value := by
  intro memory store represents
  rw [value?_unary, Code.instructions_append, Machine.run_append, operand memory store represents]
  cases value? machine.toInterpretation scope store sourceOperand with
  | none => rfl
  | some value =>
    rw [Option.map_some, Option.bind_some, Option.bind_some, Machine.run_emit,
      effect_unary known]

theorem computes_binary (known : binaryOpcode? operator = some opcode)
    (left : Computes machine slots scope sourceLeft wanted leftCode .value)
    (right : Computes machine slots scope sourceRight wanted' rightCode .value) :
    Computes machine slots scope (.binary note operator sourceLeft sourceRight) type
      (leftCode ++ rightCode ++ Code.emit opcode []) .value := by
  intro memory store represents
  rw [value?_binary, Code.instructions_append, Code.instructions_append, Machine.run_append,
    Machine.run_append, left memory store represents]
  cases value? machine.toInterpretation scope store sourceLeft with
  | none => rfl
  | some first =>
    rw [Option.map_some, Option.bind_some, Option.bind_some,
      right ⟨first :: memory.stack, memory.cells⟩ store represents]
    cases value? machine.toInterpretation scope store sourceRight with
    | none => rfl
    | some second =>
      rw [Option.map_some, Option.bind_some, Option.bind_some, Machine.run_emit,
        effect_binary known]

end Forms

/-! ## All expressions -/

/-- The code of an expression without calls computes its meaning. -/
theorem computes_of_lowers (setting : Setting machine config slots env scope)
    {form source node type code} :
    Lowers config form node code -> HasType env source type node ->
    source.holdsKind .funcCall = false -> Computes machine slots scope source type code form
  | .number, typed, _ => by
    cases typed
    exact fun memory store _ => run_constant _ memory rfl
  | .real, typed, _ => by
    cases typed
    exact fun memory store _ => run_constant _ memory
      (congrArg (fun value => some (Operation.push value)) (machine.literal_real _))
  | .bool, typed, _ => by
    cases typed
    exact fun memory store _ => run_constant _ memory
      (congrArg (fun value => some (Operation.push value)) (machine.literal_bool _))
  | .char, typed, _ => by
    cases typed
    exact fun memory store _ => run_constant _ memory
      (congrArg (fun value => some (Operation.push value)) (machine.literal_char _))
  | .ident, typed, _ => by
    rcases typed.ident_inversion with ⟨_, _, _, _, rfl, binds, rfl⟩
    exact computes_ident setting binds
  | .member base, typed, callFree => by
    rcases typed.member_inversion with ⟨_, _, _, _, _, _, rfl, typedBase, found, rfl⟩
    have sized := typedBase.sized setting.finished
    exact computes_member sized (computes_of_lowers setting base typedBase callFree) found
  | .subscript isArray array index, typed, callFree => by
    rcases typed.subscript_inversion with ⟨_, _, _, _, rfl, typedArray, typedIndex⟩
    have parts := Bool.or_eq_false_iff.mp callFree
    cases isArray.symm.trans typedArray.type_eq
    exact computes_subscript setting.bounds (typedArray.sized setting.finished)
      (computes_of_lowers setting array typedArray parts.1)
      (computes_of_lowers setting index typedIndex parts.2)
  | .load scalar place, typed, callFree => by
    rw [typed.type_eq] at scalar
    exact computes_load setting.inFrame (computes_of_lowers setting place typed callFree)
      (typed.sized setting.finished) scalar
  | .unary known operand, typed, callFree => by
    rcases typed.unary_inversion with ⟨_, _, _, rfl, _, typedOperand⟩
    exact computes_unary known (computes_of_lowers setting operand typedOperand callFree)
  | .binary known left right, typed, callFree => by
    rcases typed.binary_inversion with ⟨_, _, _, _, rfl, _, typedLeft, typedRight⟩
    have parts := Bool.or_eq_false_iff.mp callFree
    exact computes_binary known (computes_of_lowers setting left typedLeft parts.1)
      (computes_of_lowers setting right typedRight parts.2)
  | .call _, typed, callFree => by
    rcases typed.call_inversion with ⟨_, _, _, _, rfl, _, _⟩
    cases callFree

end Expressions

end Semantics
end PCode
