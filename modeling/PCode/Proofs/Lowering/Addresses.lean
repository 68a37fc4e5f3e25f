import PCode.Proofs.Lowering.Programs
import PCode.Proofs.Stack
import PCode.Proofs.Static.Paths

namespace PCode

/-!
Where the code of addresses leads.

The address of a part of a variable is put together from a base that one phase has
chosen, field offsets that another has noted, and sizes of elements.  Here the code is
followed with the index values left open: an index may be any value that the array
allows, whatever its own code computes.  The address never leaves the variable, it never
leaves the range of machine integers, and different parts keep apart.
-/

/-! ## Selections in an expression -/

namespace Node

/-- The length of an array type. -/
def arrayLength : Ty -> Int64
  | .array length _ => length
  | _ => 0

mutual

/-- The lengths of the arrays from which an expression selects elements, in the order in
which its code selects them. -/
def lengths : Node -> List Int64
  | .member _ base _ _ => lengths base
  | .subscript _ array index => lengths array ++ lengths index ++ [arrayLength array.type]
  | .unary _ _ operand => lengths operand
  | .binary _ _ left right => lengths left ++ lengths right
  | .call _ _ args _ => lengthsIn args
  | _ => []

/-- The lengths of arrays in expressions. -/
def lengthsIn : List Node -> List Int64
  | [] => []
  | node :: nodes => lengths node ++ lengthsIn nodes

end

/-- The note of the variable that a place is a part of. -/
def root? : Node -> Option Note
  | .ident note _ => some note
  | .member _ base _ _ => root? base
  | .subscript _ array _ => root? array
  | _ => none

/-- The selectors of a place, given the choices of its index values.  The index of an
element is chosen last, behind those in the array and in the index itself. -/
def selectors : Node -> List Int -> List Static.Selector
  | .member _ base field _, choices => selectors base choices ++ [.field field]
  | .subscript _ array _, choices =>
    selectors array (choices.take array.lengths.length)
      ++ choices.getLast?.toList.map Static.Selector.index
  | _, _ => []

end Node

namespace Lowering

open Static

/-! ## Following code -/

/-- Where variables start. -/
abbrev Bases := Address -> Int

/-- Cells of the expression stack: an address, or anything else. -/
abbrev Cells := List (Option Int)

/-- A number, if a machine integer can hold it. -/
def word? (value : Int) : Option Int :=
  if -9223372036854775808 <= value ∧ value <= 9223372036854775807 then some value else none

/-- Pushes the start of a variable. -/
def pushBase (bases : Bases) (byRef : Bool) (choices : List Int) (cells : Cells) :
    List Operand -> Option (List Int × Cells)
  | [.int level, .int offset] =>
    some (choices, some (bases ⟨level.toNat, Int64.ofInt offset, byRef⟩) :: cells)
  | _ => none

/-- Adds a number of cells to an address. -/
def addCells (choices : List Int) : Cells -> List Operand -> Option (List Int × Cells)
  | some address :: cells, [.int count] =>
    (word? (address + count)).map fun sum => (choices, some sum :: cells)
  | _, _ => none

/-- Holds the choice that comes next against the bounds. -/
def checkBounds (cells : Cells) : List Int -> List Operand -> Option (List Int × Cells)
  | value :: choices, [.int low, .int high] =>
    if low <= value ∧ value <= high then some (value :: choices, cells) else none
  | _, _ => none

/-- Goes from an array to the element that the next choice selects. -/
def selectElement : List Int -> Cells -> List Operand -> Option (List Int × Cells)
  | value :: choices, _ :: some address :: cells, [.int size] =>
    (word? (value * size)).bind fun distance =>
      (word? (address + distance)).map fun sum => (choices, some sum :: cells)
  | _, _, _ => none

/-- Takes cells and leaves others, which are no addresses. -/
def countCells (instruction : Instruction) (choices : List Int) (cells : Cells) :
    Option (List Int × Cells) :=
  if instruction.takes <= cells.length then
    some (choices, List.replicate instruction.opcode.leaves.toNat none
      ++ cells.drop instruction.takes.toNat)
  else none

/-- Follows an instruction.  The values of indices come from a list of choices, one for
each element that is selected.  Addresses are computed, and other cells are only counted. -/
def follow (bases : Bases) (instruction : Instruction) (choices : List Int) (cells : Cells) :
    Option (List Int × Cells) :=
  match instruction.opcode with
  | .lda => pushBase bases false choices cells instruction.operands
  | .lod => pushBase bases true choices cells instruction.operands
  | .inc => addCells choices cells instruction.operands
  | .chk => checkBounds cells choices instruction.operands
  | .ixa => selectElement choices cells instruction.operands
  | _ => countCells instruction choices cells

/-- Follows instructions in order. -/
def followAll (bases : Bases) : List Instruction -> List Int -> Cells -> Option (List Int × Cells)
  | [], choices, cells => some (choices, cells)
  | instruction :: instructions, choices, cells =>
    (follow bases instruction choices cells).bind fun next =>
      followAll bases instructions next.1 next.2

section Following

variable {bases : Bases} {choices choices' : List Int} {cells cells' : Cells}

theorem followAll_append (first second : List Instruction) :
    followAll bases (first ++ second) choices cells
      = (followAll bases first choices cells).bind fun next =>
          followAll bases second next.1 next.2 := by
  induction first generalizing choices cells with
  | nil => rfl
  | cons instruction first ih =>
    rw [List.cons_append, followAll, followAll, Option.bind_assoc]
    simp only [ih]

/-- Code behind code is followed from where that leads. -/
theorem followAll_code {first second : Code}
    (follows : followAll bases first.instructions choices cells = some (choices', cells')) :
    followAll bases (first ++ second).instructions choices cells
      = followAll bases second.instructions choices' cells' := by
  rw [Code.instructions_append, followAll_append, follows]
  rfl

theorem followAll_emit (opcode : Opcode) (operands : List Operand) :
    followAll bases (Code.emit opcode operands).instructions choices cells
      = follow bases ⟨opcode, operands⟩ choices cells := by
  rw [Code.instructions_emit, followAll]
  exact Option.bind_fun_some _

variable {value distance address : Int} {length : Int64} {operator : Operator} {name : String}
  {config : Config}

theorem word_of_le (low : 0 <= value) (high : value <= 9223372036854775807) :
    word? value = some value := by
  rw [word?, if_pos]
  omega

end Following

/-! ## Choices and spaces -/

/-- Choices of index values, each of which its array allows. -/
abbrev InRange (lengths : List Int64) (choices : List Int) : Prop :=
  List.Forall₂ (fun length value => 0 <= value ∧ value < length.toInt) lengths choices

variable {choices : List Int} {bases : Bases} {node : Node} {code : Code}

theorem inRange_append {front back} (inRange : InRange (front ++ back) choices) :
    exists first second, choices = first ++ second ∧ InRange front first ∧ InRange back second := by
  induction front generalizing choices with
  | nil => exact ⟨[], choices, rfl, .nil, inRange⟩
  | cons length front ih =>
    cases inRange with
    | cons here later =>
      rcases ih later with ⟨first, second, rfl, inFront, inBack⟩
      exact ⟨_ :: first, second, rfl, .cons here inFront, inBack⟩

/-- The variables of an expression lie in the address space. -/
def InSpace (bases : Bases) (node : Node) : Prop :=
  forall note name, (Node.ident note name).Within node ->
    0 <= bases note.address ∧ bases note.address + note.type.size.toInt <= 9223372036854775807

theorem InSpace.child {child} (space : InSpace bases node) (member : child ∈ node.children) :
    InSpace bases child :=
  fun note name within => space note name (.inside member within)

/-! ## Where code leads -/

/-- The code of an address leads into a variable: to its part that the selectors name. -/
structure LeadsInto (bases : Bases) (node : Node) (choices : List Int) (code : Code) (root : Note)
    (distance : Int) : Prop where
  start : node.root? = some root
  sized : Sized root.type
  part : PartAt root.type (node.selectors choices) node.type distance
  low : 0 <= bases root.address
  high : bases root.address + root.type.cells <= 9223372036854775807
  follows : forall rest cells, followAll bases code.instructions (choices ++ rest) cells
    = some (rest, some (bases root.address + distance) :: cells)

/-- The code of an expression uses up the choices and pushes one cell. -/
def Lands (bases : Bases) (node : Node) (choices : List Int) (code : Code) : Form -> Prop
  | .value => forall rest cells,
    followAll bases code.instructions (choices ++ rest) cells = some (rest, none :: cells)
  | .address => exists root distance, LeadsInto bases node choices code root distance

theorem Lands.pushes {form} (lands : Lands bases node choices code form) :
    exists cell, forall rest cells,
      followAll bases code.instructions (choices ++ rest) cells = some (rest, cell :: cells) := by
  cases form with
  | value => exact ⟨none, lands⟩
  | address =>
    rcases lands with ⟨root, distance, leads⟩
    exact ⟨_, leads.follows⟩

/-! ## Steps -/

section Steps

variable {bases : Bases} {choices rest : List Int} {cells : Cells}

/-- The address of a part of a variable is a machine integer. -/
theorem word_of_part {type part path base} (place : PartAt type path part distance)
    (sized : Sized type) (low : 0 <= base) (high : base + type.cells <= 9223372036854775807) :
    word? (base + distance) = some (base + distance) := by
  rcases place.inside sized with ⟨sizedPart, lowPart, highPart⟩
  have nonneg := sizedPart.cells_nonneg
  apply word_of_le
  · omega
  · omega

theorem follow_variableAddress (address : Address) :
    followAll bases (variableAddress address).instructions choices cells
      = some (choices, some (bases address) :: cells) := by
  rcases address with ⟨level, offset, byRef⟩
  rw [variableAddress, followAll_emit]
  cases byRef with
  | true => simp [follow, pushBase]
  | false => simp [follow, pushBase]

variable {opcode : Opcode}

/-- Instructions that do not deal with addresses take cells and leave cells. -/
theorem follow_plain {operands} (plain : opcode ∉ [.lda, .lod, .inc, .chk, .ixa]) (taken : Cells)
    (count : Instruction.takes ⟨opcode, operands⟩ = taken.length) :
    follow bases ⟨opcode, operands⟩ choices (taken ++ cells)
      = some (choices, List.replicate opcode.leaves.toNat none ++ cells) := by
  have counted : countCells ⟨opcode, operands⟩ choices (taken ++ cells)
      = some (choices, List.replicate opcode.leaves.toNat none ++ cells) := by
    rw [countCells, count, Int.toNat_natCast, List.drop_left, if_pos]
    rw [List.length_append]
    omega
  cases opcode with
  | lda | lod | inc | chk | ixa => exact absurd (by decide) plain
  | _ => exact counted

theorem follow_constant (operand : Operand) :
    followAll bases (constant operand).instructions choices cells
      = some (choices, none :: cells) := by
  rw [constant, followAll_emit]
  exact follow_plain (by decide) [] rfl

theorem follow_indexCode (config : Config) {elem top} (sized : Sized (.array length elem))
    (low : 0 <= value) (high : value < length.toInt)
    (fits : word? (address + value * elem.cells) = some (address + value * elem.cells)) :
    followAll bases (indexCode config length elem).instructions (value :: rest)
        (top :: some address :: cells)
      = some (rest, some (address + value * elem.cells) :: cells) := by
  have sizedElem := sized.elem
  have nonneg := sizedElem.cells_nonneg
  have room := PartAt.elements_le nonneg high
  have bounded : length.toInt * elem.cells <= Ty.cellLimit := sized.bounded
  have limit : Ty.cellLimit = 2147483647 := rfl
  have positive : 1 <= length.toInt := sized.proper.1
  have distance : word? (value * elem.cells) = some (value * elem.cells) :=
    word_of_le (Int.mul_nonneg low nonneg) (by omega)
  have selected : follow bases ⟨.ixa, [.int elem.size.toInt]⟩ (value :: rest)
      (top :: some address :: cells)
        = some (rest, some (address + value * elem.cells) :: cells) := by
    simp only [follow, selectElement, sizedElem.size_toInt, distance, fits, Option.bind_some,
      Option.map_some]
  rw [indexCode]
  split
  · have last : (length - 1).toInt = length.toInt - 1 :=
      Ty.toInt_sub_of_nonneg (by decide) positive
    have checked : follow bases ⟨.chk, [.int 0, .int (length - 1).toInt]⟩ (value :: rest)
        (top :: some address :: cells) = some (value :: rest, top :: some address :: cells) := by
      rw [last]
      exact if_pos ⟨low, by omega⟩
    rw [← followAll_emit] at checked
    rw [followAll_code checked, followAll_emit]
    exact selected
  · rw [List.nil_append, followAll_emit]
    exact selected

theorem follow_unary {operand} (known : unaryOpcode? operator = some opcode) :
    follow bases ⟨opcode, []⟩ choices (operand :: cells) = some (choices, none :: cells) := by
  cases operator <;> cases known
  all_goals exact follow_plain (by decide) [operand] rfl

theorem follow_binary {left right} (known : binaryOpcode? operator = some opcode) :
    follow bases ⟨opcode, []⟩ choices (right :: left :: cells) = some (choices, none :: cells) := by
  cases operator <;> cases known
  all_goals exact follow_plain (by decide) [right, left] rfl

/-- A call takes its mark and its arguments and leaves a value. -/
theorem follow_callCode {delta callee args pushed} (follows : forall cells,
      followAll bases args.instructions choices cells = some (rest, pushed ++ cells)) :
    followAll bases (callCode delta name callee pushed.length args).instructions choices cells
      = some (rest, none :: cells) := by
  have marked : follow bases ⟨.mst, [.int delta]⟩ choices cells
      = some (choices, List.replicate 5 none ++ cells) :=
    follow_plain (by decide) [] rfl
  have called : follow bases
      ⟨.cup, [.int pushed.length, .entry name (some callee.function)]⟩ rest
        (pushed ++ (List.replicate 5 none ++ cells)) = some (rest, none :: cells) := by
    rw [← List.append_assoc]
    refine follow_plain (by decide) (pushed ++ List.replicate 5 none) ?_
    rw [List.length_append, List.length_replicate]
    exact Int.add_comm 5 pushed.length
  simp only [callCode, Code.instructions_append, Code.instructions_comment, Code.instructions_emit,
    List.nil_append, List.append_nil, followAll_append, followAll, marked, follows, called,
    Option.bind_some]

end Steps

/-! ## Places -/

section Places

variable {bases : Bases} {base array index : Node} {choices : List Int} {code : Code} {root : Note}
  {distance : Int}

variable {note : Note}

theorem leads_ident (sized : Sized note.type) (space : InSpace bases (.ident note name)) :
    LeadsInto bases (.ident note name) [] (variableAddress note.address) note 0 := by
  rcases space note name .root with ⟨low, high⟩
  rw [sized.size_toInt] at high
  refine ⟨rfl, sized, .whole, low, high, ?_⟩
  intro rest cells
  rw [Int.add_zero]
  exact follow_variableAddress note.address

/-- A field lies behind the fields before it. -/
theorem leads_member {field structName fields before}
    (leads : LeadsInto bases base choices code root distance)
    (isStruct : base.type = .struct structName fields)
    (found : FieldAt field fields note.type before) :
    LeadsInto bases (.member note base field (Int64.ofInt before)) choices
      (code ++ Code.emit .inc [.int (Int64.ofInt before).toInt]) root (distance + before) := by
  have sizedBase := (leads.part.inside leads.sized).1
  rw [isStruct] at sizedBase
  rcases found.inside sizedBase.proper.2 with ⟨_, low, high⟩
  have nonneg := (sizedBase.field found).cells_nonneg
  have bounded : Ty.fieldCells fields <= Ty.cellLimit := sizedBase.bounded
  have exactOffset : (Int64.ofInt before).toInt = before :=
    Ty.toInt_ofInt_cells low (by omega)
  have part : PartAt root.type (base.selectors choices ++ [.field field]) note.type
      (distance + before) := by
    have inner : PartAt base.type [.field field] note.type (before + 0) :=
      isStruct ▸ .field found .whole
    rw [Int.add_zero] at inner
    exact leads.part.append inner
  refine ⟨leads.start, leads.sized, part, leads.low, leads.high, ?_⟩
  intro rest cells
  rw [followAll_code (leads.follows rest cells), followAll_emit, exactOffset]
  simp only [follow, addCells, Int.add_assoc, word_of_part part leads.sized leads.low leads.high,
    Option.map_some]

/-- An element lies behind the elements before it. -/
theorem leads_subscript (config : Config) {elem indexChoices valueCode}
    (leads : LeadsInto bases array choices code root distance)
    (isArray : array.type = .array length elem) (noted : note.type = elem)
    (counted : choices.length = array.lengths.length)
    (lands : Lands bases index indexChoices valueCode .value) (low : 0 <= value)
    (high : value < length.toInt) :
    LeadsInto bases (.subscript note array index) (choices ++ indexChoices ++ [value])
      (code ++ valueCode ++ indexCode config length elem) root (distance + value * elem.cells) := by
  have sizedArray := (leads.part.inside leads.sized).1
  rw [isArray] at sizedArray
  have selected : (Node.subscript note array index).selectors (choices ++ indexChoices ++ [value])
      = array.selectors choices ++ [.index value] := by
    rw [Node.selectors, List.append_assoc, List.take_left' counted, ← List.append_assoc,
      List.getLast?_concat]
    rfl
  have part : PartAt root.type (array.selectors choices ++ [.index value]) elem
      (distance + value * elem.cells) := by
    have inner : PartAt array.type [.index value] elem (value * elem.cells + 0) :=
      isArray ▸ .index low high .whole
    rw [Int.add_zero] at inner
    exact leads.part.append inner
  have fits := word_of_part part leads.sized leads.low leads.high
  rw [← Int.add_assoc] at fits
  refine ⟨leads.start, leads.sized, ?_, leads.low, leads.high, ?_⟩
  · rw [selected]
    exact noted ▸ part
  · intro rest cells
    have front := leads.follows (indexChoices ++ value :: rest) cells
    have middle := lands (value :: rest) (some (bases root.address + distance) :: cells)
    have both := (followAll_code front).trans middle
    have sameChoices : choices ++ indexChoices ++ [value] ++ rest
        = choices ++ (indexChoices ++ value :: rest) := by
      simp only [List.append_assoc, List.singleton_append]
    rw [sameChoices, followAll_code both, follow_indexCode config sizedArray low high fits,
      Int.add_assoc]

end Places

/-! ## Expressions -/

section Expressions

variable {bases : Bases} {config : Config} {env : Env}

mutual

/-- The code of a well-typed expression can be followed to its end, whatever index values
are chosen from those that the arrays allow. -/
theorem lands_of_lowers (finished : env.Finished) {form source node type code choices} :
    Lowers config form node code -> HasType env source type node -> InSpace bases node ->
    InRange node.lengths choices -> Lands bases node choices code form
  | .number, _, _, .nil => fun _ _ => follow_constant _
  | .real, _, _, .nil => fun _ _ => follow_constant _
  | .bool, _, _, .nil => fun _ _ => follow_constant _
  | .char, _, _, .nil => fun _ _ => follow_constant _
  | .ident, typed, space, .nil => by
    have sized := typed.sized finished
    rw [← typed.type_eq] at sized
    exact ⟨_, 0, leads_ident sized space⟩
  | .member base, typed, space, inRange => by
    have noted := typed.type_eq
    rcases typed.member_inversion with ⟨_, _, _, _, _, _, _, typedBase, found, rfl⟩
    have spaceBase := space.child (List.mem_filter.mpr ⟨List.mem_cons_self, base.isPresent⟩)
    rcases lands_of_lowers finished base typedBase spaceBase inRange with ⟨root, distance, leads⟩
    rw [← noted] at found
    exact ⟨root, _, leads_member leads typedBase.type_eq found⟩
  | .subscript isArray array index, typed, space, inRange => by
    have noted := typed.type_eq
    rcases typed.subscript_inversion with ⟨_, _, _, _, _, typedArray, typedIndex⟩
    have spaceArray := space.child (List.mem_filter.mpr ⟨List.mem_cons_self, array.isPresent⟩)
    have spaceIndex := space.child
      (List.mem_filter.mpr ⟨List.mem_cons_of_mem _ List.mem_cons_self, index.isPresent⟩)
    rcases inRange_append inRange with ⟨both, last, rfl, inBoth, inLast⟩
    rcases inRange_append inBoth with ⟨first, second, rfl, inArray, inIndex⟩
    rcases lands_of_lowers finished array typedArray spaceArray inArray
        with ⟨root, distance, leads⟩
    have landsIndex := lands_of_lowers finished index typedIndex spaceIndex inIndex
    have sameType := isArray.symm.trans typedArray.type_eq
    rw [isArray] at inLast
    cases inLast with
    | cons bounds none =>
      cases none
      cases sameType
      exact ⟨root, _, leads_subscript config leads isArray noted inArray.length_eq.symm
        landsIndex bounds.1 bounds.2⟩
  | .load _ place, typed, space, inRange => by
    rcases lands_of_lowers finished place typed space inRange with ⟨root, distance, leads⟩
    intro rest cells
    rw [followAll_code (leads.follows rest cells), followAll_emit]
    exact follow_plain (by decide) [_] rfl
  | .unary known operand, typed, space, inRange => by
    rcases typed.unary_inversion with ⟨_, _, _, _, _, typedOperand⟩
    have spaceOperand := space.child
      (List.mem_filter.mpr ⟨List.mem_cons_self, operand.isPresent⟩)
    have lands := lands_of_lowers finished operand typedOperand spaceOperand inRange
    intro rest cells
    rw [followAll_code (lands rest cells), followAll_emit]
    exact follow_unary known
  | .binary known left right, typed, space, inRange => by
    rcases typed.binary_inversion with ⟨_, _, _, _, _, _, typedLeft, typedRight⟩
    have spaceLeft := space.child (List.mem_filter.mpr ⟨List.mem_cons_self, left.isPresent⟩)
    have spaceRight := space.child
      (List.mem_filter.mpr ⟨List.mem_cons_of_mem _ List.mem_cons_self, right.isPresent⟩)
    rcases inRange_append inRange with ⟨first, second, rfl, inLeft, inRight⟩
    have landsLeft := lands_of_lowers finished left typedLeft spaceLeft inLeft
    have landsRight := lands_of_lowers finished right typedRight spaceRight inRight
    intro rest cells
    have both :=
      (followAll_code (landsLeft (second ++ rest) cells)).trans (landsRight rest (none :: cells))
    rw [List.append_assoc first second rest, followAll_code both, followAll_emit]
    exact follow_binary known
  | .call args, typed, space, inRange => by
    rcases typed.call_inversion with ⟨_, _, _, _, _, _, typedArgs⟩
    rcases lands_of_lowersArgs finished args typedArgs
      (fun arg member => space.child (List.mem_filter.mpr ⟨member, args.isPresent member⟩))
      inRange with ⟨pushed, count, follows⟩
    intro rest cells
    rw [← count]
    exact follow_callCode (follows rest)

theorem lands_of_lowersArgs (finished : env.Finished) {params sources args codes choices} :
    LowersArgs config params args codes -> TakesArgs env params sources args ->
    (forall arg, arg ∈ args -> InSpace bases arg) -> InRange (Node.lengthsIn args) choices ->
    exists pushed : Cells, pushed.length = args.length ∧ forall rest cells,
      followAll bases (Code.instructions codes.flatten) (choices ++ rest) cells
        = some (rest, pushed ++ cells)
  | .nil, _, _, .nil => ⟨[], rfl, fun _ _ => rfl⟩
  | .cons first others, .cons typedFirst _ typedOthers, space, inRange => by
    rcases inRange_append inRange with ⟨front, back, rfl, inFirst, inOthers⟩
    have lands := lands_of_lowers finished first typedFirst (space _ List.mem_cons_self) inFirst
    rcases lands.pushes with ⟨cell, follows⟩
    rcases lands_of_lowersArgs finished others typedOthers
      (List.forall_mem_cons.mp space).2 inOthers
        with ⟨pushed, count, followsOthers⟩
    refine ⟨pushed ++ [cell], by rw [List.length_append, count]; rfl, ?_⟩
    intro rest cells
    rw [List.flatten_cons, List.append_assoc, followAll_code (follows (back ++ rest) cells),
      followsOthers, List.append_assoc]
    rfl

end

end Expressions

/-! ## Programs -/

/-- An addressable expression of a program. -/
structure PlaceIn (program : Program) (node : Node) : Prop where
  holds : program.Holds node
  isExpr : node.isExpr = true
  addressable : node.isAddressable = true

/-- The code of the address of a place gives an address, when index values are chosen. -/
def Gives (config : Config) (bases : Bases) (node : Node) (choices : List Int) (address : Int) :
    Prop :=
  exists code, lowerExpr config .address node = .ok code
    ∧ forall rest cells, followAll bases code.instructions (choices ++ rest) cells
        = some (rest, some address :: cells)

theorem Gives.unique {address'} (left : Gives config bases node choices address)
    (right : Gives config bases node choices address') : address = address' := by
  rcases left with ⟨code, lowered, follows⟩
  rcases right with ⟨code', lowered', follows'⟩
  rw [lowered] at lowered'
  cases lowered'
  have same := (follows [] []).symm.trans (follows' [] [])
  cases same
  rfl

theorem leads_of_placeIn (config : Config) {source program checked}
    (whole : Written.Whole source program) (typed : TypedProgram program checked)
    (place : PlaceIn checked node) (space : InSpace bases node)
    (inRange : InRange node.lengths choices) :
    exists code root distance, lowerExpr config .address node = .ok code
      ∧ LeadsInto bases node choices code root distance := by
  rcases generate_of_typed config whole typed with ⟨_, _, generates, _⟩
  rcases arranged_of_generate generates with ⟨_, _, arranged⟩
  rcases emitted_of_typed whole typed arranged place.holds place.isExpr with ⟨ready, hasType, _, _⟩
  have isPlace := hasType.isAddressable_iff.mp place.addressable
  rcases lowers_of_typed config ready.2 .address hasType isPlace with ⟨code, lowers⟩
  rcases lands_of_lowers ready.1 lowers hasType space inRange with ⟨root, distance, leads⟩
  exact ⟨code, root, distance, lowerExpr_of_lowers lowers, leads⟩

theorem LeadsInto.gives {root} (leads : LeadsInto bases node choices code root distance)
    (lowered : lowerExpr config .address node = .ok code) :
    Gives config bases node choices (bases root.address + distance) :=
  ⟨code, lowered, leads.follows⟩

/-- A part of a variable lies inside it, also when cells are counted by the machine. -/
theorem LeadsInto.inside {root distance} (leads : LeadsInto bases node choices code root distance) :
    node.type.size.toInt = node.type.cells ∧ 0 <= distance
      ∧ distance + node.type.size.toInt <= root.type.size.toInt := by
  rcases leads.part.inside leads.sized with ⟨sizedPart, low, high⟩
  rw [leads.sized.size_toInt, sizedPart.size_toInt]
  exact ⟨rfl, low, high⟩

/-- Addresses stay inside their variables.  Whatever index values are chosen from those
that the arrays allow, the code of the address of a place can be followed without leaving
the range of machine integers and ends inside the variable that the place is a part of.
Places of one variable whose selectors differ have no cell in common. -/
theorem accepted_program_addressesInside {bytes : List UInt8} {source : Int64}
    {program resolved checked : Program} {resolving checking : Config}
    {diagnostics findings : List Diagnostic}
    (decoded : Program.decode bytes source = .ok program)
    (accepted : program.resolve resolving = (resolved, .ok ⟨true, diagnostics⟩))
    (passed : resolved.check checking = (checked, .ok ⟨true, findings⟩)) (config : Config)
    (bases : Bases) :
    (forall node choices, PlaceIn checked node -> InSpace bases node ->
        InRange node.lengths choices ->
        exists root distance, node.root? = some root
          ∧ Gives config bases node choices (bases root.address + distance)
          ∧ 0 <= distance ∧ distance + node.type.size.toInt <= root.type.size.toInt)
      ∧ forall node other root root' choices choices' common first second path path',
          PlaceIn checked node -> PlaceIn checked other -> InSpace bases node ->
          InSpace bases other -> InRange node.lengths choices -> InRange other.lengths choices' ->
          node.root? = some root -> other.root? = some root' -> root.address = root'.address ->
          root.type = root'.type -> node.selectors choices = common ++ first :: path ->
          other.selectors choices' = common ++ second :: path' -> first ≠ second ->
          forall address address', Gives config bases node choices address ->
            Gives config bases other choices' address' ->
            address + node.type.size.toInt <= address'
              ∨ address' + other.type.size.toInt <= address := by
  have whole := Written.whole_of_decode decoded
  have judged := (Resolution.resolve_iff_scoped resolving whole resolved).mp ⟨diagnostics, accepted⟩
  have typed := (Typing.check_iff_typed checking whole judged checked).mp ⟨findings, passed⟩
  constructor
  · intro node choices place space inRange
    rcases leads_of_placeIn config whole typed place space inRange
        with ⟨code, root, distance, lowered, leads⟩
    exact ⟨root, distance, leads.start, leads.gives lowered, leads.inside.2⟩
  · intro node other root root' choices choices' common first second path path' place place' space
      space' inRange inRange' start start' sameAddress sameType selected selected' different address
      address' gives gives'
    rcases leads_of_placeIn config whole typed place space inRange
        with ⟨code, _, distance, lowered, leads⟩
    rcases leads_of_placeIn config whole typed place' space' inRange'
        with ⟨code', _, distance', lowered', leads'⟩
    cases Option.some.inj (leads.start.symm.trans start)
    cases Option.some.inj (leads'.start.symm.trans start')
    cases gives.unique (leads.gives lowered)
    cases gives'.unique (leads'.gives lowered')
    have part := leads.part
    have part' := leads'.part
    rw [selected] at part
    rw [selected', ← sameType] at part'
    have apart := part.apart part' different leads.sized
    rw [leads.inside.1, leads'.inside.1, sameAddress]
    omega

/-- Where all variables start at the same cell they lie in the address space. -/
theorem inSpace_zero (node : Node) : InSpace (fun _ => 0) node := by
  intro note name _
  have below := Int64.toInt_lt note.type.size
  dsimp only
  exact ⟨Int.le_refl 0, by omega⟩

/-- In the document with an array `a` of structures, the places `a[0].r[a[1].x]` and
`a[1]` are parts of `a`, and with these index values they are apart. -/
theorem accepted_program_addressesInside_grid :
    exists node other root root' address address',
      PlaceIn ((Written.grid.resolve {}).1.check {}).1 node
        ∧ PlaceIn ((Written.grid.resolve {}).1.check {}).1 other
        ∧ node.root? = some root ∧ other.root? = some root' ∧ root.type = root'.type
        ∧ node.selectors [0, 1, 2] = [.index 0, .field "r", .index 2]
        ∧ other.selectors [1] = [.index 1]
        ∧ Gives {} (fun _ => 0) node [0, 1, 2] address
        ∧ Gives {} (fun _ => 0) other [1] address'
        ∧ address + node.type.size.toInt <= root.type.size.toInt
        ∧ (address + node.type.size.toInt <= address'
            ∨ address' + other.type.size.toInt <= address) := by
  rcases Resolution.resolve_grid with ⟨diagnostics, resolved⟩
  rcases Typing.check_grid with ⟨findings, checked⟩
  rcases accepted_program_addressesInside Written.decode_gridText resolved checked {} (fun _ => 0)
      with ⟨inside, apart⟩
  have picked : (((Written.grid.resolve {}).1.check {}).1.operands[5]?.bind fun node =>
      ((Written.grid.resolve {}).1.check {}).1.operands[4]?.bind fun other =>
      node.root?.bind fun root => other.root?.map fun root' =>
        decide ((node.isExpr = true ∧ node.isAddressable = true)
          ∧ (other.isExpr = true ∧ other.isAddressable = true)
          ∧ (root.address = root'.address ∧ root.type = root'.type)
          ∧ (node.lengths = [2, 2, 3] ∧ other.lengths = [2])
          ∧ (node.selectors [0, 1, 2] = [.index 0, .field "r", .index 2]
            ∧ other.selectors [1] = [.index 1]))) = some true := by
    decide +kernel
  rcases Option.bind_eq_some_iff.mp picked with ⟨node, isNode, picked⟩
  rcases Option.bind_eq_some_iff.mp picked with ⟨other, isOther, picked⟩
  rcases Option.bind_eq_some_iff.mp picked with ⟨root, start, picked⟩
  rcases Option.map_eq_some_iff.mp picked with ⟨root', start', picked⟩
  rcases of_decide_eq_true picked with
    ⟨⟨isExpr, addressable⟩, ⟨isExpr', addressable'⟩, ⟨sameAddress, sameType⟩,
      ⟨lengths, lengths'⟩, selected, selected'⟩
  have place : PlaceIn ((Written.grid.resolve {}).1.check {}).1 node :=
    ⟨Program.holds_of_operands (List.mem_of_getElem? isNode), isExpr, addressable⟩
  have place' : PlaceIn ((Written.grid.resolve {}).1.check {}).1 other :=
    ⟨Program.holds_of_operands (List.mem_of_getElem? isOther), isExpr', addressable'⟩
  have inRange : InRange node.lengths [0, 1, 2] := by
    rw [lengths]
    exact .cons (by decide) (.cons (by decide) (.cons (by decide) .nil))
  have inRange' : InRange other.lengths [1] := by
    rw [lengths']
    exact .cons (by decide) .nil
  rcases inside node [0, 1, 2] place (inSpace_zero node) inRange
      with ⟨_, distance, sameStart, gives, _, high⟩
  rcases inside other [1] place' (inSpace_zero other) inRange'
      with ⟨_, distance', _, gives', _, _⟩
  cases Option.some.inj (sameStart.symm.trans start)
  refine ⟨node, other, _, root', _, _, place, place', start, start', sameType, selected, selected',
    gives, gives', by rw [Int.zero_add]; exact high, ?_⟩
  exact apart node other _ root' [0, 1, 2] [1] [] (.index 0) (.index 1) [.field "r", .index 2] []
    place place' (inSpace_zero node) (inSpace_zero other) inRange inRange' start start' sameAddress
    sameType selected selected' (by decide) _ _ gives gives'

end Lowering
end PCode
