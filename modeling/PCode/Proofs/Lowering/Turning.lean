import PCode.Proofs.Lowering.Regions
import PCode.Proofs.Renaming
import PCode.Proofs.Static.Reindexing

namespace PCode
namespace Lowering

open Stack

/-!
Code of one tree in two places.

The code of a tree depends on three things outside it: on the settings, which ask for index checks
and for the announcements of stack extents; on the address at which it starts, which jumps add to;
and on the positions of the functions that it calls.  Neither of the optional instructions has an
effect on the depth of the stack, and nothing jumps because of them.  Names reach the code in two
places: in comments, and beside the entry of a called function.  So when all of these change, the
code stays the same instruction by instruction, apart from those that are left out and from the
operands that name addresses and functions.
-/

/-! ## Instructions -/

/-- An instruction with its code address moved: the target of a jump, or the entry that a
call goes to. -/
def relocate (move : Nat -> Nat) (instruction : Instruction) : Instruction :=
  match instruction with
  | ⟨.ujp, [.int target]⟩ => ⟨.ujp, [.int (move target.toNat)]⟩
  | ⟨.fjp, [.int target]⟩ => ⟨.fjp, [.int (move target.toNat)]⟩
  | ⟨.cup, [count, .int target]⟩ => ⟨.cup, [count, .int (move target.toNat)]⟩
  | other => other

/-- An instruction whose call refers to a function at its new position. -/
def redirect (new : Nat -> Nat) (instruction : Instruction) : Instruction :=
  match instruction with
  | ⟨.cup, [count, .entry name (some function)]⟩ =>
    ⟨.cup, [count, .entry name (some (new function))]⟩
  | other => other

/-- An instruction with its call redirected and its code address moved. -/
def carry (new move : Nat -> Nat) (instruction : Instruction) : Instruction :=
  relocate move (redirect new instruction)

theorem effect_relocate {move : Nat -> Nat} (instruction : Instruction) :
    (relocate move instruction).effect = instruction.effect := by
  unfold relocate
  split
  · rfl
  · rfl
  · rename_i count _
    cases count <;> rfl
  · rfl

theorem effect_carry {new move : Nat -> Nat} (instruction : Instruction) :
    (carry new move instruction).effect = instruction.effect := by
  rw [carry, effect_relocate]
  unfold redirect
  split
  · rename_i count _ _
    cases count <;> rfl
  · rfl

/-- An operand with a new name for the function that it refers to. -/
def renameOperand (names : String -> String) : Operand -> Operand
  | .entry name tail => .entry (names name) tail
  | operand => operand

/-- An instruction with a new name for the function that it calls. -/
def rename (names : String -> String) (instruction : Instruction) : Instruction :=
  { instruction with operands := instruction.operands.map (renameOperand names) }

theorem effect_rename {names : String -> String} (instruction : Instruction) :
    (rename names instruction).effect = instruction.effect := by
  rcases instruction with ⟨opcode, operands⟩
  cases operands with
  | nil => rfl
  | cons operand operands => cases operand <;> cases opcode <;> rfl

theorem rename_id (instruction : Instruction) : rename id instruction = instruction := by
  rcases instruction with ⟨opcode, operands⟩
  refine congrArg (Instruction.mk opcode) ((List.map_congr_left ?_).trans (List.map_id _))
  intro operand _
  cases operand <;> rfl

/-- What becomes of code: which of the optional instructions are left out, where called functions
stand, where addresses go, and which names there are. -/
structure Turn where
  checks : Bool := false
  extents : Bool := false
  new : Nat -> Nat := id
  move : Nat -> Nat := id
  names : Renaming := .keep

namespace Turn

variable {turn : Turn} {instruction : Instruction}

/-- Whether an instruction is left out. -/
def omits (turn : Turn) (instruction : Instruction) : Bool :=
  match instruction.opcode with
  | .chk => turn.checks
  | .sep => turn.extents
  | _ => false

/-- What becomes of an instruction that is not left out. -/
def image (turn : Turn) (instruction : Instruction) : Instruction :=
  rename turn.names.names (carry turn.new turn.move instruction)

theorem image_of_keep (keeps : turn.names = .keep) : turn.image = carry turn.new turn.move := by
  funext instruction
  rw [image, keeps]
  exact rename_id _

/-- The instructions that are left, each of them in its new form. -/
def apply (turn : Turn) (code : List Instruction) : List Instruction :=
  (code.filter fun instruction => !turn.omits instruction).map turn.image

theorem apply_append (first second : List Instruction) :
    turn.apply (first ++ second) = turn.apply first ++ turn.apply second := by
  simp [apply]

theorem apply_kept (kept : turn.omits instruction = false) :
    turn.apply [instruction] = [turn.image instruction] := by
  simp [apply, kept]

theorem apply_omitted (omitted : turn.omits instruction = true) :
    turn.apply [instruction] = [] := by
  simp [apply, omitted]

/-- Where nothing is left out, every instruction gets its new form. -/
theorem apply_full (full : (turn.checks, turn.extents) = (false, false))
    (code : List Instruction) : turn.apply code = code.map turn.image := by
  rcases Prod.mk.inj full with ⟨checks, extents⟩
  rw [apply, List.filter_eq_self.mpr]
  rintro ⟨opcode, operands⟩ _
  cases opcode <;> simp [omits, checks, extents]

theorem effect_of_omits (omitted : turn.omits instruction = true) : instruction.effect = 0 := by
  rcases instruction with ⟨opcode, operands⟩
  cases opcode with
  | chk | sep => rfl
  | _ => cases omitted

/-- What is left out has no effect, and nothing else changes its effect. -/
theorem peakOf_apply (code : List Instruction) :
    Code.peakOf (turn.apply code) = Code.peakOf code := by
  induction code with
  | nil => rfl
  | cons instruction code ih =>
    rw [← List.singleton_append, apply_append]
    cases omitted : turn.omits instruction with
    | true =>
      have nonneg := peakOf_nonneg code
      rw [apply_omitted omitted, List.nil_append, ih, List.singleton_append,
        Code.peakOf, effect_of_omits omitted]
      omega
    | false =>
      rw [apply_kept omitted, List.singleton_append, List.singleton_append, Code.peakOf,
        Code.peakOf, image, effect_rename, effect_carry, ih]

end Turn

/-! ## Pieces of code -/

/-- Code and what becomes of it. -/
def Turns (turn : Turn) (code later : Code) : Prop :=
  later.instructions = turn.apply code.instructions

/-- Addresses from the start of code on move like the instructions before them: each one that is
left out brings the following ones together by one. -/
def Follows (turn : Turn) (start start' : Nat) (code : Code) : Prop :=
  forall offset, offset <= code.size ->
    turn.move (start + offset) = start' + (turn.apply (code.instructions.take offset)).length

section Pieces

variable {turn : Turn} {start start' : Nat} {first rest first' rest' code later : Code}

namespace Turns

theorem nil : Turns turn [] [] := rfl

theorem comment (text text' : String) : Turns turn [.comment text] [.comment text'] := rfl

theorem append (left : Turns turn first first') (right : Turns turn rest rest') :
    Turns turn (first ++ rest) (first' ++ rest') := by
  rw [Turns, Code.instructions_append, Code.instructions_append, left, right, Turn.apply_append]

variable {opcode : Opcode} {operator : Operator}

theorem same {operands} (kept : turn.omits ⟨opcode, operands⟩ = false)
    (fixed : turn.image ⟨opcode, operands⟩ = ⟨opcode, operands⟩) :
    Turns turn (Code.emit opcode operands) (Code.emit opcode operands) := by
  rw [Turns, Code.instructions_emit, Turn.apply_kept kept, fixed]

theorem jump {address after} {target target' : Int} (jumps : opcode.jumps = true)
    (moved : turn.move address = after) (place : target = address) (place' : target' = after) :
    Turns turn (Code.emit opcode [.int target]) (Code.emit opcode [.int target']) := by
  subst place place' moved
  cases opcode <;> cases jumps <;> rfl

theorem size_eq (full : (turn.checks, turn.extents) = (false, false))
    (turns : Turns turn code later) : later.size = code.size := by
  rw [Code.size, turns, Turn.apply_full full, List.length_map]
  rfl

/-- The announced extents stay. -/
theorem peak_eq (turns : Turns turn code later) : later.peak = code.peak := by
  rw [Code.peak, turns, Turn.peakOf_apply]
  rfl

end Turns

namespace Follows

/-- Where nothing is left out, addresses move as far as the start does. -/
theorem length_full (full : (turn.checks, turn.extents) = (false, false)) {offset}
    (inside : offset <= code.size) :
    (turn.apply (code.instructions.take offset)).length = offset := by
  rw [Turn.apply_full full, List.length_map, List.length_take_of_le inside]

theorem left (follows : Follows turn start start' (first ++ rest)) :
    Follows turn start start' first := by
  intro offset inside
  have short := follows offset (by rw [Code.size_append]; omega)
  rwa [Code.instructions_append, List.take_append_of_le_length inside] at short

theorem whole (follows : Follows turn start start' first) (turns : Turns turn first first') :
    turn.move (start + first.size) = start' + first'.size := by
  rw [follows first.size (Nat.le_refl _), Code.size, List.take_length, ← turns]
  rfl

theorem right (follows : Follows turn start start' (first ++ rest))
    (turns : Turns turn first first') :
    Follows turn (start + first.size) (start' + first'.size) rest := by
  intro offset inside
  have here := follows (first.size + offset) (by rw [Code.size_append]; omega)
  rw [Code.instructions_append, Code.size, List.take_length_add_append, Turn.apply_append,
    List.length_append, ← turns, ← Nat.add_assoc, ← Nat.add_assoc] at here
  exact here

/-- Addresses behind a part that ends in a jump. -/
theorem behind_jump {address : Nat} {target}
    (follows : Follows turn start start' (first ++ Code.emit opcode [.int target] ++ rest))
    (jumps : opcode.jumps = true) (place : target = address) (turns : Turns turn first first') :
    turn.move (start + first.size + 1) = start' + first'.size + 1
      ∧ Follows turn (start + first.size + 1) (start' + first'.size + 1) rest := by
  have jumped := turns.append (.jump jumps rfl place rfl)
  have border := follows.left.whole jumped
  have behind := follows.right jumped
  rw [Code.size_append, Code.size_append, Code.size_emit, Code.size_emit, ← Nat.add_assoc,
    ← Nat.add_assoc] at border behind
  exact ⟨border, behind⟩

end Follows

end Pieces

/-! ## Expressions -/

/-- Settings differ as far as instructions are left out. -/
structure Turn.Suits (turn : Turn) (config config' : Config) : Prop where
  checks : config'.features .boundsCheck = (config.features .boundsCheck && !turn.checks)
  extents : config'.features .stackExtent = (config.features .stackExtent && !turn.extents)

variable {turn : Turn} {config config' : Config}

section Expressions

theorem turns_unary (known : unaryOpcode? operator = some opcode) :
    Turns turn (Code.emit opcode []) (Code.emit opcode []) := by
  cases operator <;> cases known <;> exact .same rfl rfl

theorem turns_binary (known : binaryOpcode? operator = some opcode) :
    Turns turn (Code.emit opcode []) (Code.emit opcode []) := by
  cases operator <;> cases known <;> exact .same rfl rfl

theorem turns_variableAddress (address : Address) :
    Turns turn (variableAddress address) (variableAddress address) := by
  rw [variableAddress]
  split <;> exact .same rfl rfl

/-- The index check is what the address of an element may have too much. -/
theorem turns_indexCode (suits : turn.Suits config config') (length : Int64) (elem : Ty) :
    Turns turn (indexCode config length elem)
      (indexCode config' length (elem.rename turn.names)) := by
  rw [indexCode, indexCode, suits.checks, Ty.size_rename]
  refine .append ?_ (.same rfl rfl)
  cases config.features .boundsCheck with
  | false => exact .nil
  | true =>
    cases omitted : turn.checks with
    | true => exact (Turn.apply_omitted (by exact omitted)).symm
    | false => exact .same omitted rfl

theorem turns_cup (count : Int) (name : String) (function : Nat) :
    Turns turn (Code.emit .cup [.int count, .entry name (some function)])
      (Code.emit .cup
        [.int count, .entry (turn.names.names name) (some (turn.new function))]) := rfl

/-- The tree that the code behind a turn belongs to. -/
abbrev Turn.tree (turn : Turn) (node : Node) : Node := (node.reindex turn.new).rename turn.names

/-- The trees that the code behind a turn belongs to. -/
abbrev Turn.trees (turn : Turn) (nodes : List Node) : List Node :=
  Node.renameEach turn.names (Node.reindexEach turn.new nodes)

theorem Turn.tree_of_fixed (fixed : (turn.new, turn.names) = (id, .keep)) : turn.tree = id := by
  rcases Prod.mk.inj fixed with ⟨positions, names⟩
  funext node
  rw [tree, positions, names, Node.reindex_id, Node.rename_keep, id]

theorem Turn.type_tree (node : Node) : (turn.tree node).type = node.type.rename turn.names := by
  rw [Node.type_rename, Node.type_reindex]

theorem Turn.isPresent_tree (node : Node) : (turn.tree node).isPresent = node.isPresent := by
  rw [Node.isPresent_rename, Node.isPresent_reindex]

theorem ofParam_rename (new : Renaming) (param : Ty) :
    Form.ofParam (param.rename new) = Form.ofParam param := by
  rw [Form.ofParam, Form.ofParam, Ty.isComposite_rename]

mutual

/-- The code of an expression stays the same apart from index checks and from the functions that it
calls. -/
theorem turns_expr (suits : turn.Suits config config') {form node code} :
    Lowers config form node code ->
    exists later, Lowers config' form (turn.tree node) later ∧ Turns turn code later
  | .number => ⟨_, .number, .same rfl rfl⟩
  | .real => ⟨_, .real, .same rfl rfl⟩
  | .bool => ⟨_, .bool, .same rfl rfl⟩
  | .char => ⟨_, .char, .same rfl rfl⟩
  | .ident => ⟨_, .ident, turns_variableAddress _⟩
  | .member base => by
    rcases turns_expr suits base with ⟨_, lowersBase, turnsBase⟩
    exact ⟨_, .member lowersBase, turnsBase.append (.same rfl rfl)⟩
  | .subscript isArray array index => by
    rcases turns_expr suits array with ⟨_, lowersArray, turnsArray⟩
    rcases turns_expr suits index with ⟨_, lowersIndex, turnsIndex⟩
    have isArrayLater := (turn.type_tree _).trans (congrArg (Ty.rename turn.names) isArray)
    exact ⟨_, .subscript isArrayLater lowersArray lowersIndex,
      (turnsArray.append turnsIndex).append (turns_indexCode suits _ _)⟩
  | .load scalar place => by
    rcases turns_expr suits place with ⟨_, lowersPlace, turnsPlace⟩
    rw [← Ty.isComposite_rename turn.names, ← turn.type_tree] at scalar
    exact ⟨_, .load scalar lowersPlace, turnsPlace.append (.same rfl rfl)⟩
  | .unary known operand => by
    rcases turns_expr suits operand with ⟨_, lowersOperand, turnsOperand⟩
    exact ⟨_, .unary known lowersOperand, turnsOperand.append (turns_unary known)⟩
  | .binary known left right => by
    rcases turns_expr suits left with ⟨_, lowersLeft, turnsLeft⟩
    rcases turns_expr suits right with ⟨_, lowersRight, turnsRight⟩
    exact ⟨_, .binary known lowersLeft lowersRight,
      (turnsLeft.append turnsRight).append (turns_binary known)⟩
  | .call args => by
    rcases turns_args suits args with ⟨_, lowersArgs, turnsArgs⟩
    refine ⟨_, .call lowersArgs, ?_⟩
    rw [Node.length_renameEach, Node.length_reindexEach]
    exact ((((Turns.comment _ _).append (.same rfl rfl)).append turnsArgs).append
      (turns_cup _ _ _)).append (.comment _ _)

theorem turns_args (suits : turn.Suits config config') {params args codes} :
    LowersArgs config params args codes ->
    exists later, LowersArgs config' (params.map (Ty.rename turn.names)) (turn.trees args) later
      ∧ Turns turn codes.flatten later.flatten
  | .nil => ⟨[], .nil, .nil⟩
  | .cons first rest => by
    rcases turns_expr suits first with ⟨firstLater, lowersFirst, turnsFirst⟩
    rcases turns_args suits rest with ⟨restLater, lowersRest, turnsRest⟩
    rw [← ofParam_rename turn.names] at lowersFirst
    refine ⟨firstLater :: restLater, .cons lowersFirst lowersRest, ?_⟩
    rw [List.flatten_cons, List.flatten_cons]
    exact turnsFirst.append turnsRest

end

end Expressions

/-! ## Statements -/

section Statements

theorem turns_store (suits : turn.Suits config config') {target target' code type value}
    (stores : Stores config target type value code) (turns : Turns turn target target') :
    exists later, Stores config' target' (type.rename turn.names) (turn.tree value) later
      ∧ Turns turn code later := by
  cases stores with
  | scalar scalar lowers =>
    rcases turns_expr suits lowers with ⟨_, lowersValue, turnsValue⟩
    rw [← Ty.isComposite_rename turn.names] at scalar
    exact ⟨_, .scalar scalar lowersValue, (turns.append turnsValue).append (.same rfl rfl)⟩
  | composite composite lowers =>
    rcases turns_expr suits lowers with ⟨_, lowersValue, turnsValue⟩
    rw [← Ty.isComposite_rename turn.names] at composite
    rw [← Ty.size_rename turn.names]
    exact ⟨_, .composite composite lowersValue, (turns.append turnsValue).append (.same rfl rfl)⟩

mutual

/-- The code of a statement at another address is its code with the addresses moved. -/
theorem turns_stmt (suits : turn.Suits config config') {inFunction start start' node code} :
    LowersStmt config inFunction start node code -> Follows turn start start' code ->
    exists later, LowersStmt config' inFunction start' (turn.tree node) later
      ∧ Turns turn code later
  | .absent, _ => ⟨[], .absent, .nil⟩
  | .varDecl, _ => ⟨[], .varDecl, .nil⟩
  | .block stmts, follows => by
    rcases turns_stmts suits stmts follows with ⟨later, lowers, turns⟩
    exact ⟨later, .block lowers, turns⟩
  | .varDeclInit present stores, _ => by
    rcases turns_store suits stores (.same rfl rfl) with ⟨later, storesLater, turns⟩
    rw [← turn.isPresent_tree] at present
    exact ⟨later, .varDeclInit present storesLater, turns⟩
  | .assign target stores, _ => by
    rcases turns_expr suits target with ⟨_, lowersTarget, turnsTarget⟩
    rcases turns_store suits stores turnsTarget with ⟨later, storesLater, turns⟩
    rw [← turn.type_tree] at storesLater
    exact ⟨later, .assign lowersTarget storesLater, turns⟩
  | .branch test thenBody, follows => by
    rcases turns_expr suits test with ⟨_, lowersTest, turnsTest⟩
    rcases follows.behind_jump rfl rfl turnsTest with ⟨_, followsThen⟩
    rcases turns_stmt suits thenBody followsThen with ⟨_, lowersThen, turnsThen⟩
    have behindThen := followsThen.whole turnsThen
    refine ⟨_, .branch lowersTest lowersThen, ?_⟩
    rw [branchCode, branchCode]
    exact (turnsTest.append (.jump rfl behindThen rfl rfl)).append turnsThen
  | .branchElse present test thenBody elseBody, follows => by
    rcases turns_expr suits test with ⟨_, lowersTest, turnsTest⟩
    rw [branchCode, List.append_assoc, List.append_assoc] at follows
    rcases follows.behind_jump rfl (Nat.cast_succ _).symm turnsTest with ⟨_, followsRest⟩
    rw [← List.append_assoc] at followsRest
    rcases turns_stmt suits thenBody followsRest.left.left with ⟨_, lowersThen, turnsThen⟩
    rcases followsRest.behind_jump rfl rfl turnsThen with ⟨behindThen, followsElse⟩
    rcases turns_stmt suits elseBody followsElse with ⟨_, lowersElse, turnsElse⟩
    have behindElse := followsElse.whole turnsElse
    rw [← turn.isPresent_tree] at present
    refine ⟨_, .branchElse present lowersTest lowersThen lowersElse, ?_⟩
    rw [branchCode, branchCode]
    exact (((turnsTest.append (.jump rfl behindThen rfl rfl)).append turnsThen).append
      (.jump rfl behindElse rfl rfl)).append turnsElse
  | .loop test body, follows => by
    rcases turns_expr suits test with ⟨_, lowersTest, turnsTest⟩
    have back := follows 0 (Nat.zero_le _)
    rw [loopCode, List.append_assoc] at follows
    rcases follows.behind_jump rfl rfl turnsTest with ⟨_, followsRest⟩
    rcases turns_stmt suits body followsRest.left with ⟨_, lowersBody, turnsBody⟩
    rw [← List.append_nil (Code.emit .ujp _), ← List.append_assoc] at followsRest
    rcases followsRest.behind_jump rfl rfl turnsBody with ⟨behindBody, _⟩
    refine ⟨_, .loop lowersTest lowersBody, ?_⟩
    rw [loopCode, loopCode]
    exact ((turnsTest.append (.jump rfl behindBody rfl rfl)).append turnsBody).append
      (.jump rfl back rfl rfl)
  | .ret inside value, _ => by
    rcases turns_expr suits value with ⟨_, lowersValue, turnsValue⟩
    refine ⟨_, .ret inside lowersValue, ?_⟩
    exact (((Turns.same rfl rfl).append turnsValue).append (.same rfl rfl)).append (.same rfl rfl)

theorem turns_stmts (suits : turn.Suits config config') {inFunction start start' nodes code} :
    LowersStmts config inFunction start nodes code -> Follows turn start start' code ->
    exists later, LowersStmts config' inFunction start' (turn.trees nodes) later
      ∧ Turns turn code later
  | .nil, _ => ⟨[], .nil, .nil⟩
  | .cons first rest, follows => by
    rcases turns_stmt suits first follows.left with ⟨_, lowersFirst, turnsFirst⟩
    rcases turns_stmts suits rest (follows.right turnsFirst) with ⟨_, lowersRest, turnsRest⟩
    exact ⟨_, .cons lowersFirst lowersRest, turnsFirst.append turnsRest⟩

end

end Statements

/-! ## Functions and blocks -/

section Functions

theorem turns_frameCode (suits : turn.Suits config config') (size : Int64) (extent : Int) :
    Turns turn (frameCode config size extent) (frameCode config' size extent) := by
  rw [frameCode, frameCode, suits.extents]
  refine .append (.same rfl rfl) ?_
  cases config.features .stackExtent with
  | false => exact .nil
  | true =>
    cases omitted : turn.extents with
    | true => exact (Turn.apply_omitted (by exact omitted)).symm
    | false => exact .same omitted rfl

/-- A comment has no address. -/
theorem size_opening (config : Config) (text : String) (size : Int64) (extent : Int) :
    Code.size ([.comment text] ++ frameCode config size extent) = frameCodeSize config := by
  rw [Code.size_append, size_frameCode]
  exact Nat.zero_add _

variable {start start' : Nat} {code : Code}

/-- The code of a function at another address.  It ends with a return, so nothing in it
jumps to its end. -/
theorem turns_function (suits : turn.Suits config config') {name size body}
    (lowered : lowerFunction config start name size body = .ok code)
    (follows : forall offset, offset < code.size ->
      turn.move (start + offset) = start' + (turn.apply (code.instructions.take offset)).length) :
    exists later,
      lowerFunction config' start' (turn.names.names name) size (turn.tree body) = .ok later
      ∧ Turns turn code later := by
  rw [lowerFunction] at lowered
  rcases Results.of_bind lowered with ⟨bodyCode, bodyLowered, ⟨⟩⟩
  generalize extent : Code.peak (bodyCode ++ Code.emit .retf []) = depth at follows ⊢
  have opening : Turns turn ([.comment ("function " ++ name)] ++ frameCode config size depth)
      ([.comment ("function " ++ turn.names.names name)] ++ frameCode config' size depth) :=
    .append (.comment _ _) (turns_frameCode suits size depth)
  have inside : Follows turn start start'
      ([.comment ("function " ++ name)] ++ frameCode config size depth ++ bodyCode) := by
    intro offset within
    rw [← List.append_assoc _ bodyCode, List.append_assoc _ (Code.emit .retf [])] at follows
    have here := follows offset (by
      rw [Code.size_append, Code.size_append (Code.emit .retf []), Code.size_emit]
      omega)
    rwa [Code.instructions_append, List.take_append_of_le_length within] at here
  have followsBody := inside.right opening
  rw [size_opening, size_opening] at followsBody
  rcases turns_stmt suits (lowers_of_lowerStmt bodyLowered) followsBody
      with ⟨bodyLater, lowersBody, turnsBody⟩
  have ending : Turns turn (bodyCode ++ Code.emit .retf []) (bodyLater ++ Code.emit .retf []) :=
    turnsBody.append (.same rfl rfl)
  rw [lowerFunction, lowerStmt_of_lowers lowersBody, Results.ok_bind]
  dsimp only
  rw [ending.peak_eq, extent]
  exact ⟨_, rfl, (opening.append ending).append (.comment _ _)⟩

theorem turns_blocks (suits : turn.Suits config config') {number blocks}
    (lowered : lowerBlocks config start number blocks = .ok code)
    (follows : Follows turn start start' code) :
    exists later,
      lowerBlocks config' start' number (blocks.map turn.tree) = .ok later
        ∧ Turns turn code later := by
  induction blocks generalizing start start' number code with
  | nil =>
    cases lowered
    exact ⟨[], rfl, .nil⟩
  | cons node nodes ih =>
    rw [lowerBlocks] at lowered
    rcases Results.of_binds lowered with ⟨first, firstLowered, rest, restLowered, ⟨⟩⟩
    have size (code : Code) : Code.size ([.comment s!"block {number}"] ++ code) = code.size := by
      rw [Code.size_append]
      exact Nat.zero_add _
    have followsFirst : Follows turn start start' first :=
      follows.left.right (.comment _ s!"block {number}")
    rcases turns_stmt suits (lowers_of_lowerStmt firstLowered) followsFirst
        with ⟨_, lowersFirst, turnsFirst⟩
    have followsRest := follows.right ((Turns.comment _ s!"block {number}").append turnsFirst)
    rw [size, size] at followsRest
    rcases ih restLowered followsRest with ⟨_, loweredRest, turnsRest⟩
    rw [List.map_cons, lowerBlocks, lowerStmt_of_lowers lowersFirst, Results.ok_bind, loweredRest]
    exact ⟨_, rfl, ((Turns.comment _ _).append turnsFirst).append turnsRest⟩

end Functions

end Lowering
end PCode
