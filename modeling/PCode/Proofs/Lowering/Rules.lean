import PCode.Lowering
import PCode.Proofs.Results
import PCode.Proofs.Tree

namespace PCode
namespace Lowering

/-!
Lowering as rules.

Lowering is a function with many causes to fail.  Where it gives code, each form of
expression and of statement has code of one shape, made of the code of its parts.
These shapes are the rules below, and what holds of all code is proved along them.
-/

section Rules

variable (config : Config)

mutual

/-- The code of an expression in a form. -/
inductive Lowers : Form -> Node -> Code -> Prop
  | number {note value} : Lowers .value (.number note value) (constant (.int value.toInt))
  | real {note value} : Lowers .value (.real note value) (constant (.literal (realLiteral value)))
  | bool {note value} : Lowers .value (.bool note value) (constant (.literal (boolLiteral value)))
  | char {note code} :
    Lowers .value (.char note code)
      (constant (.literal (Text.quotedChar (Text.charOfCode code.toInt))))
  | ident {note name} : Lowers .address (.ident note name) (variableAddress note.address)
  | member {note base field offset code} :
    Lowers .address base code ->
    Lowers .address (.member note base field offset)
      (code ++ Code.emit .inc [.int offset.toInt])
  | subscript {note} {array index} {length} {elem}
    {arrayCode valueCode} :
    array.type = .array length elem -> Lowers .address array arrayCode ->
    Lowers .value index valueCode ->
    Lowers .address (.subscript note array index)
      (arrayCode ++ valueCode ++ indexCode config length elem)
  /-- The value of a place is loaded from its address. -/
  | load {node code} :
    node.type.isComposite = false -> Lowers .address node code ->
    Lowers .value node (code ++ Code.emit .ind [])
  | unary {note operator operand opcode code} :
    unaryOpcode? operator = some opcode -> Lowers .value operand code ->
    Lowers .value (.unary note operator operand) (code ++ Code.emit opcode [])
  | binary {note operator left right opcode leftCode rightCode} :
    binaryOpcode? operator = some opcode -> Lowers .value left leftCode ->
    Lowers .value right rightCode ->
    Lowers .value (.binary note operator left right)
      (leftCode ++ rightCode ++ Code.emit opcode [])
  | call {note name args callee codes} :
    LowersArgs callee.signature.params args codes ->
    Lowers .value (.call note name args (some callee))
      (callCode note.delta name callee args.length codes.flatten)

/-- The code of arguments, each in the form that its parameter asks for. -/
inductive LowersArgs : List Ty -> List Node -> List Code -> Prop
  | nil : LowersArgs [] [] []
  | cons {param params arg args code codes} :
    Lowers (Form.ofParam param) arg code -> LowersArgs params args codes ->
    LowersArgs (param :: params) (arg :: args) (code :: codes)

end

/-- Code that stores a value into the place whose address `target` pushes. -/
inductive Stores (target : Code) (type : Ty) (value : Node) : Code -> Prop
  | scalar {code} :
    type.isComposite = false -> Lowers config .value value code ->
    Stores target type value (target ++ code ++ Code.emit .sto [])
  | composite {code} :
    type.isComposite = true -> Lowers config .address value code ->
    Stores target type value (target ++ code ++ Code.emit .movs [.int type.size.toInt])

variable (inFunction : Bool)

mutual

/-- The code of a statement at an address. -/
inductive LowersStmt : Nat -> Node -> Code -> Prop
  | absent {start} : LowersStmt start .absent []
  | block {start note stmts code} :
    LowersStmts start stmts code -> LowersStmt start (.block note stmts) code
  | varDecl {start note name type} : LowersStmt start (.varDecl note name type .absent) []
  | varDeclInit {start note name type init code} :
    init.isPresent = true ->
    Stores config (Code.emit .lda [.int note.address.level, .int note.address.offset.toInt])
      note.type init code ->
    LowersStmt start (.varDecl note name type init) code
  | assign {start note target value targetCode code} :
    Lowers config .address target targetCode ->
    Stores config targetCode target.type value code ->
    LowersStmt start (.assign note target value) code
  | branch {start note test thenBody testCode thenCode} :
    Lowers config .value test testCode ->
    LowersStmt (start + testCode.size + 1) thenBody thenCode ->
    LowersStmt start (.branch note test thenBody .absent)
      (branchCode start testCode thenCode none)
  | branchElse {start note test thenBody elseBody testCode thenCode elseCode} :
    elseBody.isPresent = true -> Lowers config .value test testCode ->
    LowersStmt (start + testCode.size + 1) thenBody thenCode ->
    LowersStmt (start + testCode.size + 1 + thenCode.size + 1) elseBody elseCode ->
    LowersStmt start (.branch note test thenBody elseBody)
      (branchCode start testCode thenCode (some elseCode))
  | loop {start note test body testCode bodyCode} :
    Lowers config .value test testCode ->
    LowersStmt (start + testCode.size + 1) body bodyCode ->
    LowersStmt start (.loop note test body) (loopCode start testCode bodyCode)
  | ret {start note value code} :
    inFunction = true -> Lowers config .value value code ->
    LowersStmt start (.ret note value)
      (Code.emit .lda [.int 0, .int 0] ++ code ++ Code.emit .sto [] ++ Code.emit .retf [])

/-- The code of statements, one behind another. -/
inductive LowersStmts : Nat -> List Node -> Code -> Prop
  | nil {start} : LowersStmts start [] []
  | cons {start node nodes first rest} :
    LowersStmt start node first -> LowersStmts (start + first.size) nodes rest ->
    LowersStmts start (node :: nodes) (first ++ rest)

end

end Rules

/-! ## Expressions -/

section Expressions

variable {config : Config}

variable {node value : Node} {lowered : Lowered Code} {code target : Code}

/-- The code of a place has the code of its address, with or without a load. -/
theorem lowers_placeCode {form} (placed : placeCode form node lowered = .ok code)
    (address : forall code, lowered = .ok code -> Lowers config .address node code) :
    Lowers config form node code := by
  cases form with
  | address => exact address code placed
  | value =>
    rw [placeCode] at placed
    split at placed
    · cases placed
    · rename_i scalar
      rcases Results.of_map placed with ⟨inner, lowered, rfl⟩
      exact .load (Bool.eq_false_iff.mpr scalar) (address inner lowered)

/-- An expression without a place is lowered to its value. -/
theorem value_of_valueOnly {form} (valued : valueOnly form node lowered = .ok code) :
    form = .value := by
  cases form with
  | value => rfl
  | address => cases valued

mutual

/-- What lowering gives follows the rules. -/
theorem lowers_of_lowerExpr {form node code} (lowered : lowerExpr config form node = .ok code) :
    Lowers config form node code := by
  cases node with
  | number | real | bool | char =>
    rw [lowerExpr] at lowered
    cases value_of_valueOnly lowered
    cases lowered
    constructor
  | ident =>
    rw [lowerExpr] at lowered
    refine lowers_placeCode lowered ?_
    intro address equal
    cases equal
    exact .ident
  | member _ base =>
    rw [lowerExpr] at lowered
    refine lowers_placeCode lowered ?_
    intro address equal
    rcases Results.of_bind equal with ⟨baseCode, baseLowered, ⟨⟩⟩
    exact .member (lowers_of_lowerExpr baseLowered)
  | subscript _ array index =>
    rw [lowerExpr] at lowered
    refine lowers_placeCode lowered ?_
    intro address equal
    split at equal
    · split at equal
      · rename_i isArray
        rcases Results.of_binds equal with ⟨arrayCode, arrayLowered, valueCode, valueLowered, ⟨⟩⟩
        exact .subscript isArray (lowers_of_lowerExpr arrayLowered)
          (lowers_of_lowerExpr valueLowered)
      · cases equal
    · cases equal
  | unary _ operator operand =>
    rw [lowerExpr] at lowered
    cases value_of_valueOnly lowered
    rcases Results.of_bind lowered with ⟨operandCode, operandLowered, next⟩
    split at next
    · rename_i opcode instruction
      cases next
      exact .unary instruction (lowers_of_lowerExpr operandLowered)
    · cases next
  | binary _ operator left right =>
    rw [lowerExpr] at lowered
    cases value_of_valueOnly lowered
    rcases Results.of_binds lowered with ⟨leftCode, leftLowered, rightCode, rightLowered, last⟩
    split at last
    · rename_i opcode instruction
      cases last
      exact .binary instruction (lowers_of_lowerExpr leftLowered)
        (lowers_of_lowerExpr rightLowered)
    · cases last
  | call _ _ args callee =>
    cases callee with
    | none => cases form <;> cases lowered
    | some callee =>
      rw [lowerExpr] at lowered
      cases value_of_valueOnly lowered
      rw [valueOnly] at lowered
      split at lowered
      · rename_i sameLength
        rcases Results.of_bind lowered with ⟨argsCode, argsLowered, ⟨⟩⟩
        rcases lowers_of_lowerArgs sameLength argsLowered with ⟨codes, rfl, lowersArgs⟩
        exact .call lowersArgs
      · cases lowered
  | absent => cases lowered
  | _ => cases form <;> cases lowered

theorem lowers_of_lowerArgs : forall {args params code},
    params.length = args.length -> lowerArgs config params args = .ok code ->
    exists codes, code = codes.flatten ∧ LowersArgs config params args codes
  | [], [], _, _, lowered => by
    cases lowered
    exact ⟨[], rfl, .nil⟩
  | arg :: args, param :: params, _, sameLength, lowered => by
    rw [lowerArgs] at lowered
    rcases Results.of_binds lowered with ⟨first, firstLowered, rest, restLowered, ⟨⟩⟩
    rcases lowers_of_lowerArgs (Nat.succ.inj sameLength) restLowered
        with ⟨codes, rfl, lowersRest⟩
    exact ⟨first :: codes, rfl, .cons (lowers_of_lowerExpr firstLowered) lowersRest⟩

end

theorem Lowers.isPresent {form node code} : Lowers config form node code -> node.isPresent = true
  | .number | .real | .bool | .char | .ident | .member _ | .subscript _ _ _ => rfl
  | .unary _ _ | .binary _ _ _ | .call _ => rfl
  | .load _ place => place.isPresent

theorem LowersArgs.length_eq {params args codes} :
    LowersArgs config params args codes -> params.length = args.length
  | .nil => rfl
  | .cons _ rest => congrArg (· + 1) rest.length_eq

theorem LowersArgs.count_eq {params args codes} :
    LowersArgs config params args codes -> codes.length = args.length
  | .nil => rfl
  | .cons _ rest => congrArg (· + 1) rest.count_eq

theorem LowersArgs.isPresent {params args codes} :
    LowersArgs config params args codes -> forall {arg}, arg ∈ args -> arg.isPresent = true
  | .nil, _, member => by cases member
  | .cons first rest, arg, member => by
    rcases List.mem_cons.mp member with same | later
    · rw [same]
      exact first.isPresent
    · exact rest.isPresent later

/-- An expression that has an address is a place, so its value is loaded from there. -/
theorem lowerExpr_load (scalar : node.type.isComposite = false)
    (lowered : lowerExpr config .address node = .ok code) :
    lowerExpr config .value node = .ok (code ++ Code.emit .ind []) := by
  have place {address : Lowered Code} (equal : address = .ok code) :
      placeCode .value node address = .ok (code ++ Code.emit .ind []) := by
    rw [placeCode, scalar, equal]
    rfl
  cases node with
  | ident | member | subscript =>
    rw [lowerExpr] at lowered ⊢
    exact place lowered
  | absent => cases lowered
  | _ =>
    rw [lowerExpr] at lowered
    all_goals cases lowered

mutual

/-- Lowering gives whatever the rules give. -/
theorem lowerExpr_of_lowers {form node code} :
    Lowers config form node code -> lowerExpr config form node = .ok code
  | .number => by rw [lowerExpr]; rfl
  | .real => by rw [lowerExpr]; rfl
  | .bool => by rw [lowerExpr]; rfl
  | .char => by rw [lowerExpr]; rfl
  | .ident => by rw [lowerExpr]; rfl
  | .member base => by
    rw [lowerExpr, lowerExpr_of_lowers base]
    rfl
  | .subscript isArray array index => by
    rw [lowerExpr, if_pos array.isPresent, isArray, lowerExpr_of_lowers array,
      lowerExpr_of_lowers index]
    rfl
  | .load scalar place => lowerExpr_load scalar (lowerExpr_of_lowers place)
  | .unary known operand => by
    rw [lowerExpr, lowerExpr_of_lowers operand, known]
    rfl
  | .binary known left right => by
    rw [lowerExpr, lowerExpr_of_lowers left, lowerExpr_of_lowers right, known]
    rfl
  | .call args => by
    rw [lowerExpr, if_pos args.length_eq, lowerArgs_of_lowers args]
    rfl

theorem lowerArgs_of_lowers {params args codes} :
    LowersArgs config params args codes -> lowerArgs config params args = .ok codes.flatten
  | .nil => rfl
  | .cons first rest => by
    rw [lowerArgs, List.headD_cons, List.tail_cons, lowerExpr_of_lowers first,
      lowerArgs_of_lowers rest]
    rfl

end

end Expressions

/-! ## Statements -/

section Statements

variable {config : Config} {inFunction : Bool}

theorem stores_of_lowerStore {type}
    (lowered : lowerStore config (.ok target) type value = .ok code) :
    Stores config target type value code := by
  rw [lowerStore, Results.ok_bind] at lowered
  split at lowered
  · rename_i composite
    rcases Results.of_bind lowered with ⟨source, sourceLowered, ⟨⟩⟩
    exact .composite composite (lowers_of_lowerExpr sourceLowered)
  · rename_i scalar
    rcases Results.of_bind lowered with ⟨valueCode, valueLowered, ⟨⟩⟩
    exact .scalar (Bool.eq_false_iff.mpr scalar) (lowers_of_lowerExpr valueLowered)

mutual

theorem lowers_of_lowerStmt {node start code}
    (lowered : lowerStmt config inFunction start node = .ok code) :
    LowersStmt config inFunction start node code := by
  cases node with
  | absent =>
    cases lowered
    exact .absent
  | block _ stmts =>
    rw [lowerStmt] at lowered
    exact .block (lowers_of_lowerStmts lowered)
  | varDecl note _ _ init =>
    rw [lowerStmt] at lowered
    split at lowered
    · rename_i present
      exact .varDeclInit present (stores_of_lowerStore lowered)
    · rename_i missing
      cases lowered
      rw [Node.eq_absent (Bool.eq_false_iff.mpr missing)]
      exact .varDecl
  | assign _ target value =>
    rw [lowerStmt] at lowered
    split at lowered
    · rcases Results.of_bind lowered with ⟨targetCode, targetLowered, _⟩
      rw [targetLowered] at lowered
      exact .assign (lowers_of_lowerExpr targetLowered) (stores_of_lowerStore lowered)
    · cases lowered
  | branch _ test thenBody elseBody =>
    rw [lowerStmt] at lowered
    rcases Results.of_binds lowered with ⟨testCode, testLowered, thenCode, thenLowered, last⟩
    have lowersTest := lowers_of_lowerExpr testLowered
    have lowersThen := lowers_of_lowerStmt thenLowered
    split at last
    · rename_i present
      rcases Results.of_bind last with ⟨elseCode, elseLowered, ⟨⟩⟩
      exact .branchElse present lowersTest lowersThen (lowers_of_lowerStmt elseLowered)
    · rename_i missing
      cases last
      rw [Node.eq_absent (Bool.eq_false_iff.mpr missing)]
      exact .branch lowersTest lowersThen
  | loop _ test body =>
    rw [lowerStmt] at lowered
    rcases Results.of_binds lowered with ⟨testCode, testLowered, bodyCode, bodyLowered, ⟨⟩⟩
    exact .loop (lowers_of_lowerExpr testLowered) (lowers_of_lowerStmt bodyLowered)
  | ret _ value =>
    rw [lowerStmt, lowerReturn] at lowered
    split at lowered
    · rename_i inside
      rcases Results.of_bind lowered with ⟨valueCode, valueLowered, ⟨⟩⟩
      exact .ret (Bool.and_eq_true_iff.mp inside).1 (lowers_of_lowerExpr valueLowered)
    · cases lowered
  | _ => cases lowered

theorem lowers_of_lowerStmts : forall {nodes start code},
    lowerStmts config inFunction start nodes = .ok code ->
    LowersStmts config inFunction start nodes code
  | [], _, _, lowered => by
    cases lowered
    exact .nil
  | node :: nodes, _, _, lowered => by
    rw [lowerStmts] at lowered
    rcases Results.of_binds lowered with ⟨firstCode, firstLowered, restCode, restLowered, ⟨⟩⟩
    exact .cons (lowers_of_lowerStmt firstLowered) (lowers_of_lowerStmts restLowered)

end

theorem lowerStore_of_stores {type} (stores : Stores config target type value code) :
    lowerStore config (.ok target) type value = .ok code := by
  rw [lowerStore, Results.ok_bind]
  cases stores with
  | scalar scalar lowers =>
    rw [if_neg (Bool.eq_false_iff.mp scalar), lowerExpr_of_lowers lowers]
    rfl
  | composite composite lowers =>
    rw [if_pos composite, lowerExpr_of_lowers lowers]
    rfl

mutual

/-- Lowering gives whatever the rules give. -/
theorem lowerStmt_of_lowers {start node code} :
    LowersStmt config inFunction start node code ->
    lowerStmt config inFunction start node = .ok code
  | .absent => rfl
  | .block stmts => by rw [lowerStmt, lowerStmts_of_lowers stmts]
  | .varDecl => by rw [lowerStmt]; rfl
  | .varDeclInit present stores => by rw [lowerStmt, if_pos present, lowerStore_of_stores stores]
  | .assign target stores => by
    rw [lowerStmt, if_pos target.isPresent, lowerExpr_of_lowers target,
      lowerStore_of_stores stores]
  | .branch test thenBody => by
    rw [lowerStmt, lowerExpr_of_lowers test, Results.ok_bind, lowerStmt_of_lowers thenBody]
    rfl
  | .branchElse present test thenBody elseBody => by
    rw [lowerStmt, lowerExpr_of_lowers test, Results.ok_bind, lowerStmt_of_lowers thenBody,
      Results.ok_bind, if_pos present]
    dsimp only
    rw [lowerStmt_of_lowers elseBody]
    rfl
  | .loop test body => by
    rw [lowerStmt, lowerExpr_of_lowers test, Results.ok_bind, lowerStmt_of_lowers body]
    rfl
  | .ret inside value => by
    rw [lowerStmt, lowerReturn, inside, value.isPresent, lowerExpr_of_lowers value]
    rfl

theorem lowerStmts_of_lowers {start nodes code} :
    LowersStmts config inFunction start nodes code ->
    lowerStmts config inFunction start nodes = .ok code
  | .nil => rfl
  | .cons first rest => by
    rw [lowerStmts, lowerStmt_of_lowers first, Results.ok_bind, lowerStmts_of_lowers rest]
    rfl

end

end Statements

end Lowering
end PCode
