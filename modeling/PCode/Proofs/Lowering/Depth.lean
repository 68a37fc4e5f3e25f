import PCode.Proofs.Lowering.Rules
import PCode.Proofs.Stack

namespace PCode
namespace Lowering

open Stack

/-!
Depths in the code of expressions and statements.

The code of an expression leaves one cell on the stack, whatever is below.  The
code of a statement leaves the stack as it was, and it starts with an empty one,
because statements never stand inside expressions.  Jumps lead to boundaries of
statements only, and these all have depth zero.  Nothing of this depends on types:
it holds for every tree for which there is code.
-/

/-! ## Expressions -/

/-- Code that leaves a number of cells on the stack, from any depth. -/
def Pushes (count : Nat) (code : Code) : Prop :=
  forall lands depth, 0 <= depth -> Runs lands depth code.instructions (depth + count)

namespace Pushes

theorem nil : Pushes 0 [] := fun _ depth _ => (Int.add_zero depth).symm ▸ .nil

theorem comment (text : String) : Pushes 0 [.comment text] := nil

theorem append {first second count more} (left : Pushes count first) (right : Pushes more second) :
    Pushes (count + more) (first ++ second) := by
  intro lands depth nonneg
  have above := right lands (depth + count) (by omega)
  rw [Code.instructions_append, Int.natCast_add, ← Int.add_assoc]
  exact (left lands depth nonneg).append above

variable {code thenCode : Code} {operator : Operator} {opcode : Opcode}

/-- An instruction behind code that leaves enough cells for it. -/
theorem step {count} (pushes : Pushes count code) (opcode : Opcode) (operands : List Operand)
    (rest : Nat) (plain : opcode.jumps = false ∧ opcode.ends = false)
    (covered : Instruction.takes ⟨opcode, operands⟩ <= count)
    (balanced : (rest : Int) = count + Instruction.effect ⟨opcode, operands⟩) :
    Pushes rest (code ++ Code.emit opcode operands) := by
  intro lands depth nonneg
  rw [Code.instructions_append, Code.instructions_emit, balanced, ← Int.add_assoc]
  refine (pushes lands depth nonneg).append (.single (.plain (by omega) plain.1 ?_) rfl)
  intro ends
  rw [plain.2] at ends
  cases ends

/-- Code that uses up what it has left can start at depth zero. -/
theorem level (pushes : Pushes 0 code) (lands : Nat -> Prop) :
    Runs lands 0 code.instructions 0 :=
  pushes lands 0 (Int.le_refl 0)

end Pushes

theorem pushes_constant (operand : Operand) : Pushes 1 (constant operand) :=
  Pushes.nil.step _ _ 1 ⟨rfl, rfl⟩ (Int.le_refl 0) rfl

theorem pushes_lda (operands : List Operand) : Pushes 1 (Code.emit .lda operands) :=
  Pushes.nil.step _ _ 1 ⟨rfl, rfl⟩ (Int.le_refl 0) rfl

theorem pushes_variableAddress (address : Address) : Pushes 1 (variableAddress address) := by
  rw [variableAddress]
  split
  · exact Pushes.nil.step _ _ 1 ⟨rfl, rfl⟩ (Int.le_refl 0) rfl
  · exact Pushes.nil.step _ _ 1 ⟨rfl, rfl⟩ (Int.le_refl 0) rfl

variable {code : Code}

theorem pushes_unary (instruction : unaryOpcode? operator = some opcode) (pushes : Pushes 1 code) :
    Pushes 1 (code ++ Code.emit opcode []) := by
  cases operator <;> cases instruction
  all_goals exact pushes.step _ _ 1 ⟨rfl, rfl⟩ (Int.le_refl 1) rfl

theorem pushes_binary
    (instruction : binaryOpcode? operator = some opcode) (pushes : Pushes 2 code) :
    Pushes 1 (code ++ Code.emit opcode []) := by
  cases operator <;> cases instruction
  all_goals exact pushes.step _ _ 1 ⟨rfl, rfl⟩ (Int.le_refl 2) rfl

theorem pushes_indexCode (config : Config) (length : Int64) (elem : Ty) (pushes : Pushes 2 code) :
    Pushes 1 (code ++ indexCode config length elem) := by
  rw [indexCode, ← List.append_assoc]
  have checked : Pushes 2 (code ++ if config.features .boundsCheck then
      Code.emit .chk [.int 0, .int (length - 1).toInt] else []) := by
    split
    · exact pushes.step _ _ 2 ⟨rfl, rfl⟩ (show (1 : Int) <= 2 by decide) rfl
    · exact (List.append_nil code).symm ▸ pushes
  exact checked.step _ _ 1 ⟨rfl, rfl⟩ (Int.le_refl 2) rfl

theorem pushes_callCode (delta : Nat) (name : String) (callee : Callee) {count args}
    (pushes : Pushes count args) : Pushes 1 (callCode delta name callee count args) := by
  have marked : Pushes 5 ([.comment ("call " ++ name)] ++ Code.emit .mst [.int delta]) :=
    (Pushes.comment _).step _ _ 5 ⟨rfl, rfl⟩ (Int.le_refl 0) rfl
  -- The mark and the arguments are all that a call takes.
  have called := (marked.append pushes).step .cup [.int count, .entry name (some callee.function)] 1
    ⟨rfl, rfl⟩ (show (5 : Int) + count <= (5 + count : Nat) by omega)
    (show (1 : Int) = (5 + count : Nat) + (1 - 5 - count) by omega)
  exact called.append (.comment _)

mutual

/-- The code of an expression leaves one cell. -/
theorem Lowers.pushes {config form node code} : Lowers config form node code -> Pushes 1 code
  | .number | .real | .bool | .char => pushes_constant _
  | .ident => pushes_variableAddress _
  | .member base => base.pushes.step _ _ 1 ⟨rfl, rfl⟩ (Int.le_refl 1) rfl
  | .subscript _ array index => pushes_indexCode config _ _ (array.pushes.append index.pushes)
  | .load _ place => place.pushes.step _ _ 1 ⟨rfl, rfl⟩ (Int.le_refl 1) rfl
  | .unary instruction operand => pushes_unary instruction operand.pushes
  | .binary instruction left right => pushes_binary instruction (left.pushes.append right.pushes)
  | .call args => pushes_callCode _ _ _ args.pushes

/-- The code of arguments leaves one cell for each of them. -/
theorem LowersArgs.pushes {config params args codes} :
    LowersArgs config params args codes -> Pushes args.length codes.flatten
  | .nil => .nil
  | .cons first rest => by
    rw [List.length_cons, Nat.add_comm]
    exact first.pushes.append rest.pushes

end

/-! ## Boundaries of statements -/

section Boundaries

variable (config : Config) (inFunction : Bool)

/-- The statements of a list, with the addresses where their code starts. -/
inductive Listed : Nat -> List Node -> Nat -> Node -> Prop
  | first {start node nodes} : Listed start (node :: nodes) start node
  | later {start address node part nodes code} :
    lowerStmt config inFunction start node = .ok code ->
    Listed (start + code.size) nodes address part -> Listed start (node :: nodes) address part

/-- The statements right inside a statement, with the addresses where their code
starts. -/
inductive Part : Nat -> Node -> Nat -> Node -> Prop
  | block {start address note stmts part} :
    Listed config inFunction start stmts address part ->
    Part start (.block note stmts) address part
  | thenBody {start note test thenBody elseBody testCode} :
    lowerExpr config .value test = .ok testCode ->
    Part start (.branch note test thenBody elseBody) (start + testCode.size + 1) thenBody
  | elseBody {start note test thenBody elseBody testCode thenCode} :
    lowerExpr config .value test = .ok testCode ->
    lowerStmt config inFunction (start + testCode.size + 1) thenBody = .ok thenCode ->
    elseBody.isPresent = true ->
    Part start (.branch note test thenBody elseBody)
      (start + testCode.size + 1 + thenCode.size + 1) elseBody
  | loopBody {start note test body testCode} :
    lowerExpr config .value test = .ok testCode ->
    Part start (.loop note test body) (start + testCode.size + 1) body

/-- A statement and all statements inside it, with the addresses where their code
starts. -/
inductive Occurs : Nat -> Node -> Nat -> Node -> Prop
  | self {start node} : Occurs start node start node
  | inner {start between address node middle part} :
    Part config inFunction start node between middle -> Occurs between middle address part ->
    Occurs start node address part

/-- The addresses where the code of a statement, or of one inside it, starts or
ends. -/
def Boundary (start : Nat) (node : Node) (address : Nat) : Prop :=
  exists first part, Occurs config inFunction start node first part
    ∧ (address = first
      ∨ exists code, lowerStmt config inFunction first part = .ok code
          ∧ address = first + code.size)

end Boundaries

section Statements

variable {config : Config} {inFunction : Bool}

theorem boundary_start (start : Nat) (node : Node) : Boundary config inFunction start node start :=
  ⟨start, node, .self, .inl rfl⟩

variable {start address : Nat} {node part test : Node} {code testCode : Code} {lands : Nat -> Prop}

theorem boundary_stop (lowered : lowerStmt config inFunction start node = .ok code) :
    Boundary config inFunction start node (start + code.size) :=
  ⟨start, node, .self, .inr ⟨code, lowered, rfl⟩⟩

theorem Part.boundary {between} (inside : Part config inFunction start node between part)
    (boundary : Boundary config inFunction between part address) :
    Boundary config inFunction start node address := by
  rcases boundary with ⟨first, middle, occurs, place⟩
  exact ⟨first, middle, .inner inside occurs, place⟩

/-! ## Statements -/

theorem Stores.pushes {target type value} (place : Pushes 1 target) :
    Stores config target type value code -> Pushes 0 code
  | .scalar _ source | .composite _ source =>
    (place.append source.pushes).step _ _ 0 ⟨rfl, rfl⟩ (Int.le_refl 2) rfl

theorem runs_returnCode (value : Pushes 1 code) :
    Runs lands 0 (Code.emit .lda [.int 0, .int 0] ++ code ++ Code.emit .sto []
      ++ Code.emit .retf []).instructions 0 := by
  have stored := ((pushes_lda [.int 0, .int 0]).append value).step .sto [] 0 ⟨rfl, rfl⟩ (Int.le_refl 2) rfl
  rw [Code.instructions_append]
  exact (stored.level lands).append (.single (.plain (Int.le_refl 0) rfl fun _ => rfl) rfl)

/-- The test of a branch or a loop, with the jump behind it. -/
theorem runs_test {target} (pushes : Pushes 1 testCode) (fit : lands target) :
    Runs lands 0 (testCode ++ Code.emit .fjp [.int target]).instructions 0 := by
  rw [Code.instructions_append]
  exact (pushes lands 0 (Int.le_refl 0)).append (.single (.fjp fit) rfl)

theorem runs_branchCode (test : Pushes 1 testCode) (thenRuns : Runs lands 0 thenCode.instructions 0)
    (stop : lands (start + (branchCode start testCode thenCode none).size)) :
    Runs lands 0 (branchCode start testCode thenCode none).instructions 0 := by
  rw [branchCode] at stop ⊢
  simp only [Code.size_append, Code.size_emit, ← Nat.add_assoc] at stop
  rw [Code.instructions_append]
  exact (runs_test test stop).append thenRuns

theorem runs_branchCode_else {elseCode} (test : Pushes 1 testCode)
    (thenRuns : Runs lands 0 thenCode.instructions 0)
    (elseRuns : Runs lands 0 elseCode.instructions 0)
    (elseStart : lands (start + testCode.size + 1 + thenCode.size + 1))
    (stop : lands (start + (branchCode start testCode thenCode (some elseCode)).size)) :
    Runs lands 0 (branchCode start testCode thenCode (some elseCode)).instructions 0 := by
  rw [branchCode] at stop ⊢
  simp only [Code.size_append, Code.size_emit, ← Nat.add_assoc] at stop
  rw [Code.instructions_append, Code.instructions_append, Code.instructions_append]
  exact (((runs_test test elseStart).append thenRuns).append (.single (.ujp stop) rfl)).append
    elseRuns

theorem runs_loopCode {bodyCode} (test : Pushes 1 testCode)
    (bodyRuns : Runs lands 0 bodyCode.instructions 0) (first : lands start)
    (stop : lands (start + (loopCode start testCode bodyCode).size)) :
    Runs lands 0 (loopCode start testCode bodyCode).instructions 0 := by
  rw [loopCode] at stop ⊢
  simp only [Code.size_append, Code.size_emit, ← Nat.add_assoc] at stop
  rw [Code.instructions_append, Code.instructions_append]
  exact ((runs_test test stop).append bodyRuns).append (.single (.ujp first) rfl)

mutual

/-- The code of a statement starts and ends at depth zero, and its jumps lead to
boundaries. -/
theorem LowersStmt.runs (lands : Nat -> Prop) {node start code} :
    LowersStmt config inFunction start node code ->
    (forall address, Boundary config inFunction start node address -> lands address) ->
    Runs lands 0 code.instructions 0
  | .absent, _ | .varDecl, _ => .nil
  | .block stmts, fit =>
    stmts.runs lands
      fun _ _ listed address boundary => fit address (Part.boundary (.block listed) boundary)
  | .varDeclInit _ stores, _ => (stores.pushes (pushes_lda _)).level lands
  | .assign target stores, _ => (stores.pushes target.pushes).level lands
  | .branch test thenBody, fit =>
    runs_branchCode test.pushes
      (thenBody.runs lands fun address boundary =>
        fit address (Part.boundary (.thenBody (lowerExpr_of_lowers test)) boundary))
      (fit _ (boundary_stop (lowerStmt_of_lowers (.branch test thenBody))))
  | .branchElse present test thenBody elseBody, fit => by
    have tested := lowerExpr_of_lowers test
    have thenRuns := thenBody.runs lands
      fun address boundary => fit address (Part.boundary (.thenBody tested) boundary)
    have thenLowered := lowerStmt_of_lowers thenBody
    have elseRuns := elseBody.runs lands fun address boundary =>
      fit address (Part.boundary (.elseBody tested thenLowered present) boundary)
    -- The test jumps to the start of the second branch, and the first branch over it.
    exact runs_branchCode_else test.pushes thenRuns elseRuns
      (fit _ (Part.boundary (.elseBody tested thenLowered present) (boundary_start _ _)))
      (fit _ (boundary_stop (lowerStmt_of_lowers (.branchElse present test thenBody elseBody))))
  | .loop test body, fit =>
    runs_loopCode test.pushes
      (body.runs lands fun address boundary =>
        fit address (Part.boundary (.loopBody (lowerExpr_of_lowers test)) boundary))
      (fit _ (boundary_start _ _)) (fit _ (boundary_stop (lowerStmt_of_lowers (.loop test body))))
  | .ret _ value, _ => runs_returnCode value.pushes

theorem LowersStmts.runs (lands : Nat -> Prop) {nodes start code} :
    LowersStmts config inFunction start nodes code ->
    (forall first part, Listed config inFunction start nodes first part ->
      forall address, Boundary config inFunction first part address -> lands address) ->
    Runs lands 0 code.instructions 0
  | .nil, _ => .nil
  | .cons first rest, fit => by
    rw [Code.instructions_append]
    exact (first.runs lands (fit _ _ .first)).append (rest.runs lands
      fun _ part listed => fit _ part (.later (lowerStmt_of_lowers first) listed))

end

/-! ## Where the code of statements stands -/

/-- The code of a statement has no effect in total. -/
theorem netEffect_lowerStmt (lowered : lowerStmt config inFunction start node = .ok code) :
    netEffect code.instructions = 0 :=
  ((lowers_of_lowerStmt lowered).runs (fun _ => True) fun _ _ => trivial).netEffect_eq_zero

theorem netEffect_test (operands : List Operand)
    (lowered : lowerExpr config .value test = .ok testCode) :
    netEffect (testCode ++ Code.emit .fjp operands).instructions = 0 := by
  have pushed := ((lowers_of_lowerExpr lowered).pushes (fun _ => True) 0 (Int.le_refl 0)).last_eq
  rw [Int.zero_add, Int.zero_add] at pushed
  rw [Code.instructions_append, netEffect_append, ← pushed]
  rfl

/-- Code that stands inside other code, behind instructions that have no effect in
total. -/
def Inside (start : Nat) (code : Code) (address : Nat) (part : Code) : Prop :=
  exists before after, code = before ++ part ++ after ∧ address = start + before.size
    ∧ netEffect before.instructions = 0

theorem Inside.trans {between middle part} (outer : Inside start code between middle)
    (inner : Inside between middle address part) : Inside start code address part := by
  rcases outer with ⟨before, after, rfl, rfl, level⟩
  rcases inner with ⟨before', after', rfl, rfl, level'⟩
  refine ⟨before ++ before', after' ++ after, ?_, ?_, ?_⟩
  · simp only [List.append_assoc]
  · rw [Code.size_append, Nat.add_assoc]
  · rw [Code.instructions_append, netEffect_append, level, level']
    rfl

theorem Listed.inside {nodes} (listed : Listed config inFunction start nodes address part)
    (lowered : lowerStmts config inFunction start nodes = .ok code) :
    exists partCode, lowerStmt config inFunction address part = .ok partCode
      ∧ Inside start code address partCode := by
  induction listed generalizing code with
  | first =>
    rw [lowerStmts] at lowered
    rcases Results.of_binds lowered with ⟨firstCode, firstLowered, restCode, _, ⟨⟩⟩
    exact ⟨firstCode, firstLowered, [], restCode, rfl, rfl, rfl⟩
  | @later start _ _ _ _ firstCode first _ ih =>
    rw [lowerStmts, first, Results.ok_bind] at lowered
    rcases Results.of_bind lowered with ⟨restCode, restLowered, ⟨⟩⟩
    rcases ih restLowered with ⟨partCode, partLowered, inside⟩
    have behind : Inside start (firstCode ++ restCode) (start + firstCode.size) restCode :=
      ⟨_, [], (List.append_nil _).symm, rfl, netEffect_lowerStmt first⟩
    exact ⟨partCode, partLowered, behind.trans inside⟩

/-- The code right behind a test and its jump. -/
theorem inside_behind_test {part after operands}
    (lowered : lowerExpr config .value test = .ok testCode)
    (joined : testCode ++ Code.emit .fjp operands ++ part ++ after = code) :
    Inside start code (start + testCode.size + 1) part :=
  ⟨_, after, joined.symm, by rw [Code.size_append, Code.size_emit, Nat.add_assoc],
    netEffect_test operands lowered⟩

theorem Part.inside (direct : Part config inFunction start node address part)
    (lowered : lowerStmt config inFunction start node = .ok code) :
    exists partCode, lowerStmt config inFunction address part = .ok partCode
      ∧ Inside start code address partCode := by
  cases direct with
  | block listed =>
    rw [lowerStmt] at lowered
    exact listed.inside lowered
  | thenBody testLowered =>
    rw [lowerStmt, testLowered, Results.ok_bind] at lowered
    rcases Results.of_bind lowered with ⟨thenCode, thenLowered, last⟩
    refine ⟨thenCode, thenLowered, ?_⟩
    split at last
    · rcases Results.of_bind last with ⟨elseCode, _, ⟨⟩⟩
      exact inside_behind_test testLowered (List.append_assoc _ _ _).symm
    · cases last
      exact inside_behind_test testLowered (List.append_nil _)
  | elseBody testLowered thenLowered present =>
    rw [lowerStmt, testLowered, Results.ok_bind, thenLowered, Results.ok_bind, if_pos present]
      at lowered
    rcases Results.of_bind lowered with ⟨elseCode, elseLowered, ⟨⟩⟩
    refine ⟨elseCode, elseLowered, _, [], (List.append_nil _).symm, ?_, ?_⟩
    · simp only [Code.size_append, Code.size_emit, Nat.add_assoc]
    · rw [Code.instructions_append, netEffect_append, Code.instructions_append, netEffect_append,
        netEffect_lowerStmt thenLowered]
      rw [netEffect_test _ testLowered]
      rfl
  | loopBody testLowered =>
    rw [lowerStmt, testLowered, Results.ok_bind] at lowered
    rcases Results.of_bind lowered with ⟨bodyCode, bodyLowered, ⟨⟩⟩
    exact ⟨bodyCode, bodyLowered, inside_behind_test testLowered rfl⟩

theorem Occurs.inside (occurs : Occurs config inFunction start node address part)
    (lowered : lowerStmt config inFunction start node = .ok code) :
    exists partCode, lowerStmt config inFunction address part = .ok partCode
      ∧ Inside start code address partCode := by
  induction occurs generalizing code with
  | self => exact ⟨code, lowered, [], [], (List.append_nil _).symm, rfl, rfl⟩
  | inner direct _ ih =>
    rcases direct.inside lowered with ⟨middleCode, middleLowered, outer⟩
    rcases ih middleLowered with ⟨partCode, partLowered, inner⟩
    exact ⟨partCode, partLowered, outer.trans inner⟩

end Statements

end Lowering
end PCode
