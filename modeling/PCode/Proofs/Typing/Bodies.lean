import PCode.Proofs.Static.Typing
import PCode.Proofs.Results
import PCode.Typing

namespace PCode
namespace Typing

open Static

/-!
Bodies: checking against the typing judgement.

The check works on resolved trees, and the judgement speaks of the trees from
before.  What is well typed is well scoped, and its resolved tree passes the
check and comes out as the judgement says.
-/

/-! ## Operands and arguments -/

variable {wanted found : Ty} {issue : Ty -> TypeIssue} {span : Span} {node : Node}
  {args : List Typed} {env : Env} {typed : Typed}

theorem operandFindings_of_same (same : Same found wanted) (issue : Ty -> TypeIssue) (span : Span) :
    operandFindings wanted (some found) issue span = [] := by
  rw [operandFindings, if_pos (equal_of_same same)]

theorem notedType_of_known (known : node.type.isKnown = true) :
    notedType node = { part := node, type := some node.type } := by
  rw [notedType, if_pos known]

theorem checkMember_of_fieldAt {field structName fields type before}
    (found : FieldAt field fields type before) (note : Note) (base : Node) (offset : Int64) :
    checkMember note { part := base, type := some (.struct structName fields) } field offset
      = .ok { part := .member (typeNote note type) base field (Int64.ofInt before),
              type := some type } := by
  rw [checkMember]
  dsimp only
  rw [Ty.field?, findField_of_fieldAt found]
  rfl

/-- Checked arguments that suit the parameters. -/
structure Suits (params : List Ty) (args : List Typed) : Prop where
  ok : args.all Typed.ok = true
  clean : args.flatMap Typed.findings = []
  length : args.length = params.length
  suited : forall name span position, argumentFindings name span position params args = []

theorem checkCall_of_suits {callee} (suits : Suits callee.signature.params args) (note : Note)
    (name : String) :
    checkCall note name args (some callee)
      = { part := .call note name (args.map Typed.part) (some callee),
          type := some callee.signature.result } := by
  simp [checkCall, suits.length, suits.ok, suits.clean, suits.suited]

theorem suits_cons {param params part} (same : Same param found)
    (place : param.isComposite = true -> part.isAddressable = true) (suits : Suits params args) :
    Suits (param :: params) ({ part, type := some found } :: args) where
  ok := by rw [List.all_cons, suits.ok]; rfl
  clean := by rw [List.flatMap_cons, suits.clean]; rfl
  length := congrArg (· + 1) suits.length
  suited := by
    intro name span position
    have equal : found.equal param = true := equal_of_same same.symm
    have placed : (param.isComposite && !part.isAddressable) = false := by
      cases composite : param.isComposite with
      | false => rfl
      | true => rw [place composite]; rfl
    simp [argumentFindings, equal, placed, suits.suited]

/-! ## Expressions -/

mutual

/-- A well-typed expression is well scoped, and its resolved form passes. -/
theorem checkExpr_of_hasType {env} (finished : env.Finished) {node node' type} :
    HasType env node type node' ->
    exists resolved, ScopedExpr env node resolved
      ∧ checkExpr resolved = .ok { part := node', type := some type }
  | .number => ⟨_, .number, rfl⟩
  | .real => ⟨_, .real, rfl⟩
  | .bool => ⟨_, .bool, rfl⟩
  | .char => ⟨_, .char, rfl⟩
  | .ident binds => by
    have sized : Sized type := binds.holds finished
    refine ⟨_, .ident binds, ?_⟩
    rw [checkExpr]
    exact congrArg Except.ok (notedType_of_known sized.known)
  | .member base found => by
    rcases checkExpr_of_hasType finished base with ⟨resolved, judged, passed⟩
    refine ⟨_, .member judged, ?_⟩
    rw [checkExpr, passed]
    exact checkMember_of_fieldAt found _ _ _
  | .subscript array index => by
    rcases checkExpr_of_hasType finished array with ⟨_, judgedArray, passedArray⟩
    rcases checkExpr_of_hasType finished index with ⟨_, judgedIndex, passedIndex⟩
    refine ⟨_, .subscript judgedArray judgedIndex, ?_⟩
    rw [checkExpr, passedArray, passedIndex]
    rfl
  | .unary rule operand => by
    rcases checkExpr_of_hasType finished operand with ⟨_, judged, passed⟩
    refine ⟨_, .unary rule judged, ?_⟩
    have same := Same.refl rule.sized.1.proper
    simp [checkExpr, passed, unary_iff.mpr rule, Results.ok_bind, signatureOf,
      operandFindings_of_same same, Typed.ok]
  | .binary rule left right => by
    rcases checkExpr_of_hasType finished left with ⟨_, judgedLeft, passedLeft⟩
    rcases checkExpr_of_hasType finished right with ⟨_, judgedRight, passedRight⟩
    refine ⟨_, .binary rule judgedLeft judgedRight, ?_⟩
    have same := Same.refl rule.sized.1.proper
    simp [checkExpr, passedLeft, passedRight, binary_iff.mpr rule, Results.ok_bind, signatureOf,
      operandFindings_of_same same, Typed.ok]
  | .call binds args => by
    rcases checkExprs_of_takesArgs finished args with ⟨_, judged, typed, passed, parts, suits⟩
    refine ⟨_, .call binds judged, ?_⟩
    rw [checkExpr, passed, ← parts]
    exact congrArg Except.ok (checkCall_of_suits suits _ _)

theorem checkExprs_of_takesArgs {env} (finished : env.Finished) {params nodes nodes'} :
    TakesArgs env params nodes nodes' ->
    exists resolved, ScopedExprs env nodes resolved
      ∧ exists args, checkExprs resolved = .ok args ∧ args.map Typed.part = nodes'
        ∧ Suits params args
  | .nil => ⟨[], .nil, [], rfl, rfl, ⟨rfl, rfl, rfl, fun _ _ _ => rfl⟩⟩
  | .cons arg accepts rest => by
    rcases checkExpr_of_hasType finished arg with ⟨_, judged, passed⟩
    rcases checkExprs_of_takesArgs finished rest
        with ⟨_, judgedRest, args, passedRest, parts, suits⟩
    refine ⟨_, .cons judged judgedRest, _, ?_, ?_,
      suits_cons accepts.same
        (fun composite => arg.isAddressable_iff.mpr (accepts.place composite)) suits⟩
    · rw [checkExprs, passed, passedRest]
      rfl
    · rw [List.map_cons, parts]

end

theorem present_of_scoped {resolved} (judged : ScopedExpr env node resolved) :
    resolved.isPresent = true := by
  cases judged <;> rfl

/-! ## Stores -/

theorem checkStore_of_accepts {value value'} (judged : HasType env value found value')
    (accepts : Accepts wanted found value) (storage : Storage) (span : Span) :
    checkStore storage span wanted { part := value', type := some found } = (true, []) := by
  have placed : (wanted.isComposite && !value'.isAddressable) = false := by
    cases composite : wanted.isComposite with
    | false => rfl
    | true => rw [judged.isAddressable_iff.mpr (accepts.place composite)]; rfl
  simp [checkStore, equal_of_same accepts.same, placed]

/-! ## Statements -/

theorem checkCondition_of_hasType (finished : env.Finished) {test test'}
    (judged : HasType env test .boolean test') (stmt : Conditional) :
    exists resolved, ScopedExpr env test resolved
      ∧ checkCondition stmt resolved = .ok { part := test', ok := true } := by
  rcases checkExpr_of_hasType finished judged with ⟨resolved, bound, passed⟩
  refine ⟨resolved, bound, ?_⟩
  rw [checkCondition, passed]
  rfl

mutual

/-- A well-typed statement is well scoped, and its resolved form passes. -/
theorem checkStmt_of_typed (around : Option Around) {context behind node node'} :
    TypedStmt (around.map Around.result) context node node' behind -> context.env.Finished ->
    exists resolved, ScopedStmt context node resolved behind
      ∧ checkStmt around resolved = .ok { part := node', ok := true }
  | .block stmts, finished => by
    rcases checkStmts_of_typed around stmts (Context.enter_finished finished)
        with ⟨_, judged, passed⟩
    refine ⟨_, .block judged, ?_⟩
    rw [checkStmt, passed]
    rfl
  | .varDecl denotes free, _ => ⟨_, .varDecl denotes free, rfl⟩
  | .varDeclInit init denotes free accepts, finished => by
    rcases checkExpr_of_hasType finished init with ⟨_, judged, passed⟩
    refine ⟨_, .varDeclInit judged denotes free, ?_⟩
    rw [checkStmt, checkVarDecl, if_pos (present_of_scoped judged), passed, Results.ok_bind]
    simp [placeNote, typeNote, checkStore_of_accepts init accepts]
  | .assign target place value accepts, finished => by
    rcases checkExpr_of_hasType finished target with ⟨_, judgedTarget, passedTarget⟩
    rcases checkExpr_of_hasType finished value with ⟨_, judgedValue, passedValue⟩
    refine ⟨_, .assign judgedTarget judgedValue, ?_⟩
    rw [checkStmt, checkAssign, passedTarget, passedValue]
    simp [Results.ok_bind, target.isAddressable_iff.mpr place, checkStore_of_accepts value accepts]
  | .branch test thenBody, finished => by
    rcases checkCondition_of_hasType finished test .branch with ⟨_, judgedTest, passedTest⟩
    rcases checkStmt_of_typed around thenBody finished with ⟨_, judgedThen, passedThen⟩
    refine ⟨_, .branch judgedTest judgedThen, ?_⟩
    rw [checkStmt, passedTest, passedThen]
    rfl
  | .branchElse test thenBody elseBody, finished => by
    rcases checkCondition_of_hasType finished test .branch with ⟨_, judgedTest, passedTest⟩
    rcases checkStmt_of_typed around thenBody finished with ⟨_, judgedThen, passedThen⟩
    rcases checkStmt_of_typed around elseBody (thenBody.grows.finished finished)
        with ⟨_, judgedElse, passedElse⟩
    refine ⟨_, .branchElse judgedTest judgedThen judgedElse, ?_⟩
    rw [checkStmt, passedTest, passedThen, passedElse]
    rfl
  | .loop test body, finished => by
    rcases checkCondition_of_hasType finished test .loop with ⟨_, judgedTest, passedTest⟩
    rcases checkStmt_of_typed around body finished with ⟨_, judgedBody, passedBody⟩
    refine ⟨_, .loop judgedTest judgedBody, ?_⟩
    rw [checkStmt, passedTest, passedBody]
    rfl
  | .ret inside value same, finished => by
    rcases checkExpr_of_hasType finished value with ⟨_, judged, passed⟩
    refine ⟨_, .retValue judged, ?_⟩
    cases around with
    | none => cases inside
    | some around =>
      cases inside
      rw [checkStmt, checkReturn]
      simp [present_of_scoped judged, passed, Results.ok_bind, operandFindings_of_same same,
        Typed.ok]

theorem checkStmts_of_typed (around : Option Around) {context behind nodes nodes'} :
    TypedStmts (around.map Around.result) context nodes nodes' behind -> context.env.Finished ->
    exists resolved, ScopedStmts context nodes resolved behind
      ∧ checkStmts around resolved = .ok { part := nodes', ok := true }
  | .nil, _ => ⟨[], .nil, rfl⟩
  | .cons first rest, finished => by
    rcases checkStmt_of_typed around first finished with ⟨_, judged, passed⟩
    rcases checkStmts_of_typed around rest (first.grows.finished finished)
        with ⟨_, judgedRest, passedRest⟩
    refine ⟨_, .cons judged judgedRest, ?_⟩
    rw [checkStmts, passed, passedRest]
    rfl

end

end Typing
end PCode
