import PCode.Proofs.Static.Typing

set_option linter.unusedSectionVars false

namespace PCode

/-!
Functions at other positions.

A call notes the function that it reaches by its position in the program.  When
the functions of a program change places, nothing else in a judged tree does:
names are found equally far out and stand for things of the same types.  So each
judgement about a body carries over to any environment that agrees with its own
up to the positions of functions, and gives the same tree with new positions.
-/

/-- The function that a call reaches, at its new position. -/
def Callee.reindex (new : Nat -> Nat) (callee : Callee) : Callee :=
  { callee with function := new callee.function }

namespace Node

mutual

/-- A tree whose calls reach functions at new positions.  Parameters have no calls. -/
def reindex (new : Nat -> Nat) : Node -> Node
  | .absent => .absent
  | .blank note kind => .blank note kind
  | .number note value => .number note value
  | .real note value => .real note value
  | .bool note value => .bool note value
  | .char note code => .char note code
  | .ident note name => .ident note name
  | .member note base field offset => .member note (reindex new base) field offset
  | .subscript note array index => .subscript note (reindex new array) (reindex new index)
  | .unary note operator operand => .unary note operator (reindex new operand)
  | .binary note operator left right =>
    .binary note operator (reindex new left) (reindex new right)
  | .call note name args callee =>
    .call note name (reindexEach new args) (callee.map (Callee.reindex new))
  | .varDecl note name type init => .varDecl note name type (reindex new init)
  | .assign note target value => .assign note (reindex new target) (reindex new value)
  | .branch note test thenBody elseBody =>
    .branch note (reindex new test) (reindex new thenBody) (reindex new elseBody)
  | .loop note test body => .loop note (reindex new test) (reindex new body)
  | .ret note value => .ret note (reindex new value)
  | .block note stmts => .block note (reindexEach new stmts)
  | .structDecl note name fields => .structDecl note name fields
  | .funcDecl note name params result body signature entry =>
    .funcDecl note name params result (reindex new body) signature entry

/-- Trees whose calls reach functions at new positions. -/
def reindexEach (new : Nat -> Nat) : List Node -> List Node
  | [] => []
  | node :: nodes => reindex new node :: reindexEach new nodes

end

variable (new : Nat -> Nat)

@[simp] theorem note_reindex (node : Node) : (node.reindex new).note = node.note := by
  cases node <;> rfl

@[simp] theorem type_reindex (node : Node) : (node.reindex new).type = node.type :=
  congrArg Note.type (note_reindex new node)

@[simp] theorem isPresent_reindex (node : Node) :
    (node.reindex new).isPresent = node.isPresent := by
  cases node <;> rfl

@[simp] theorem length_reindexEach (nodes : List Node) :
    (reindexEach new nodes).length = nodes.length := by
  induction nodes with
  | nil => rfl
  | cons node nodes ih => exact congrArg (· + 1) ih

mutual

@[simp] theorem reindex_id : forall node : Node, node.reindex id = node
  | .absent | .blank _ _ | .number _ _ | .real _ _ | .bool _ _ | .char _ _ | .ident _ _ => rfl
  | .structDecl _ _ _ => rfl
  | .member _ base _ _ => by rw [reindex, reindex_id base]
  | .subscript _ array index => by rw [reindex, reindex_id array, reindex_id index]
  | .unary _ _ operand => by rw [reindex, reindex_id operand]
  | .binary _ _ left right => by rw [reindex, reindex_id left, reindex_id right]
  | .call _ _ args callee => by
    rw [reindex, reindexEach_id args]
    cases callee <;> rfl
  | .varDecl _ _ _ init => by rw [reindex, reindex_id init]
  | .assign _ target value => by rw [reindex, reindex_id target, reindex_id value]
  | .branch _ test thenBody elseBody => by
    rw [reindex, reindex_id test, reindex_id thenBody, reindex_id elseBody]
  | .loop _ test body => by rw [reindex, reindex_id test, reindex_id body]
  | .ret _ value => by rw [reindex, reindex_id value]
  | .block _ stmts => by rw [reindex, reindexEach_id stmts]
  | .funcDecl _ _ _ _ body _ _ => by rw [reindex, reindex_id body]

theorem reindexEach_id : forall nodes : List Node, reindexEach id nodes = nodes
  | [] => rfl
  | node :: nodes => by rw [reindexEach, reindex_id node, reindexEach_id nodes]

end

end Node

namespace Static

/-! ## Environments up to positions -/

/-- What a name stands for, with functions at new positions. -/
def Binding.reindex (new : Nat -> Nat) : Binding -> Binding
  | .variable type offset byRef => .variable type offset byRef
  | .function callee => .function (callee.reindex new)
  | .struct type => .struct type

/-- Two scopes have the same names, and these stand for the same up to the
positions of functions. -/
def Layer.Agrees (new : Nat -> Nat) (layer layer' : Layer) : Prop :=
  forall name, layer'.lookup name = (layer.lookup name).map (Binding.reindex new)

/-- Two environments agree scope by scope. -/
abbrev Env.Agrees (new : Nat -> Nat) (env env' : Env) : Prop :=
  List.Forall₂ (Layer.Agrees new) env env'

/-- Two contexts agree scope by scope and have the same cells taken. -/
structure Context.Agrees (new : Nat -> Nat) (context context' : Context) : Prop where
  inner : Layer.Agrees new context.inner context'.inner
  outer : Env.Agrees new context.outer context'.outer
  used : context'.used = context.used

section Agreement

variable {new : Nat -> Nat} {layer layer' : Layer} {name : String}

theorem Layer.Agrees.nil : Layer.Agrees new [] [] := fun _ => rfl

theorem Layer.Agrees.missing (agrees : Layer.Agrees new layer layer')
    (missing : layer.lookup name = none) : layer'.lookup name = none := by
  rw [agrees name, missing]
  rfl

theorem Layer.Agrees.push (agrees : Layer.Agrees new layer layer') (name : String)
    (binding : Binding) : Layer.Agrees new (layer ++ [(name, binding)])
      (layer' ++ [(name, binding.reindex new)]) := by
  intro other
  rw [lookup_snoc, lookup_snoc, agrees other]
  cases layer.lookup other with
  | some earlier => rfl
  | none =>
    rw [Option.map_none, Option.none_or, Option.none_or]
    split <;> rfl

theorem Binds.reindex {env env' out binding} (binds : Binds env name out binding)
    (agrees : Env.Agrees new env env') : Binds env' name out (binding.reindex new) := by
  induction binds generalizing env' with
  | here found =>
    cases agrees with
    | cons first _ => exact .here ((first _).trans (congrArg (Option.map _) found))
  | outward missing _ ih =>
    cases agrees with
    | cons first rest => exact .outward (first.missing missing) (ih rest)

/-- Types do not depend on the positions of functions. -/
theorem Denotes.reindex {env env' declared type} (denotes : Denotes env declared type)
    (agrees : Env.Agrees new env env') : Denotes env' declared type := by
  induction denotes with
  | integer => exact .integer
  | boolean => exact .boolean
  | real => exact .real
  | char => exact .char
  | struct found => exact .struct (found.reindex agrees)
  | array positive _ bounded ih =>
    exact .array positive ih bounded

namespace Context.Agrees

theorem start {env env'} (agrees : Env.Agrees new env env') :
    (Context.start env).Agrees new (.start env') :=
  ⟨.nil, agrees, rfl⟩

variable {context context' : Context} (agrees : context.Agrees new context')

include agrees

theorem env : Env.Agrees new context.env context'.env := .cons agrees.inner agrees.outer

theorem enter : context.enter.Agrees new context'.enter := ⟨.nil, agrees.env, agrees.used⟩

theorem resume {inside inside'} (inner : inside.Agrees new inside') :
    (context.resume inside).Agrees new (context'.resume inside') :=
  ⟨agrees.inner, agrees.outer, inner.used⟩

theorem declare (name : String) (type : Ty) (byRef : Bool) :
    (context.declare name type byRef).Agrees new (context'.declare name type byRef) := by
  refine ⟨?_, agrees.outer, congrArg (· + Context.cellsOf type byRef) agrees.used⟩
  simp only [Context.declare, agrees.used]
  exact agrees.inner.push name (.variable type context.used byRef)

end Context.Agrees

end Agreement

/-! ## Expressions -/

variable {new : Nat -> Nat}

section Expressions

variable {env env' : Env} (agrees : Env.Agrees new env env')

include agrees

mutual

theorem ScopedExpr.reindex {node node'} :
    ScopedExpr env node node' -> ScopedExpr env' node (node'.reindex new)
  | .number => .number
  | .real => .real
  | .bool => .bool
  | .char => .char
  | .ident binds => .ident (binds.reindex agrees)
  | .member base => .member base.reindex
  | .subscript array index => .subscript array.reindex index.reindex
  | .unary rule operand => .unary rule operand.reindex
  | .binary rule left right => .binary rule left.reindex right.reindex
  | .call binds args => .call (binds.reindex agrees) args.reindex

theorem ScopedExprs.reindex {nodes nodes'} :
    ScopedExprs env nodes nodes' -> ScopedExprs env' nodes (Node.reindexEach new nodes')
  | .nil => .nil
  | .cons first rest => .cons first.reindex rest.reindex

end

mutual

theorem HasType.reindex {node node' type} :
    HasType env node type node' -> HasType env' node type (node'.reindex new)
  | .number => .number
  | .real => .real
  | .bool => .bool
  | .char => .char
  | .ident binds => .ident (binds.reindex agrees)
  | .member base found => .member base.reindex found
  | .subscript array index => .subscript array.reindex index.reindex
  | .unary rule operand => .unary rule operand.reindex
  | .binary rule left right => .binary rule left.reindex right.reindex
  | .call binds args => .call (binds.reindex agrees) args.reindex

theorem TakesArgs.reindex {params nodes nodes'} :
    TakesArgs env params nodes nodes' ->
    TakesArgs env' params nodes (Node.reindexEach new nodes')
  | .nil => .nil
  | .cons first accepts rest => .cons first.reindex accepts rest.reindex

end

end Expressions

/-! ## The scoping judgement -/

mutual

theorem ScopedStmt.reindex {context context' behind node node'}
    (agrees : context.Agrees new context') :
    ScopedStmt context node node' behind ->
    exists behind', ScopedStmt context' node (node'.reindex new) behind'
      ∧ behind.Agrees new behind'
  | .block stmts => by
    rcases stmts.reindex agrees.enter with ⟨inside, judged, inner⟩
    exact ⟨_, .block judged, agrees.resume inner⟩
  | .varDecl denotes missing => by
    refine ⟨_, ?_, agrees.declare _ _ _⟩
    rw [← agrees.used]
    exact .varDecl (denotes.reindex agrees.env) (agrees.inner.missing missing)
  | .varDeclInit init denotes missing => by
    refine ⟨_, ?_, agrees.declare _ _ _⟩
    rw [← agrees.used]
    exact .varDeclInit (init.reindex agrees.env) (denotes.reindex agrees.env)
      (agrees.inner.missing missing)
  | .assign target value =>
    ⟨context', .assign (target.reindex agrees.env) (value.reindex agrees.env), agrees⟩
  | .branch test thenBody => by
    rcases thenBody.reindex agrees with ⟨behind', judged, agreesBehind⟩
    exact ⟨behind', .branch (test.reindex agrees.env) judged, agreesBehind⟩
  | .branchElse test thenBody elseBody => by
    rcases thenBody.reindex agrees with ⟨between, judgedThen, agreesBetween⟩
    rcases elseBody.reindex agreesBetween with ⟨behind', judgedElse, agreesBehind⟩
    exact ⟨behind', .branchElse (test.reindex agrees.env) judgedThen judgedElse, agreesBehind⟩
  | .loop test body => by
    rcases body.reindex agrees with ⟨behind', judged, agreesBehind⟩
    exact ⟨behind', .loop (test.reindex agrees.env) judged, agreesBehind⟩
  | .ret => ⟨context', .ret, agrees⟩
  | .retValue value => ⟨context', .retValue (value.reindex agrees.env), agrees⟩

theorem ScopedStmts.reindex {context context' behind nodes nodes'}
    (agrees : context.Agrees new context') :
    ScopedStmts context nodes nodes' behind ->
    exists behind', ScopedStmts context' nodes (Node.reindexEach new nodes') behind'
      ∧ behind.Agrees new behind'
  | .nil => ⟨context', .nil, agrees⟩
  | .cons first rest => by
    rcases first.reindex agrees with ⟨between, judgedFirst, agreesBetween⟩
    rcases rest.reindex agreesBetween with ⟨behind', judgedRest, agreesBehind⟩
    exact ⟨behind', .cons judgedFirst judgedRest, agreesBehind⟩

end

/-- Parameters have no calls, so they stay as they are. -/
theorem ScopedFormals.reindex {context context' behind nodes nodes'}
    (judged : ScopedFormals context nodes nodes' behind) (agrees : context.Agrees new context') :
    exists behind', ScopedFormals context' nodes nodes' behind' ∧ behind.Agrees new behind' := by
  induction judged generalizing context' with
  | nil => exact ⟨context', .nil, agrees⟩
  | cons missing _ ih =>
    rcases ih (agrees.declare _ _ _) with ⟨behind', rest, agreesBehind⟩
    refine ⟨behind', ?_, agreesBehind⟩
    rw [← agrees.used]
    exact .cons (agrees.inner.missing missing) rest

theorem ScopedFunction.reindex {env env' node node'} (judged : ScopedFunction env node node')
    (agrees : Env.Agrees new env env') : ScopedFunction env' node (node'.reindex new) := by
  cases judged with
  | funcDecl formals stmts bounded =>
    rcases formals.reindex (.start agrees) with ⟨_, formals, agreesFormals⟩
    rcases stmts.reindex agreesFormals.enter with ⟨_, stmts, agreesBehind⟩
    rw [← agreesBehind.used] at bounded ⊢
    exact .funcDecl formals stmts bounded

theorem ScopedTop.reindex {env env' node node'} (judged : ScopedTop env node node')
    (agrees : Env.Agrees new env env') : ScopedTop env' node (node'.reindex new) := by
  cases judged with
  | block stmts bounded =>
    rcases stmts.reindex (.start agrees) with ⟨_, stmts, agreesBehind⟩
    rw [← agreesBehind.used] at bounded ⊢
    exact .block stmts bounded

/-! ## The typing judgement -/

mutual

theorem TypedStmt.reindex {around context context' behind node node'}
    (agrees : context.Agrees new context') :
    TypedStmt around context node node' behind ->
    exists behind', TypedStmt around context' node (node'.reindex new) behind'
      ∧ behind.Agrees new behind'
  | .block stmts => by
    rcases stmts.reindex agrees.enter with ⟨inside, typed, inner⟩
    exact ⟨_, .block typed, agrees.resume inner⟩
  | .varDecl denotes missing => by
    refine ⟨_, ?_, agrees.declare _ _ _⟩
    rw [← agrees.used]
    exact .varDecl (denotes.reindex agrees.env) (agrees.inner.missing missing)
  | .varDeclInit init denotes missing accepts => by
    refine ⟨_, ?_, agrees.declare _ _ _⟩
    rw [← agrees.used]
    exact .varDeclInit (init.reindex agrees.env) (denotes.reindex agrees.env)
      (agrees.inner.missing missing) accepts
  | .assign target place value accepts =>
    ⟨context', .assign (target.reindex agrees.env) place (value.reindex agrees.env) accepts,
      agrees⟩
  | .branch test thenBody => by
    rcases thenBody.reindex agrees with ⟨behind', typed, agreesBehind⟩
    exact ⟨behind', .branch (test.reindex agrees.env) typed, agreesBehind⟩
  | .branchElse test thenBody elseBody => by
    rcases thenBody.reindex agrees with ⟨between, typedThen, agreesBetween⟩
    rcases elseBody.reindex agreesBetween with ⟨behind', typedElse, agreesBehind⟩
    exact ⟨behind', .branchElse (test.reindex agrees.env) typedThen typedElse, agreesBehind⟩
  | .loop test body => by
    rcases body.reindex agrees with ⟨behind', typed, agreesBehind⟩
    exact ⟨behind', .loop (test.reindex agrees.env) typed, agreesBehind⟩
  | .ret inside value same => ⟨context', .ret inside (value.reindex agrees.env) same, agrees⟩

theorem TypedStmts.reindex {around context context' behind nodes nodes'}
    (agrees : context.Agrees new context') :
    TypedStmts around context nodes nodes' behind ->
    exists behind', TypedStmts around context' nodes (Node.reindexEach new nodes') behind'
      ∧ behind.Agrees new behind'
  | .nil => ⟨context', .nil, agrees⟩
  | .cons first rest => by
    rcases first.reindex agrees with ⟨between, typedFirst, agreesBetween⟩
    rcases rest.reindex agreesBetween with ⟨behind', typedRest, agreesBehind⟩
    exact ⟨behind', .cons typedFirst typedRest, agreesBehind⟩

end

theorem TypedFunction.reindex {env env' node node'} (typed : TypedFunction env node node')
    (agrees : Env.Agrees new env env') : TypedFunction env' node (node'.reindex new) := by
  cases typed with
  | funcDecl formals scalar stmts bounded =>
    rcases formals.reindex (.start agrees) with ⟨_, formals, agreesFormals⟩
    rcases stmts.reindex agreesFormals.enter with ⟨_, stmts, agreesBehind⟩
    rw [← agreesBehind.used] at bounded ⊢
    exact .funcDecl formals scalar stmts bounded

theorem TypedTop.reindex {env env' node node'} (typed : TypedTop env node node')
    (agrees : Env.Agrees new env env') : TypedTop env' node (node'.reindex new) := by
  cases typed with
  | block stmts bounded =>
    rcases stmts.reindex (.start agrees) with ⟨_, stmts, agreesBehind⟩
    rw [← agreesBehind.used] at bounded ⊢
    exact .block stmts bounded

end Static
end PCode
