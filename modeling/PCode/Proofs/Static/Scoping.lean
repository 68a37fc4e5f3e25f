import Mathlib.Data.List.Forall2
import PCode.Program
import PCode.Proofs.Static.Environment

namespace PCode
namespace Static

/-!
The scoping judgement.

A part of a program is well scoped when every name in it stands for something of
the right sort.  The judgement gives the part with its notes: the type, the
place and the distance of each variable that is used, the function that each
call reaches, and the cells of each variable that is declared.  Statements go
from a context to the context behind them; only declarations change it, and only
in the innermost scope.

The rules speak of immutable environments.  There is no table that scopes are
pushed onto or popped from, no counting of uses and no recovery from errors.
-/

/-! ## Notes -/

/-- The note of a use of a variable that was found `out` scopes out. -/
def useNote (note : Note) (out : Nat) (type : Ty) (offset : Int) (byRef : Bool) : Note :=
  { note with type, delta := out, address := { offset := Int64.ofInt offset, byRef } }

/-- The note of a call to a function that was found `out` scopes out. -/
def callNote (note : Note) (out : Nat) (result : Ty) : Note :=
  { note with type := result, delta := out }

/-- The note of a declaration of a variable at `offset`. -/
def placeNote (note : Note) (offset : Int) (byRef : Bool) : Note :=
  { note with address := { offset := Int64.ofInt offset, byRef } }

/-- A note with a type. -/
def typeNote (note : Note) (type : Ty) : Note := { note with type }

/-- A note with the size of a frame. -/
def frameNote (note : Note) (size : Int) : Note := { note with frameSize := Int64.ofInt size }

/-! ## Operators -/

/-- The operand and the result of an operator that stands before its operand. -/
inductive UnaryRule : Operator -> Ty -> Ty -> Prop
  | negate : UnaryRule .minus .integer .integer
  | not : UnaryRule .not .boolean .boolean

/-- The operands and the result of an operator that stands between them. -/
inductive BinaryRule : Operator -> Ty -> Ty -> Prop
  | arithmetic {operator} :
    operator ∈ [.plus, .minus, .star, .slash, .rem] -> BinaryRule operator .integer .integer
  | logic {operator} : operator ∈ [.and, .or] -> BinaryRule operator .boolean .boolean
  | comparison {operator} :
    operator ∈ [.eq, .neq, .lt, .lte, .gt, .gte] -> BinaryRule operator .integer .boolean

variable {operator : Operator} {operand result type : Ty} {fields : List (String × Ty)}

theorem unary_iff :
    operator.unary? = some ⟨operand, result⟩ <-> UnaryRule operator operand result := by
  constructor
  · intro known
    cases operator <;> cases known
    · exact .negate
    · exact .not
  · intro rule
    cases rule <;> rfl

theorem binary_iff :
    operator.binary? = some ⟨operand, result⟩ <-> BinaryRule operator operand result := by
  constructor
  · intro known
    cases operator with
    | plus | minus | star | slash | rem => cases known; exact .arithmetic (by decide)
    | and | or => cases known; exact .logic (by decide)
    | eq | neq | lt | lte | gt | gte => cases known; exact .comparison (by decide)
    | not | other _ => cases known
  · intro rule
    cases rule with
    | arithmetic listed | logic listed | comparison listed =>
      simp only [List.mem_cons, List.not_mem_nil, or_false] at listed
      casesm* _ ∨ _ <;> subst operator <;> rfl

/-! ## Expressions -/

mutual

/-- An expression is well scoped, and its names have been bound. -/
inductive ScopedExpr (env : Env) : Node -> Node -> Prop
  | number {note value} :
    ScopedExpr env (.number note value) (.number (typeNote note .integer) value)
  | real {note value} : ScopedExpr env (.real note value) (.real (typeNote note .real) value)
  | bool {note value} : ScopedExpr env (.bool note value) (.bool (typeNote note .boolean) value)
  | char {note code} : ScopedExpr env (.char note code) (.char (typeNote note .char) code)
  | ident {note name out type offset byRef} :
    Binds env name out (.variable type offset byRef) ->
    ScopedExpr env (.ident note name) (.ident (useNote note out type offset byRef) name)
  | member {note base base' field offset} :
    ScopedExpr env base base' ->
    ScopedExpr env (.member note base field offset) (.member note base' field offset)
  | subscript {note array array' index index'} :
    ScopedExpr env array array' -> ScopedExpr env index index' ->
    ScopedExpr env (.subscript note array index) (.subscript note array' index')
  | unary {note operator wanted result operand operand'} :
    UnaryRule operator wanted result -> ScopedExpr env operand operand' ->
    ScopedExpr env (.unary note operator operand)
      (.unary (typeNote note result) operator operand')
  | binary {note operator wanted result left left' right right'} :
    BinaryRule operator wanted result -> ScopedExpr env left left' ->
    ScopedExpr env right right' ->
    ScopedExpr env (.binary note operator left right)
      (.binary (typeNote note result) operator left' right')
  | call {note name args args' previous out callee} :
    Binds env name out (.function callee) -> ScopedExprs env args args' ->
    ScopedExpr env (.call note name args previous)
      (.call (callNote note out callee.signature.result) name args' (some callee))

/-- Expressions that are well scoped, one by one. -/
inductive ScopedExprs (env : Env) : List Node -> List Node -> Prop
  | nil : ScopedExprs env [] []
  | cons {node node' nodes nodes'} :
    ScopedExpr env node node' -> ScopedExprs env nodes nodes' ->
    ScopedExprs env (node :: nodes) (node' :: nodes')

end

mutual

/-- An expression has one resolved form only. -/
theorem ScopedExpr.unique {env node left right} :
    ScopedExpr env node left -> ScopedExpr env node right -> left = right
  | .number, .number => rfl
  | .real, .real => rfl
  | .bool, .bool => rfl
  | .char, .char => rfl
  | .ident binds, .ident binds' => by
    cases binds.unique binds' with
    | intro sameOut sameBinding => cases sameOut; cases sameBinding; rfl
  | .member base, .member base' => by rw [base.unique base']
  | .subscript array index, .subscript array' index' => by
    rw [array.unique array', index.unique index']
  | .unary rule operand, .unary rule' operand' => by
    cases (unary_iff.mpr rule).symm.trans (unary_iff.mpr rule')
    rw [operand.unique operand']
  | .binary rule first second, .binary rule' first' second' => by
    cases (binary_iff.mpr rule).symm.trans (binary_iff.mpr rule')
    rw [first.unique first', second.unique second']
  | .call binds args, .call binds' args' => by
    cases binds.unique binds' with
    | intro sameOut sameBinding => cases sameOut; cases sameBinding; rw [args.unique args']

theorem ScopedExprs.unique {env nodes left right} :
    ScopedExprs env nodes left -> ScopedExprs env nodes right -> left = right
  | .nil, .nil => rfl
  | .cons first rest, .cons first' rest' => by rw [first.unique first', rest.unique rest']

end

/-! ## Statements -/

mutual

/-- A statement is well scoped in a context and leads to the next one.  A block
opens a scope; a branch or a body that is no block opens none.  An initial value
is judged before its variable is declared, and a name is declared only once in a
scope. -/
inductive ScopedStmt : Context -> Node -> Node -> Context -> Prop
  | block {context inside note stmts stmts'} :
    ScopedStmts context.enter stmts stmts' inside ->
    ScopedStmt context (.block note stmts) (.block note stmts') (context.resume inside)
  | varDecl {context note name declared type} :
    Denotes context.env declared type -> context.inner.lookup name = none ->
    ScopedStmt context (.varDecl note name declared .absent)
      (.varDecl (placeNote (typeNote note type) context.used false) name declared .absent)
      (context.declare name type false)
  | varDeclInit {context note name declared type init init'} :
    ScopedExpr context.env init init' -> Denotes context.env declared type ->
    context.inner.lookup name = none ->
    ScopedStmt context (.varDecl note name declared init)
      (.varDecl (placeNote (typeNote note type) context.used false) name declared init')
      (context.declare name type false)
  | assign {context note target target' value value'} :
    ScopedExpr context.env target target' -> ScopedExpr context.env value value' ->
    ScopedStmt context (.assign note target value) (.assign note target' value') context
  | branch {context behind note test test' thenBody thenBody'} :
    ScopedExpr context.env test test' -> ScopedStmt context thenBody thenBody' behind ->
    ScopedStmt context (.branch note test thenBody .absent)
      (.branch note test' thenBody' .absent) behind
  | branchElse {context between behind note test test' thenBody thenBody' elseBody elseBody'} :
    ScopedExpr context.env test test' -> ScopedStmt context thenBody thenBody' between ->
    ScopedStmt between elseBody elseBody' behind ->
    ScopedStmt context (.branch note test thenBody elseBody)
      (.branch note test' thenBody' elseBody') behind
  | loop {context behind note test test' body body'} :
    ScopedExpr context.env test test' -> ScopedStmt context body body' behind ->
    ScopedStmt context (.loop note test body) (.loop note test' body') behind
  | ret {context note} : ScopedStmt context (.ret note .absent) (.ret note .absent) context
  | retValue {context note value value'} :
    ScopedExpr context.env value value' ->
    ScopedStmt context (.ret note value) (.ret note value') context

/-- Statements that are well scoped one after another, in one scope. -/
inductive ScopedStmts : Context -> List Node -> List Node -> Context -> Prop
  | nil {context} : ScopedStmts context [] [] context
  | cons {context between behind node node' nodes nodes'} :
    ScopedStmt context node node' between -> ScopedStmts between nodes nodes' behind ->
    ScopedStmts context (node :: nodes) (node' :: nodes') behind

end

/-! ## Structures -/

/-- The fields of a structure, whose types use the environment only. -/
inductive ScopedFields (env : Env) : List Node -> List Node -> List (String × Ty) -> Prop
  | nil : ScopedFields env [] [] []
  | cons {note name declared type nodes nodes' fields} :
    Denotes env declared type -> ScopedFields env nodes nodes' fields ->
    ScopedFields env (.varDecl note name declared .absent :: nodes)
      (.varDecl (typeNote note type) name declared .absent :: nodes') ((name, type) :: fields)

/-- Structures in order.  Each has fields with distinct names whose types use
earlier structures only, stays within the limit, and has a name of its own. -/
inductive ScopedStructs : Layer -> List Node -> List Node -> Layer -> Prop
  | nil {layer} : ScopedStructs layer [] [] layer
  | cons {layer behind note name members members' fields nodes nodes'} :
    ScopedFields [layer] members members' fields -> members ≠ [] ->
    (fields.map Prod.fst).Nodup -> (Ty.struct name fields).cells <= Ty.cellLimit ->
    layer.lookup name = none ->
    ScopedStructs (layer ++ [(name, .struct (.struct name fields))]) nodes nodes' behind ->
    ScopedStructs layer (.structDecl note name members :: nodes)
      (.structDecl (typeNote note (.struct name fields)) name members' :: nodes') behind

/-! ## Functions and blocks of the main program -/

/-- The types of parameters. -/
inductive ScopedParams (env : Env) : List Node -> List Node -> List Ty -> Prop
  | nil : ScopedParams env [] [] []
  | cons {note name declared type init nodes nodes' types} :
    Denotes env declared type -> ScopedParams env nodes nodes' types ->
    ScopedParams env (.varDecl note name declared init :: nodes)
      (.varDecl (typeNote note type) name declared init :: nodes') (type :: types)

/-- The signatures of functions in order, the first of them at position `index`.
A signature may use the structures, as far as no earlier function has their
name, and every function has a name of its own. -/
inductive ScopedSignatures (structs : Layer) :
    Layer -> Nat -> List Node -> List Node -> Layer -> Prop
  | nil {layer index} : ScopedSignatures structs layer index [] [] layer
  | cons {layer behind index note name params params' types declared result body previous entry
    nodes nodes'} :
    ScopedParams [layer, structs] params params' types ->
    Denotes [layer, structs] declared result -> layer.lookup name = none ->
    ScopedSignatures structs (layer ++ [(name, .function ⟨⟨types, result⟩, index⟩)]) (index + 1)
      nodes nodes' behind ->
    ScopedSignatures structs layer index
      (.funcDecl note name params declared body previous entry :: nodes)
      (.funcDecl (typeNote note result) name params' declared body (some ⟨types, result⟩) entry
        :: nodes') behind

/-- Parameters become variables of the frame, composite ones by reference. -/
inductive ScopedFormals : Context -> List Node -> List Node -> Context -> Prop
  | nil {context} : ScopedFormals context [] [] context
  | cons {context behind note name declared init nodes nodes'} :
    context.inner.lookup name = none ->
    ScopedFormals (context.declare name note.type note.type.isComposite) nodes nodes' behind ->
    ScopedFormals context (.varDecl note name declared init :: nodes)
      (.varDecl (placeNote note context.used note.type.isComposite) name declared init :: nodes')
      behind

/-- A function with its signature: the parameters have a scope, and the body has
one inside it.  The frame stays within the limit. -/
inductive ScopedFunction (env : Env) : Node -> Node -> Prop
  | funcDecl
    {formals behind note bodyNote name params params' stmts stmts' declared signature entry} :
    ScopedFormals (Context.start env) params params' formals ->
    ScopedStmts formals.enter stmts stmts' behind -> behind.used <= Ty.cellLimit ->
    ScopedFunction env
      (.funcDecl note name params declared (.block bodyNote stmts) signature entry)
      (.funcDecl (frameNote note behind.used) name params' declared (.block bodyNote stmts')
        signature entry)

/-- A block of the main program has a frame of its own, within the limit. -/
inductive ScopedTop (env : Env) : Node -> Node -> Prop
  | block {behind note stmts stmts'} :
    ScopedStmts (Context.start env) stmts stmts' behind -> behind.used <= Ty.cellLimit ->
    ScopedTop env (.block note stmts) (.block (frameNote note behind.used) stmts')

/-! ## Programs -/

/-- A program is well scoped, and `resolved` is the program with its notes: the
structures in order, then all signatures, then every body with all signatures in
scope, and then at least one block of the main program. -/
inductive ScopedProgram (program : Program) : Program -> Prop
  | intro {structs declared functions blocks structLayer functionLayer} :
    ScopedStructs [] program.structs structs structLayer ->
    ScopedSignatures structLayer [] 0 program.functions declared functionLayer ->
    List.Forall₂ (ScopedFunction [functionLayer, structLayer]) declared functions ->
    program.blocks ≠ [] ->
    List.Forall₂ (ScopedTop [functionLayer, structLayer]) program.blocks blocks ->
    ScopedProgram program { structs, functions, blocks, phase := .resolved }

/-! ## What statements keep -/

/-- What statements may do to a context: they declare variables of finished types in the
innermost scope, and scopes inside them take cells. -/
inductive Grows : Context -> Context -> Prop
  | refl {context} : Grows context context
  | declare {context name type byRef} :
    (context.env.Finished -> Sized type) -> Grows context (context.declare name type byRef)
  | resume {context inside} : Grows context.enter inside -> Grows context (context.resume inside)
  | trans {context between behind} :
    Grows context between -> Grows between behind -> Grows context behind

mutual

theorem ScopedStmt.grows {context behind node node'} :
    ScopedStmt context node node' behind -> Grows context behind
  | .block stmts => .resume stmts.grows
  | .varDecl denotes _ => .declare denotes.sized
  | .varDeclInit _ denotes _ => .declare denotes.sized
  | .assign _ _ => .refl
  | .branch _ thenBody => thenBody.grows
  | .branchElse _ thenBody elseBody => thenBody.grows.trans elseBody.grows
  | .loop _ body => body.grows
  | .ret => .refl
  | .retValue _ => .refl

theorem ScopedStmts.grows {context behind nodes nodes'} :
    ScopedStmts context nodes nodes' behind -> Grows context behind
  | .nil => .refl
  | .cons first rest => first.grows.trans rest.grows

end

variable {context behind : Context} {env : Env} {name : String} {nodes nodes' : List Node}

theorem Context.enter_finished (finished : context.env.Finished) : context.enter.env.Finished :=
  .enter finished

theorem Context.start_finished (finished : env.Finished) : (Context.start env).env.Finished :=
  .enter finished

theorem Context.used_le_declare {byRef} (sized : Sized type) :
    context.used <= (context.declare name type byRef).used := by
  have nonneg := sized.cellsOf_nonneg byRef
  simp only [Context.declare]
  omega

namespace Grows

variable (grows : Grows context behind)

include grows

/-- Only the innermost scope changes. -/
theorem outer_eq : behind.outer = context.outer := by
  induction grows with
  | refl | declare _ | resume _ _ => rfl
  | trans _ _ first second => exact second.trans first

/-- What declarations keep is kept. -/
theorem keeps {Good : Env -> Prop} (declares : forall {context : Context} {name} {type} {byRef},
      Good context.env -> (context.env.Finished -> Sized type) ->
      Good (context.declare name type byRef).env) : Good context.env -> Good behind.env := by
  induction grows with
  | refl | resume _ _ => exact id
  | declare sized => exact fun good => declares good sized
  | trans _ _ first second => exact fun good => second (first good)

theorem finished : context.env.Finished -> behind.env.Finished :=
  grows.keeps fun finished sized => finished.push (sized finished)

/-- Cells that are taken stay taken. -/
theorem used_le (finished : context.env.Finished) : context.used <= behind.used := by
  induction grows with
  | refl => exact Int.le_refl _
  | declare sized => exact Context.used_le_declare (sized finished)
  | resume _ ih => exact ih (Context.enter_finished finished)
  | trans between _ first second =>
    exact Int.le_trans (first finished) (second (between.finished finished))

end Grows

/-! ## Finished layers -/

theorem ScopedFields.properFields
    (judged : ScopedFields env nodes nodes' fields) (finished : env.Finished) :
    ProperFields fields := by
  induction judged with
  | nil => trivial
  | cons denotes _ ih =>
    exact ⟨(denotes.sized finished).proper, ih⟩

/-- A well-scoped structure with fields is finished. -/
theorem ScopedFields.sized (judged : ScopedFields env nodes nodes' fields) (finished : env.Finished)
    (nonempty : nodes ≠ []) (bounded : (Ty.struct name fields).cells <= Ty.cellLimit) :
    Sized (.struct name fields) := by
  refine ⟨⟨?_, judged.properFields finished⟩, bounded⟩
  cases judged with
  | nil => exact absurd rfl nonempty
  | cons _ _ => exact List.cons_ne_nil _ _

theorem ScopedStructs.finished {layer behind} (judged : ScopedStructs layer nodes nodes' behind)
    (finished : Env.Finished [layer]) : Env.Finished [behind] := by
  induction judged with
  | nil => exact finished
  | cons fields nonempty _ bounded _ _ ih =>
    exact ih (finished.push (fields.sized finished nonempty bounded))

theorem ScopedParams.sized {types} (judged : ScopedParams env nodes nodes' types)
    (finished : env.Finished) : forall type, type ∈ types -> Sized type := by
  induction judged with
  | nil =>
    intro type member
    cases member
  | cons denotes _ ih =>
    intro type member
    rcases List.mem_cons.mp member with same | later
    · exact same ▸ denotes.sized finished
    · exact ih type later

theorem ScopedSignatures.finished {structs layer behind index}
    (judged : ScopedSignatures structs layer index nodes nodes' behind)
    (finished : Env.Finished [layer, structs]) : Env.Finished [behind, structs] := by
  induction judged with
  | nil => exact finished
  | cons params result _ _ ih =>
    exact ih (finished.push ⟨params.sized finished, result.sized finished⟩)

section Kinds

variable {Holds : Binding -> Prop} {structs layer behind : Layer}

/-- What holds of all structures holds of what structures add to an environment. -/
theorem ScopedStructs.keeps (judged : ScopedStructs layer nodes nodes' behind)
    (each : forall type, Holds (.struct type)) (all : Env.All Holds [layer]) :
    Env.All Holds [behind] := by
  induction judged with
  | nil => exact all
  | cons _ _ _ _ _ _ ih => exact ih (all.push (each _))

theorem ScopedSignatures.keeps {index}
    (judged : ScopedSignatures structs layer index nodes nodes' behind)
    (each : forall callee, Holds (.function callee)) (all : Env.All Holds (layer :: env)) :
    Env.All Holds (behind :: env) := by
  induction judged with
  | nil => exact all
  | cons _ _ _ _ ih => exact ih (all.push (each _))

end Kinds

end Static
end PCode
