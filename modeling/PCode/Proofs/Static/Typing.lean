import PCode.Proofs.Static.Scoping

namespace PCode
namespace Static

/-!
The typing judgement.

An expression has a type in an environment, and the judgement gives the
expression with its notes.  The rules are directed by the syntax: there is one
for each form.  Structures and arrays are handled by address, so where a value
of such a type is stored or passed it has to be a place in memory; functions
return scalars only.  Statements go from context to context as in the scoping
judgement, which the typing judgement contains.
-/

/-! ## Types that may stand for each other -/

/-- Two types are the same for a program: structures by name, arrays by length
and elements. -/
inductive Same : Ty -> Ty -> Prop
  | integer : Same .integer .integer
  | boolean : Same .boolean .boolean
  | real : Same .real .real
  | char : Same .char .char
  | struct {name fields fields'} : Same (.struct name fields) (.struct name fields')
  | array {length elem elem'} : Same elem elem' -> Same (.array length elem) (.array length elem')

theorem Same.refl {type} (proper : Proper type) : Same type type := by
  cases type with
  | integer => exact .integer
  | boolean => exact .boolean
  | real => exact .real
  | char => exact .char
  | struct name fields => exact .struct
  | array length elem => exact .array (Same.refl proper.2)
  | unknown => cases proper
  | other name => cases proper

theorem Same.symm {left right} (same : Same left right) : Same right left := by
  induction same with
  | integer => exact .integer
  | boolean => exact .boolean
  | real => exact .real
  | char => exact .char
  | struct => exact .struct
  | array _ ih => exact .array ih

theorem equal_of_same {left right} (same : Same left right) : left.equal right = true := by
  induction same with
  | integer => rfl
  | boolean => rfl
  | real => rfl
  | char => rfl
  | struct => exact beq_self_eq_true _
  | array _ ih =>
    rw [Ty.equal, ih, beq_self_eq_true, Bool.and_self]

theorem same_of_equal : forall {left right}, Proper left -> left.equal right = true ->
    Same left right
  | .integer, right, _, equal => by
    cases right with
    | integer => exact .integer
    | _ => cases equal
  | .boolean, right, _, equal => by
    cases right with
    | boolean => exact .boolean
    | _ => cases equal
  | .real, right, _, equal => by
    cases right with
    | real => exact .real
    | _ => cases equal
  | .char, right, _, equal => by
    cases right with
    | char => exact .char
    | _ => cases equal
  | .struct name fields, right, _, equal => by
    cases right with
    | struct name' fields' =>
      cases (beq_iff_eq.mp equal : name = name')
      exact .struct
    | _ => cases equal
  | .array length elem, right, proper, equal => by
    cases right with
    | array length' elem' =>
      rcases Bool.and_eq_true_iff.mp equal with ⟨sameLength, sameElem⟩
      cases beq_iff_eq.mp sameLength
      exact .array (same_of_equal proper.2 sameElem)
    | _ => cases equal

/-- A scalar is the same as itself only. -/
theorem Same.eq_of_scalar {left right} (same : Same left right)
    (scalar : right.isComposite = false) : left = right := by
  cases same with
  | integer => rfl
  | boolean => rfl
  | real => rfl
  | char => rfl
  | struct => cases scalar
  | array _ => cases scalar

/-! ## Places and fields -/

/-- An expression that denotes a place in memory: a variable, or a part of such a
place. -/
inductive IsPlace : Node -> Prop
  | ident {note name} : IsPlace (.ident note name)
  | member {note base field offset} : IsPlace base -> IsPlace (.member note base field offset)
  | subscript {note array index} : IsPlace array -> IsPlace (.subscript note array index)

/-- A value of type `found` may be stored or passed where `wanted` is asked for. -/
structure Accepts (wanted found : Ty) (value : Node) : Prop where
  same : Same wanted found
  place : wanted.isComposite = true -> IsPlace value

/-- The first field of a name, with its type and the number of cells before it. -/
inductive FieldAt (field : String) : List (String × Ty) -> Ty -> Int -> Prop
  | here {type fields} : FieldAt field ((field, type) :: fields) type 0
  | behind {other otherType type fields before} :
    other ≠ field -> FieldAt field fields type before ->
    FieldAt field ((other, otherType) :: fields) type (otherType.cells + before)

/-! ## Expressions -/

mutual

/-- An expression has a type. -/
inductive HasType (env : Env) : Node -> Ty -> Node -> Prop
  | number {note value} :
    HasType env (.number note value) .integer (.number (typeNote note .integer) value)
  | real {note value} : HasType env (.real note value) .real (.real (typeNote note .real) value)
  | bool {note value} :
    HasType env (.bool note value) .boolean (.bool (typeNote note .boolean) value)
  | char {note code} : HasType env (.char note code) .char (.char (typeNote note .char) code)
  | ident {note name out type offset byRef} :
    Binds env name out (.variable type offset byRef) ->
    HasType env (.ident note name) type (.ident (useNote note out type offset byRef) name)
  | member {note base base' field structName offset fields type before} :
    HasType env base (.struct structName fields) base' -> FieldAt field fields type before ->
    HasType env (.member note base field offset) type
      (.member (typeNote note type) base' field (Int64.ofInt before))
  | subscript {note array array' index index' length elem} :
    HasType env array (.array length elem) array' -> HasType env index .integer index' ->
    HasType env (.subscript note array index) elem
      (.subscript (typeNote note elem) array' index')
  | unary {note operator wanted result operand operand'} :
    UnaryRule operator wanted result -> HasType env operand wanted operand' ->
    HasType env (.unary note operator operand) result
      (.unary (typeNote note result) operator operand')
  | binary {note operator wanted result left left' right right'} :
    BinaryRule operator wanted result -> HasType env left wanted left' ->
    HasType env right wanted right' ->
    HasType env (.binary note operator left right) result
      (.binary (typeNote note result) operator left' right')
  | call {note name args args' previous out callee} :
    Binds env name out (.function callee) -> TakesArgs env callee.signature.params args args' ->
    HasType env (.call note name args previous) callee.signature.result
      (.call (callNote note out callee.signature.result) name args' (some callee))

/-- Arguments suit the parameters, one by one. -/
inductive TakesArgs (env : Env) : List Ty -> List Node -> List Node -> Prop
  | nil : TakesArgs env [] [] []
  | cons {param found params arg arg' args args'} :
    HasType env arg found arg' -> Accepts param found arg -> TakesArgs env params args args' ->
    TakesArgs env (param :: params) (arg :: args) (arg' :: args')

end

/-! ## Statements -/

mutual

/-- A statement is well typed.  `around` is the result of the function around
it, if there is one. -/
inductive TypedStmt (around : Option Ty) : Context -> Node -> Node -> Context -> Prop
  | block {context inside note stmts stmts'} :
    TypedStmts around context.enter stmts stmts' inside ->
    TypedStmt around context (.block note stmts) (.block note stmts') (context.resume inside)
  | varDecl {context note name declared type} :
    Denotes context.env declared type -> context.inner.lookup name = none ->
    TypedStmt around context (.varDecl note name declared .absent)
      (.varDecl (placeNote (typeNote note type) context.used false) name declared .absent)
      (context.declare name type false)
  | varDeclInit {context note name declared type found init init'} :
    HasType context.env init found init' -> Denotes context.env declared type ->
    context.inner.lookup name = none -> Accepts type found init ->
    TypedStmt around context (.varDecl note name declared init)
      (.varDecl (placeNote (typeNote note type) context.used false) name declared init')
      (context.declare name type false)
  | assign {context note target target' value value' wanted found} :
    HasType context.env target wanted target' -> IsPlace target ->
    HasType context.env value found value' -> Accepts wanted found value ->
    TypedStmt around context (.assign note target value) (.assign note target' value') context
  | branch {context behind note test test' thenBody thenBody'} :
    HasType context.env test .boolean test' ->
    TypedStmt around context thenBody thenBody' behind ->
    TypedStmt around context (.branch note test thenBody .absent)
      (.branch note test' thenBody' .absent) behind
  | branchElse {context between behind note test test' thenBody thenBody' elseBody elseBody'} :
    HasType context.env test .boolean test' ->
    TypedStmt around context thenBody thenBody' between ->
    TypedStmt around between elseBody elseBody' behind ->
    TypedStmt around context (.branch note test thenBody elseBody)
      (.branch note test' thenBody' elseBody') behind
  | loop {context behind note test test' body body'} :
    HasType context.env test .boolean test' -> TypedStmt around context body body' behind ->
    TypedStmt around context (.loop note test body) (.loop note test' body') behind
  | ret {context note value value' result found} :
    around = some result -> HasType context.env value found value' -> Same found result ->
    TypedStmt around context (.ret note value) (.ret note value') context

/-- Statements that are well typed one after another. -/
inductive TypedStmts (around : Option Ty) : Context -> List Node -> List Node -> Context -> Prop
  | nil {context} : TypedStmts around context [] [] context
  | cons {context between behind node node' nodes nodes'} :
    TypedStmt around context node node' between ->
    TypedStmts around between nodes nodes' behind ->
    TypedStmts around context (node :: nodes) (node' :: nodes') behind

end

/-! ## Programs -/

/-- A function with its signature is well typed.  Its result is a scalar. -/
inductive TypedFunction (env : Env) : Node -> Node -> Prop
  | funcDecl
    {formals behind note bodyNote name params params' stmts stmts' declared signature entry} :
    ScopedFormals (Context.start env) params params' formals ->
    signature.result.isComposite = false ->
    TypedStmts (some signature.result) formals.enter stmts stmts' behind ->
    behind.used <= Ty.cellLimit ->
    TypedFunction env
      (.funcDecl note name params declared (.block bodyNote stmts) (some signature) entry)
      (.funcDecl (frameNote note behind.used) name params' declared (.block bodyNote stmts')
        (some signature) entry)

/-- A block of the main program is well typed.  It is in no function. -/
inductive TypedTop (env : Env) : Node -> Node -> Prop
  | block {behind note stmts stmts'} :
    TypedStmts none (Context.start env) stmts stmts' behind -> behind.used <= Ty.cellLimit ->
    TypedTop env (.block note stmts) (.block (frameNote note behind.used) stmts')

/-- A program is well typed, and `checked` is the program with its notes. -/
inductive TypedProgram (program : Program) : Program -> Prop
  | intro {structs declared functions blocks structLayer functionLayer} :
    ScopedStructs [] program.structs structs structLayer ->
    ScopedSignatures structLayer [] 0 program.functions declared functionLayer ->
    List.Forall₂ (TypedFunction [functionLayer, structLayer]) declared functions ->
    program.blocks ≠ [] ->
    List.Forall₂ (TypedTop [functionLayer, structLayer]) program.blocks blocks ->
    TypedProgram program { structs, functions, blocks, phase := .checked }

/-! ## Facts about the rules -/

theorem findField_of_fieldAt {field fields type before} (found : FieldAt field fields type before) :
    Ty.findField field fields = some (type, Int64.ofInt before) := by
  induction found with
  | here => rw [Ty.findField, if_pos rfl]; rfl
  | @behind _ otherType _ _ _ different _ ih =>
    rw [Ty.findField, if_neg different, ih, Option.map_some, Int64.ofInt_add,
      otherType.size_eq_ofInt_cells]

theorem fieldAt_of_findField {field} : forall {fields type offset},
    Ty.findField field fields = some (type, offset) ->
    exists before, FieldAt field fields type before ∧ offset = Int64.ofInt before
  | (name, otherType) :: fields, type, offset, found => by
    rw [Ty.findField] at found
    split at found
    · rename_i same
      cases same
      cases found
      exact ⟨0, .here, rfl⟩
    · rename_i different
      rcases Option.map_eq_some_iff.mp found with ⟨⟨later, rest⟩, foundLater, equal⟩
      cases equal
      rcases fieldAt_of_findField foundLater with ⟨before, behind, place⟩
      refine ⟨otherType.cells + before, .behind different behind, ?_⟩
      rw [Int64.ofInt_add, ← otherType.size_eq_ofInt_cells, place]

/-- A field of a finished structure lies inside it. -/
theorem FieldAt.inside {field fields type before} (found : FieldAt field fields type before)
    (proper : ProperFields fields) :
    Proper type ∧ 0 <= before ∧ before + type.cells <= Ty.fieldCells fields := by
  induction found with
  | @here type fields =>
    have nonneg := Ty.fieldCells_nonneg fields proper.2.lengthsPositive
    rw [Ty.fieldCells]
    exact ⟨proper.1, Int.le_refl 0, by omega⟩
  | @behind _ otherType _ _ _ _ _ ih =>
    have nonneg := Ty.cells_nonneg otherType proper.1.lengthsPositive
    rcases ih proper.2 with ⟨properType, low, high⟩
    rw [Ty.fieldCells]
    exact ⟨properType, by omega, by omega⟩

theorem Sized.field {structName field fields type before}
    (sized : Sized (.struct structName fields)) (found : FieldAt field fields type before) :
    Sized type := by
  rcases found.inside sized.proper.2 with ⟨proper, low, high⟩
  have bounded : Ty.fieldCells fields <= Ty.cellLimit := sized.bounded
  exact ⟨proper, by omega⟩

theorem Sized.elem {length elem} (sized : Sized (.array length elem)) : Sized elem := by
  have bounded : length.toInt * elem.cells <= Ty.cellLimit := sized.bounded
  exact ⟨sized.proper.2, Int.le_trans (Ty.cells_elem_le sized.proper.lengthsPositive) bounded⟩

variable {operator : Operator} {wanted result : Ty} {env : Env} {node node' : Node}

theorem UnaryRule.sized (rule : UnaryRule operator wanted result) :
    Sized wanted ∧ Sized result := by
  cases rule <;> exact ⟨⟨trivial, by decide⟩, ⟨trivial, by decide⟩⟩

theorem BinaryRule.sized (rule : BinaryRule operator wanted result) :
    Sized wanted ∧ Sized result := by
  cases rule <;> exact ⟨⟨trivial, by decide⟩, ⟨trivial, by decide⟩⟩

theorem UnaryRule.scalar (rule : UnaryRule operator wanted result) :
    wanted.isComposite = false ∧ result.isComposite = false := by
  cases rule <;> exact ⟨rfl, rfl⟩

theorem BinaryRule.scalar (rule : BinaryRule operator wanted result) :
    wanted.isComposite = false ∧ result.isComposite = false := by
  cases rule <;> exact ⟨rfl, rfl⟩

/-- In a finished environment every expression has a finished type. -/
theorem HasType.sized {env} (finished : env.Finished) {node node' type} :
    HasType env node type node' -> Sized type
  | .number => ⟨trivial, by decide⟩
  | .real => ⟨trivial, by decide⟩
  | .bool => ⟨trivial, by decide⟩
  | .char => ⟨trivial, by decide⟩
  | .ident binds => binds.holds finished
  | .member base found => (base.sized finished).field found
  | .subscript array _ => (array.sized finished).elem
  | .unary rule _ => rule.sized.2
  | .binary rule _ _ => rule.sized.2
  | .call binds _ => (binds.holds finished).2

/-- The type is noted at the expression. -/
theorem HasType.type_eq {type} : HasType env node type node' -> node'.type = type
  | .number => rfl
  | .real => rfl
  | .bool => rfl
  | .char => rfl
  | .ident _ => rfl
  | .member _ _ => rfl
  | .subscript _ _ => rfl
  | .unary _ _ => rfl
  | .binary _ _ _ => rfl
  | .call _ _ => rfl

/-- An expression keeps its kind and its place in the text. -/
theorem HasType.same_form {type} (typed : HasType env node type node') :
    node'.kind = node.kind ∧ node'.span = node.span := by
  cases typed <;> exact ⟨rfl, rfl⟩

theorem HasType.isPresent {type} (typed : HasType env node type node') :
    node'.isPresent = true := by
  cases typed <;> rfl

theorem TakesArgs.length_eq {env params nodes nodes'} :
    TakesArgs env params nodes nodes' -> params.length = nodes'.length
  | .nil => rfl
  | .cons _ _ rest => congrArg (· + 1) rest.length_eq

/-! ### What the rules say of a checked expression -/

section Inversion

variable {env : Env} {source base array index operand left right : Node} {type : Ty} {note : Note}
  {name field : String} {offset : Int64} {operator : Operator} {args : List Node} {callee : Callee}

theorem HasType.ident_inversion (typed : HasType env source type (.ident note name)) :
    exists sourceNote out place byRef, source = .ident sourceNote name
      ∧ Binds env name out (.variable type place byRef)
      ∧ note = useNote sourceNote out type place byRef := by
  cases typed with
  | ident binds => exact ⟨_, _, _, _, rfl, binds, rfl⟩

theorem HasType.member_inversion
    (typed : HasType env source type (.member note base field offset)) :
    exists sourceNote sourceBase sourceOffset structName fields before,
      source = .member sourceNote sourceBase field sourceOffset
        ∧ HasType env sourceBase (.struct structName fields) base
        ∧ FieldAt field fields type before ∧ offset = Int64.ofInt before := by
  cases typed with
  | member typedBase found => exact ⟨_, _, _, _, _, _, rfl, typedBase, found, rfl⟩

theorem HasType.subscript_inversion
    (typed : HasType env source type (.subscript note array index)) :
    exists sourceNote sourceArray sourceIndex length,
      source = .subscript sourceNote sourceArray sourceIndex
        ∧ HasType env sourceArray (.array length type) array
        ∧ HasType env sourceIndex .integer index := by
  cases typed with
  | subscript typedArray typedIndex => exact ⟨_, _, _, _, rfl, typedArray, typedIndex⟩

theorem HasType.unary_inversion (typed : HasType env source type (.unary note operator operand)) :
    exists sourceNote sourceOperand wanted, source = .unary sourceNote operator sourceOperand
      ∧ UnaryRule operator wanted type ∧ HasType env sourceOperand wanted operand := by
  cases typed with
  | unary rule typedOperand => exact ⟨_, _, _, rfl, rule, typedOperand⟩

theorem HasType.binary_inversion
    (typed : HasType env source type (.binary note operator left right)) :
    exists sourceNote sourceLeft sourceRight wanted,
      source = .binary sourceNote operator sourceLeft sourceRight
        ∧ BinaryRule operator wanted type ∧ HasType env sourceLeft wanted left
        ∧ HasType env sourceRight wanted right := by
  cases typed with
  | binary rule typedLeft typedRight => exact ⟨_, _, _, _, rfl, rule, typedLeft, typedRight⟩

theorem HasType.call_inversion
    (typed : HasType env source type (.call note name args (some callee))) :
    exists sourceNote sources previous out, source = .call sourceNote name sources previous
      ∧ Binds env name out (.function callee)
      ∧ TakesArgs env callee.signature.params sources args := by
  cases typed with
  | call binds typedArgs => exact ⟨_, _, _, _, rfl, binds, typedArgs⟩

end Inversion

/-- An expression keeps its form, so the checked one shows whether it is a place. -/
theorem HasType.isAddressable_iff {env node node' type} :
    HasType env node type node' -> (node'.isAddressable = true <-> IsPlace node)
  | .number => ⟨nofun, nofun⟩
  | .real => ⟨nofun, nofun⟩
  | .bool => ⟨nofun, nofun⟩
  | .char => ⟨nofun, nofun⟩
  | .ident _ => ⟨fun _ => .ident, fun _ => rfl⟩
  | .member base _ =>
    have inner := base.isAddressable_iff
    ⟨fun place => .member (inner.mp place), fun | .member place => inner.mpr place⟩
  | .subscript array _ =>
    have inner := array.isAddressable_iff
    ⟨fun place => .subscript (inner.mp place), fun | .subscript place => inner.mpr place⟩
  | .unary _ _ => ⟨nofun, nofun⟩
  | .binary _ _ _ => ⟨nofun, nofun⟩
  | .call _ _ => ⟨nofun, nofun⟩

theorem TypedStmt.isPresent {around context behind}
    (typed : TypedStmt around context node node' behind) : node'.isPresent = true := by
  cases typed <;> rfl

mutual

theorem TypedStmt.grows {around context behind node node'} :
    TypedStmt around context node node' behind -> Grows context behind
  | .block stmts => .resume stmts.grows
  | .varDecl denotes _ => .declare denotes.sized
  | .varDeclInit _ denotes _ _ => .declare denotes.sized
  | .assign _ _ _ _ => .refl
  | .branch _ thenBody => thenBody.grows
  | .branchElse _ thenBody elseBody => thenBody.grows.trans elseBody.grows
  | .loop _ body => body.grows
  | .ret _ _ _ => .refl

theorem TypedStmts.grows {around context behind nodes nodes'} :
    TypedStmts around context nodes nodes' behind -> Grows context behind
  | .nil => .refl
  | .cons first rest => first.grows.trans rest.grows

end

end Static
end PCode
