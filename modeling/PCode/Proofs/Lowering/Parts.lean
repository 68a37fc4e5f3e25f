import PCode.Proofs.Lowering.Layout
import PCode.Proofs.Lowering.Success
import PCode.Proofs.Resolution.Frames

namespace PCode
namespace Lowering

open Static
open Resolution (Signed TypedParam)

/-!
Expressions inside a program.

Whatever is said of single expressions is to be said of all expressions of a program,
in whatever function, scope or argument they stand.  For each of them there is an
environment in which it has a type, and its code is a piece of the code of the program.
What an environment is known for is left open, as long as variables do not disturb it.
-/

/-- A property of environments that statements keep: they enter scopes and declare
variables of finished types, and nothing else. -/
structure Stable (Good : Env -> Prop) : Prop where
  finished : forall {env : Env}, Good env -> env.Finished
  enter : forall {env : Env}, Good env -> Good ([] :: env)
  declare : forall {context : Context} {name : String} {type : Ty} {byRef : Bool},
    Good context.env -> Sized type -> Good (context.declare name type byRef).env

section Parts

variable {Good : Env -> Prop} {config : Config}

theorem Stable.along (stable : Stable Good) {context behind} (grows : Grows context behind) :
    Good context.env -> Good behind.env :=
  grows.keeps fun good sized => stable.declare good (sized (stable.finished good))

variable {nodes nodes' stmts functions : List Node} {part node value : Node} {code target : Code}
  {env : Env} {Holds : Node -> Prop} {start : Nat}

/-- A well-typed expression whose code is a piece of other code. -/
inductive Emitted (config : Config) (Good : Env -> Prop) (part : Node) (code : Code) : Prop
  | intro {env : Env} {source type form piece} :
    Good env -> HasType env source type part -> Lowers config form part piece ->
    piece <:+: code -> Emitted config Good part code

/-- The code of every expression in a tree is a piece of other code. -/
def Emits (config : Config) (Good : Env -> Prop) (code : Code) (node : Node) : Prop :=
  node.Throughout fun part => part.isExpr = true -> Emitted config Good part code

theorem Emits.inside {larger : Code} (emits : Emits config Good code node)
    (piece : code <:+: larger) : Emits config Good larger node := by
  intro part within isExpr
  rcases emits part within isExpr with ⟨good, typed, lowers, inner⟩
  exact .intro good typed lowers (inner.trans piece)

theorem Emits.before (emits : Emits config Good code node) (rest : Code) :
    Emits config Good (code ++ rest) node :=
  emits.inside (List.prefix_append _ _).isInfix

theorem Emits.behind (emits : Emits config Good code node) (first : Code) :
    Emits config Good (first ++ code) node :=
  emits.inside (List.suffix_append _ _).isInfix

/-! ## Expressions -/

theorem emitted_here (good : Good env) {form source type} (lowers : Lowers config form node code)
    (typed : HasType env source type node) : node.isExpr = true -> Emitted config Good node code :=
  fun _ => .intro good typed lowers List.infix_rfl

mutual

/-- The code of a part of an expression is a piece of the code of the expression. -/
theorem emits_expr {env} (good : Good env) {form source node type code} :
    Lowers config form node code -> HasType env source type node -> Emits config Good code node
  | .number, typed => .leaf (emitted_here good .number typed) rfl
  | .real, typed => .leaf (emitted_here good .real typed) rfl
  | .bool, typed => .leaf (emitted_here good .bool typed) rfl
  | .char, typed => .leaf (emitted_here good .char typed) rfl
  | .ident, typed => .leaf (emitted_here good .ident typed) rfl
  | .load _ place, typed => (emits_expr good place typed).before _
  | .member base, typed => by
    rcases typed.member_inversion with ⟨_, _, _, _, _, _, _, typedBase, _⟩
    exact .one (emitted_here good (.member base) typed) rfl
      ((emits_expr good base typedBase).before _)
  | .subscript isArray array index, typed => by
    rcases typed.subscript_inversion with ⟨_, _, _, _, _, typedArray, typedIndex⟩
    exact .two (emitted_here good (.subscript isArray array index) typed) rfl
      (((emits_expr good array typedArray).before _).before _)
      (((emits_expr good index typedIndex).behind _).before _)
  | .unary known operand, typed => by
    rcases typed.unary_inversion with ⟨_, _, _, _, _, typedOperand⟩
    exact .one (emitted_here good (.unary known operand) typed) rfl
      ((emits_expr good operand typedOperand).before _)
  | .binary known left right, typed => by
    rcases typed.binary_inversion with ⟨_, _, _, _, _, _, typedLeft, typedRight⟩
    exact .two (emitted_here good (.binary known left right) typed) rfl
      (((emits_expr good left typedLeft).before _).before _)
      (((emits_expr good right typedRight).behind _).before _)
  | .call args, typed => by
    rcases typed.call_inversion with ⟨_, _, _, _, _, _, typedArgs⟩
    refine .of_children (emitted_here good (.call args) typed) ?_
    intro child member
    have inArgs := emits_args good args typedArgs child (List.mem_filter.mp member).1
    exact ((inArgs.behind _).before _).before _

theorem emits_args {env} (good : Good env) {params sources args codes} :
    LowersArgs config params args codes -> TakesArgs env params sources args ->
    forall arg, arg ∈ args -> Emits config Good codes.flatten arg
  | .nil, _, _, member => by cases member
  | .cons first rest, .cons typedFirst _ typedRest, arg, member => by
    rw [List.flatten_cons]
    rcases List.mem_cons.mp member with same | later
    · rw [same]
      exact (emits_expr good first typedFirst).before _
    · exact (emits_args good rest typedRest arg later).behind _

end

/-! ## Statements -/

theorem emits_store (good : Good env) {wanted found source}
    (stores : Stores config target wanted value code) (typed : HasType env source found value) :
    Emits config Good code value := by
  cases stores with
  | scalar _ lowers => exact ((emits_expr good lowers typed).behind _).before _
  | composite _ lowers => exact ((emits_expr good lowers typed).behind _).before _

theorem target_leads {wanted} (stores : Stores config target wanted value code) :
    target <+: code := by
  cases stores with
  | scalar _ _ =>
    rw [List.append_assoc]
    exact List.prefix_append _ _
  | composite _ _ =>
    rw [List.append_assoc]
    exact List.prefix_append _ _

theorem emits_block {note} (each : forall node, node ∈ stmts -> Emits config Good code node) :
    Emits config Good code (.block note stmts) :=
  .of_children nofun fun child member => each child (List.mem_filter.mp member).1

mutual

theorem emits_stmt (stable : Stable Good) {inFunction around context behind node node' start code} :
    TypedStmt around context node node' behind -> Good context.env ->
    LowersStmt config inFunction start node' code -> Emits config Good code node'
  | .block stmts, good, lowers => by
    cases lowers with
    | block lowersStmts =>
      exact emits_block (emits_stmts stable stmts (stable.enter good) lowersStmts)
  | .varDecl _ _, _, _ => .leaf nofun rfl
  | .varDeclInit init _ _ _, good, lowers => by
    cases lowers with
    | varDecl => cases init
    | varDeclInit _ stores => exact .one nofun rfl (emits_store good stores init)
  | .assign target _ value _, good, lowers => by
    cases lowers with
    | assign lowersTarget stores =>
      have inTarget := emits_expr good lowersTarget target
      exact .two nofun rfl (inTarget.inside (target_leads stores).isInfix)
        (emits_store good stores value)
  | .branch test thenBody, good, lowers => by
    cases lowers with
    | branchElse present _ _ _ => cases present
    | branch lowersTest lowersThen =>
      rw [branchCode]
      exact .three nofun rfl (((emits_expr good lowersTest test).before _).before _)
        ((emits_stmt stable thenBody good lowersThen).behind _) nofun
  | .branchElse test thenBody elseBody, good, lowers => by
    cases lowers with
    | branch _ _ => cases elseBody
    | branchElse _ lowersTest lowersThen lowersElse =>
      have inThen := emits_stmt stable thenBody good lowersThen
      have inElse := emits_stmt stable elseBody (stable.along thenBody.grows good) lowersElse
      rw [branchCode]
      exact .three nofun rfl
        (((((emits_expr good lowersTest test).before _).before _).before _).before _)
        (((inThen.behind _).before _).before _) fun _ => inElse.behind _
  | .loop test body, good, lowers => by
    cases lowers with
    | loop lowersTest lowersBody =>
      rw [loopCode]
      exact .two nofun rfl ((((emits_expr good lowersTest test).before _).before _).before _)
        (((emits_stmt stable body good lowersBody).behind _).before _)
  | .ret _ value _, good, lowers => by
    cases lowers with
    | ret _ lowersValue =>
      exact .one nofun rfl ((((emits_expr good lowersValue value).behind _).before _).before _)

theorem emits_stmts (stable : Stable Good)
    {inFunction around context behind nodes nodes' start code} :
    TypedStmts around context nodes nodes' behind -> Good context.env ->
    LowersStmts config inFunction start nodes' code ->
    forall node, node ∈ nodes' -> Emits config Good code node
  | .nil, _, _, _, member => by cases member
  | .cons first rest, good, lowers, node, member => by
    cases lowers with
    | cons lowersFirst lowersRest =>
      rcases List.mem_cons.mp member with same | later
      · rw [same]
        exact (emits_stmt stable first good lowersFirst).before _
      · have goodBetween := stable.along first.grows good
        exact (emits_stmts stable rest goodBetween lowersRest node later).behind _

end

/-! ## Programs -/

/-- There are no expressions in parameters. -/
theorem emits_formals {context behind} (judged : ScopedFormals context nodes nodes' behind)
    (typed : forall node, node ∈ nodes -> TypedParam node) :
    forall node, node ∈ nodes' -> Emits config Good code node := by
  induction judged with
  | nil => exact List.forall_mem_nil _
  | cons _ _ ih =>
    rcases List.forall_mem_cons.mp typed with ⟨⟨_⟩, typedRest⟩
    exact List.forall_mem_cons.mpr ⟨.leaf nofun rfl, ih typedRest⟩

/-- Nor are there any in structures. -/
theorem emits_structs {layer behind} (judged : ScopedStructs layer nodes nodes' behind) :
    forall node, node ∈ nodes' -> Emits config Good code node := by
  have fields {env : Env} {members members' : List Node} {types : List (String × Ty)}
      (judged : ScopedFields env members members' types) :
      forall node, node ∈ members' -> Emits config Good code node := by
    induction judged with
    | nil => exact List.forall_mem_nil _
    | cons _ _ ih => exact List.forall_mem_cons.mpr ⟨.leaf nofun rfl, ih⟩
  induction judged with
  | nil => exact List.forall_mem_nil _
  | cons judgedFields _ _ _ _ _ ih =>
    refine List.forall_mem_cons.mpr ⟨.of_children nofun ?_, ih⟩
    exact fun child listed => fields judgedFields child (List.mem_filter.mp listed).1

theorem emits_function (stable : Stable Good)
    {source note bodyNote name params declared signature entry} (good : Good env)
    (signed : Signed source node) (typed : TypedFunction env node
      (.funcDecl note name params declared (.block bodyNote stmts) signature entry))
    (lowered : lowerFunction config start name note.frameSize (.block bodyNote stmts) = .ok code) :
    Emits config Good code
      (.funcDecl note name params declared (.block bodyNote stmts) signature entry) := by
  cases typed with
  | funcDecl formals _ typedStmts _ =>
    rcases signed with ⟨typedParams, _⟩
    rw [lowerFunction] at lowered
    rcases Results.of_bind lowered with ⟨bodyCode, bodyLowered, ⟨⟩⟩
    rw [lowerStmt] at bodyLowered
    have grows := Resolution.formals_grows formals typedParams
    have goodInside := stable.enter (stable.along grows (stable.enter good))
    refine .of_children nofun ?_
    intro child member
    rcases List.mem_append.mp (List.mem_filter.mp member).1 with inParams | inBody
    · exact emits_formals formals typedParams child inParams
    · cases List.mem_singleton.mp inBody
      have inBody := emits_stmts stable typedStmts goodInside (lowers_of_lowerStmts bodyLowered)
      exact (((emits_block inBody).before _).behind _).before _

theorem emits_laid (stable : Stable Good) {source declared placed} (good : Good env)
    (signed : forall node, node ∈ declared -> Signed source node)
    (typed : List.Forall₂ (TypedFunction env) declared functions)
    (laid : Laid config start functions placed code) :
    forall node, node ∈ functions -> Emits config Good code node := by
  induction laid generalizing declared with
  | nil => exact List.forall_mem_nil _
  | cons lowered _ ih =>
    cases typed with
    | cons first rest =>
      rcases List.forall_mem_cons.mp signed with ⟨signedFirst, signedLater⟩
      intro node member
      rcases List.mem_cons.mp member with rfl | later
      · have here := first
        cases here with
        | funcDecl _ _ _ _ => exact (emits_function stable good signedFirst first lowered).before _
      · exact (ih signedLater rest node later).behind _

theorem emits_blocks (stable : Stable Good) {written blocks number} (good : Good env)
    (typed : List.Forall₂ (TypedTop env) written blocks)
    (lowered : lowerBlocks config start number blocks = .ok code) :
    forall node, node ∈ blocks -> Emits config Good code node := by
  induction typed generalizing start number code with
  | nil => exact List.forall_mem_nil _
  | cons first _ ih =>
    rw [lowerBlocks] at lowered
    rcases Results.of_binds lowered with ⟨firstCode, firstLowered, restCode, restLowered, ⟨⟩⟩
    intro node member
    rcases List.mem_cons.mp member with rfl | later
    · cases first with
      | block stmts _ =>
        rw [lowerStmt] at firstLowered
        have inBlock := emits_stmts stable stmts (stable.enter good)
          (lowers_of_lowerStmts firstLowered)
        exact ((emits_block inBlock).behind _).before _
    · exact (ih restLowered node later).behind _

/-- The code of every expression of a program is a piece of the code of the program. -/
theorem Arranged.emitted (stable : Stable Good) {source program placed generated functionCode
    blockCode structs declared written structLayer env}
    (arranged : Arranged config program placed generated functionCode blockCode) (good : Good env)
    (judgedStructs : ScopedStructs [] structs program.structs structLayer)
    (signed : forall node, node ∈ declared -> Signed source node)
    (typedFunctions : List.Forall₂ (TypedFunction env) declared program.functions)
    (typedBlocks : List.Forall₂ (TypedTop env) written program.blocks) {part}
    (holds : program.Holds part) (isExpr : part.isExpr = true) :
    Emitted config Good part generated.code := by
  rcases holds with ⟨root, member, within⟩
  refine (?_ : Emits config Good generated.code root) part within isExpr
  rw [arranged.code]
  rcases List.mem_append.mp member with declares | isBlock
  · rcases List.mem_append.mp declares with isStruct | isFunction
    · exact emits_structs judgedStructs root isStruct
    · have inFunctions := emits_laid stable good signed typedFunctions arranged.functions
      exact ((inFunctions root isFunction).behind _).before _
  · have inBlocks := emits_blocks stable good typedBlocks arranged.blocks
    exact ((inBlocks root isBlock).before _).behind _

end Parts

/-- Environments with finished types in which all functions may be called. -/
def Ready (count : Nat) (env : Env) : Prop := env.Finished ∧ env.All (Callable count)

theorem stable_ready (count : Nat) : Stable (Ready count) where
  finished ready := ready.1
  enter ready := ⟨ready.1.enter, ready.2.enter⟩
  declare ready sized := ⟨ready.1.push sized, ready.2.push trivial⟩

/-- The functions of a well-typed program may be called everywhere in it. -/
theorem ready_of_typed {structNodes structs declared structLayer functionLayer}
    (judged : ScopedStructs [] structNodes structs structLayer)
    (signatures : ScopedSignatures structLayer [] 0 nodes declared functionLayer)
    (typed : List.Forall₂ (TypedFunction env) declared functions) :
    Ready functions.length [functionLayer, structLayer] := by
  have room : 0 + declared.length <= functions.length := by
    rw [typed.length_eq]
    omega
  exact ⟨signatures.finished (Resolution.signatures_finished judged),
    callable_signatures signatures typed room (judged.keeps (fun _ => trivial) (.enter .nil)).enter⟩

/-- Every expression of a well-typed program has a type, and its code is a piece of the
code of the program. -/
theorem emitted_of_typed {config source program checked placed generated functionCode blockCode}
    (whole : Written.Whole source program) (typed : TypedProgram program checked)
    (arranged : Arranged config checked placed generated functionCode blockCode)
    (holds : checked.Holds part) (isExpr : part.isExpr = true) :
    Emitted config (Ready checked.functions.length) part generated.code := by
  cases typed with
  | intro structs signatures typedFunctions _ typedBlocks =>
    have finishedStructs := Resolution.signatures_finished structs
    have signed := Resolution.signed_of_scoped signatures finishedStructs whole.functions
    have ready := ready_of_typed structs signatures typedFunctions
    exact arranged.emitted (stable_ready _) ready structs signed typedFunctions typedBlocks holds
      isExpr

end Lowering
end PCode
