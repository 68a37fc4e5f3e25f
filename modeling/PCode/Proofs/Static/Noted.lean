import PCode.Proofs.Static.Scoping
import PCode.Proofs.Tree
import PCode.Proofs.Written

set_option linter.unusedSectionVars false

namespace PCode

/-!
The types that phases note.

Phases write types beside nodes, into signatures and at calls.  They make no types up: what they
write is a scalar, a type that was noted before, a part of such a type, or an array of it.  So a
property that passes along these ways, and that the declared structures have, holds of everything
that is noted.  Here this is shown for what resolution notes in trees that are read.
-/

/-! ## Noted types -/

/-- The types of a signature. -/
def Signature.types (signature : Signature) : List Ty := signature.result :: signature.params

namespace Node

mutual

/-- All types that phases have noted in a tree: beside its nodes, in signatures and at calls. -/
def noted : Node -> List Ty
  | .absent => []
  | .blank note _ | .number note _ | .real note _ | .bool note _ | .char note _ | .ident note _ =>
    [note.type]
  | .member note base _ _ => note.type :: noted base
  | .subscript note array index => note.type :: (noted array ++ noted index)
  | .unary note _ operand => note.type :: noted operand
  | .binary note _ left right => note.type :: (noted left ++ noted right)
  | .call note _ args callee =>
    note.type :: ((callee.map fun callee => callee.signature.types).getD [] ++ notedIn args)
  | .varDecl note _ _ init => note.type :: noted init
  | .assign note target value => note.type :: (noted target ++ noted value)
  | .branch note test thenBody elseBody =>
    note.type :: (noted test ++ noted thenBody ++ noted elseBody)
  | .loop note test body => note.type :: (noted test ++ noted body)
  | .ret note value => note.type :: noted value
  | .block note stmts => note.type :: notedIn stmts
  | .structDecl note _ fields => note.type :: notedIn fields
  | .funcDecl note _ params _ body signature _ =>
    note.type :: ((signature.map Signature.types).getD [] ++ notedIn params ++ noted body)

/-- All types that phases have noted in trees. -/
def notedIn : List Node -> List Ty
  | [] => []
  | node :: nodes => noted node ++ notedIn nodes

end

end Node

/-- All types that phases have noted in a program. -/
def Program.noted (program : Program) : List Ty :=
  Node.notedIn program.structs ++ Node.notedIn program.functions ++ Node.notedIn program.blocks

/-! ## Properties of noted types -/

namespace Static

/-- Types that all have a property. -/
def Admits (Holds : Ty -> Prop) (types : List Ty) : Prop := forall type, type ∈ types -> Holds type

section Admits

variable {Holds : Ty -> Prop} {first second : List Ty}

theorem admits_nil : Admits Holds [] := fun _ member => by cases member

theorem admits_cons {type} : Admits Holds (type :: first) <-> Holds type ∧ Admits Holds first :=
  List.forall_mem_cons

theorem admits_append :
    Admits Holds (first ++ second) <-> Admits Holds first ∧ Admits Holds second :=
  List.forall_mem_append

end Admits

/-- A property of types that passes between an array and its elements and from a structure to its
fields, and that scalars have. -/
structure Lawful (Holds : Ty -> Prop) : Prop where
  unknown : Holds .unknown
  integer : Holds .integer
  boolean : Holds .boolean
  real : Holds .real
  char : Holds .char
  array {length : Int64} {elem : Ty} : Holds (.array length elem) <-> Holds elem
  field {name : String} {fields : List (String × Ty)} :
    Holds (.struct name fields) -> forall field, field ∈ fields -> Holds field.2

/-- The types of a binding. -/
def bindingTypes : Binding -> List Ty
  | .variable type _ _ => [type]
  | .function callee => callee.signature.types
  | .struct type => [type]

/-- An environment whose types all have a property. -/
abbrev EnvAdmits (Holds : Ty -> Prop) (env : Env) : Prop :=
  env.All fun binding => Admits Holds (bindingTypes binding)

/-- A property that passes from what is bound around a place to what is bound there, and from there
to the types that are noted. -/
structure Passes (Bound : Binding -> Prop) (Holds : Ty -> Prop) : Prop where
  unknown : Holds .unknown
  integer : Holds .integer
  boolean : Holds .boolean
  real : Holds .real
  char : Holds .char
  types {binding : Binding} : Bound binding -> Admits Holds (bindingTypes binding)
  declared {env : Env} {declared type : Ty} : env.All Bound -> Denotes env declared type ->
    forall offset byRef, Bound (.variable type offset byRef)
  announced {env : Env} {nodes nodes' : List Node} {types : List Ty} {declared result : Ty} :
    env.All Bound -> ScopedParams env nodes nodes' types -> Denotes env declared result ->
    forall index, Bound (.function ⟨⟨types, result⟩, index⟩)

/-- Parameters whose types may be bound. -/
def BoundParams (Bound : Binding -> Prop) (params : List Node) : Prop :=
  forall param, param ∈ params -> forall offset byRef, Bound (.variable param.type offset byRef)

/-- A written function with its signature, whose types have the property and whose parameters may be
bound. -/
inductive Callable (source : Int64) (Bound : Binding -> Prop) (Holds : Ty -> Prop) : Node -> Prop
  | funcDecl {note bodyNote name params stmts declared signature entry} :
    Holds note.type -> Admits Holds signature.types -> Admits Holds (Node.notedIn params) ->
    BoundParams Bound params -> Written.Fresh source bodyNote -> Written.Stmts source stmts ->
    Callable source Bound Holds
      (.funcDecl note name params declared (.block bodyNote stmts) (some signature) entry)

theorem admits_notedIn {Holds : Ty -> Prop} {nodes} :
    Admits Holds (Node.notedIn nodes) <-> forall node, node ∈ nodes -> Admits Holds node.noted := by
  induction nodes with
  | nil => exact ⟨fun _ => List.forall_mem_nil _, fun _ => admits_nil⟩
  | cons node nodes ih => rw [Node.notedIn, admits_append, ih, List.forall_mem_cons]

/-- What is noted in a part is noted in the whole. -/
theorem admits_child {Holds : Ty -> Prop} {node child : Node} (member : child ∈ node.children)
    (before : Admits Holds node.noted) : Admits Holds child.noted := by
  have listed := (List.mem_filter.mp member).1
  cases node with
  | absent | blank | number | real | bool | char | ident => cases listed
  | call note name args callee =>
    simp only [Node.noted, admits_cons, admits_append, admits_notedIn] at before
    exact before.2.2 child listed
  | block note nodes | structDecl note name nodes =>
    simp only [Node.noted, admits_cons, admits_notedIn] at before
    exact before.2 child listed
  | funcDecl note name params declared body signature entry =>
    simp only [Node.noted, admits_cons, admits_append, admits_notedIn] at before
    rcases List.mem_append.mp listed with param | isBody
    · exact before.2.1.2 child param
    · exact List.mem_singleton.mp isBody ▸ before.2.2
  | _ =>
    simp only [Node.noted, admits_cons, admits_append] at before
    simp only [List.mem_cons, List.not_mem_nil, or_false] at listed
    grind

theorem holds_within {Holds : Ty -> Prop} {node part : Node} (unknown : Holds .unknown)
    (within : part.Within node) (before : Admits Holds node.noted) : Holds part.type := by
  induction within with
  | root =>
    cases part with
    | absent => exact unknown
    | _ => exact before _ List.mem_cons_self
  | inside member _ ih => exact ih (admits_child member before)

section Passes

variable {Bound : Binding -> Prop} {Holds : Ty -> Prop} {env : Env} {node node' : Node}
  {nodes nodes' : List Node}

theorem admits_forall {Related : Node -> Node -> Prop} {From : Node -> Prop}
    (each : forall node node', From node -> Related node node' -> Admits Holds node'.noted)
    (parts : forall node, node ∈ nodes -> From node) (related : List.Forall₂ Related nodes nodes') :
    Admits Holds (Node.notedIn nodes') := by
  induction related with
  | nil => exact admits_nil
  | cons here _ ih =>
    rcases List.forall_mem_cons.mp parts with ⟨first, rest⟩
    exact admits_append.mpr ⟨each _ _ first here, ih rest⟩

/-! ## Resolution -/

variable {source : Int64} (passes : Passes Bound Holds)

include passes

/-- No phase has noted a type at what is read. -/
theorem holds_fresh {note} (fresh : Written.Fresh source note) : Holds note.type := by
  rcases fresh with ⟨span, _, rfl⟩
  exact passes.unknown

theorem holds_denoted {declared type} (all : env.All Bound) (denotes : Denotes env declared type) :
    Holds type :=
  passes.types (passes.declared all denotes 0 false) _ List.mem_cons_self

theorem holds_unaryRule {operator wanted result} (rule : UnaryRule operator wanted result) :
    Holds result := by
  cases rule with
  | negate => exact passes.integer
  | not => exact passes.boolean

theorem holds_binaryRule {operator wanted result} (rule : BinaryRule operator wanted result) :
    Holds result := by
  cases rule with
  | arithmetic => exact passes.integer
  | logic => exact passes.boolean
  | comparison => exact passes.boolean

mutual

theorem admits_expr (all : env.All Bound) {node node'} :
    ScopedExpr env node node' -> Written.Expr source node -> Admits Holds node'.noted
  | .number, _ => admits_cons.mpr ⟨passes.integer, admits_nil⟩
  | .real, _ => admits_cons.mpr ⟨passes.real, admits_nil⟩
  | .bool, _ => admits_cons.mpr ⟨passes.boolean, admits_nil⟩
  | .char, _ => admits_cons.mpr ⟨passes.char, admits_nil⟩
  | .ident binds, _ => passes.types (binds.holds all)
  | .member base, .member fresh written =>
    admits_cons.mpr ⟨holds_fresh passes fresh, admits_expr all base written⟩
  | .subscript array index, .subscript fresh writtenArray writtenIndex =>
    admits_cons.mpr ⟨holds_fresh passes fresh, admits_append.mpr
      ⟨admits_expr all array writtenArray, admits_expr all index writtenIndex⟩⟩
  | .unary rule operand, .unary _ _ written =>
    admits_cons.mpr ⟨holds_unaryRule passes rule, admits_expr all operand written⟩
  | .binary rule left right, .binary _ _ writtenLeft writtenRight =>
    admits_cons.mpr ⟨holds_binaryRule passes rule, admits_append.mpr
      ⟨admits_expr all left writtenLeft, admits_expr all right writtenRight⟩⟩
  | .call binds args, .call _ written => by
    have callee := passes.types (binds.holds all)
    exact admits_cons.mpr ⟨(admits_cons.mp callee).1,
      admits_append.mpr ⟨callee, admits_exprs all args written⟩⟩

theorem admits_exprs (all : env.All Bound) {nodes nodes'} :
    ScopedExprs env nodes nodes' -> Written.Exprs source nodes ->
    Admits Holds (Node.notedIn nodes')
  | .nil, _ => admits_nil
  | .cons first rest, .cons written writtenRest =>
    admits_append.mpr ⟨admits_expr all first written, admits_exprs all rest writtenRest⟩

end

mutual

/-- What a statement notes and declares has the property if all types around it have it. -/
theorem admits_stmt {context behind node node'} :
    ScopedStmt context node node' behind -> Written.Stmt source node -> context.env.All Bound ->
    Admits Holds node'.noted ∧ behind.env.All Bound
  | .block stmts, .block fresh written, all =>
    ⟨admits_cons.mpr ⟨holds_fresh passes fresh, (admits_stmts stmts written (.enter all)).1⟩, all⟩
  | .varDecl denotes _, _, all =>
    ⟨admits_cons.mpr ⟨holds_denoted passes all denotes, admits_nil⟩,
      all.push (passes.declared all denotes _ _)⟩
  | .varDeclInit init denotes _, .varDeclInit _ _ _ written, all =>
    ⟨admits_cons.mpr ⟨holds_denoted passes all denotes, admits_expr passes all init written⟩,
      all.push (passes.declared all denotes _ _)⟩
  | .assign target value, .assign fresh writtenTarget writtenValue, all =>
    ⟨admits_cons.mpr ⟨holds_fresh passes fresh, admits_append.mpr ⟨admits_expr passes all target
      writtenTarget, admits_expr passes all value writtenValue⟩⟩, all⟩
  | .branch test thenBody, .branch fresh writtenTest writtenThen, all => by
    have inTest := admits_expr passes all test writtenTest
    have inThen := admits_stmt thenBody writtenThen all
    exact ⟨admits_cons.mpr ⟨holds_fresh passes fresh,
      admits_append.mpr ⟨admits_append.mpr ⟨inTest, inThen.1⟩, admits_nil⟩⟩, inThen.2⟩
  | .branchElse test thenBody elseBody, .branchElse fresh writtenTest writtenThen writtenElse,
    all => by
    have inTest := admits_expr passes all test writtenTest
    have inThen := admits_stmt thenBody writtenThen all
    have inElse := admits_stmt elseBody writtenElse inThen.2
    exact ⟨admits_cons.mpr ⟨holds_fresh passes fresh,
      admits_append.mpr ⟨admits_append.mpr ⟨inTest, inThen.1⟩, inElse.1⟩⟩, inElse.2⟩
  | .loop test body, .loop fresh writtenTest writtenBody, all => by
    have inBody := admits_stmt body writtenBody all
    exact ⟨admits_cons.mpr ⟨holds_fresh passes fresh,
      admits_append.mpr ⟨admits_expr passes all test writtenTest, inBody.1⟩⟩, inBody.2⟩
  | .ret, .ret fresh, all => ⟨admits_cons.mpr ⟨holds_fresh passes fresh, admits_nil⟩, all⟩
  | .retValue value, .retValue fresh written, all =>
    ⟨admits_cons.mpr ⟨holds_fresh passes fresh, admits_expr passes all value written⟩, all⟩

theorem admits_stmts {context behind nodes nodes'} :
    ScopedStmts context nodes nodes' behind -> Written.Stmts source nodes ->
    context.env.All Bound -> Admits Holds (Node.notedIn nodes') ∧ behind.env.All Bound
  | .nil, _, all => ⟨admits_nil, all⟩
  | .cons first rest, .cons written writtenRest, all => by
    have here := admits_stmt first written all
    have later := admits_stmts rest writtenRest here.2
    exact ⟨admits_append.mpr ⟨here.1, later.1⟩, later.2⟩

end

theorem admits_fields (all : env.All Bound) {fields}
    (judged : ScopedFields env nodes nodes' fields) :
    Admits Holds (Node.notedIn nodes') ∧ forall field, field ∈ fields -> Holds field.2 := by
  induction judged with
  | nil => exact ⟨admits_nil, List.forall_mem_nil _⟩
  | cons denotes _ ih =>
    have type := holds_denoted passes all denotes
    simp only [Node.notedIn, Node.noted, admits_cons, admits_append, List.forall_mem_cons]
    exact ⟨⟨⟨type, admits_nil⟩, ih.1⟩, type, ih.2⟩

theorem admits_params (all : env.All Bound) {types} (judged : ScopedParams env nodes nodes' types)
    (plain : forall node, node ∈ nodes -> Written.Plain source node) :
    Admits Holds (Node.notedIn nodes') ∧ BoundParams Bound nodes' := by
  induction judged with
  | nil => exact ⟨admits_nil, List.forall_mem_nil _⟩
  | cons denotes _ ih =>
    rcases List.forall_mem_cons.mp plain with ⟨⟨_, _, _⟩, plainRest⟩
    have rest := ih plainRest
    have here := admits_cons.mpr ⟨holds_denoted passes all denotes, admits_nil⟩
    exact ⟨admits_append.mpr ⟨here, rest.1⟩,
      List.forall_mem_cons.mpr ⟨passes.declared all denotes, rest.2⟩⟩

theorem admits_signatures {structs layer behind index}
    (judged : ScopedSignatures structs layer index nodes nodes' behind)
    (all : Env.All Bound [layer, structs])
    (written : forall node, node ∈ nodes -> Written.Function source node) :
    (forall node, node ∈ nodes' -> Callable source Bound Holds node)
      ∧ Env.All Bound [behind, structs] := by
  induction judged with
  | nil => exact ⟨List.forall_mem_nil _, all⟩
  | cons params denotes _ _ ih =>
    rcases List.forall_mem_cons.mp written with ⟨⟨_, plain, _, fresh, stmts⟩, writtenRest⟩
    have bound := passes.announced all params denotes
    have signature := passes.types (bound 0)
    have formals := admits_params passes all params plain
    have rest := ih (all.push (bound _)) writtenRest
    exact ⟨List.forall_mem_cons.mpr ⟨.funcDecl (admits_cons.mp signature).1 signature formals.1
      formals.2 fresh stmts, rest.1⟩, rest.2⟩

omit passes in
theorem admits_formals {context behind} (judged : ScopedFormals context nodes nodes' behind)
    (all : context.env.All Bound) (bound : BoundParams Bound nodes)
    (before : Admits Holds (Node.notedIn nodes)) :
    Admits Holds (Node.notedIn nodes') ∧ behind.env.All Bound := by
  induction judged with
  | nil => exact ⟨admits_nil, all⟩
  | cons _ _ ih =>
    have bounds := List.forall_mem_cons.mp bound
    simp only [Node.notedIn, Node.noted, admits_cons, admits_append] at before ⊢
    have rest := ih (all.push (bounds.1 _ _)) bounds.2 before.2
    exact ⟨⟨before.1, rest.1⟩, rest.2⟩

theorem admits_function (all : env.All Bound) (callable : Callable source Bound Holds node)
    (judged : ScopedFunction env node node') : Admits Holds node'.noted := by
  cases judged with
  | funcDecl params stmts _ =>
    cases callable with
    | funcDecl type signature before bound fresh written =>
      have formals := admits_formals params (.enter all) bound before
      have body := admits_stmts passes stmts written (.enter formals.2)
      exact admits_cons.mpr ⟨type, admits_append.mpr ⟨admits_append.mpr ⟨signature, formals.1⟩,
        admits_cons.mpr ⟨holds_fresh passes fresh, body.1⟩⟩⟩

theorem admits_top (all : env.All Bound) (written : Written.Top source node)
    (judged : ScopedTop env node node') : Admits Holds node'.noted := by
  cases judged with
  | block stmts _ =>
    cases written with
    | block fresh written =>
      have type := holds_fresh passes fresh
      exact admits_cons.mpr ⟨type, (admits_stmts passes stmts written (.enter all)).1⟩

/-- What resolution notes in the functions and blocks of a whole program has the property if the
declared structures have it. -/
theorem admits_bodies {program declared functions blocks structs layer}
    (whole : Written.Whole source program)
    (signatures : ScopedSignatures structs [] 0 program.functions declared layer)
    (judged : List.Forall₂ (ScopedFunction [layer, structs]) declared functions)
    (judgedBlocks : List.Forall₂ (ScopedTop [layer, structs]) program.blocks blocks)
    (all : Env.All Bound [[], structs]) :
    Admits Holds (Node.notedIn functions) ∧ Admits Holds (Node.notedIn blocks) := by
  rcases admits_signatures passes signatures all whole.functions with ⟨callable, all⟩
  exact ⟨admits_forall (fun _ _ => admits_function passes all) callable judged,
    admits_forall (fun _ _ => admits_top passes all) whole.blocks judgedBlocks⟩

end Passes

section Lawful

variable {Holds : Ty -> Prop} {env : Env} (lawful : Lawful Holds)

include lawful

theorem Lawful.denoted {declared type} (all : EnvAdmits Holds env)
    (denotes : Denotes env declared type) : Holds type := by
  induction denotes with
  | integer => exact lawful.integer
  | boolean => exact lawful.boolean
  | real => exact lawful.real
  | char => exact lawful.char
  | struct binds => exact binds.holds all _ List.mem_cons_self
  | array _ _ _ ih => exact lawful.array.mpr ih

theorem Lawful.params {nodes nodes' types} (all : EnvAdmits Holds env)
    (judged : ScopedParams env nodes nodes' types) : Admits Holds types := by
  induction judged with
  | nil => exact admits_nil
  | cons denotes _ ih => exact admits_cons.mpr ⟨lawful.denoted all denotes, ih⟩

theorem Lawful.passes : Passes (fun binding => Admits Holds (bindingTypes binding)) Holds where
  unknown := lawful.unknown
  integer := lawful.integer
  boolean := lawful.boolean
  real := lawful.real
  char := lawful.char
  types := id
  declared := fun all denotes _ _ => admits_cons.mpr ⟨lawful.denoted all denotes, admits_nil⟩
  announced := fun all params denotes _ =>
    admits_cons.mpr ⟨lawful.denoted all denotes, lawful.params all params⟩

end Lawful

end Static
end PCode
