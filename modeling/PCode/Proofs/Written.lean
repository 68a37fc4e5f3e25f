import PCode.Document.Tree
import PCode.Proofs.Document.Legible
import PCode.Proofs.Tree

namespace PCode
namespace Written

/-!
Trees that documents give.

A tree that is built by hand may lack any part.  A tree that is read from a
document lacks none: expressions stand where expressions must stand, bodies are
blocks, positions and integers are in their ranges, and no phase has left a note
yet.  The judgements of the later phases are stated for such trees, and this
module shows that reading gives no others.  Its real numbers are those that the
document writes.
-/

open Document.AllLegible (live)
open Entry (AllLegible)
open Node (Throughout)

/-! ## Well-formed trees -/

/-- A place in a source file, within the ranges of a document. -/
structure Place (source : Int64) (span : Span) : Prop where
  file : span.file = source
  line : Document.isUpTo 4294967295 span.line = true
  column : Document.isUpTo 4294967295 span.column = true
  length : Document.isUpTo 65535 span.length = true

/-- A note with a place and nothing else: no phase has written to it. -/
def Fresh (source : Int64) (note : Note) : Prop :=
  exists span, Place source span ∧ note = { span }

/-- A type as a document declares it.  Structures are bare references. -/
inductive Declared : Ty -> Prop
  | integer : Declared .integer
  | boolean : Declared .boolean
  | real : Declared .real
  | char : Declared .char
  | struct {name} : name ≠ "" -> Declared (.struct name [])
  | array {length elem} :
    Document.fitsInWord length = true -> Declared elem -> Declared (.array length elem)

mutual

/-- An expression without holes and without notes of phases. -/
inductive Expr (source : Int64) : Node -> Prop
  | number {note value} :
    Fresh source note -> Document.fitsInWord value = true -> Expr source (.number note value)
  | real {note value} : Fresh source note -> Expr source (.real note value)
  | bool {note value} : Fresh source note -> Expr source (.bool note value)
  | char {note} {char : Char} :
    Fresh source note -> Expr source (.char note (Int32.ofNat char.toNat))
  | ident {note name} : Fresh source note -> Expr source (.ident note name)
  | member {note base field} :
    Fresh source note -> Expr source base -> Expr source (.member note base field 0)
  | subscript {note array index} :
    Fresh source note -> Expr source array -> Expr source index ->
    Expr source (.subscript note array index)
  | unary {note operator operand} :
    Fresh source note -> operator ∈ Operator.all -> Expr source operand ->
    Expr source (.unary note operator operand)
  | binary {note operator left right} :
    Fresh source note -> operator ∈ Operator.all -> Expr source left -> Expr source right ->
    Expr source (.binary note operator left right)
  | call {note name args} :
    Fresh source note -> Exprs source args -> Expr source (.call note name args none)

/-- Expressions without holes. -/
inductive Exprs (source : Int64) : List Node -> Prop
  | nil : Exprs source []
  | cons {node nodes} : Expr source node -> Exprs source nodes -> Exprs source (node :: nodes)

end

mutual

/-- A statement without holes.  Only an initial value, an else part and a
returned value may be missing. -/
inductive Stmt (source : Int64) : Node -> Prop
  | block {note stmts} : Fresh source note -> Stmts source stmts -> Stmt source (.block note stmts)
  | varDecl {note name type} :
    Fresh source note -> name ≠ "" -> Declared type ->
    Stmt source (.varDecl note name type .absent)
  | varDeclInit {note name type init} :
    Fresh source note -> name ≠ "" -> Declared type -> Expr source init ->
    Stmt source (.varDecl note name type init)
  | assign {note target value} :
    Fresh source note -> Expr source target -> Expr source value ->
    Stmt source (.assign note target value)
  | branch {note test thenBody} :
    Fresh source note -> Expr source test -> Stmt source thenBody ->
    Stmt source (.branch note test thenBody .absent)
  | branchElse {note test thenBody elseBody} :
    Fresh source note -> Expr source test -> Stmt source thenBody -> Stmt source elseBody ->
    Stmt source (.branch note test thenBody elseBody)
  | loop {note test body} :
    Fresh source note -> Expr source test -> Stmt source body ->
    Stmt source (.loop note test body)
  | ret {note} : Fresh source note -> Stmt source (.ret note .absent)
  | retValue {note value} : Fresh source note -> Expr source value -> Stmt source (.ret note value)

/-- Statements without holes. -/
inductive Stmts (source : Int64) : List Node -> Prop
  | nil : Stmts source []
  | cons {node nodes} : Stmt source node -> Stmts source nodes -> Stmts source (node :: nodes)

end

/-- A field or a parameter. -/
inductive Plain (source : Int64) : Node -> Prop
  | varDecl {note name type} :
    Fresh source note -> name ≠ "" -> Declared type ->
    Plain source (.varDecl note name type .absent)

/-- A structure. -/
inductive Struct (source : Int64) : Node -> Prop
  | structDecl {note name fields} :
    Fresh source note -> (forall field, field ∈ fields -> Plain source field) ->
    Struct source (.structDecl note name fields)

/-- A function: it has a block for a body, no signature and no place yet. -/
inductive Function (source : Int64) : Node -> Prop
  | funcDecl {note bodyNote name params stmts result} :
    Fresh source note -> (forall param, param ∈ params -> Plain source param) ->
    Declared result -> Fresh source bodyNote -> Stmts source stmts ->
    Function source (.funcDecl note name params result (.block bodyNote stmts) none none)

/-- A block of the main program. -/
inductive Top (source : Int64) : Node -> Prop
  | block {note stmts} : Fresh source note -> Stmts source stmts -> Top source (.block note stmts)

/-- A program without holes that no phase has looked at. -/
structure Whole (source : Int64) (program : Program) : Prop where
  structs : forall node, node ∈ program.structs -> Struct source node
  functions : forall node, node ∈ program.functions -> Function source node
  blocks : forall node, node ∈ program.blocks -> Top source node
  phase : program.phase = .parsed

/-! ## Reading gives whole trees -/

section Leaves

variable {span : Span}

variable {source length : Int64} {kind : String} {pos : List Int64} {program : Program}
  {bytes : List UInt8}

theorem place_of_ok (built : Document.place source kind pos length = .ok span) :
    Place source span := by
  unfold Document.place at built
  split at built
  · cases built
    exact ⟨rfl, rfl, rfl, rfl⟩
  · split at built
    case isTrue => cases built
    rename_i line
    split at built
    case isTrue => cases built
    rename_i column
    split at built
    case isTrue => cases built
    rename_i lengthInRange
    cases built
    exact ⟨rfl, by simpa using line, by simpa using column, by simpa using lengthInRange⟩
  · cases built

mutual

theorem declared_of_typeOfRef : forall (written : TypeRef) {type},
    Document.typeOfRef written = .ok type -> Declared type
  | ⟨kind, name, length, elem⟩, type, built => by
    unfold Document.typeOfRef at built
    split at built
    · cases built
      exact .integer
    · cases built
      exact .boolean
    · cases built
      exact .real
    · cases built
      exact .char
    · split at built
      · cases built
      · rename_i named
        cases built
        exact .struct (fun empty => named (by rw [empty]; rfl))
    · split at built
      · rename_i inRange
        rcases Results.of_map built with ⟨elemType, elemBuilt, equal⟩
        cases equal
        exact .array inRange (declared_of_typeOf elem elemBuilt)
      · cases built
    · cases built

theorem declared_of_typeOf : forall (written : Option TypeRef) {type},
    Document.typeOf written = .ok type -> Declared type
  | none, _, built => by cases built
  | some written, _, built => declared_of_typeOfRef written built

end

theorem inside_eq_ok {Part : Type} {place built} {part : Part} :
    Document.inside place built = .ok part <-> built = .ok part := by
  cases built with
  | ok other => exact Iff.rfl
  | error failure =>
    constructor <;> intro impossible <;> cases impossible

theorem declared_of_ok {name written type}
    (built : Document.declared source kind pos length name written = .ok (span, type)) :
    Place source span ∧ name ≠ "" ∧ Declared type := by
  unfold Document.declared at built
  rcases Results.of_bind built with ⟨place, placed, built⟩
  split at built
  · cases built
  · rename_i named
    rcases Results.of_map built with ⟨inner, typed, equal⟩
    cases equal
    exact ⟨place_of_ok placed, fun empty => named (by rw [empty]; rfl),
      declared_of_typeOf written (inside_eq_ok.mp typed)⟩

theorem operator_mem_all {op operator} (built : Document.operator op span = .ok operator) :
    operator ∈ Operator.all := by
  unfold Document.operator at built
  split at built
  · rename_i found
    cases built
    exact List.mem_of_find?_eq_some found
  · cases built

theorem eq_ok_of_literal {sort} {Value : Type} {value} {read : Except JsonProblem Value}
    (built : Document.literal sort span read = .ok value) : read = .ok value := by
  cases read with
  | ok other =>
    cases built
    rfl
  | error problem => cases built

end Leaves

/-- A real number is read from a value, and if that is a number then it is a numeral. -/
def RealRead (node : Node) : Prop :=
  forall note number, node = .real note number ->
    exists value, (forall text, value = some (.number text) -> Json.IsNumeral text)
      ∧ Document.realValue value = .ok number

/-- What is built from legible entries is whole, and its real numbers are read from them. -/
structure BuiltOf (Whole : Node -> Prop) (legible : Prop) (node : Node) : Prop where
  whole : Whole node
  reals : legible -> node.Throughout RealRead

mutual

theorem expr_of_ok (source : Int64) : forall (entry : Entry) {node},
    Document.expr source entry = .ok node -> BuiltOf (Expr source) entry.Legible node
  | ⟨kind, ⟨pos, _⟩, length, value, name, field, op, _, operand, left, right, array, index, _, _,
    _, _, _, _, _, ⟨args, _⟩, _, _, _, _⟩, node, built => by
    rw [Document.expr] at built
    rcases Results.of_bind built with ⟨span, placed, built⟩
    have fresh : Fresh source { span } := ⟨span, place_of_ok placed, rfl⟩
    split at built
    · rcases Results.of_bind built with ⟨number, _, built⟩
      split at built
      · rename_i inRange
        cases built
        exact ⟨.number fresh inRange, fun _ => .leaf nofun rfl⟩
      · cases built
    · rcases Results.of_map built with ⟨number, read, equal⟩
      cases equal
      refine ⟨.real fresh, fun legible => .leaf ?_ rfl⟩
      rintro _ _ ⟨⟩
      exact ⟨value, fun _ => legible.value, eq_ok_of_literal read⟩
    · rcases Results.of_map built with ⟨truth, _, equal⟩
      cases equal
      exact ⟨.bool fresh, fun _ => .leaf nofun rfl⟩
    · rcases Results.of_bind built with ⟨text, _, built⟩
      split at built
      · cases built
        exact ⟨.char fresh, fun _ => .leaf nofun rfl⟩
      · cases built
    · cases built
      exact ⟨.ident fresh, fun _ => .leaf nofun rfl⟩
    · rcases Results.of_bind built with ⟨base, baseBuilt, ⟨⟩⟩
      have inner := someExpr_of_ok source operand baseBuilt
      exact ⟨.member fresh inner.whole,
        fun legible => .one nofun rfl (inner.reals (legible.part 0 rfl))⟩
    · rcases Results.of_binds built with ⟨arrayNode, arrayBuilt, indexNode, indexBuilt, ⟨⟩⟩
      have first := someExpr_of_ok source array arrayBuilt
      have second := someExpr_of_ok source index indexBuilt
      exact ⟨.subscript fresh first.whole second.whole, fun legible =>
        .two nofun rfl (first.reals (legible.part 3 rfl)) (second.reals (legible.part 4 rfl))⟩
    · rcases Results.of_binds built with ⟨operator, known, operandNode, operandBuilt, ⟨⟩⟩
      have inner := someExpr_of_ok source operand operandBuilt
      exact ⟨.unary fresh (operator_mem_all known) inner.whole,
        fun legible => .one nofun rfl (inner.reals (legible.part 0 rfl))⟩
    · rcases Results.of_binds built with ⟨operator, known, leftNode, leftBuilt, built⟩
      rcases Results.of_bind built with ⟨rightNode, rightBuilt, ⟨⟩⟩
      have first := someExpr_of_ok source left leftBuilt
      have second := someExpr_of_ok source right rightBuilt
      exact ⟨.binary fresh (operator_mem_all known) first.whole second.whole, fun legible =>
        .two nofun rfl (first.reals (legible.part 1 rfl)) (second.reals (legible.part 2 rfl))⟩
    · rcases Results.of_bind built with ⟨nodes, nodesBuilt, ⟨⟩⟩
      rcases exprs_of_ok source args nodesBuilt with ⟨whole, reals⟩
      exact ⟨.call fresh whole, fun legible =>
        .of_parts nofun rfl fun node member _ => reals (live (legible.part 12 rfl)) node member⟩
    · cases built

theorem someExpr_of_ok (source : Int64) : forall (entry : Option Entry) {node},
    Document.someExpr source entry = .ok node ->
    BuiltOf (Expr source) (AllLegible [entry]) node
  | none, _, built => by cases built
  | some entry, _, built =>
    { expr_of_ok source entry built with
      reals := fun all => (expr_of_ok source entry built).reals (Entry.allLegible_some.mp all) }

theorem exprs_of_ok (source : Int64) : forall (entries : List (Option Entry)) {nodes},
    Document.exprs source entries = .ok nodes -> Exprs source nodes
      ∧ (AllLegible entries -> forall node, node ∈ nodes -> node.Throughout RealRead)
  | [], _, built => by
    cases built
    exact ⟨.nil, fun _ => List.forall_mem_nil _⟩
  | entry :: entries, _, built => by
    rw [Document.exprs] at built
    rcases Results.of_binds built with ⟨node, nodeBuilt, nodes, nodesBuilt, ⟨⟩⟩
    have first := someExpr_of_ok source entry nodeBuilt
    rcases exprs_of_ok source entries nodesBuilt with ⟨rest, reals⟩
    refine ⟨.cons first.whole rest, fun all => ?_⟩
    rcases Entry.allLegible_cons.mp all with ⟨here, later⟩
    exact List.forall_mem_cons.mpr ⟨first.reals here, reals later⟩

end

variable {source : Int64} {entry : Option Entry} {node : Node}

theorem throughout_absent : Node.absent.Throughout RealRead := .leaf nofun rfl

/-- An optional expression is missing or whole. -/
theorem anyExpr_of_ok (built : Document.anyExpr source entry = .ok node) :
    BuiltOf (fun node => node = .absent ∨ Expr source node) (AllLegible [entry]) node := by
  cases entry with
  | none =>
    cases built
    exact ⟨.inl rfl, fun _ => throughout_absent⟩
  | some entry =>
    have inner := someExpr_of_ok source (some entry) built
    exact ⟨.inr inner.whole, inner.reals⟩

mutual

theorem stmt_of_ok (source : Int64) : forall (entry : Entry) {node},
    Document.stmt source entry = .ok node -> BuiltOf (Stmt source) entry.Legible node
  | ⟨kind, ⟨pos, _⟩, length, _, name, _, _, type, value, _, _, _, _, init, lhs, rhs, cond, thenPart,
    elsePart, body, _, ⟨stmts, _⟩, _, _, _⟩, node, built => by
    rw [Document.stmt] at built
    rcases Results.of_bind built with ⟨span, placed, built⟩
    have fresh : Fresh source { span } := ⟨span, place_of_ok placed, rfl⟩
    split at built
    · rcases Results.of_bind built with ⟨nodes, nodesBuilt, ⟨⟩⟩
      rcases stmtList_of_ok source stmts nodesBuilt with ⟨whole, reals⟩
      exact ⟨.block fresh whole, fun legible =>
        .of_parts nofun rfl fun node member _ => reals (live (legible.part 13 rfl)) node member⟩
    · rcases Results.of_binds built with ⟨⟨_, declaredType⟩, declared, initNode, initBuilt, built⟩
      rcases declared_of_ok declared with ⟨_, named, typeDeclared⟩
      have inner := anyExpr_of_ok initBuilt
      cases built
      refine ⟨?_, fun legible => .one nofun rfl (inner.reals (legible.part 5 rfl))⟩
      rcases inner.whole with missing | whole
      · rw [missing]
        exact .varDecl fresh named typeDeclared
      · exact .varDeclInit fresh named typeDeclared whole
    · rcases Results.of_binds built with ⟨target, targetBuilt, valueNode, valueBuilt, ⟨⟩⟩
      have first := someExpr_of_ok source lhs targetBuilt
      have second := someExpr_of_ok source rhs valueBuilt
      exact ⟨.assign fresh first.whole second.whole, fun legible =>
        .two nofun rfl (first.reals (legible.part 6 rfl)) (second.reals (legible.part 7 rfl))⟩
    · rcases Results.of_binds built with ⟨test, testBuilt, thenNode, thenBuilt, built⟩
      rcases Results.of_bind built with ⟨elseNode, elseBuilt, built⟩
      have inTest := someExpr_of_ok source cond testBuilt
      have inThen := someStmt_of_ok source thenPart thenBuilt
      have inElse := anyStmt_of_ok source elsePart elseBuilt
      cases built
      refine ⟨?_, fun legible => .three nofun rfl (inTest.reals (legible.part 8 rfl))
        (inThen.reals (legible.part 9 rfl)) fun _ => inElse.reals (legible.part 10 rfl)⟩
      rcases inElse.whole with missing | elseWhole
      · rw [missing]
        exact .branch fresh inTest.whole inThen.whole
      · exact .branchElse fresh inTest.whole inThen.whole elseWhole
    · rcases Results.of_binds built with ⟨test, testBuilt, bodyNode, bodyBuilt, ⟨⟩⟩
      have inTest := someExpr_of_ok source cond testBuilt
      have inBody := someStmt_of_ok source body bodyBuilt
      exact ⟨.loop fresh inTest.whole inBody.whole, fun legible =>
        .two nofun rfl (inTest.reals (legible.part 8 rfl)) (inBody.reals (legible.part 11 rfl))⟩
    · rcases Results.of_bind built with ⟨valueNode, valueBuilt, ⟨⟩⟩
      have inner := anyExpr_of_ok valueBuilt
      refine ⟨?_, fun legible => .one nofun rfl (inner.reals (legible.part 0 rfl))⟩
      rcases inner.whole with missing | whole
      · rw [missing]
        exact .ret fresh
      · exact .retValue fresh whole
    · cases built

theorem someStmt_of_ok (source : Int64) : forall (entry : Option Entry) {node},
    Document.someStmt source entry = .ok node ->
    BuiltOf (Stmt source) (AllLegible [entry]) node
  | none, _, built => by cases built
  | some entry, _, built =>
    { stmt_of_ok source entry built with
      reals := fun all => (stmt_of_ok source entry built).reals (Entry.allLegible_some.mp all) }

theorem anyStmt_of_ok (source : Int64) : forall (entry : Option Entry) {node},
    Document.anyStmt source entry = .ok node ->
    BuiltOf (fun node => node = .absent ∨ Stmt source node) (AllLegible [entry]) node
  | none, _, built => by
    cases built
    exact ⟨.inl rfl, fun _ => throughout_absent⟩
  | some entry, _, built => by
    have inner := stmt_of_ok source entry built
    exact ⟨.inr inner.whole, fun all => inner.reals (Entry.allLegible_some.mp all)⟩

theorem stmtList_of_ok (source : Int64) : forall (entries : List (Option Entry))
    {nodes},
    Document.stmtList source entries = .ok nodes -> Stmts source nodes
      ∧ (AllLegible entries -> forall node, node ∈ nodes -> node.Throughout RealRead)
  | [], _, built => by
    cases built
    exact ⟨.nil, fun _ => List.forall_mem_nil _⟩
  | entry :: entries, _, built => by
    rw [Document.stmtList] at built
    rcases Results.of_binds built with ⟨node, nodeBuilt, nodes, nodesBuilt, ⟨⟩⟩
    have first := someStmt_of_ok source entry nodeBuilt
    rcases stmtList_of_ok source entries nodesBuilt with ⟨rest, reals⟩
    refine ⟨.cons first.whole rest, fun all => ?_⟩
    rcases Entry.allLegible_cons.mp all with ⟨here, later⟩
    exact List.forall_mem_cons.mpr ⟨first.reals here, reals later⟩

end

/-! ## Declarations and programs -/

theorem plain_of_ok (built : Document.plainDeclaration source entry = .ok node) :
    Plain source node := by
  cases entry with
  | none => cases built
  | some entry =>
    rcases Results.of_bind built with ⟨⟨span, type⟩, declared, built⟩
    rcases declared_of_ok declared with ⟨place, named, typeDeclared⟩
    dsimp only at built
    split at built
    · cases built
      exact .varDecl ⟨span, place, rfl⟩ named typeDeclared
    · cases built

/-- Every element of a list that was built element by element comes from a step
that succeeded. -/
theorem forall_of_mapM {Cell Part Failure : Type} {build : Cell -> Except Failure Part}
    {Whole : Part -> Prop} (each : forall cell part, build cell = .ok part -> Whole part) :
    forall (cells : List Cell) {parts}, cells.mapM build = .ok parts ->
      forall part, part ∈ parts -> Whole part
  | [], _, built, _, member => by
    cases built
    cases member
  | cell :: cells, _, built, part, member => by
    rw [List.mapM_cons] at built
    rcases Results.of_binds built with ⟨first, firstBuilt, rest, restBuilt, ⟨⟩⟩
    rcases List.mem_cons.mp member with same | later
    · exact same ▸ each cell first firstBuilt
    · exact forall_of_mapM each cells restBuilt part later

theorem struct_of_ok (built : Document.structDecl source entry = .ok node) :
    Struct source node := by
  cases entry with
  | none => cases built
  | some entry =>
    rw [Document.structDecl] at built
    split at built
    · cases built
    · rcases Results.of_binds built with ⟨span, placed, fields, fieldsBuilt, ⟨⟩⟩
      exact .structDecl ⟨span, place_of_ok placed, rfl⟩
        (forall_of_mapM (fun _ _ => plain_of_ok) _ fieldsBuilt)

theorem Plain.throughout (plain : Plain source node) : node.Throughout RealRead := by
  cases plain with
  | varDecl => exact .leaf nofun rfl

theorem Struct.throughout (struct : Struct source node) : node.Throughout RealRead := by
  cases struct with
  | structDecl _ fields =>
    exact .of_parts nofun rfl fun field member _ => (fields field member).throughout

/-- A whole statement that is a block has whole statements. -/
theorem Stmt.block_of_kind (whole : Stmt source node) (kind : node.kind = .block) :
    exists note stmts, node = .block note stmts ∧ Fresh source note ∧ Stmts source stmts := by
  cases whole with
  | block fresh stmts => exact ⟨_, _, rfl, fresh, stmts⟩
  | _ => cases kind

theorem function_of_ok (built : Document.funcDecl source entry = .ok node) :
    BuiltOf (Function source) (AllLegible [entry]) node := by
  cases entry with
  | none => cases built
  | some entry =>
    rw [Document.funcDecl] at built
    split at built
    · cases built
    · rcases Results.of_binds built with ⟨span, placed, params, paramsBuilt, built⟩
      rcases Results.of_bind built with ⟨result, resultBuilt, built⟩
      split at built
      · cases built
      · rename_i present
        rcases Results.of_bind built with ⟨body, bodyBuilt, built⟩
        split at built
        · rename_i isBlock
          have inBody := stmt_of_ok source _ bodyBuilt
          have plain := forall_of_mapM (fun _ _ => plain_of_ok) _ paramsBuilt
          cases built
          constructor
          · rcases inBody.whole.block_of_kind isBlock
                with ⟨bodyNote, stmts, equal, fresh, stmtsWhole⟩
            rw [equal]
            exact .funcDecl ⟨span, place_of_ok placed, rfl⟩ plain
              (declared_of_typeOf _ (inside_eq_ok.mp resultBuilt)) fresh stmtsWhole
          · intro all
            have legible := (Entry.allLegible_some.mp all).part 11 rfl
            rw [present] at legible
            refine .of_parts nofun rfl (List.forall_mem_append.mpr
              ⟨fun param member _ => (plain param member).throughout, ?_⟩)
            exact List.forall_mem_singleton.mpr fun _ =>
              inBody.reals (Entry.allLegible_some.mp legible)
        · cases built

theorem top_of_ok (built : Document.topBlock source entry = .ok node) :
    BuiltOf (Top source) (AllLegible [entry]) node := by
  rcases Results.of_bind built with ⟨stmt, stmtBuilt, built⟩
  split at built
  · rename_i isBlock
    have inner := someStmt_of_ok source entry stmtBuilt
    cases built
    refine ⟨?_, inner.reals⟩
    rcases inner.whole.block_of_kind isBlock with ⟨note, stmts, equal, fresh, stmtsWhole⟩
    rw [equal]
    exact .block fresh stmtsWhole
  · cases built

theorem forall_of_listed {place : Nat -> RefusalPlace} {build : Option Entry -> Document.Built Node}
    {Whole : Node -> Prop} :
    forall {entries start nodes},
      (forall entry, entry ∈ entries -> forall node, build entry = .ok node -> Whole node) ->
      Document.listed place build start entries = .ok nodes ->
      forall node, node ∈ nodes -> Whole node
  | [], _, _, _, built => by
    cases built
    exact List.forall_mem_nil _
  | entry :: entries, _, _, each, built => by
    rw [Document.listed] at built
    rcases Results.of_binds built with ⟨first, firstBuilt, rest, restBuilt, ⟨⟩⟩
    rcases List.forall_mem_cons.mp each with ⟨here, later⟩
    exact List.forall_mem_cons.mpr
      ⟨here first (inside_eq_ok.mp firstBuilt), forall_of_listed later restBuilt⟩

/-- The program of a document is whole. -/
theorem whole_of_program {document : Document}
    (built : document.program source = .ok program) : Whole source program := by
  rcases Results.of_binds built with ⟨structs, structsBuilt, functions, functionsBuilt, built⟩
  rcases Results.of_bind built with ⟨blocks, blocksBuilt, ⟨⟩⟩
  exact {
    structs := forall_of_listed (fun _ _ _ => struct_of_ok) structsBuilt
    functions := forall_of_listed (fun _ _ _ built => (function_of_ok built).whole) functionsBuilt
    blocks := forall_of_listed (fun _ _ _ built => (top_of_ok built).whole) blocksBuilt
    phase := rfl }

/-- The real numbers in the program of a legible document are read from its values. -/
theorem reals_of_program {document : Document} (legible : document.Legible)
    (built : document.program source = .ok program) : forall node, program.Holds node ->
    RealRead node := by
  have whole := whole_of_program built
  rcases Results.of_binds built with ⟨structs, _, functions, functionsBuilt, built⟩
  rcases Results.of_bind built with ⟨blocks, blocksBuilt, ⟨⟩⟩
  have single {entries : List (Option Entry)} (all : AllLegible entries) {entry : Option Entry}
      (member : entry ∈ entries) : AllLegible [entry] :=
    fun part same => all part (List.mem_singleton.mp same ▸ member)
  have inFunctions := forall_of_listed (fun _ member _ built =>
    (function_of_ok built).reals (single (live legible.functions) member)) functionsBuilt
  have inBlocks := forall_of_listed (fun _ member _ built =>
    (top_of_ok built).reals (single (live legible.blocks) member)) blocksBuilt
  rintro node ⟨root, member, within⟩
  rcases List.mem_append.mp member with declaration | isBlock
  · rcases List.mem_append.mp declaration with isStruct | isFunction
    · exact (whole.structs root isStruct).throughout node within
    · exact inFunctions root isFunction node within
  · exact inBlocks root isBlock node within

/-- A program that is read from a text is whole. -/
theorem whole_of_decode (decoded : Program.decode bytes source = .ok program) :
    Whole source program := by
  unfold Program.decode at decoded
  split at decoded
  · cases decoded
  · exact whole_of_program decoded

/-! ## A small document

The general statements about programs that are read from a text are applied to
this one where they need an input.
-/

/-- A structure `P` with a field `x`, a function `f` that takes a `P` by reference
and gives its field, and a block with a loop and a call. -/
def sampleText : List UInt8 :=
  List.flatMap (fun line => line.toUTF8.data.toList)
    ["\x7b\"structs\":[\x7b\"kind\":\"struct\",\"name\":\"P\",\"fields\":[",
     "\x7b\"kind\":\"var\",\"name\":\"x\",\"type\":\x7b\"kind\":\"Integer\"\x7d\x7d]\x7d],",
     "\"functions\":[\x7b\"kind\":\"func\",\"name\":\"f\",\"params\":[",
     "\x7b\"kind\":\"var\",\"name\":\"p\",\"type\":\x7b\"kind\":\"Struct\",\"name\":\"P\"\x7d\x7d],",
     "\"returns\":\x7b\"kind\":\"Integer\"\x7d,\"body\":\x7b\"kind\":\"block\",\"stmts\":[",
     "\x7b\"kind\":\"return\",\"expr\":\x7b\"kind\":\"field\",\"field\":\"x\",",
     "\"expr\":\x7b\"kind\":\"ident\",\"name\":\"p\"\x7d\x7d\x7d]\x7d\x7d],",
     "\"blocks\":[\x7b\"kind\":\"block\",\"stmts\":[",
     "\x7b\"kind\":\"var\",\"name\":\"q\",\"type\":\x7b\"kind\":\"Struct\",\"name\":\"P\"\x7d\x7d,",
     "\x7b\"kind\":\"while\",\"cond\":\x7b\"kind\":\"bool\",\"value\":false\x7d,",
     "\"body\":\x7b\"kind\":\"block\"\x7d\x7d,",
     "\x7b\"kind\":\"assign\",\"lhs\":\x7b\"kind\":\"field\",\"field\":\"x\",",
     "\"expr\":\x7b\"kind\":\"ident\",\"name\":\"q\"\x7d\x7d,\"rhs\":\x7b\"kind\":\"call\",\"name\":\"f\",",
     "\"args\":[\x7b\"kind\":\"ident\",\"name\":\"q\"\x7d]\x7d\x7d]\x7d]\x7d"]

/-- The program of that document. -/
def sample : Program := (Program.decode sampleText 0).toOption.getD default

theorem eq_ok_of_isSome (readable : (Program.decode bytes source).toOption.isSome = true) :
    Program.decode bytes source = .ok ((Program.decode bytes source).toOption.getD default) := by
  cases decoded : Program.decode bytes source with
  | ok program => rfl
  | error failure =>
    rw [decoded] at readable
    cases readable

theorem decode_sampleText : Program.decode sampleText 0 = .ok sample :=
  eq_ok_of_isSome (by decide +kernel)

/-- A structure `P` with a field `x` and an array `r`, and a block with an array of them:
a loop, a copy of an element, and an index that is read from a field. -/
def gridText : List UInt8 :=
  List.flatMap (fun line => line.toUTF8.data.toList)
    ["\x7b\"structs\":[\x7b\"kind\":\"struct\",\"name\":\"P\",\"fields\":[\x7b\"kind\":\"var\",",
     "\"name\":\"x\",\"type\":\x7b\"kind\":\"Integer\"\x7d\x7d,\x7b\"kind\":\"var\",",
     "\"name\":\"r\",\"type\":\x7b\"kind\":\"Array\",\"len\":3,",
     "\"elem\":\x7b\"kind\":\"Integer\"\x7d\x7d\x7d]\x7d],\"blocks\":[\x7b\"kind\":\"block\",",
     "\"stmts\":[\x7b\"kind\":\"var\",\"name\":\"a\",\"type\":\x7b\"kind\":\"Array\",\"len\":2,",
     "\"elem\":\x7b\"kind\":\"Struct\",\"name\":\"P\"\x7d\x7d\x7d,\x7b\"kind\":\"var\",",
     "\"name\":\"i\",\"type\":\x7b\"kind\":\"Integer\"\x7d,\"init\":\x7b\"kind\":\"int\",",
     "\"value\":1\x7d\x7d,\x7b\"kind\":\"while\",\"cond\":\x7b\"kind\":\"binary\",\"op\":\"<\",",
     "\"left\":\x7b\"kind\":\"ident\",\"name\":\"i\"\x7d,\"right\":\x7b\"kind\":\"int\",",
     "\"value\":2\x7d\x7d,\"body\":\x7b\"kind\":\"assign\",\"lhs\":\x7b\"kind\":\"ident\",",
     "\"name\":\"i\"\x7d,\"rhs\":\x7b\"kind\":\"binary\",\"op\":\"+\",",
     "\"left\":\x7b\"kind\":\"ident\",\"name\":\"i\"\x7d,\"right\":\x7b\"kind\":\"int\",",
     "\"value\":1\x7d\x7d\x7d\x7d,\x7b\"kind\":\"assign\",\"lhs\":\x7b\"kind\":\"index\",",
     "\"array\":\x7b\"kind\":\"ident\",\"name\":\"a\"\x7d,\"index\":\x7b\"kind\":\"int\",",
     "\"value\":0\x7d\x7d,\"rhs\":\x7b\"kind\":\"index\",\"array\":\x7b\"kind\":\"ident\",",
     "\"name\":\"a\"\x7d,\"index\":\x7b\"kind\":\"int\",\"value\":1\x7d\x7d\x7d,",
     "\x7b\"kind\":\"assign\",\"lhs\":\x7b\"kind\":\"index\",\"array\":\x7b\"kind\":\"field\",",
     "\"field\":\"r\",\"expr\":\x7b\"kind\":\"index\",\"array\":\x7b\"kind\":\"ident\",",
     "\"name\":\"a\"\x7d,\"index\":\x7b\"kind\":\"int\",\"value\":0\x7d\x7d\x7d,",
     "\"index\":\x7b\"kind\":\"field\",\"field\":\"x\",\"expr\":\x7b\"kind\":\"index\",",
     "\"array\":\x7b\"kind\":\"ident\",\"name\":\"a\"\x7d,\"index\":\x7b\"kind\":\"int\",",
     "\"value\":1\x7d\x7d\x7d\x7d,\"rhs\":\x7b\"kind\":\"ident\",",
     "\"name\":\"i\"\x7d\x7d]\x7d]\x7d"]

/-- The program of that document. -/
def grid : Program := (Program.decode gridText 0).toOption.getD default

theorem decode_gridText : Program.decode gridText 0 = .ok grid :=
  eq_ok_of_isSome (by decide +kernel)

end Written
end PCode
