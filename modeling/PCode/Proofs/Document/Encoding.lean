import PCode.Proofs.Binary64.Numerals
import PCode.Proofs.Document.Legible
import PCode.Proofs.Tree
import PCode.Proofs.Written

namespace PCode

namespace Node

/-- Every real number in a tree is finite. -/
def RealsFinite (node : Node) : Prop :=
  forall note value, (Node.real note value).Within node -> value.isFinite = true

theorem realsFinite_absent : Node.absent.RealsFinite := by
  intro note value within
  cases within with
  | inside member _ => cases member

theorem RealsFinite.part {node child : Node} {parts : List Node} (finite : node.RealsFinite)
    (listed : node.children = parts.filter isPresent) (member : child ∈ parts) :
    child.RealsFinite := by
  cases present : child.isPresent with
  | false =>
    rw [eq_absent present]
    exact realsFinite_absent
  | true =>
    intro note value within
    exact finite note value (.inside (listed ▸ List.mem_filter.mpr ⟨member, present⟩) within)

end Node

namespace Written

/-!
Documents of trees.

Every tree that satisfies the rules of documents is the tree of some document: each node is written
as an entry of its kind, with its place, its names and its parts.  Building the tree of that document
gives the same tree, node by node.
-/

/-! ## Types and places -/

/-- A declared type as a document writes it. -/
def typeRefOf : Ty -> TypeRef
  | .integer => { kind := "Integer" }
  | .boolean => { kind := "Boolean" }
  | .real => { kind := "Real" }
  | .char => { kind := "Char" }
  | .struct name _ => { kind := "Struct", name }
  | .array length elem => { kind := "Array", length, elem := some (typeRefOf elem) }
  | _ => {}

theorem isEmpty_eq_false {name} (named : name ≠ "") : name.isEmpty = false := by
  rw [Bool.eq_false_iff]
  intro empty
  exact named (String.isEmpty_iff.mp empty)

theorem typeOf_typeRefOf {type} (declared : Declared type) :
    Document.typeOf (some (typeRefOf type)) = .ok type := by
  induction declared with
  | integer => rfl
  | boolean => rfl
  | real => rfl
  | char => rfl
  | struct named =>
    rw [typeRefOf, Document.typeOf, Document.typeOfRef]
    exact if_neg (Bool.eq_false_iff.mp (isEmpty_eq_false named))
  | array inRange _ ih =>
    rw [typeRefOf, Document.typeOf, Document.typeOfRef]
    rw [if_pos inRange, ih]
    rfl

variable {source : Int64}

theorem place_written {span} (place : Place source span) (kind : String) :
    Document.place source kind [span.line, span.column] span.length = .ok span := by
  rw [Document.place, place.line, place.column, place.length, ← place.file]
  rfl

/-! ## Entries of nodes -/

/-- An entry with a kind and a place. -/
def entryAt (kind : String) (note : Note) : Entry where
  kind := kind
  pos := { live := [note.span.line, note.span.column] }
  length := note.span.length

mutual

/-- The entry of a node. -/
def entryOf : Node -> Entry
  | .number note value =>
    { entryAt "int" note with value := some (.number (Json.integerText value.toInt)) }
  | .real note value => { entryAt "real" note with value := some (.number value.numeral) }
  | .bool note value => { entryAt "bool" note with value := some (.bool value) }
  | .char note code =>
    { entryAt "char" note with
      value := some (.string (String.ofList [Char.ofNat code.toNatClampNeg])) }
  | .ident note name => { entryAt "ident" note with name }
  | .member note base field _ =>
    { entryAt "field" note with field, expr := some (entryOf base) }
  | .subscript note array index =>
    { entryAt "index" note with array := some (entryOf array), index := some (entryOf index) }
  | .unary note operator operand =>
    { entryAt "unary" note with op := operator.text, expr := some (entryOf operand) }
  | .binary note operator left right =>
    { entryAt "binary" note with
      op := operator.text, left := some (entryOf left), right := some (entryOf right) }
  | .call note name args _ =>
    { entryAt "call" note with name, args := { live := entriesOf args } }
  | .varDecl note name type init =>
    { entryAt "var" note with
      name, type := some (typeRefOf type)
      init := if init.isPresent then some (entryOf init) else none }
  | .assign note target value =>
    { entryAt "assign" note with lhs := some (entryOf target), rhs := some (entryOf value) }
  | .branch note test thenBody elseBody =>
    { entryAt "if" note with
      cond := some (entryOf test), thenPart := some (entryOf thenBody)
      elsePart := if elseBody.isPresent then some (entryOf elseBody) else none }
  | .loop note test body =>
    { entryAt "while" note with cond := some (entryOf test), body := some (entryOf body) }
  | .ret note value =>
    { entryAt "return" note with
      expr := if value.isPresent then some (entryOf value) else none }
  | .block note stmts => { entryAt "block" note with stmts := { live := entriesOf stmts } }
  | .structDecl note name fields =>
    { entryAt "struct" note with name, fields := { live := entriesOf fields } }
  | .funcDecl note name params result body _ _ =>
    { entryAt "func" note with
      name, params := { live := entriesOf params }, returns := some (typeRefOf result)
      body := some (entryOf body) }
  | _ => {}

/-- The entries of nodes. -/
def entriesOf : List Node -> List (Option Entry)
  | [] => []
  | node :: nodes => some (entryOf node) :: entriesOf nodes

end

theorem operator_text {operator} (known : operator ∈ Operator.all) (span : Span) :
    Document.operator operator.text span = .ok operator := by
  have found : forall other, other ∈ Operator.all -> Operator.ofText? other.text = some other := by
    decide
  rw [Document.operator, found operator known]

theorem ofNat_toNatClampNeg (char : Char) :
    Char.ofNat (Int32.ofNat char.toNat).toNatClampNeg = char := by
  have bound : char.toNat < 0x110000 := by
    rcases char.valid with small | large
    · exact Nat.lt_trans small (by decide)
    · exact large.2
  rw [Int32.toNatClampNeg, Int32.toInt_ofNat_of_lt (by omega), Int.toNat_natCast, Char.ofNat_toNat]

attribute [local simp] entryAt entryOf entriesOf Document.expr Document.exprs Document.someExpr
  Document.anyExpr Document.stmt Document.stmtList Document.someStmt Document.anyStmt
  Document.literal Results.ok_bind

mutual

theorem expr_entryOf {source node} :
    Expr source node -> node.RealsFinite -> Document.expr source (entryOf node) = .ok node
  | .number fresh inRange, _ => by
    rcases fresh with ⟨span, place, rfl⟩
    simp [place_written place, Document.integerValue, Json.int64?_integerText, inRange]
  | .real fresh, finite => by
    rcases fresh with ⟨span, place, rfl⟩
    simp [place_written place, Document.realValue, Binary64.read_numeral (finite _ _ .root),
      Except.map]
  | .bool fresh, _ => by
    rcases fresh with ⟨span, place, rfl⟩
    simp [place_written place, Document.boolValue, Except.map]
  | .char fresh, _ => by
    rcases fresh with ⟨span, place, rfl⟩
    simp [place_written place, Document.textValue, ofNat_toNatClampNeg]
  | .ident fresh, _ => by
    rcases fresh with ⟨span, place, rfl⟩
    simp [place_written place]
  | .member fresh base, finite => by
    rcases fresh with ⟨span, place, rfl⟩
    simp [place_written place, expr_entryOf base (finite.part rfl (.head _))]
  | .subscript fresh array index, finite => by
    rcases fresh with ⟨span, place, rfl⟩
    have arrayFinite := finite.part rfl (.head _)
    have indexFinite := finite.part rfl (.tail _ (.head _))
    simp [place_written place, expr_entryOf array arrayFinite, expr_entryOf index indexFinite]
  | .unary fresh known operand, finite => by
    rcases fresh with ⟨span, place, rfl⟩
    have operandFinite := finite.part rfl (.head _)
    simp [place_written place, operator_text known, expr_entryOf operand operandFinite]
  | .binary fresh known left right, finite => by
    rcases fresh with ⟨span, place, rfl⟩
    have leftFinite := finite.part rfl (.head _)
    have rightFinite := finite.part rfl (.tail _ (.head _))
    simp [place_written place, operator_text known, expr_entryOf left leftFinite,
      expr_entryOf right rightFinite]
  | .call fresh args, finite => by
    rcases fresh with ⟨span, place, rfl⟩
    simp [place_written place, exprs_entriesOf args fun _ => finite.part rfl]

theorem exprs_entriesOf {source nodes} :
    Exprs source nodes -> (forall node, node ∈ nodes -> node.RealsFinite) ->
    Document.exprs source (entriesOf nodes) = .ok nodes
  | .nil, _ => rfl
  | .cons first rest, finite => by
    rcases List.forall_mem_cons.mp finite with ⟨firstFinite, restFinite⟩
    simp [expr_entryOf first firstFinite, exprs_entriesOf rest restFinite]

end

theorem Expr.isPresent {node} (whole : Expr source node) : node.isPresent = true := by
  cases whole <;> rfl

theorem Stmt.isPresent {node} (whole : Stmt source node) : node.isPresent = true := by
  cases whole <;> rfl

theorem declared_written {kind name span type} (place : Place source span) (named : name ≠ "")
    (declared : Declared type) :
    Document.declared source kind [span.line, span.column] span.length name
      (some (typeRefOf type)) = .ok (span, type) := by
  rw [Document.declared, place_written place, typeOf_typeRefOf declared]
  exact if_neg (Bool.eq_false_iff.mp (isEmpty_eq_false named))

mutual

theorem stmt_entryOf {source node} :
    Stmt source node -> node.RealsFinite -> Document.stmt source (entryOf node) = .ok node
  | .block fresh stmts, finite => by
    rcases fresh with ⟨span, place, rfl⟩
    simp [place_written place, stmts_entriesOf stmts fun _ => finite.part rfl]
  | .varDecl fresh named declared, _ => by
    rcases fresh with ⟨span, place, rfl⟩
    simp [place_written place, declared_written place named declared, Node.isPresent]
  | .varDeclInit fresh named declared init, finite => by
    rcases fresh with ⟨span, place, rfl⟩
    have initFinite := finite.part rfl (.head _)
    simp [place_written place, declared_written place named declared, init.isPresent,
      expr_entryOf init initFinite]
  | .assign fresh target value, finite => by
    rcases fresh with ⟨span, place, rfl⟩
    have targetFinite := finite.part rfl (.head _)
    have valueFinite := finite.part rfl (.tail _ (.head _))
    simp [place_written place, expr_entryOf target targetFinite, expr_entryOf value valueFinite]
  | .branch fresh test thenBody, finite => by
    rcases fresh with ⟨span, place, rfl⟩
    have testFinite := finite.part rfl (.head _)
    have thenFinite := finite.part rfl (.tail _ (.head _))
    simp [place_written place, expr_entryOf test testFinite, stmt_entryOf thenBody thenFinite,
      Node.isPresent]
  | .branchElse fresh test thenBody elseBody, finite => by
    rcases fresh with ⟨span, place, rfl⟩
    have testFinite := finite.part rfl (.head _)
    have thenFinite := finite.part rfl (.tail _ (.head _))
    have elseFinite := finite.part rfl (.tail _ (.tail _ (.head _)))
    simp [place_written place, expr_entryOf test testFinite, stmt_entryOf thenBody thenFinite,
      elseBody.isPresent, stmt_entryOf elseBody elseFinite]
  | .loop fresh test body, finite => by
    rcases fresh with ⟨span, place, rfl⟩
    have testFinite := finite.part rfl (.head _)
    have bodyFinite := finite.part rfl (.tail _ (.head _))
    simp [place_written place, expr_entryOf test testFinite, stmt_entryOf body bodyFinite]
  | .ret fresh, _ => by
    rcases fresh with ⟨span, place, rfl⟩
    simp [place_written place, Node.isPresent]
  | .retValue fresh value, finite => by
    rcases fresh with ⟨span, place, rfl⟩
    have valueFinite := finite.part rfl (.head _)
    simp [place_written place, value.isPresent, expr_entryOf value valueFinite]

theorem stmts_entriesOf {source nodes} :
    Stmts source nodes -> (forall node, node ∈ nodes -> node.RealsFinite) ->
    Document.stmtList source (entriesOf nodes) = .ok nodes
  | .nil, _ => rfl
  | .cons first rest, finite => by
    rcases List.forall_mem_cons.mp finite with ⟨firstFinite, restFinite⟩
    simp [stmt_entryOf first firstFinite, stmts_entriesOf rest restFinite]

end

/-! ## Declarations and programs -/

section Programs

variable {source : Int64} {node : Node} {nodes : List Node}

theorem plain_entryOf (plain : Plain source node) :
    Document.plainDeclaration source (some (entryOf node)) = .ok node := by
  cases plain with
  | varDecl fresh named declared =>
    rcases fresh with ⟨span, place, rfl⟩
    simp [Document.plainDeclaration, declared_written place named declared, Node.isPresent]

theorem mapM_entriesOf {build : Option Entry -> Document.Built Node}
    (each : forall node, node ∈ nodes -> build (some (entryOf node)) = .ok node) :
    (entriesOf nodes).mapM build = .ok nodes := by
  induction nodes with
  | nil => rfl
  | cons node nodes ih =>
    rcases List.forall_mem_cons.mp each with ⟨first, rest⟩
    rw [entriesOf, List.mapM_cons, first, ih rest]
    rfl

theorem struct_entryOf (struct : Struct source node) :
    Document.structDecl source (some (entryOf node)) = .ok node := by
  cases struct with
  | structDecl fresh fields =>
    rcases fresh with ⟨span, place, rfl⟩
    have built := mapM_entriesOf fun field member => plain_entryOf (fields field member)
    simp [Document.structDecl, place_written place, built]

theorem function_entryOf (function : Function source node) (finite : node.RealsFinite) :
    Document.funcDecl source (some (entryOf node)) = .ok node := by
  cases function with
  | funcDecl fresh params result bodyFresh stmts =>
    rcases fresh with ⟨span, place, rfl⟩
    have built := mapM_entriesOf fun param member => plain_entryOf (params param member)
    have bodyFinite := finite.part rfl (List.mem_append_right _ (.head _))
    have body := stmt_entryOf (.block bodyFresh stmts) bodyFinite
    rw [entryOf, Document.funcDecl]
    simp only [entryAt, place_written place, Results.ok_bind, built, typeOf_typeRefOf result,
      Document.inside, body]
    rfl

theorem top_entryOf (top : Top source node) (finite : node.RealsFinite) :
    Document.topBlock source (some (entryOf node)) = .ok node := by
  cases top with
  | block fresh stmts =>
    rw [Document.topBlock, Document.someStmt, stmt_entryOf (.block fresh stmts) finite]
    rfl

theorem listed_entriesOf {place : Nat -> RefusalPlace} {build : Option Entry -> Document.Built Node}
    (each : forall node, node ∈ nodes -> build (some (entryOf node)) = .ok node) (start : Nat) :
    Document.listed place build start (entriesOf nodes) = .ok nodes := by
  induction nodes generalizing start with
  | nil => rfl
  | cons node nodes ih =>
    rcases List.forall_mem_cons.mp each with ⟨first, rest⟩
    rw [entriesOf, Document.listed, first, ih rest]
    rfl

/-- The document of a program. -/
def documentOf (program : Program) : Document where
  structs := { live := entriesOf program.structs }
  functions := { live := entriesOf program.functions }
  blocks := { live := entriesOf program.blocks }

/-- The tree of the document of a program is that program. -/
theorem program_documentOf {program} (whole : Whole source program)
    (finite : forall note value, program.Holds (.real note value) -> value.isFinite = true) :
    (documentOf program).program source = .ok program := by
  have roots : forall root, root ∈ program.structs ++ program.functions ++ program.blocks ->
      root.RealsFinite :=
    fun root member note value within => finite note value ⟨root, member, within⟩
  have structs := fun node member => struct_entryOf (whole.structs node member)
  have functions := fun node member => function_entryOf (whole.functions node member)
    (roots node (List.mem_append_left _ (List.mem_append_right _ member)))
  have blocks := fun node member => top_entryOf (whole.blocks node member)
    (roots node (List.mem_append_right _ member))
  rw [documentOf, Document.program, listed_entriesOf structs, Results.ok_bind,
    listed_entriesOf functions, Results.ok_bind, listed_entriesOf blocks, Results.ok_bind,
    ← whole.phase]

end Programs

/-! ## The numbers of the document -/

theorem groups_entryAt (kind : String) (note : Note) :
    Entry.GroupsLegible (entryAt kind note).cells :=
  Entry.legible_empty.inside

mutual

/-- All numbers in the entry of a node are numerals. -/
theorem legible_entryOf : forall node : Node, (entryOf node).Legible
  | .number note value =>
    .intro (fun _ equal => by cases equal; exact Json.isNumeral_integerText value.toInt)
      (groups_entryAt "int" note)
  | .real note value =>
    .intro (fun _ equal => by cases equal; exact Binary64.isNumeral_numeral value)
      (groups_entryAt "real" note)
  | .bool note _ => .intro (fun _ equal => by cases equal) (groups_entryAt "bool" note)
  | .char note _ => .intro (fun _ equal => by cases equal) (groups_entryAt "char" note)
  | .ident note _ => Entry.legible_of_groups rfl (groups_entryAt "ident" note)
  | .member note base _ _ =>
    Entry.legible_of_groups rfl ((groups_entryAt "field" note).set 0 (legible_entryOf base).cell)
  | .subscript note array index =>
    Entry.legible_of_groups rfl
      (((groups_entryAt "index" note).set 3 (legible_entryOf array).cell).set 4
        (legible_entryOf index).cell)
  | .unary note _ operand =>
    Entry.legible_of_groups rfl
      ((groups_entryAt "unary" note).set 0 (legible_entryOf operand).cell)
  | .binary note _ left right =>
    Entry.legible_of_groups rfl
      (((groups_entryAt "binary" note).set 1 (legible_entryOf left).cell).set 2
        (legible_entryOf right).cell)
  | .call note _ args _ =>
    Entry.legible_of_groups rfl ((groups_entryAt "call" note).set 12 (legible_entriesOf args))
  | .varDecl note _ _ init =>
    Entry.legible_of_groups rfl
      ((groups_entryAt "var" note).set 5 ((legible_entryOf init).optionalCell init.isPresent))
  | .assign note target value =>
    Entry.legible_of_groups rfl
      (((groups_entryAt "assign" note).set 6 (legible_entryOf target).cell).set 7
        (legible_entryOf value).cell)
  | .branch note test thenBody elseBody =>
    Entry.legible_of_groups rfl
      ((((groups_entryAt "if" note).set 8 (legible_entryOf test).cell).set 9
        (legible_entryOf thenBody).cell).set 10
        ((legible_entryOf elseBody).optionalCell elseBody.isPresent))
  | .loop note test body =>
    Entry.legible_of_groups rfl
      (((groups_entryAt "while" note).set 8 (legible_entryOf test).cell).set 11
        (legible_entryOf body).cell)
  | .ret note value =>
    Entry.legible_of_groups rfl
      ((groups_entryAt "return" note).set 0 ((legible_entryOf value).optionalCell value.isPresent))
  | .block note stmts =>
    Entry.legible_of_groups rfl ((groups_entryAt "block" note).set 13 (legible_entriesOf stmts))
  | .structDecl note _ fields =>
    Entry.legible_of_groups rfl ((groups_entryAt "struct" note).set 14 (legible_entriesOf fields))
  | .funcDecl note _ params _ body _ _ =>
    Entry.legible_of_groups rfl
      (((groups_entryAt "func" note).set 11 (legible_entryOf body).cell).set 15
        (legible_entriesOf params))
  | .absent => Entry.legible_empty
  | .blank _ _ => Entry.legible_empty

theorem legible_entriesOf : forall nodes : List Node,
    Entry.AllLegible { live := entriesOf nodes : Slots (Option Entry) }.cells
  | [] => Entry.allLegible_nil
  | node :: nodes =>
    Entry.allLegible_cons.mpr ⟨(legible_entryOf node).cell, legible_entriesOf nodes⟩

end

theorem legible_documentOf (program : Program) : (documentOf program).Legible :=
  ⟨legible_entriesOf program.structs, legible_entriesOf program.functions,
    legible_entriesOf program.blocks⟩

end Written
end PCode
