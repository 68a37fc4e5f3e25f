import PCode.Outline
import PCode.Proofs.Document.Encoding

namespace PCode

/-!
Surroundings of nodes.

A tree does not store the parent of a node or the function around it: both are found by walking the
tree.  A tree that is read from a document has an outline, and in that outline every node stands
below its own parent.  In the body of a function every node, however deep, belongs to that function;
the parameters of a function, the fields of a structure and the nodes of the main program belong to
none.
-/

namespace Outline

mutual

/-- The outline of a node below a parent and inside the body of a function.  The outlines of its
parts name it as their parent, and stand in the same body. -/
inductive Surrounded : Option NodeKind -> Option String -> Node -> Outline -> Prop
  | entry {parent owner node addressable parts} :
    node.isAddressable? = some addressable -> AllSurrounded node.kind owner node.children parts ->
    Surrounded parent owner node (.entry node parent owner addressable parts)

/-- The outlines of nodes below one parent. -/
inductive AllSurrounded : NodeKind -> Option String -> List Node -> List Outline -> Prop
  | nil {parent owner} : AllSurrounded parent owner [] []
  | cons {parent owner node nodes outline outlines} :
    Surrounded (some parent) owner node outline -> AllSurrounded parent owner nodes outlines ->
    AllSurrounded parent owner (node :: nodes) (outline :: outlines)

end

/-- The outline of a function of the program.  Its parameters stand in no body, and its body is its
own. -/
inductive SurroundedFunction : Node -> Outline -> Prop
  | entry {note name params result body signature place paramOutlines bodyOutline} :
    AllSurrounded .funcDecl none params paramOutlines ->
    Surrounded (some .funcDecl) (some name) body bodyOutline ->
    SurroundedFunction (.funcDecl note name params result body signature place)
      (.entry (.funcDecl note name params result body signature place) none none false
        (paramOutlines ++ [bodyOutline]))

theorem AllSurrounded.append {parent owner nodes nodes' outlines outlines'}
    (first : AllSurrounded parent owner nodes outlines)
    (second : AllSurrounded parent owner nodes' outlines') :
    AllSurrounded parent owner (nodes ++ nodes') (outlines ++ outlines') := by
  induction nodes generalizing outlines with
  | nil =>
    cases first
    exact second
  | cons node nodes ih =>
    cases first with
    | cons here rest => exact .cons here (ih rest)

/-! ## Outlines of whole trees -/

/-- A node has an outline with the right surroundings. -/
def Stands (parent : Option NodeKind) (owner : Option String) (node : Node) : Prop :=
  exists outline, ofNode parent owner node = some [outline] ∧ Surrounded parent owner node outline

/-- Parts have outlines with the right surroundings, absent parts left out. -/
def PartsStand (parent : NodeKind) (owner : Option String) (parts : Option (List Outline))
    (nodes : List Node) : Prop :=
  exists outlines, parts = some outlines
    ∧ AllSurrounded parent owner (nodes.filter Node.isPresent) outlines

section Parts

variable {parent : NodeKind} {owner : Option String} {node : Node} {nodes nodes' : List Node}
  {parts parts' : Option (List Outline)}

theorem partsStand_nil : PartsStand parent owner (some []) [] := ⟨[], rfl, .nil⟩

theorem partsStand_absent :
    PartsStand parent owner (ofNode (some parent) owner .absent) [.absent] :=
  ⟨[], rfl, .nil⟩

theorem Stands.part (stands : Stands (some parent) owner node) (present : node.isPresent = true) :
    PartsStand parent owner (ofNode (some parent) owner node) [node] := by
  rcases stands with ⟨outline, equal, surrounded⟩
  refine ⟨[outline], equal, ?_⟩
  rw [List.filter_cons_of_pos present]
  exact .cons surrounded .nil

theorem PartsStand.both (first : PartsStand parent owner parts nodes)
    (second : PartsStand parent owner parts' nodes') :
    PartsStand parent owner (both parts parts') (nodes ++ nodes') := by
  rcases first with ⟨outlines, rfl, surrounded⟩
  rcases second with ⟨outlines', rfl, surrounded'⟩
  refine ⟨outlines ++ outlines', rfl, ?_⟩
  rw [List.filter_append]
  exact surrounded.append surrounded'

/-- A node over parts that stand has an outline. -/
theorem stands_of_parts {parent} (addressable : exists answer, node.isAddressable? = some answer)
    (spans : ofNode parent owner node = spanning node parent owner parts)
    (listed : node.children = nodes.filter Node.isPresent)
    (stand : PartsStand node.kind owner parts nodes) : Stands parent owner node := by
  rcases addressable with ⟨answer, known⟩
  rcases stand with ⟨outlines, rfl, surrounded⟩
  refine ⟨.entry node parent owner answer outlines, ?_, .entry known (listed ▸ surrounded)⟩
  rw [spans, spanning, known]
  rfl

end Parts

theorem addressable_of_expr {source node} :
    Written.Expr source node -> exists answer, node.isAddressable? = some answer
  | .number .. | .real .. | .bool .. | .char .. => ⟨false, rfl⟩
  | .ident .. => ⟨true, rfl⟩
  | .member _ base => by
    have known := addressable_of_expr base
    exact known
  | .subscript _ array _ => by
    have known := addressable_of_expr array
    exact known
  | .unary .. | .binary .. | .call .. => ⟨false, rfl⟩

mutual

theorem stands_of_expr (parent : Option NodeKind) (owner : Option String) {source node} :
    Written.Expr source node -> Stands parent owner node
  | .number .. | .real .. | .bool .. | .char .. =>
    stands_of_parts ⟨false, rfl⟩ rfl rfl partsStand_nil
  | .ident .. => stands_of_parts ⟨true, rfl⟩ rfl rfl partsStand_nil
  | .member fresh base =>
    stands_of_parts (addressable_of_expr (.member fresh base)) rfl rfl
      ((stands_of_expr _ owner base).part base.isPresent)
  | .subscript fresh array index =>
    stands_of_parts (addressable_of_expr (.subscript fresh array index)) rfl rfl
      (((stands_of_expr _ owner array).part array.isPresent).both
        ((stands_of_expr _ owner index).part index.isPresent))
  | .unary _ _ operand =>
    stands_of_parts ⟨false, rfl⟩ rfl rfl ((stands_of_expr _ owner operand).part operand.isPresent)
  | .binary _ _ left right =>
    stands_of_parts ⟨false, rfl⟩ rfl rfl
      (((stands_of_expr _ owner left).part left.isPresent).both
        ((stands_of_expr _ owner right).part right.isPresent))
  | .call _ args => stands_of_parts ⟨false, rfl⟩ rfl rfl (partsStand_of_exprs _ owner args)

theorem partsStand_of_exprs (parent : NodeKind) (owner : Option String) {source nodes} :
    Written.Exprs source nodes ->
    PartsStand parent owner (ofNodes parent owner nodes) nodes
  | .nil => partsStand_nil
  | .cons first rest =>
    ((stands_of_expr _ owner first).part first.isPresent).both
      (partsStand_of_exprs parent owner rest)

end

mutual

theorem stands_of_stmt (parent : Option NodeKind) (owner : Option String) {source node} :
    Written.Stmt source node -> Stands parent owner node
  | .block _ stmts => stands_of_parts ⟨false, rfl⟩ rfl rfl (partsStand_of_stmts _ owner stmts)
  | .varDecl .. => stands_of_parts ⟨false, rfl⟩ rfl rfl partsStand_absent
  | .varDeclInit _ _ _ init =>
    stands_of_parts ⟨false, rfl⟩ rfl rfl ((stands_of_expr _ owner init).part init.isPresent)
  | .assign _ target value =>
    stands_of_parts ⟨false, rfl⟩ rfl rfl
      (((stands_of_expr _ owner target).part target.isPresent).both
        ((stands_of_expr _ owner value).part value.isPresent))
  | .branch _ test thenBody =>
    stands_of_parts ⟨false, rfl⟩ rfl rfl
      (((stands_of_expr _ owner test).part test.isPresent).both
        (((stands_of_stmt _ owner thenBody).part thenBody.isPresent).both partsStand_absent))
  | .branchElse _ test thenBody elseBody =>
    stands_of_parts ⟨false, rfl⟩ rfl rfl
      (((stands_of_expr _ owner test).part test.isPresent).both
        (((stands_of_stmt _ owner thenBody).part thenBody.isPresent).both
          ((stands_of_stmt _ owner elseBody).part elseBody.isPresent)))
  | .loop _ test body =>
    stands_of_parts ⟨false, rfl⟩ rfl rfl
      (((stands_of_expr _ owner test).part test.isPresent).both
        ((stands_of_stmt _ owner body).part body.isPresent))
  | .ret .. => stands_of_parts ⟨false, rfl⟩ rfl rfl partsStand_absent
  | .retValue _ value =>
    stands_of_parts ⟨false, rfl⟩ rfl rfl ((stands_of_expr _ owner value).part value.isPresent)

theorem partsStand_of_stmts (parent : NodeKind) (owner : Option String) {source nodes} :
    Written.Stmts source nodes ->
    PartsStand parent owner (ofNodes parent owner nodes) nodes
  | .nil => partsStand_nil
  | .cons first rest =>
    ((stands_of_stmt _ owner first).part first.isPresent).both
      (partsStand_of_stmts parent owner rest)

end

variable {source : Int64} {node : Node}

theorem stands_of_plain (parent : Option NodeKind) (owner : Option String) :
    Written.Plain source node -> Stands parent owner node
  | .varDecl .. => stands_of_parts ⟨false, rfl⟩ rfl rfl partsStand_absent

theorem isPresent_of_plain :
    Written.Plain source node -> node.isPresent = true
  | .varDecl .. => rfl

theorem partsStand_of_plains (parent : NodeKind) (owner : Option String) {nodes}
    (plains : forall node, node ∈ nodes -> Written.Plain source node) :
    PartsStand parent owner (ofNodes parent owner nodes) nodes := by
  induction nodes with
  | nil => exact partsStand_nil
  | cons node nodes ih =>
    rcases List.forall_mem_cons.mp plains with ⟨first, rest⟩
    exact ((stands_of_plain _ owner first).part (isPresent_of_plain first)).both
      (ih rest)

theorem stands_of_struct :
    Written.Struct source node -> Stands none none node
  | .structDecl _ fields =>
    stands_of_parts ⟨false, rfl⟩ rfl rfl (partsStand_of_plains _ none fields)

theorem stands_of_top :
    Written.Top source node -> Stands none none node
  | .block fresh stmts => stands_of_stmt none none (.block fresh stmts)

theorem stands_of_function (function : Written.Function source node) :
    exists outline, ofFunction node = some [outline] ∧ SurroundedFunction node outline := by
  cases function with
  | @funcDecl _ _ name paramNodes _ _ _ params _ bodyFresh stmts =>
    rcases partsStand_of_plains .funcDecl none params with ⟨outlines, paramsEqual, surrounded⟩
    rcases stands_of_stmt (some .funcDecl) (some name) (.block bodyFresh stmts)
        with ⟨outline, bodyEqual, bodySurrounded⟩
    have present : paramNodes.filter Node.isPresent = paramNodes :=
      List.filter_eq_self.mpr fun param member => isPresent_of_plain (params param member)
    rw [present] at surrounded
    refine ⟨_, ?_, .entry surrounded bodySurrounded⟩
    rw [ofFunction, paramsEqual, bodyEqual]
    rfl

end Outline

/-- An outline of a program in which every node has its own surroundings. -/
structure Program.Outlined (program : Program) (outlines : Program.Outlines) : Prop where
  structs : List.Forall₂
    (fun node slot => exists outline, slot = some outline
      ∧ Outline.Surrounded none none node outline)
    program.structs outlines.structs
  functions : List.Forall₂
    (fun node slot => exists outline, slot = some outline ∧ Outline.SurroundedFunction node outline)
    program.functions outlines.functions
  blocks : List.Forall₂
    (fun node slot => exists outline, slot = some outline
      ∧ Outline.Surrounded none none node outline)
    program.blocks outlines.blocks

theorem Outline.mapM_of_each {nodes} {outlineOf : Node -> Option (List Outline)}
    {Holds : Node -> Outline -> Prop}
    (each : forall node, node ∈ nodes -> exists outline, outlineOf node = some [outline]
      ∧ Holds node outline) :
    exists slots, nodes.mapM (fun node => (outlineOf node).map List.head?) = some slots
      ∧ List.Forall₂ (fun node slot => exists outline, slot = some outline ∧ Holds node outline)
        nodes slots := by
  induction nodes with
  | nil => exact ⟨[], rfl, .nil⟩
  | cons node nodes ih =>
    rcases List.forall_mem_cons.mp each with ⟨⟨outline, equal, holds⟩, rest⟩
    rcases ih rest with ⟨slots, slotsEqual, all⟩
    refine ⟨some outline :: slots, ?_, .cons ⟨outline, rfl, holds⟩ all⟩
    rw [List.mapM_cons, equal, slotsEqual]
    rfl

/-- A whole program has an outline with the right surroundings. -/
theorem Program.outlined_of_whole {source program} (whole : Written.Whole source program) :
    exists outlines, program.outline? = some outlines ∧ program.Outlined outlines := by
  rcases Outline.mapM_of_each fun node member => Outline.stands_of_struct (whole.structs node member)
    with ⟨structs, structsEqual, structsStand⟩
  rcases Outline.mapM_of_each
      fun node member => Outline.stands_of_function (whole.functions node member)
    with ⟨functions, functionsEqual, functionsStand⟩
  rcases Outline.mapM_of_each fun node member => Outline.stands_of_top (whole.blocks node member)
    with ⟨blocks, blocksEqual, blocksStand⟩
  refine ⟨{ structs, functions, blocks }, ?_, structsStand, functionsStand, blocksStand⟩
  rw [Program.outline?, structsEqual, functionsEqual, blocksEqual]
  rfl

end PCode
