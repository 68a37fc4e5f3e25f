import PCode.Proofs.Lowering.Layout
import PCode.Proofs.Lowering.Rules
import PCode.Proofs.Tree

set_option linter.unusedSectionVars false

namespace PCode
namespace Lowering

/-!
Where the items of code come from.

The code of a program is made of instructions with numbers, of constants, of calls, and of comments
that frame functions, calls and blocks.  Each of them stands for something in the tree.  What has to
hold of every item of the code is then a case for each kind of item, and the way through the
statements and expressions is gone once, here.
-/

/-! ## Origins -/

/-- An operand that is a number. -/
def isNumber : Operand -> Bool
  | .int _ => true
  | _ => false

/-- What an item of code stands for, among certain functions and certain nodes. -/
inductive Origin (functions : List Node) (nodes : Node -> Prop) : Item -> Prop
  | numbers {opcode operands} :
    opcode ≠ .cup -> operands.all isNumber = true ->
    Origin functions nodes (.instruction ⟨opcode, operands⟩)
  | real (value : Binary64) :
    Origin functions nodes (.instruction ⟨.ldc, [.literal (realLiteral value)]⟩)
  | bool (value : Bool) :
    Origin functions nodes (.instruction ⟨.ldc, [.literal (boolLiteral value)]⟩)
  | char (char : Char) :
    Origin functions nodes (.instruction ⟨.ldc, [.literal (Text.quotedChar char)]⟩)
  | call {note name args callee} :
    nodes (.call note name args (some callee)) ->
    Origin functions nodes
      (.instruction ⟨.cup, [.int args.length, .entry name (some callee.function)]⟩)
  | callOpens {note name args callee} :
    nodes (.call note name args (some callee)) ->
    Origin functions nodes (.comment ("call " ++ name))
  | callCloses {note name args callee} :
    nodes (.call note name args (some callee)) ->
    Origin functions nodes (.comment ("end call " ++ name))
  | functionOpens {note name params result body signature entry} :
    Node.funcDecl note name params result body signature entry ∈ functions ->
    Origin functions nodes (.comment ("function " ++ name))
  | functionCloses {note name params result body signature entry} :
    Node.funcDecl note name params result body signature entry ∈ functions ->
    Origin functions nodes (.comment ("end function " ++ name))
  | program : Origin functions nodes (.comment "program")
  | block (number : Nat) : Origin functions nodes (.comment s!"block {number}")

/-- Code all of whose items stand for something among certain functions and nodes. -/
def From (functions : List Node) (nodes : Node -> Prop) (code : Code) : Prop :=
  forall item, item ∈ code -> Origin functions nodes item

/-- Nodes among which all parts of a node stand, if the node does. -/
def Downward (nodes : Node -> Prop) : Prop :=
  forall node, nodes node -> forall child, child ∈ node.children -> nodes child

theorem Downward.part {nodes : Node -> Prop} (downward : Downward nodes) {node child}
    {parts : List Node} (here : nodes node) (present : child.isPresent = true)
    (children : node.children = parts.filter Node.isPresent) (member : child ∈ parts) :
    nodes child := by
  apply downward node here
  rw [children]
  exact List.mem_filter.mpr ⟨member, present⟩

namespace From

variable {functions : List Node} {nodes : Node -> Prop}

theorem nil : From functions nodes [] := fun _ member => by cases member

theorem append {first second} (left : From functions nodes first)
    (right : From functions nodes second) : From functions nodes (first ++ second) := by
  intro item member
  rcases List.mem_append.mp member with before | behind
  · exact left item before
  · exact right item behind

theorem single {item} (origin : Origin functions nodes item) : From functions nodes [item] := by
  intro other member
  cases List.mem_singleton.mp member
  exact origin

theorem emit (opcode : Opcode) {operands} (other : opcode ≠ .cup)
    (numbers : operands.all isNumber = true) : From functions nodes (Code.emit opcode operands) :=
  single (.numbers other numbers)

end From

/-! ## Expressions and statements -/

section Parts

variable {config : Config} {functions : List Node} {nodes : Node -> Prop}

theorem from_indexCode (length : Int64) (elem : Ty) :
    From functions nodes (indexCode config length elem) := by
  rw [indexCode]
  split
  · exact (From.emit .chk (by decide) (by rfl)).append (.emit .ixa (by decide) (by rfl))
  · exact .emit .ixa (by decide) rfl

theorem from_frameCode (size : Int64) (extent : Int) :
    From functions nodes (frameCode config size extent) := by
  rw [frameCode]
  refine (From.emit .ssp (by decide) (by rfl)).append ?_
  split
  · exact .emit .sep (by decide) rfl
  · exact .nil

theorem unaryOpcode_ne_cup {operator opcode} (known : unaryOpcode? operator = some opcode) :
    opcode ≠ .cup := by
  rintro rfl
  cases operator <;> cases known

theorem binaryOpcode_ne_cup {operator opcode} (known : binaryOpcode? operator = some opcode) :
    opcode ≠ .cup := by
  rintro rfl
  cases operator <;> cases known

variable (downward : Downward nodes)

include downward

mutual

/-- The code of an expression stands for the expression and its parts. -/
theorem from_expr {form node code} :
    Lowers config form node code -> nodes node -> From functions nodes code
  | .number, _ => .emit .ldc nofun rfl
  | .real, _ => .single (.real _)
  | .bool, _ => .single (.bool _)
  | .char, _ => .single (.char _)
  | .ident, _ => by
    rw [variableAddress]
    split
    · exact .emit .lod nofun rfl
    · exact .emit .lda nofun rfl
  | .member base, here => by
    have inside := downward.part here base.isPresent rfl (by simp)
    exact (from_expr base inside).append (.emit .inc nofun rfl)
  | .subscript _ array index, here => by
    have inArray := downward.part here array.isPresent rfl (by simp)
    have inIndex := downward.part here index.isPresent rfl (by simp)
    exact ((from_expr array inArray).append
      (from_expr index inIndex)).append (from_indexCode _ _)
  | .load _ place, here => (from_expr place here).append (.emit .ind nofun rfl)
  | .unary known operand, here => by
    have inside := downward.part here operand.isPresent rfl (by simp)
    exact (from_expr operand inside).append (.emit _ (unaryOpcode_ne_cup known) rfl)
  | .binary known left right, here => by
    have inLeft := downward.part here left.isPresent rfl (by simp)
    have inRight := downward.part here right.isPresent rfl (by simp)
    exact ((from_expr left inLeft).append
      (from_expr right inRight)).append (.emit _ (binaryOpcode_ne_cup known) rfl)
  | .call lowersArgs, here => by
    have inArgs := from_args lowersArgs fun arg member =>
      downward.part here (lowersArgs.isPresent member) rfl member
    exact ((((From.single (.callOpens here)).append (.emit .mst nofun (by rfl))).append
      inArgs).append (.single (.call here))).append (.single (.callCloses here))

theorem from_args {params args codes} :
    LowersArgs config params args codes -> (forall arg, arg ∈ args -> nodes arg) ->
    From functions nodes codes.flatten
  | .nil, _ => .nil
  | .cons first rest, inside => by
    rw [List.flatten_cons]
    exact (from_expr first (inside _ List.mem_cons_self)).append
      (from_args rest (List.forall_mem_cons.mp inside).2)

end

variable {code : Code} {start : Nat}

theorem from_store {target type value} (stores : Stores config target type value code)
    (before : From functions nodes target) (here : value.isPresent = true -> nodes value) :
    From functions nodes code := by
  cases stores with
  | scalar _ lowers =>
    exact (before.append (from_expr downward lowers (here lowers.isPresent))).append
      (.emit .sto nofun rfl)
  | composite _ lowers =>
    exact (before.append (from_expr downward lowers (here lowers.isPresent))).append
      (.emit .movs nofun rfl)

mutual

/-- The code of a statement stands for the statement and its parts. -/
theorem from_stmt {inFunction start node code} :
    LowersStmt config inFunction start node code -> (node.isPresent = true -> nodes node) ->
    From functions nodes code
  | .absent, _ | .varDecl, _ => .nil
  | .block stmts, here =>
    from_stmts stmts fun node member present =>
      downward.part (here rfl) present rfl member
  | .varDeclInit _ stores, here =>
    from_store downward stores (.emit .lda nofun rfl) fun present =>
      downward.part (here rfl) present rfl (by simp)
  | .assign target stores, here => by
    have inTarget := downward.part (here rfl) target.isPresent rfl (by simp)
    exact from_store downward stores (from_expr downward target inTarget)
      fun present => downward.part (here rfl) present rfl (by simp)
  | .branch test thenBody, here => by
    have inTest := downward.part (here rfl) test.isPresent rfl (by simp)
    have inThen := from_stmt thenBody fun present =>
      downward.part (here rfl) present rfl (by simp)
    exact ((from_expr downward test inTest).append (.emit .fjp nofun (by rfl))).append inThen
  | .branchElse _ test thenBody elseBody, here => by
    have inTest := downward.part (here rfl) test.isPresent rfl (by simp)
    have inThen := from_stmt thenBody fun present =>
      downward.part (here rfl) present rfl (by simp)
    have inElse := from_stmt elseBody fun present =>
      downward.part (here rfl) present rfl (by simp)
    exact ((((from_expr downward test inTest).append (.emit .fjp nofun (by rfl))).append
      inThen).append (.emit .ujp nofun (by rfl))).append inElse
  | .loop test body, here => by
    have inTest := downward.part (here rfl) test.isPresent rfl (by simp)
    have inBody := from_stmt body fun present =>
      downward.part (here rfl) present rfl (by simp)
    exact (((from_expr downward test inTest).append (.emit .fjp nofun (by rfl))).append
      inBody).append (.emit .ujp nofun rfl)
  | .ret _ value, here => by
    have inside := downward.part (here rfl) value.isPresent rfl (by simp)
    exact (((From.emit .lda nofun (by rfl)).append (from_expr downward value inside)).append
      (.emit .sto nofun (by rfl))).append (.emit .retf nofun rfl)

theorem from_stmts {inFunction start stmts code} :
    LowersStmts config inFunction start stmts code ->
    (forall node, node ∈ stmts -> node.isPresent = true -> nodes node) ->
    From functions nodes code
  | .nil, _ => .nil
  | .cons first rest, here =>
    (from_stmt first (here _ List.mem_cons_self)).append
      (from_stmts rest (List.forall_mem_cons.mp here).2)

end

/-! ## Programs -/

theorem from_function {note name params result body signature entry}
    (lowered : lowerFunction config start name note.frameSize body = .ok code)
    (declared : .funcDecl note name params result body signature entry ∈ functions)
    (here : nodes (.funcDecl note name params result body signature entry)) :
    From functions nodes code := by
  rw [lowerFunction] at lowered
  rcases Results.of_bind lowered with ⟨bodyCode, bodyLowered, ⟨⟩⟩
  have inBody : From functions nodes bodyCode :=
    from_stmt downward (lowers_of_lowerStmt bodyLowered) fun present =>
      downward.part here present rfl (by simp)
  exact (((From.single (.functionOpens declared)).append (from_frameCode _ _)).append
    (inBody.append (.emit .retf (by decide) rfl))).append (.single (.functionCloses declared))

theorem from_laid {laidOut placed} (laid : Laid config start laidOut placed code)
    (here : forall node, node ∈ laidOut -> node ∈ functions ∧ nodes node) :
    From functions nodes code := by
  induction laid with
  | nil => exact .nil
  | cons lowered _ ih =>
    rcases here _ List.mem_cons_self with ⟨declared, inside⟩
    exact (from_function downward lowered declared inside).append
      (ih (List.forall_mem_cons.mp here).2)

theorem from_blocks {number blocks} (lowered : lowerBlocks config start number blocks = .ok code)
    (here : forall node, node ∈ blocks -> nodes node) : From functions nodes code := by
  induction blocks generalizing start number code with
  | nil =>
    cases lowered
    exact .nil
  | cons block blocks ih =>
    rw [lowerBlocks] at lowered
    rcases Results.of_binds lowered with ⟨first, firstLowered, rest, restLowered, ⟨⟩⟩
    have inFirst : From functions nodes first :=
      from_stmt downward (lowers_of_lowerStmt firstLowered) fun _ => here _ List.mem_cons_self
    exact ((From.single (.block number)).append inFirst).append (ih restLowered
      (List.forall_mem_cons.mp here).2)

end Parts

theorem downward_holds (program : Program) : Downward program.Holds := by
  rintro node ⟨root, member, within⟩ child isChild
  exact ⟨root, member, within.part isChild⟩

/-- All code of a program stands for nodes of the program. -/
theorem Arranged.items {config program placed generated functionCode blockCode}
    (arranged : Arranged config program placed generated functionCode blockCode) :
    From program.functions program.Holds generated.code := by
  have downward := downward_holds program
  have roots {node : Node} (member : node ∈ program.functions ++ program.blocks) :
      program.Holds node := by
    rw [Program.Holds, List.append_assoc]
    exact ⟨node, List.mem_append_right _ member, .root⟩
  rw [arranged.code]
  refine From.append (.append ?_ ?_) (.append ?_ (.emit .stp (by decide) rfl))
  · exact ((From.single .program).append (from_frameCode _ _)).append (.emit .ujp (by decide) rfl)
  · exact from_laid downward arranged.functions
      fun node member => ⟨member, roots (List.mem_append_left _ member)⟩
  · exact from_blocks downward arranged.blocks
      fun node member => roots (List.mem_append_right _ member)

end Lowering
end PCode
