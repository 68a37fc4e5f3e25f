import PCode.Program

namespace PCode

/-!
Nodes inside a tree.

A statement about every node of a program needs to say which nodes these are.  The
parts of a node are known to the tree itself, so a node stands in a tree if it is
the root or stands in one of its parts.  Nothing here depends on what a phase has
noted, and the same words serve for a tree before and after each phase.
-/

namespace Node

variable {node : Node}

theorem eq_absent (missing : node.isPresent = false) : node = .absent := by
  cases node with
  | absent => rfl
  | _ => cases missing

/-- A node stands in a tree: it is the root, or it stands in a part of the root. -/
inductive Within (part : Node) : Node -> Prop
  | root : Within part part
  | inside {node child} : child ∈ node.children -> Within part child -> Within part node

/-- All nodes of a tree have a property. -/
def Throughout (Holds : Node -> Prop) (node : Node) : Prop :=
  forall part : Node, part.Within node -> Holds part

namespace Throughout

variable {Holds : Node -> Prop} {first second third : Node}

/-- What holds of a node and of everything in its parts holds of the whole tree. -/
theorem of_children (here : Holds node)
    (below : forall child, child ∈ node.children -> Throughout Holds child) :
    Throughout Holds node := by
  intro part within
  cases within with
  | root => exact here
  | inside member within => exact below _ member part within

theorem leaf (here : Holds node) (children : node.children = []) : Throughout Holds node := by
  refine of_children here ?_
  rw [children]
  exact List.forall_mem_nil _

theorem of_parts {parts : List Node} (here : Holds node)
    (children : node.children = parts.filter isPresent)
    (below : forall child, child ∈ parts -> child.isPresent = true -> Throughout Holds child) :
    Throughout Holds node := by
  refine of_children here ?_
  intro child member
  rw [children] at member
  rcases List.mem_filter.mp member with ⟨listed, present⟩
  exact below child listed present

theorem one (here : Holds node) (children : node.children = [first].filter isPresent)
    (inFirst : Throughout Holds first) : Throughout Holds node :=
  of_parts here children (List.forall_mem_singleton.mpr fun _ => inFirst)

theorem two (here : Holds node) (children : node.children = [first, second].filter isPresent)
    (inFirst : Throughout Holds first) (inSecond : Throughout Holds second) :
    Throughout Holds node :=
  of_parts here children (List.forall_mem_cons.mpr
    ⟨fun _ => inFirst, List.forall_mem_singleton.mpr fun _ => inSecond⟩)

/-- The third part may be missing. -/
theorem three (here : Holds node)
    (children : node.children = [first, second, third].filter isPresent)
    (inFirst : Throughout Holds first) (inSecond : Throughout Holds second)
    (inThird : third.isPresent = true -> Throughout Holds third) : Throughout Holds node :=
  of_parts here children (List.forall_mem_cons.mpr ⟨fun _ => inFirst, List.forall_mem_cons.mpr
    ⟨fun _ => inSecond, List.forall_mem_singleton.mpr inThird⟩⟩)

end Throughout

theorem Within.part {root child} (within : node.Within root) (member : child ∈ node.children) :
    child.Within root := by
  induction within with
  | root => exact .inside member .root
  | inside outer _ ih => exact .inside outer ih

/-- Whether a node is an expression with content. -/
def isExpr : Node -> Bool
  | .number .. | .real .. | .bool .. | .char .. | .ident .. => true
  | .member .. | .subscript .. | .unary .. | .binary .. | .call .. => true
  | _ => false

end Node

/-- A node stands in a program: in a structure, in a function or in a block of the
main program. -/
def Program.Holds (program : Program) (part : Node) : Prop :=
  exists root, root ∈ program.structs ++ program.functions ++ program.blocks ∧ part.Within root

/-- The parts of the statements of the main program, in source order. -/
def Program.operands (program : Program) : List Node :=
  program.blocks.flatMap fun block => block.children.flatMap Node.children

theorem Program.holds_of_operands {program : Program} {node} (member : node ∈ program.operands) :
    program.Holds node := by
  rcases List.mem_flatMap.mp member with ⟨block, isBlock, inside⟩
  rcases List.mem_flatMap.mp inside with ⟨stmt, isStmt, isPart⟩
  exact ⟨block, List.mem_append_right _ isBlock, .inside isStmt (.inside isPart .root)⟩

end PCode
