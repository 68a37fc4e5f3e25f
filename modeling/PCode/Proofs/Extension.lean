import Mathlib.Data.List.Forall2
import PCode.Program

namespace PCode
namespace Node

/-!
Trees with further notes.

Resolution is followed by phases that write into the tree as well: the check notes the types of
fields and elements and the offsets of fields, and lowering notes the entries of functions.  A tree
extends another one if it differs from it in these notes only.
-/

/-- Whether a node is never written into behind resolution, nor anything below it. -/
def isLeaf : Node -> Bool
  | .absent | .blank .. | .number .. | .real .. | .bool .. | .char .. | .ident ..
  | .structDecl .. | .funcDecl .. => true
  | _ => false

mutual

/-- The second tree is the first one, with other types of fields and elements and other offsets of
fields. -/
inductive Extends : Node -> Node -> Prop
  | leaf {node} : node.isLeaf = true -> Extends node node
  | member {note type base base' field offset offset'} :
    Extends base base' ->
    Extends (.member note base field offset) (.member { note with type } base' field offset')
  | subscript {note type array array' index index'} :
    Extends array array' -> Extends index index' ->
    Extends (.subscript note array index) (.subscript { note with type } array' index')
  | unary {note operator operand operand'} :
    Extends operand operand' ->
    Extends (.unary note operator operand) (.unary note operator operand')
  | binary {note operator left left' right right'} :
    Extends left left' -> Extends right right' ->
    Extends (.binary note operator left right) (.binary note operator left' right')
  | call {note name args args' callee} :
    ExtendsEach args args' ->
    Extends (.call note name args callee) (.call note name args' callee)
  | varDecl {note name type init init'} :
    Extends init init' -> Extends (.varDecl note name type init) (.varDecl note name type init')
  | assign {note target target' value value'} :
    Extends target target' -> Extends value value' ->
    Extends (.assign note target value) (.assign note target' value')
  | branch {note test test' thenBody thenBody' elseBody elseBody'} :
    Extends test test' -> Extends thenBody thenBody' -> Extends elseBody elseBody' ->
    Extends (.branch note test thenBody elseBody) (.branch note test' thenBody' elseBody')
  | loop {note test test' body body'} :
    Extends test test' -> Extends body body' ->
    Extends (.loop note test body) (.loop note test' body')
  | ret {note value value'} : Extends value value' -> Extends (.ret note value) (.ret note value')
  | block {note stmts stmts'} :
    ExtendsEach stmts stmts' -> Extends (.block note stmts) (.block note stmts')

/-- Trees that extend others, one by one. -/
inductive ExtendsEach : List Node -> List Node -> Prop
  | nil : ExtendsEach [] []
  | cons {node node' nodes nodes'} :
    Extends node node' -> ExtendsEach nodes nodes' ->
    ExtendsEach (node :: nodes) (node' :: nodes')

end

mutual

theorem Extends.refl : forall node : Node, Extends node node
  | .absent | .blank _ _ | .number _ _ | .real _ _ | .bool _ _ | .char _ _ | .ident _ _
  | .structDecl _ _ _ | .funcDecl _ _ _ _ _ _ _ => .leaf rfl
  | .member _ base _ _ => .member (Extends.refl base)
  | .subscript _ array index => .subscript (Extends.refl array) (Extends.refl index)
  | .unary _ _ operand => .unary (Extends.refl operand)
  | .binary _ _ left right => .binary (Extends.refl left) (Extends.refl right)
  | .call _ _ args _ => .call (ExtendsEach.refl args)
  | .varDecl _ _ _ init => .varDecl (Extends.refl init)
  | .assign _ target value => .assign (Extends.refl target) (Extends.refl value)
  | .branch _ test thenBody elseBody =>
    .branch (Extends.refl test) (Extends.refl thenBody) (Extends.refl elseBody)
  | .loop _ test body => .loop (Extends.refl test) (Extends.refl body)
  | .ret _ value => .ret (Extends.refl value)
  | .block _ stmts => .block (ExtendsEach.refl stmts)

theorem ExtendsEach.refl : forall nodes : List Node, ExtendsEach nodes nodes
  | [] => .nil
  | node :: nodes => .cons (Extends.refl node) (ExtendsEach.refl nodes)

end

variable {later : Node}

theorem Extends.of_varDecl {note name type init}
    (extended : Extends (.varDecl note name type init) later) :
    exists init', later = .varDecl note name type init' ∧ Extends init init' := by
  cases extended with
  | leaf isLeaf => cases isLeaf
  | varDecl inner => exact ⟨_, rfl, inner⟩

theorem Extends.of_call {note name args callee}
    (extended : Extends (.call note name args callee) later) :
    exists args', later = .call note name args' callee ∧ ExtendsEach args args' := by
  cases extended with
  | leaf isLeaf => cases isLeaf
  | call each => exact ⟨_, rfl, each⟩

theorem Extends.isPresent_eq {node} (extended : Extends node later) :
    later.isPresent = node.isPresent := by
  cases extended <;> rfl

/-- A function whose body extends that of another one, with an entry of its own. -/
inductive ExtendsFunction : Node -> Node -> Prop
  | funcDecl {note name params result body body' signature entry entry'} :
    Extends body body' ->
    ExtendsFunction (.funcDecl note name params result body signature entry)
      (.funcDecl note name params result body' signature entry')

/-- A function that may have got another entry. -/
inductive Placed : Node -> Node -> Prop
  | same {node} : Placed node node
  | funcDecl {note name params result body signature entry entry'} :
    Placed (.funcDecl note name params result body signature entry)
      (.funcDecl note name params result body signature entry')

theorem Placed.symm {node} (placed : Placed node later) : Placed later node := by
  cases placed with
  | same => exact .same
  | funcDecl => exact .funcDecl

end Node

/-- The second program is the first one with further notes in bodies and blocks. -/
structure Program.Extends (program later : Program) : Prop where
  structs : later.structs = program.structs
  functions : List.Forall₂ Node.ExtendsFunction program.functions later.functions
  blocks : List.Forall₂ Node.Extends program.blocks later.blocks

variable {program later : Program}

theorem Program.Extends.ofPhase (extended : program.Extends later) (phase : Phase) :
    program.Extends { later with phase } :=
  ⟨extended.structs, extended.functions, extended.blocks⟩

/-- The second program is the first one with other entries. -/
structure Program.Placed (program later : Program) : Prop where
  structs : later.structs = program.structs
  functions : List.Forall₂ Node.Placed program.functions later.functions
  blocks : later.blocks = program.blocks

theorem Program.Placed.refl (program : Program) : program.Placed program :=
  ⟨rfl, List.forall₂_same.mpr fun _ _ => .same, rfl⟩

theorem Program.Placed.symm (placed : program.Placed later) : later.Placed program :=
  ⟨placed.structs.symm, placed.functions.flip.imp fun _ _ related => related.symm,
    placed.blocks.symm⟩

theorem Program.Placed.ofPhase (placed : program.Placed later) (phase : Phase) :
    program.Placed { later with phase } :=
  ⟨placed.structs, placed.functions, placed.blocks⟩

end PCode
