import PCode.Program

namespace PCode

/-!
A view of the tree in which every node carries its surroundings.

The outline of a node lists the node, the kind of its parent, the function whose
body it stands in, whether it denotes a place in memory, and the outlines of its
parts.  Parameters of a function stand in no body; every node below a body does,
however deep, and belongs to the function of that body.

There is no outline of a tree that holds a field or an element without content,
because it cannot be said whether such a node denotes a place.
-/

/-- A node with its surroundings. -/
inductive Outline where
  | entry (node : Node) (parent : Option NodeKind) (owner : Option String) (addressable : Bool)
    (parts : List Outline)

namespace Outline

/-- The outlines of two parts, in order. -/
def both (left right : Option (List Outline)) : Option (List Outline) :=
  left.bind fun left => right.map fun right => left ++ right

/-- The outline of a node over the outlines of its parts. -/
def spanning (node : Node) (parent : Option NodeKind) (owner : Option String)
    (parts : Option (List Outline)) : Option (List Outline) :=
  node.isAddressable?.bind fun addressable =>
    parts.map fun parts => [.entry node parent owner addressable parts]

mutual

/-- The outline of what stands at one place below `parent` and inside the body
of `owner`; none if nothing stands there. -/
def ofNode (parent : Option NodeKind) (owner : Option String) (node : Node) :
    Option (List Outline) :=
  match node with
  | .absent => some []
  | .member _ base _ _ => spanning node parent owner (ofNode (some .memberAccess) owner base)
  | .subscript _ array index =>
    spanning node parent owner
      (both (ofNode (some .subscript) owner array) (ofNode (some .subscript) owner index))
  | .unary _ _ operand => spanning node parent owner (ofNode (some .unaryOp) owner operand)
  | .binary _ _ left right =>
    spanning node parent owner
      (both (ofNode (some .binaryOp) owner left) (ofNode (some .binaryOp) owner right))
  | .call _ _ args _ => spanning node parent owner (ofNodes .funcCall owner args)
  | .varDecl _ _ _ init => spanning node parent owner (ofNode (some .varDecl) owner init)
  | .assign _ target value =>
    spanning node parent owner
      (both (ofNode (some .assign) owner target) (ofNode (some .assign) owner value))
  | .branch _ test thenBody elseBody =>
    spanning node parent owner
      (both (ofNode (some .branch) owner test)
        (both (ofNode (some .branch) owner thenBody) (ofNode (some .branch) owner elseBody)))
  | .loop _ test body =>
    spanning node parent owner
      (both (ofNode (some .loop) owner test) (ofNode (some .loop) owner body))
  | .ret _ value => spanning node parent owner (ofNode (some .ret) owner value)
  | .block _ stmts => spanning node parent owner (ofNodes .block owner stmts)
  | .structDecl _ _ fields => spanning node parent owner (ofNodes .structDecl owner fields)
  | .funcDecl _ _ params _ body _ _ =>
    spanning node parent owner
      (both (ofNodes .funcDecl owner params) (ofNode (some .funcDecl) owner body))
  | _ => spanning node parent owner (some [])

/-- The outlines of a list of parts, absent ones left out. -/
def ofNodes (parent : NodeKind) (owner : Option String) : List Node -> Option (List Outline)
  | [] => some []
  | node :: nodes => both (ofNode (some parent) owner node) (ofNodes parent owner nodes)

end

/-- The outline of a function of the program: its body belongs to it, and its
parameters belong to none. -/
def ofFunction (node : Node) : Option (List Outline) :=
  match node with
  | .funcDecl _ name params _ body _ _ =>
    spanning node none none
      (both (ofNodes .funcDecl none params) (ofNode (some .funcDecl) (some name) body))
  | _ => ofNode none none node

end Outline

/-- The outlines of a program's structures, functions and blocks, each with
nothing where nothing stands. -/
structure Program.Outlines where
  structs : List (Option Outline)
  functions : List (Option Outline)
  blocks : List (Option Outline)

/-- A program with the surroundings of every node. -/
def Program.outline? (program : Program) : Option Program.Outlines :=
  let plain (node : Node) := (Outline.ofNode none none node).map List.head?
  let function (node : Node) := (Outline.ofFunction node).map List.head?
  (program.structs.mapM plain).bind fun structs =>
  (program.functions.mapM function).bind fun functions =>
  (program.blocks.mapM plain).map fun blocks =>
    { structs, functions, blocks }

end PCode
