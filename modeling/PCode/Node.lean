import PCode.Binary64
import PCode.Operator
import PCode.Span

namespace PCode

/-!
The syntax tree.

A tree is handed over by a reader or built by hand, so it need not be a proper
program: a part may be absent, any node may stand anywhere, and a node may have
a kind without the content of that kind.  Beside each node stands a note with
its place in the source and with what the phases have found out about it.

The parent of a node and the function around it are not stored.  They follow
from where the node stands and are computed by whoever walks the tree.
-/

inductive NodeKind where
  | number
  | realNumber
  | bool
  | char
  | ident
  | memberAccess
  | subscript
  | unaryOp
  | binaryOp
  | funcCall
  | varDecl
  | assign
  | branch
  | loop
  | ret
  | block
  | structDecl
  | funcDecl
  /-- A number outside the table of kinds. -/
  | other (code : Int64)
deriving DecidableEq, Repr, Inhabited

namespace NodeKind

def all : List NodeKind :=
  [.number, .realNumber, .bool, .char, .ident, .memberAccess, .subscript, .unaryOp, .binaryOp,
   .funcCall, .varDecl, .assign, .branch, .loop, .ret, .block, .structDecl, .funcDecl]

def ofCode (code : Int64) : NodeKind :=
  if code < 0 then .other code
  else all[code.toNatClampNeg]?.getD (.other code)

def name : NodeKind -> String
  | .number => "Number"
  | .realNumber => "RealNumber"
  | .bool => "Bool"
  | .char => "Char"
  | .ident => "Ident"
  | .memberAccess => "MemberAccess"
  | .subscript => "Subscript"
  | .unaryOp => "UnaryOp"
  | .binaryOp => "BinaryOp"
  | .funcCall => "FuncCall"
  | .varDecl => "VarDecl"
  | .assign => "Assign"
  | .branch => "If"
  | .loop => "While"
  | .ret => "Return"
  | .block => "Block"
  | .structDecl => "StructDecl"
  | .funcDecl => "FuncDecl"
  | .other _ => "Unknown"

end NodeKind

/-- Where a variable lives: how many frames out, at which cell, and whether
that cell holds an address instead of the value. -/
structure Address where
  level : Nat := 0
  offset : Int64 := 0
  byRef : Bool := false
deriving DecidableEq, Repr, Inhabited

/-- What stands beside a node: its place, and what the phases have found out.
The type is unknown, and the numbers are zero, until a phase sets them. -/
structure Note where
  span : Span := {}
  type : Ty := .unknown
  /-- Number of scopes between a use and its declaration. -/
  delta : Nat := 0
  address : Address := {}
  /-- Number of cells of the frame that the node owns. -/
  frameSize : Int64 := 0
deriving DecidableEq, Repr, Inhabited

structure Signature where
  params : List Ty
  result : Ty
deriving DecidableEq, Repr, Inhabited

/-- The function that a call reaches: its signature, and its position in the
program's list of functions. -/
structure Callee where
  signature : Signature
  function : Nat
deriving DecidableEq, Repr, Inhabited

inductive Node where
  /-- Nothing stands here. -/
  | absent
  /-- A kind without its content. -/
  | blank (note : Note) (kind : NodeKind)
  | number (note : Note) (value : Int64)
  | real (note : Note) (value : Binary64)
  | bool (note : Note) (value : Bool)
  /-- A character by its code point; the number may be no code point. -/
  | char (note : Note) (code : Int32)
  | ident (note : Note) (name : String)
  /-- A field of a structure, with its offset in cells once it is known. -/
  | member (note : Note) (base : Node) (field : String) (offset : Int64)
  | subscript (note : Note) (array index : Node)
  | unary (note : Note) (operator : Operator) (operand : Node)
  | binary (note : Note) (operator : Operator) (left right : Node)
  | call (note : Note) (name : String) (args : List Node) (callee : Option Callee)
  | varDecl (note : Note) (name : String) (type : Ty) (init : Node)
  | assign (note : Note) (target value : Node)
  | branch (note : Note) (test thenBody elseBody : Node)
  | loop (note : Note) (test body : Node)
  | ret (note : Note) (value : Node)
  | block (note : Note) (stmts : List Node)
  | structDecl (note : Note) (name : String) (fields : List Node)
  /-- A function, with its signature once it is built and the code address of
  its entry once it is placed. -/
  | funcDecl (note : Note) (name : String) (params : List Node) (result : Ty) (body : Node)
    (signature : Option Signature) (entry : Option Nat)
deriving Repr, Inhabited

namespace Node

def isPresent : Node -> Bool
  | .absent => false
  | _ => true

/-- The kind of a node.  Where nothing stands the kind is outside the table. -/
def kind : Node -> NodeKind
  | .absent => .other (-1)
  | .blank _ kind => kind
  | .number .. => .number
  | .real .. => .realNumber
  | .bool .. => .bool
  | .char .. => .char
  | .ident .. => .ident
  | .member .. => .memberAccess
  | .subscript .. => .subscript
  | .unary .. => .unaryOp
  | .binary .. => .binaryOp
  | .call .. => .funcCall
  | .varDecl .. => .varDecl
  | .assign .. => .assign
  | .branch .. => .branch
  | .loop .. => .loop
  | .ret .. => .ret
  | .block .. => .block
  | .structDecl .. => .structDecl
  | .funcDecl .. => .funcDecl

/-- The note beside a node.  Where nothing stands it is empty. -/
def note : Node -> Note
  | .absent => {}
  | .blank note _ => note
  | .number note _ => note
  | .real note _ => note
  | .bool note _ => note
  | .char note _ => note
  | .ident note _ => note
  | .member note .. => note
  | .subscript note .. => note
  | .unary note .. => note
  | .binary note .. => note
  | .call note .. => note
  | .varDecl note .. => note
  | .assign note .. => note
  | .branch note .. => note
  | .loop note .. => note
  | .ret note _ => note
  | .block note _ => note
  | .structDecl note .. => note
  | .funcDecl note .. => note

/-- Changes the note beside a node and nothing else. -/
def mapNote (change : Note -> Note) : Node -> Node
  | .absent => .absent
  | .blank note kind => .blank (change note) kind
  | .number note value => .number (change note) value
  | .real note value => .real (change note) value
  | .bool note value => .bool (change note) value
  | .char note code => .char (change note) code
  | .ident note name => .ident (change note) name
  | .member note base field offset => .member (change note) base field offset
  | .subscript note array index => .subscript (change note) array index
  | .unary note operator operand => .unary (change note) operator operand
  | .binary note operator left right => .binary (change note) operator left right
  | .call note name args callee => .call (change note) name args callee
  | .varDecl note name type init => .varDecl (change note) name type init
  | .assign note target value => .assign (change note) target value
  | .branch note test thenBody elseBody => .branch (change note) test thenBody elseBody
  | .loop note test body => .loop (change note) test body
  | .ret note value => .ret (change note) value
  | .block note stmts => .block (change note) stmts
  | .structDecl note name fields => .structDecl (change note) name fields
  | .funcDecl note name params result body signature entry =>
    .funcDecl (change note) name params result body signature entry

def span (node : Node) : Span := node.note.span

def type (node : Node) : Ty := node.note.type

def withType (type : Ty) : Node -> Node := mapNote fun note => { note with type := type }

def withFrameSize (size : Int64) : Node -> Node :=
  mapNote fun note => { note with frameSize := size }

/-- The parts of a node in source order, absent ones left out. -/
def children (node : Node) : List Node :=
  let parts := match node with
    | .member _ base _ _ => [base]
    | .subscript _ array index => [array, index]
    | .unary _ _ operand => [operand]
    | .binary _ _ left right => [left, right]
    | .call _ _ args _ => args
    | .varDecl _ _ _ init => [init]
    | .assign _ target value => [target, value]
    | .branch _ test thenBody elseBody => [test, thenBody, elseBody]
    | .loop _ test body => [test, body]
    | .ret _ value => [value]
    | .block _ stmts => stmts
    | .structDecl _ _ fields => fields
    | .funcDecl _ _ params _ body _ _ => params ++ [body]
    | _ => []
  parts.filter isPresent

/-- Whether a node denotes a place in memory: a variable, or a field or element
of such a place.  There is no answer when a field or element has no content. -/
def isAddressable? : Node -> Option Bool
  | .ident .. => some true
  | .member _ base _ _ => isAddressable? base
  | .subscript _ array _ => isAddressable? array
  | .blank _ .ident => some true
  | .blank _ .memberAccess => none
  | .blank _ .subscript => none
  | _ => some false

/-- Whether a node surely denotes a place in memory. -/
def isAddressable (node : Node) : Bool := node.isAddressable? == some true

mutual

/-- Whether a node of a given kind stands in the tree. -/
def holdsKind (wanted : NodeKind) : Node -> Bool
  | .absent => false
  | .member _ base _ _ => wanted == .memberAccess || holdsKind wanted base
  | .subscript _ array index =>
    wanted == .subscript || holdsKind wanted array || holdsKind wanted index
  | .unary _ _ operand => wanted == .unaryOp || holdsKind wanted operand
  | .binary _ _ left right => wanted == .binaryOp || holdsKind wanted left || holdsKind wanted right
  | .call _ _ args _ => wanted == .funcCall || anyHoldsKind wanted args
  | .varDecl _ _ _ init => wanted == .varDecl || holdsKind wanted init
  | .assign _ target value => wanted == .assign || holdsKind wanted target || holdsKind wanted value
  | .branch _ test thenBody elseBody =>
    wanted == .branch || holdsKind wanted test || holdsKind wanted thenBody
      || holdsKind wanted elseBody
  | .loop _ test body => wanted == .loop || holdsKind wanted test || holdsKind wanted body
  | .ret _ value => wanted == .ret || holdsKind wanted value
  | .block _ stmts => wanted == .block || anyHoldsKind wanted stmts
  | .structDecl _ _ fields => wanted == .structDecl || anyHoldsKind wanted fields
  | .funcDecl _ _ params _ body _ _ =>
    wanted == .funcDecl || anyHoldsKind wanted params || holdsKind wanted body
  | leaf => wanted == leaf.kind

/-- Whether a node of a given kind stands in one of the trees. -/
def anyHoldsKind (wanted : NodeKind) : List Node -> Bool
  | [] => false
  | node :: nodes => holdsKind wanted node || anyHoldsKind wanted nodes

end

mutual

/-- Whether every function in the tree has all of its parameters. -/
def paramsPresent : Node -> Bool
  | .member _ base _ _ => paramsPresent base
  | .subscript _ array index => paramsPresent array && paramsPresent index
  | .unary _ _ operand => paramsPresent operand
  | .binary _ _ left right => paramsPresent left && paramsPresent right
  | .call _ _ args _ => allParamsPresent args
  | .varDecl _ _ _ init => paramsPresent init
  | .assign _ target value => paramsPresent target && paramsPresent value
  | .branch _ test thenBody elseBody =>
    paramsPresent test && paramsPresent thenBody && paramsPresent elseBody
  | .loop _ test body => paramsPresent test && paramsPresent body
  | .ret _ value => paramsPresent value
  | .block _ stmts => allParamsPresent stmts
  | .structDecl _ _ fields => allParamsPresent fields
  | .funcDecl _ _ params _ body _ _ =>
    params.all isPresent && allParamsPresent params && paramsPresent body
  | _ => true

/-- Whether every function in the trees has all of its parameters. -/
def allParamsPresent : List Node -> Bool
  | [] => true
  | node :: nodes => paramsPresent node && allParamsPresent nodes

end

end Node

end PCode
