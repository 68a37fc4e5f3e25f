import PCode.Node

namespace PCode

/-!
The table of names: a stack of scopes.

A scope binds names to entities and may own a frame, the activation record in
which variables get their cells.  A scope without a frame of its own shares the
frame of the nearest scope around it that has one.  Scopes are kept innermost
first, and that order is what lexical scoping means: a name is searched from the
inside out, and closing a scope gives back exactly the table from before, up to
the growth of a shared frame and to recorded uses.
-/

/-- What a name may be bound to. -/
inductive EntityKind where
  | variable
  | function
  | struct
  /-- A number outside the table of kinds. -/
  | other (code : Int64)
deriving DecidableEq, Repr, Inhabited

namespace EntityKind

def ofCode (code : Int64) : EntityKind :=
  if code = 0 then .variable
  else if code = 1 then .function
  else if code = 2 then .struct
  else .other code

def name : EntityKind -> String
  | .variable => "variable"
  | .function => "function"
  | .struct => "struct"
  | .other _ => "entity"

end EntityKind

/-- The declaration of an entity: its place, and whether it stands directly
below a function, as parameters do. -/
structure Site where
  span : Span
  belowFunction : Bool := false
deriving DecidableEq, Repr, Inhabited

/-- What a name is bound to. -/
structure Entity where
  kind : EntityKind
  name : String := ""
  /-- The type of a variable, the result of a function or a whole structure. -/
  type : Ty := .unknown
  /-- Level of the frame that holds a variable. -/
  frame : Nat := 0
  /-- First cell of a variable in its frame. -/
  offset : Int64 := 0
  /-- Whether the cell of a variable holds an address. -/
  byRef : Bool := false
  /-- Number of open scopes when the name was bound. -/
  depth : Nat := 0
  /-- Number of uses recorded so far. -/
  uses : Nat := 0
  site : Option Site := none
  callee : Option Callee := none
deriving DecidableEq, Repr, Inhabited

/-- An activation record while it is laid out. -/
structure Frame where
  /-- Number of frames that are open, this one included. -/
  level : Nat
  /-- First free cell. -/
  next : Int64
  /-- Number of cells needed so far. -/
  size : Int64
deriving DecidableEq, Repr, Inhabited

namespace Frame

/-- Cells at the start of every frame: function value, static link, dynamic
link, extreme stack pointer and return address. -/
def header : Int64 := 5

/-- A frame that holds its header only. -/
def fresh (level : Nat) : Frame := ⟨level, header, header⟩

def take (frame : Frame) (cells : Int64) : Frame :=
  let next := frame.next + cells
  { frame with next := next, size := if next > frame.size then next else frame.size }

end Frame

/-- One level of bindings, in the order in which they were made. -/
structure Scope where
  entities : List Entity := []
  /-- The frame that this scope opened, if it opened one. -/
  frame : Option Frame := none
deriving DecidableEq, Repr, Inhabited

namespace Scope

def find? (scope : Scope) (name : String) : Option Entity :=
  scope.entities.find? fun entity => entity.name == name

end Scope

/-- The open scopes, innermost first. -/
structure Table where
  scopes : List Scope := []
deriving DecidableEq, Repr, Inhabited

namespace Table

/-- A request that the table cannot meet. -/
inductive Fault where
  | noScope
  | noFrame
deriving DecidableEq, Repr

def Fault.message : Fault -> String
  | .noScope => "symtab: no open scope"
  | .noFrame => "symtab: variable declared outside of an activation record"

inductive Insertion where
  | added (entity : Entity) (table : Table)
  /-- The innermost scope binds the name already. -/
  | taken (existing : Entity)

def empty : Table := {}

def depth (table : Table) : Nat := table.scopes.length

/-- The frame in which variables are declared now. -/
def frame? (table : Table) : Option Frame := table.scopes.findSome? Scope.frame

/-- Level of that frame, zero if there is none. -/
def frameLevel (table : Table) : Nat := (table.frame?.map Frame.level).getD 0

/-- Cells of that frame, zero if there is none. -/
def frameSize (table : Table) : Int64 := (table.frame?.map Frame.size).getD 0

/-- Opens a scope inside the frame around it. -/
def openBlock (table : Table) : Table := ⟨{} :: table.scopes⟩

def openFrames (table : Table) : Nat := table.scopes.countP fun scope => scope.frame.isSome

/-- Opens a scope with a frame of its own. -/
def openFrame (table : Table) : Table :=
  ⟨{ frame := some (.fresh (table.openFrames + 1)) } :: table.scopes⟩

/-- Closes the innermost scope and gives its entities in the order in which they
were bound. -/
def close (table : Table) : Except Fault (List Entity × Table) :=
  match table.scopes with
  | [] => .error .noScope
  | scope :: scopes => .ok (scope.entities, ⟨scopes⟩)

/-- The entity that a name is bound to, searched from the inside out. -/
def lookup (table : Table) (name : String) : Option Entity :=
  table.scopes.findSome? fun scope => scope.find? name

/-- The entity that a name is bound to in the innermost scope. -/
def lookupCurrent (table : Table) (name : String) : Option Entity :=
  table.scopes.head?.bind fun scope => scope.find? name

/-- Binds a name in the innermost scope, unless that scope binds it already. -/
def insert (table : Table) (name : String) (entity : Entity) : Except Fault Insertion :=
  match table.scopes with
  | [] => .error .noScope
  | scope :: scopes =>
    match scope.find? name with
    | some existing => .ok (.taken existing)
    | none =>
      let entity := { entity with name := name, depth := table.depth }
      .ok (.added entity
        ⟨{ scope with entities := scope.entities ++ [entity] } :: scopes⟩)

/-- Takes cells in the frame of the innermost scope that has one. -/
def takeCells (cells : Int64) : List Scope -> List Scope
  | [] => []
  | scope :: scopes =>
    match scope.frame with
    | some frame => { scope with frame := some (frame.take cells) } :: scopes
    | none => scope :: takeCells cells scopes

/-- Binds a variable and gives it cells in the frame: one for a variable that
holds an address, and otherwise as many as its type needs. -/
def insertVariable (table : Table) (name : String) (type : Ty) (byRef : Bool)
    (site : Option Site) : Except Fault Insertion :=
  match table.scopes, table.frame? with
  | [], _ => .error .noScope
  | _, none => .error .noFrame
  | _, some frame =>
    let fresh : Entity :=
      { kind := .variable, type, byRef, site, frame := frame.level, offset := frame.next }
    match table.insert name fresh with
    | .ok (.added entity inserted) =>
      .ok (.added entity ⟨takeCells (if byRef then 1 else type.size) inserted.scopes⟩)
    | other => other

/-- Records a use in the first scope that binds the name. -/
def useIn (name : String) : List Scope -> List Scope
  | [] => []
  | scope :: scopes =>
    if (scope.find? name).isSome then
      { scope with
        entities := scope.entities.map fun entity =>
          if entity.name = name then { entity with uses := entity.uses + 1 } else entity }
        :: scopes
    else scope :: useIn name scopes

def use (table : Table) (name : String) : Table := ⟨useIn name table.scopes⟩

def useAll (table : Table) (names : List String) : Table := names.foldl use table

end Table

end PCode
