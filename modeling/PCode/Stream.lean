import PCode.Listing

namespace PCode

/-!
Streams: code that is written instruction by instruction.

A stream knows the address of the next instruction and the depth of the
expression stack.  While a frame is open, the greatest depth reached in it is
its extent.  Opening a frame inside another one suspends the outer frame, and
closing it takes up the outer frame where it was left.  Depths are machine
integers and wrap, since an operand may claim any number of arguments.
-/

structure Stream where
  code : Code := []
  depth : Int64 := 0
  /-- The extent of the frame that is open now. -/
  current : Option Nat := none
  labels : List Label := []
  extents : List Extent := []
deriving DecidableEq, Repr, Inhabited

namespace Stream

/-- A request that a stream cannot meet. -/
inductive Fault where
  | arity (opcode : Opcode) (count : Nat)
  | boundTwice (label : String)
  | placedTwice
deriving DecidableEq, Repr, Inhabited

def Fault.message : Fault -> String
  | .arity opcode count => s!"ir: {opcode.mnemonic} takes {opcode.arity} operands, got {count}"
  | .boundTwice label => s!"ir: label {label} bound twice"
  | .placedTwice => "ast: function entry address assigned twice"

/-- Records the entry address of a function.  Giving the same address again
changes nothing; giving another one is a fault. -/
def place {Place : Type} [DecidableEq Place] (placed : Option Place) (address : Place) :
    Except Fault Place :=
  match placed with
  | none => .ok address
  | some known => if known = address then .ok address else .error .placedTwice

def empty : Stream := {}

/-- Address of the next instruction, which is also the number of instructions. -/
def here (stream : Stream) : Nat := stream.code.size

/-- What references of the stream stand for, given the placed functions. -/
def bindings (stream : Stream) (tails : List (Option Int64)) : Bindings :=
  { labels := stream.labels, extents := stream.extents, tails }

def widen (depth : Int64) (extent : Extent) : Extent :=
  { extent with max := if depth > extent.max then depth else extent.max }

/-- Widens the extent of the open frame to a depth. -/
def reach (stream : Stream) (depth : Int64) : Stream :=
  { stream with
    depth := depth
    extents := match stream.current with
      | some id => stream.extents.modify id (widen depth)
      | none => stream.extents }

/-- Appends an instruction and accounts for its effect on the stack. -/
def emit (stream : Stream) (opcode : Opcode) (operands : List Operand) : Except Fault Stream :=
  if operands.length = opcode.arity then
    let instruction : Instruction := ⟨opcode, operands⟩
    let written := { stream with code := stream.code ++ [Item.instruction instruction] }
    .ok (written.reach (stream.depth + Int64.ofInt instruction.effect))
  else .error (.arity opcode operands.length)

def comment (stream : Stream) (text : String) : Stream :=
  { stream with code := stream.code ++ [Item.comment text] }

/-- Makes a label.  Its name ends in the number of labels made so far. -/
def newLabel (stream : Stream) (stem : String) : Label × Stream :=
  let label : Label := { name := s!"{stem}{stream.labels.length + 1}" }
  (label, { stream with labels := stream.labels ++ [label] })

/-- Binds a label to the address of the next instruction. -/
def bind (stream : Stream) (id : Nat) : Except Fault Stream :=
  match stream.labels[id]? with
  | some { name, address := some _ } => .error (.boundTwice name)
  | _ =>
    .ok { stream with
      labels := stream.labels.modify id fun label =>
        { label with address := some stream.here } }

/-- What is needed to close a frame: its extent, and the extent and depth that
were in force before. -/
structure Opened where
  extent : Nat
  outer : Option Nat
  outerDepth : Int64
deriving DecidableEq, Repr, Inhabited

def openFrame (stream : Stream) : Opened × Stream :=
  ({ extent := stream.extents.length, outer := stream.current, outerDepth := stream.depth },
   { stream with
     extents := stream.extents ++ [{}]
     current := some stream.extents.length
     depth := 0 })

/-- Closes a frame and takes up what was in force when it was opened. -/
def closeFrame (stream : Stream) (opened : Opened) : Stream :=
  { stream with
    extents := stream.extents.modify opened.extent fun extent => { extent with closed := true }
    current := opened.outer
    depth := opened.outerDepth }

/-- The greatest depth that a frame has reached. -/
def maxDepth (stream : Stream) (extent : Nat) : Int64 :=
  ((stream.extents[extent]?).map Extent.max).getD 0

end Stream

end PCode
