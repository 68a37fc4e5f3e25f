namespace PCode

/-!
Instructions of the P-machine.

An instruction has an operation code and operands.  Some operands of a stream
that is built by hand are only known once the stream is finished: the address of
a label, the entry of a function, the extent of a frame.  They are kept by
reference and looked up when text is asked for; until then they are unresolved.
-/

inductive Opcode where
  | ldc
  | lda
  | lod
  | ind
  | sto
  | movs
  | inc
  | ixa
  | chk
  | neg
  | not
  | add
  | sub
  | mul
  | div
  | mod
  | and
  | or
  | equ
  | neq
  | les
  | leq
  | grt
  | geq
  | ujp
  | fjp
  | mst
  | cup
  | ssp
  | sep
  | retf
  | stp
deriving DecidableEq, Repr, Inhabited

namespace Opcode

def all : List Opcode :=
  [.ldc, .lda, .lod, .ind, .sto, .movs, .inc, .ixa, .chk, .neg, .not, .add, .sub, .mul, .div, .mod,
   .and, .or, .equ, .neq, .les, .leq, .grt, .geq, .ujp, .fjp, .mst, .cup, .ssp, .sep, .retf, .stp]

def ofCode? (code : Int64) : Option Opcode :=
  if code < 0 then none else all[code.toNatClampNeg]?

def mnemonic : Opcode -> String
  | .ldc => "ldc"
  | .lda => "lda"
  | .lod => "lod"
  | .ind => "ind"
  | .sto => "sto"
  | .movs => "movs"
  | .inc => "inc"
  | .ixa => "ixa"
  | .chk => "chk"
  | .neg => "neg"
  | .not => "not"
  | .add => "add"
  | .sub => "sub"
  | .mul => "mul"
  | .div => "div"
  | .mod => "mod"
  | .and => "and"
  | .or => "or"
  | .equ => "equ"
  | .neq => "neq"
  | .les => "les"
  | .leq => "leq"
  | .grt => "grt"
  | .geq => "geq"
  | .ujp => "ujp"
  | .fjp => "fjp"
  | .mst => "mst"
  | .cup => "cup"
  | .ssp => "ssp"
  | .sep => "sep"
  | .retf => "retf"
  | .stp => "stp"

def ofMnemonic? (mnemonic : String) : Option Opcode :=
  all.find? fun opcode => opcode.mnemonic == mnemonic

/-- The word for the operation code of any number. -/
def nameOfCode (code : Int64) : String :=
  match ofCode? code with
  | some opcode => opcode.mnemonic
  | none => s!"op({code})"

def arity : Opcode -> Nat
  | .lda | .lod | .chk | .cup => 2
  | .ldc | .movs | .inc | .ixa | .ujp | .fjp | .mst | .ssp | .sep => 1
  | _ => 0

/-- Cells that `mst` sets aside for the header of the callee's frame. -/
def markSize : Int := 5

/-- Change of the expression stack's depth, where it does not depend on an
operand. -/
def effect : Opcode -> Int
  | .ldc | .lda | .lod => 1
  | .sto | .movs => -2
  | .ixa | .add | .sub | .mul | .div | .mod | .and | .or => -1
  | .equ | .neq | .les | .leq | .grt | .geq | .fjp => -1
  | .mst => markSize
  | _ => 0

end Opcode

inductive Operand where
  | int (value : Int)
  /-- Text that is printed as it stands. -/
  | literal (text : String)
  /-- The address of a label, by the number of the label. -/
  | label (id : Nat)
  /-- The entry of a function, by its name and the number of its tail. -/
  | entry (name : String) (tail : Option Nat)
  /-- The extent of a frame, by the number of the extent. -/
  | extent (id : Nat)
deriving DecidableEq, Repr, Inhabited

structure Instruction where
  opcode : Opcode
  operands : List Operand
deriving DecidableEq, Repr, Inhabited

namespace Instruction

/-- Change of the expression stack's depth.  A call takes the mark and the
arguments and leaves a value. -/
def effect (instruction : Instruction) : Int :=
  match instruction.opcode, instruction.operands with
  | .cup, .int count :: _ => 1 - Opcode.markSize - count
  | .cup, _ => 1 - Opcode.markSize
  | opcode, _ => opcode.effect

end Instruction

/-- A label: its name, and its address once it is bound. -/
structure Label where
  name : String
  address : Option Nat := none
deriving DecidableEq, Repr, Inhabited

/-- The extent of a frame: the greatest depth so far, final once it is closed. -/
structure Extent where
  max : Int64 := 0
  closed : Bool := false
deriving DecidableEq, Repr, Inhabited

/-- What references in operands stand for. -/
structure Bindings where
  labels : List Label := []
  extents : List Extent := []
  /-- Entry addresses of functions, where they are placed. -/
  tails : List (Option Int64) := []
deriving DecidableEq, Repr, Inhabited

inductive Unresolved where
  | label (name : String)
  | noBody (function : String)
  | notPlaced (function : String)
  | openFrame
deriving DecidableEq, Repr, Inhabited

def Unresolved.message : Unresolved -> String
  | .label name => s!"label {name}: unresolved operand"
  | .noBody function => s!"function {function} has no body: unresolved operand"
  | .notPlaced function => s!"function {function} was never placed: unresolved operand"
  | .openFrame => "stack extent of an open frame: unresolved operand"

namespace Operand

def text (bindings : Bindings) : Operand -> Except Unresolved String
  | .int value => .ok (toString value)
  | .literal text => .ok text
  | .label id =>
    let label := (bindings.labels[id]?).getD ⟨"", none⟩
    match label.address with
    | some address => .ok (toString address)
    | none => .error (.label label.name)
  | .entry name none => .error (.noBody name)
  | .entry name (some tail) =>
    match (bindings.tails[tail]?).join with
    | some address => .ok (toString address)
    | none => .error (.notPlaced name)
  | .extent id =>
    let extent := (bindings.extents[id]?).getD {}
    if extent.closed then .ok (toString extent.max) else .error .openFrame

end Operand

namespace Instruction

/-- The texts of operands, each after a space. -/
def operandTexts (bindings : Bindings) : List Operand -> Except Unresolved String
  | [] => .ok ""
  | operand :: operands =>
    match operand.text bindings with
    | .error cause => .error cause
    | .ok text =>
      match operandTexts bindings operands with
      | .error cause => .error cause
      | .ok rest => .ok (" " ++ text ++ rest)

/-- The text of an instruction, without address and terminator. -/
def text (bindings : Bindings) (instruction : Instruction) : Except Unresolved String :=
  (operandTexts bindings instruction.operands).map fun operands =>
    instruction.opcode.mnemonic ++ operands

end Instruction

end PCode
