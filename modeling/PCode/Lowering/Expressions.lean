import PCode.Binary64.Shortest
import PCode.Config
import PCode.Listing
import PCode.Lowering.Issue
import PCode.Text.Quoted

namespace PCode
namespace Lowering

/-!
Code of expressions.

An expression is lowered in one of two forms: its value, or the address of the
place that it denotes.  The value of a place is its address followed by a load,
so a place has both forms; every other expression has a value only.  Values that
take more than one cell have no value form.  The code of an expression leaves
exactly one cell on the stack.
-/

/-- What the code of an expression leaves on the stack. -/
inductive Form where
  | value
  | address
deriving DecidableEq, Repr, Inhabited

/-- The form in which an argument is passed to a parameter. -/
def Form.ofParam (param : Ty) : Form := if param.isComposite then .address else .value

def unaryOpcode? : Operator -> Option Opcode
  | .minus => some .neg
  | .not => some .not
  | _ => none

def binaryOpcode? : Operator -> Option Opcode
  | .plus => some .add
  | .minus => some .sub
  | .star => some .mul
  | .slash => some .div
  | .rem => some .mod
  | .and => some .and
  | .or => some .or
  | .eq => some .equ
  | .neq => some .neq
  | .lt => some .les
  | .lte => some .leq
  | .gt => some .grt
  | .gte => some .geq
  | _ => none

/-- A real constant: its shortest text, marked as real if nothing in it does. -/
def realLiteral (value : Binary64) : String :=
  let text := value.text
  if text.toList.any fun char => ".eEnN".toList.contains char then text else text ++ ".0"

def boolLiteral (value : Bool) : String := if value then "true" else "false"

def constant (operand : Operand) : Code := Code.emit .ldc [operand]

/-- Code that pushes the address of a variable.  A variable that is passed by
reference holds it. -/
def variableAddress (address : Address) : Code :=
  Code.emit (if address.byRef then .lod else .lda)
    [.int address.level, .int address.offset.toInt]

/-- The code of an expression without a place: it has the value form only. -/
def valueOnly (form : Form) (node : Node) (code : Lowered Code) : Lowered Code :=
  match form with
  | .value => code
  | .address => .fail node.span (.noAddress node.kind)

/-- The code of a place, given the code of its address. -/
def placeCode (form : Form) (node : Node) (address : Lowered Code) : Lowered Code :=
  match form with
  | .address => address
  | .value =>
    if node.type.isComposite then .fail node.span (.compositeValue node.type)
    else address.map fun code => code ++ Code.emit .ind []

/-- Code that turns an array's address and an index into the address of the
element. -/
def indexCode (config : Config) (length : Int64) (elem : Ty) : Code :=
  (if config.features .boundsCheck then
    Code.emit .chk [.int 0, .int (length - 1).toInt]
  else [])
    ++ Code.emit .ixa [.int elem.size.toInt]

def callCode (delta : Nat) (name : String) (callee : Callee) (count : Nat) (args : Code) : Code :=
  [.comment ("call " ++ name)] ++ Code.emit .mst [.int delta] ++ args
    ++ Code.emit .cup [.int count, .entry name (some callee.function)]
    ++ [.comment ("end call " ++ name)]

mutual

def lowerExpr (config : Config) (form : Form) (node : Node) : Lowered Code :=
  match node with
  | .absent => .hole
  | .number _ value => valueOnly form node (.ok (constant (.int value.toInt)))
  | .real _ value => valueOnly form node (.ok (constant (.literal (realLiteral value))))
  | .bool _ value => valueOnly form node (.ok (constant (.literal (boolLiteral value))))
  | .char _ code =>
    valueOnly form node
      (.ok (constant (.literal (Text.quotedChar (Text.charOfCode code.toInt)))))
  | .ident note _ => placeCode form node (.ok (variableAddress note.address))
  | .member _ base _ offset =>
    placeCode form node do
      let base ← lowerExpr config .address base
      .ok (base ++ Code.emit .inc [.int offset.toInt])
  | .subscript note array index =>
    placeCode form node
      (if array.isPresent then
        match array.type with
        | .array length elem => do
          let array ← lowerExpr config .address array
          let index ← lowerExpr config .value index
          .ok (array ++ index ++ indexCode config length elem)
        | type => .fail note.span (.notArray type)
      else .hole)
  | .unary note operator operand =>
    valueOnly form node do
      let operand ← lowerExpr config .value operand
      match unaryOpcode? operator with
      | some opcode => .ok (operand ++ Code.emit opcode [])
      | none => .fail note.span (.unaryOperator operator)
  | .binary note operator left right =>
    valueOnly form node do
      let left ← lowerExpr config .value left
      let right ← lowerExpr config .value right
      match binaryOpcode? operator with
      | some opcode => .ok (left ++ right ++ Code.emit opcode [])
      | none => .fail note.span (.binaryOperator operator)
  | .call note name args callee =>
    valueOnly form node
      (match callee with
      | some callee =>
        if callee.signature.params.length = args.length then do
          let code ← lowerArgs config callee.signature.params args
          .ok (callCode note.delta name callee args.length code)
        else .fail note.span (.unresolvedCall name)
      | none => .fail note.span (.unresolvedCall name))
  | _ => valueOnly form node (.fail node.span (.notExpression node.kind))

/-- The code of arguments, each in the form that its parameter asks for. -/
def lowerArgs (config : Config) (params : List Ty) (args : List Node) : Lowered Code :=
  match args with
  | [] => .ok []
  | arg :: args => do
    let first ← lowerExpr config (Form.ofParam (params.headD .unknown)) arg
    let rest ← lowerArgs config params.tail args
    .ok (first ++ rest)

end

end Lowering
end PCode
