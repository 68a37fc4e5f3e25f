import PCode.Judgement
import PCode.Typing.Issue

namespace PCode
namespace Typing

/-!
Types of expressions.

Literals and names carry their type from resolution, and a call carries the
signature of its function.  Fields and elements get their type here, from the
type of the structure or array.  Every part of an expression is checked even
when another one has failed, and nothing is reported about a part that failed
already.
-/

/-- An expression after its check: its type if it has passed, and what was
found. -/
structure Typed where
  part : Node
  type : Option Ty
  findings : List Diagnostic := []

def Typed.ok (typed : Typed) : Bool := typed.type.isSome

/-- What a check gives, unless the tree lacks a part. -/
abbrev Checked (Part : Type) := Except Interruption Part

/-- The type noted beside a literal or a name; without one the check fails. -/
def notedType (node : Node) : Typed :=
  { part := node, type := if node.type.isKnown then some node.type else none }

/-- The findings about an operand of type `found`. -/
def operandFindings (wanted : Ty) (found : Option Ty) (issue : Ty -> TypeIssue) (span : Span) :
    List Diagnostic :=
  match found with
  | some found => if found.equal wanted then [] else [(issue found).foundAt span]
  | none => []

/-- The operand and result of an operator; both are unknown for one that is not
in the table. -/
def signatureOf (signature : Option Operator.Signature) : Operator.Signature :=
  signature.getD { operand := .unknown, result := .unknown }

def checkMember (note : Note) (base : Typed) (field : String) (offset : Int64) : Checked Typed :=
  let node := Node.member note base.part field offset
  match base.type with
  | none => .ok { part := node, type := none, findings := base.findings }
  | some .unknown => .error .hole
  | some (.struct name fields) =>
    match (Ty.struct name fields).field? field with
    | some (type, offset) =>
      .ok { part := .member { note with type := type } base.part field offset
            type := some type
            findings := base.findings }
    | none =>
      let issue := TypeIssue.noField field (.struct name fields)
      .ok { part := node, type := none, findings := base.findings ++ [issue.foundAt note.span] }
  | some type =>
    let issue := TypeIssue.notStruct field type
    .ok { part := node, type := none, findings := base.findings ++ [issue.foundAt note.span] }

def checkSubscript (note : Note) (array index : Typed) : Checked Typed :=
  let indexFindings := operandFindings .integer index.type .index index.part.span
  let indexed := index.ok && indexFindings.isEmpty
  let outcome (note : Note) (elem : Option Ty) (arrayFindings : List Diagnostic) : Checked Typed :=
    .ok { part := .subscript note array.part index.part
          type := elem
          findings := array.findings ++ index.findings ++ arrayFindings ++ indexFindings }
  match array.type with
  | none => outcome note none []
  | some .unknown => .error .hole
  | some (.array _ elem) =>
    if indexed then outcome { note with type := elem } (some elem) [] else outcome note none []
  | some type => outcome note none [(TypeIssue.notArray type).foundAt note.span]

/-- The findings about the arguments of a call, the first of them at `position`.
Arguments that failed already are passed over. -/
def argumentFindings (function : String) (span : Span) :
    Nat -> List Ty -> List Typed -> List Diagnostic
  | position, param :: params, arg :: args =>
    let here := match arg.type with
      | none => []
      | some found =>
        if !found.equal param then
          [(TypeIssue.argument function position found param).foundAt span]
        else if param.isComposite && !arg.part.isAddressable then
          [(TypeIssue.compositeArgument function position).foundAt arg.part.span]
        else []
    here ++ argumentFindings function span (position + 1) params args
  | _, _, _ => []

/-- Checks a call with checked arguments: their number first, and then every
position. -/
def checkCall (note : Note) (name : String) (args : List Typed) (callee : Option Callee) : Typed :=
  let signature := (callee.map Callee.signature).getD { params := [], result := .unknown }
  let findings :=
    if args.length != signature.params.length then
      [(TypeIssue.arity name signature.params.length args.length).foundAt note.span]
    else argumentFindings name note.span 1 signature.params args
  { part := .call note name (args.map Typed.part) callee
    type := if args.all Typed.ok && findings.isEmpty then some signature.result else none
    findings := args.flatMap Typed.findings ++ findings }

mutual

def checkExpr : Node -> Checked Typed
  | .absent => .error .hole
  | .number note value => .ok (notedType (.number note value))
  | .real note value => .ok (notedType (.real note value))
  | .bool note value => .ok (notedType (.bool note value))
  | .char note code => .ok (notedType (.char note code))
  | .ident note name => .ok (notedType (.ident note name))
  | .member note base field offset => do
    let base ← checkExpr base
    checkMember note base field offset
  | .subscript note array index => do
    let array ← checkExpr array
    let index ← checkExpr index
    checkSubscript note array index
  | .unary note operator operand => do
    let signature := signatureOf operator.unary?
    let operand ← checkExpr operand
    let findings := operandFindings signature.operand operand.type
      (.operand operator signature.operand) note.span
    .ok { part := .unary note operator operand.part
          type := if operand.ok && findings.isEmpty then some signature.result else none
          findings := operand.findings ++ findings }
  | .binary note operator left right => do
    let signature := signatureOf operator.binary?
    let left ← checkExpr left
    let right ← checkExpr right
    let leftFindings := operandFindings signature.operand left.type
      (.leftOperand operator signature.operand) left.part.span
    let rightFindings := operandFindings signature.operand right.type
      (.rightOperand operator signature.operand) right.part.span
    let findings := leftFindings ++ rightFindings
    .ok { part := .binary note operator left.part right.part
          type := if left.ok && right.ok && findings.isEmpty then some signature.result else none
          findings := left.findings ++ right.findings ++ findings }
  | .call note name args callee => do
    let args ← checkExprs args
    .ok (checkCall note name args callee)
  | node =>
    .ok { part := node, type := none,
          findings := [(TypeIssue.notExpression node.kind).foundAt node.span] }

def checkExprs : List Node -> Checked (List Typed)
  | [] => .ok []
  | node :: nodes => do
    let first ← checkExpr node
    let rest ← checkExprs nodes
    .ok (first :: rest)

end

end Typing
end PCode
