import PCode.Resolution.Issue

namespace PCode
namespace Resolution

/-!
Names in expressions.

Resolving an expression reads the table and does not change it: it notes at each
name where its variable lives, at each call which function it reaches, and at
each literal and operator its type.  The names that were used are handed back,
so that their uses can be recorded once the expression is done.  An expression
is in order exactly when nothing was found.
-/

/-- An expression, or a list of them, with notes. -/
structure Bound (Part : Type) where
  part : Part
  findings : List Diagnostic := []
  /-- Names of the variables and functions that were used. -/
  uses : List String := []

def Bound.ok {Part : Type} (bound : Bound Part) : Bool := bound.findings.isEmpty

/-- The note of a name that stands for a variable. -/
def variableNote (table : Table) (entity : Entity) (note : Note) : Note :=
  { note with
    type := entity.type
    delta := table.depth - entity.depth
    address :=
      { level := table.frameLevel - entity.frame, offset := entity.offset, byRef := entity.byRef } }

def resolveIdent (table : Table) (note : Note) (name : String) : Bound Node :=
  match table.lookup name with
  | none =>
    { part := .ident note name, findings := [(ScopeIssue.undefinedName name).foundAt note.span] }
  | some entity =>
    if entity.kind = .variable then
      { part := .ident (variableNote table entity note) name, uses := [name] }
    else
      { part := .ident note name,
        findings := [(ScopeIssue.notVariable name entity.kind).foundAt note.span] }

def calledFunction (table : Table) (name : String) : Except ScopeIssue Entity :=
  match table.lookup name with
  | none => .error (.undefinedFunction name)
  | some entity =>
    if entity.kind = .function then .ok entity else .error (.notFunction name entity.kind)

/-- Resolves a call whose arguments are resolved.  The call counts as a use of
its function only if everything in it is in order. -/
def resolveCall (table : Table) (note : Note) (name : String) (args : Bound (List Node))
    (previous : Option Callee) : Bound Node :=
  match calledFunction table name with
  | .error issue =>
    { part := .call note name args.part previous
      findings := issue.foundAt note.span :: args.findings
      uses := args.uses }
  | .ok entity =>
    if args.ok then
      let note := { note with type := entity.type, delta := table.depth - entity.depth }
      { part := .call note name args.part entity.callee, uses := args.uses ++ [name] }
    else { args with part := .call note name args.part previous }

/-- The note of an operator: its result, if it is known and the operands are in
order. -/
def operatorNote (note : Note) (ok : Bool) (signature : Option Operator.Signature) : Note :=
  match signature with
  | some signature => if ok then { note with type := signature.result } else note
  | none => note

mutual

def resolveExpr (table : Table) : Node -> Bound Node
  | .absent => { part := .absent }
  | .number note value => { part := .number { note with type := .integer } value }
  | .real note value => { part := .real { note with type := .real } value }
  | .bool note value => { part := .bool { note with type := .boolean } value }
  | .char note code => { part := .char { note with type := .char } code }
  | .ident note name => resolveIdent table note name
  | .member note base field offset =>
    let base := resolveExpr table base
    { base with part := .member note base.part field offset }
  | .subscript note array index =>
    let array := resolveExpr table array
    let index := resolveExpr table index
    { part := .subscript note array.part index.part
      findings := array.findings ++ index.findings
      uses := array.uses ++ index.uses }
  | .unary note operator operand =>
    let operand := resolveExpr table operand
    let unknown :=
      if operator.unary?.isSome then [] else [(ScopeIssue.unknownUnary operator).foundAt note.span]
    { part := .unary (operatorNote note operand.ok operator.unary?) operator operand.part
      findings := operand.findings ++ unknown
      uses := operand.uses }
  | .binary note operator left right =>
    let left := resolveExpr table left
    let right := resolveExpr table right
    let unknown :=
      if operator.binary?.isSome then [] else [(ScopeIssue.unknownBinary operator).foundAt note.span]
    { part := .binary (operatorNote note (left.ok && right.ok) operator.binary?) operator left.part
        right.part
      findings := left.findings ++ right.findings ++ unknown
      uses := left.uses ++ right.uses }
  | .call note name args callee =>
    resolveCall table note name (resolveExprs table args) callee
  | node => { part := node, findings := [(ScopeIssue.notExpression node.kind).foundAt node.span] }

def resolveExprs (table : Table) : List Node -> Bound (List Node)
  | [] => { part := [] }
  | node :: nodes =>
    let first := resolveExpr table node
    let rest := resolveExprs table nodes
    { part := first.part :: rest.part
      findings := first.findings ++ rest.findings
      uses := first.uses ++ rest.uses }

end

end Resolution
end PCode
