import PCode.Resolution.Expressions
import PCode.Resolution.Types

namespace PCode
namespace Resolution

/-!
Names in statements.

A block opens a scope and a declaration binds a name in the innermost one; its
initial value is resolved before that, so it sees the bindings from before.
When a scope is closed, its variables that were never used are reported, except
those that stand directly below a function.
-/

/-- The warning for a binding that was never used. -/
def unusedWarning (config : Config) (entity : Entity) : List Diagnostic :=
  match entity.uses, entity.site with
  | 0, some site =>
    match entity.kind with
    | .variable =>
      if site.belowFunction then []
      else
        Diagnostic.warn config .unusedVar site.span
          s!"variable '{entity.name}' declared but not used"
    | .function =>
      Diagnostic.warn config .unusedFunc site.span s!"function '{entity.name}' is never called"
    | _ => []
  | _, _ => []

/-- Closes the innermost scope and reports what nobody used. -/
def leave (config : Config) (table : Table) : List Diagnostic × Table :=
  match table.close with
  | .ok (entities, table) => (entities.flatMap (unusedWarning config), table)
  | .error _ => ([], table)

/-- The findings when a declaration has let a frame grow from `before` cells.
Only the declaration that crosses the limit is reported. -/
def frameFindings (table : Table) (before : Int64) (name : String) (span : Span) :
    List Diagnostic :=
  if table.frameSize <= Ty.maxCells || before > Ty.maxCells then []
  else [(ScopeIssue.frameTooLarge name).foundAt span]

def frameFits (table : Table) : Bool := decide (table.frameSize <= Ty.maxCells)

/-- The warning for a declaration that hides a binding further out. -/
def shadowWarning (config : Config) (table : Table) (name : String) (span : Span) :
    List Diagnostic :=
  match table.lookup name with
  | some outer =>
    if outer.depth < table.depth then
      Diagnostic.warn config .shadow span
        s!"declaration of '{name}' shadows an outer {outer.kind.name}"
    else []
  | none => []

/-- Resolves a declaration whose initial value is resolved. -/
def resolveVarDecl (config : Config) (table : Table) (belowFunction : Bool) (note : Note)
    (name : String) (type : Ty) (init : Bound Node) : Outcome Node :=
  let table := table.useAll init.uses
  let node := Node.varDecl note name type init.part
  match resolveType table none type with
  | .error issue =>
    { part := node, ok := false, findings := init.findings ++ [issue.foundAt note.span], table }
  | .ok resolved =>
    let shadow := shadowWarning config table name note.span
    match table.insertVariable name resolved false (some { span := note.span, belowFunction }) with
    | .ok (.added entity inserted) =>
      let note := { note with type := resolved, address := { offset := entity.offset } }
      { part := .varDecl note name type init.part
        ok := frameFits inserted && init.ok
        findings := init.findings ++ shadow
          ++ frameFindings inserted table.frameSize name note.span
        table := inserted }
    | _ =>
      { part := node
        ok := false
        findings := init.findings ++ shadow ++ [(ScopeIssue.redeclared name).foundAt note.span]
        table }

mutual

/-- Resolves a statement.  `belowFunction` tells whether it is itself the body
of a function. -/
def resolveStmt (config : Config) (table : Table) (belowFunction : Bool) : Node -> Outcome Node
  | .absent => { part := .absent, ok := true, findings := [], table }
  | .block note stmts =>
    let inner := resolveStmts config table.openBlock stmts
    let (unused, table) := leave config inner.table
    { part := .block note inner.part, ok := inner.ok, findings := inner.findings ++ unused, table }
  | .varDecl note name type init =>
    resolveVarDecl config table belowFunction note name type (resolveExpr table init)
  | .assign note target value =>
    let target := resolveExpr table target
    let value := resolveExpr table value
    { part := .assign note target.part value.part
      ok := target.ok && value.ok
      findings := target.findings ++ value.findings
      table := table.useAll (target.uses ++ value.uses) }
  | .branch note test thenBody elseBody =>
    let test := resolveExpr table test
    let thenBody := resolveStmt config (table.useAll test.uses) false thenBody
    let elseBody := resolveStmt config thenBody.table false elseBody
    { part := .branch note test.part thenBody.part elseBody.part
      ok := test.ok && thenBody.ok && elseBody.ok
      findings := test.findings ++ thenBody.findings ++ elseBody.findings
      table := elseBody.table }
  | .loop note test body =>
    let test := resolveExpr table test
    let body := resolveStmt config (table.useAll test.uses) false body
    { part := .loop note test.part body.part
      ok := test.ok && body.ok
      findings := test.findings ++ body.findings
      table := body.table }
  | .ret note value =>
    let value := resolveExpr table value
    { part := .ret note value.part, ok := value.ok, findings := value.findings,
      table := table.useAll value.uses }
  | node =>
    { part := node, ok := false, findings := [(ScopeIssue.notStatement node.kind).foundAt node.span],
      table }

/-- Resolves statements in order, in one scope. -/
def resolveStmts (config : Config) (table : Table) : List Node -> Outcome (List Node)
  | [] => { part := [], ok := true, findings := [], table }
  | node :: nodes =>
    let first := resolveStmt config table false node
    let rest := resolveStmts config first.table nodes
    { part := first.part :: rest.part
      ok := first.ok && rest.ok
      findings := first.findings ++ rest.findings
      table := rest.table }

end

/-- Resolves the body of a function or a block of the main program in the scope
that is open already. -/
def resolveBody (config : Config) (table : Table) (belowFunction : Bool) (node : Node) :
    Outcome Node :=
  match node with
  | .block note stmts =>
    let inner := resolveStmts config table stmts
    { inner with part := .block note inner.part }
  | _ => resolveStmt config table belowFunction node

end Resolution
end PCode
