import PCode.Typing.Expressions

namespace PCode

/-!
Type checking.

A check wants a resolved program and refuses any other one.  It looks at every
function and then at every block of the main program, and reports every
violation that does not follow from another one.  A program that passes moves to
the checked phase, and one that does not moves back to the resolved phase.
-/

namespace Typing

/-- A statement after its check. -/
structure Verified (Part : Type) where
  part : Part
  ok : Bool
  findings : List Diagnostic := []

/-- The function around a statement: its name and the type of its result. -/
structure Around where
  name : String
  result : Ty

/-- Checks that a checked value may be stored into a place of type `wanted`. -/
def checkStore (storage : Storage) (span : Span) (wanted : Ty) (value : Typed) :
    Bool × List Diagnostic :=
  match value.type with
  | none => (false, [])
  | some found =>
    if !wanted.equal found then
      (false, [(TypeIssue.stored storage found wanted).foundAt span])
    else if wanted.isComposite && !value.part.isAddressable then
      (false, [(TypeIssue.compositeValue storage).foundAt value.part.span])
    else (true, [])

def checkVarDecl (note : Note) (name : String) (type : Ty) (init : Node) :
    Checked (Verified Node) :=
  if init.isPresent then do
    let value ← checkExpr init
    let (ok, findings) := checkStore (.initializer name) note.span note.type value
    .ok { part := .varDecl note name type value.part, ok, findings := value.findings ++ findings }
  else .ok { part := .varDecl note name type init, ok := true }

def checkAssign (note : Note) (target value : Node) : Checked (Verified Node) := do
  let target ← checkExpr target
  let value ← checkExpr value
  let part := Node.assign note target.part value.part
  match target.type with
  | none => .ok { part, ok := false, findings := target.findings ++ value.findings }
  | some wanted =>
    if target.part.isAddressable then
      let (ok, findings) := checkStore .assignment note.span wanted value
      .ok { part, ok, findings := target.findings ++ value.findings ++ findings }
    else
      let issue := TypeIssue.notAssignable target.part.kind
      .ok { part, ok := false,
            findings := target.findings ++ [issue.foundAt target.part.span] ++ value.findings }

def checkCondition (stmt : Conditional) (test : Node) : Checked (Verified Node) := do
  let test ← checkExpr test
  let findings := operandFindings .boolean test.type (.condition stmt) test.part.span
  .ok { part := test.part, ok := test.ok && findings.isEmpty, findings := test.findings ++ findings }

def checkReturn (around : Option Around) (note : Note) (value : Node) :
    Checked (Verified Node) :=
  match around with
  | none =>
    let stray := TypeIssue.strayReturn.foundAt note.span
    if value.isPresent then do
      let value ← checkExpr value
      .ok { part := .ret note value.part, ok := false, findings := stray :: value.findings }
    else .ok { part := .ret note value, ok := false, findings := [stray] }
  | some around =>
    if value.isPresent then do
      let value ← checkExpr value
      let findings := operandFindings around.result value.type
        (fun found => .wrongResult around.name found around.result) value.part.span
      .ok { part := .ret note value.part, ok := value.ok && findings.isEmpty,
            findings := value.findings ++ findings }
    else
      let issue := TypeIssue.missingResult around.name around.result
      .ok { part := .ret note value, ok := false, findings := [issue.foundAt note.span] }

mutual

def checkStmt (around : Option Around) : Node -> Checked (Verified Node)
  | .absent => .ok { part := .absent, ok := true }
  | .block note stmts => do
    let inner ← checkStmts around stmts
    .ok { part := .block note inner.part, ok := inner.ok, findings := inner.findings }
  | .varDecl note name type init => checkVarDecl note name type init
  | .assign note target value => checkAssign note target value
  | .branch note test thenBody elseBody => do
    let test ← checkCondition .branch test
    let thenBody ← checkStmt around thenBody
    let elseBody ← checkStmt around elseBody
    .ok { part := .branch note test.part thenBody.part elseBody.part
          ok := test.ok && thenBody.ok && elseBody.ok
          findings := test.findings ++ thenBody.findings ++ elseBody.findings }
  | .loop note test body => do
    let test ← checkCondition .loop test
    let body ← checkStmt around body
    .ok { part := .loop note test.part body.part
          ok := test.ok && body.ok
          findings := test.findings ++ body.findings }
  | .ret note value => checkReturn around note value
  | node =>
    .ok { part := node, ok := false,
          findings := [(TypeIssue.notStatement node.kind).foundAt node.span] }

def checkStmts (around : Option Around) : List Node -> Checked (Verified (List Node))
  | [] => .ok { part := [], ok := true }
  | node :: nodes => do
    let first ← checkStmt around node
    let rest ← checkStmts around nodes
    .ok { part := first.part :: rest.part
          ok := first.ok && rest.ok
          findings := first.findings ++ rest.findings }

end

def returnWarning (config : Config) (name : String) (span : Span) (body : Node) :
    List Diagnostic :=
  if body.holdsKind .ret then []
  else Diagnostic.warn config .extra span s!"function '{name}' has no return statement"

/-- Checks a function.  It must have its signature. -/
def checkFunction (config : Config) (node : Node) : Checked (Verified Node) :=
  match node with
  | .funcDecl note name params result body (some signature) entry => do
    let composite :=
      if signature.result.isComposite then
        [(TypeIssue.compositeResult name signature.result).foundAt note.span]
      else []
    let body ← checkStmt (some { name, result := signature.result }) body
    .ok { part := .funcDecl note name params result body.part (some signature) entry
          ok := composite.isEmpty && body.ok
          findings := composite ++ body.findings
            ++ returnWarning config name note.span body.part }
  | _ => .error .hole

def checkEach (check : Node -> Checked (Verified Node)) :
    List Node -> Checked (Verified (List Node))
  | [] => .ok { part := [], ok := true }
  | node :: nodes => do
    let first ← check node
    let rest ← checkEach check nodes
    .ok { part := first.part :: rest.part
          ok := first.ok && rest.ok
          findings := first.findings ++ rest.findings }

def run (config : Config) (program : Program) : Checked (Program × Judgement) := do
  let functions ← checkEach (checkFunction config) program.functions
  let blocks ← checkEach (checkStmt none) program.blocks
  let ok := functions.ok && blocks.ok
  .ok ({ program with
           functions := functions.part
           blocks := blocks.part
           phase := if ok then .checked else .resolved },
       { ok, diagnostics := functions.findings ++ blocks.findings })

end Typing

def Program.check (program : Program) (config : Config) :
    Program × Except Interruption Judgement :=
  if program.phase.reaches .resolved then
    match Typing.run config program with
    | .ok (checked, judgement) => (checked, .ok judgement)
    | .error interruption => (program, .error interruption)
  else
    (program,
      .ok { ok := false,
            diagnostics := [(TypeIssue.notResolved program.phase).foundAt .nowhere] })

end PCode
