import PCode.Judgement
import PCode.Resolution.Statements

namespace PCode

/-!
Resolution: every use of a name finds its declaration.

Structures come first, in order.  Then all signatures are declared, so that
every body may call every function, and then the bodies are resolved, each in a
frame of its own.  The blocks of the main program come last, each in a frame of
its own as well.  All independent errors are reported in one pass.

A run starts by setting the program back to the parsed phase, and sets it to the
resolved phase if everything is in order.  What a run notes in the tree stays
there also when it fails.
-/

namespace Resolution

def isVarDecl : Node -> Bool
  | .varDecl .. => true
  | _ => false

/-- Whether a body can be looked into: it may be absent, but it is not a block
without content. -/
def isBody : Node -> Bool
  | .blank _ .block => false
  | _ => true

/-- Whether a structure has its content and all its fields theirs. -/
def isStruct : Node -> Bool
  | .structDecl _ _ fields => fields.all isVarDecl
  | _ => false

/-- Whether a function has its content and all its parameters theirs. -/
def isFunction : Node -> Bool
  | .funcDecl _ _ params _ body _ _ => params.all isVarDecl && isBody body
  | _ => false

/-- Whether a block stands where one must stand. -/
def isTopBlock (node : Node) : Bool := node.isPresent && isBody node

/-- Whether a program has everything that resolution cannot do without. -/
def isComplete (program : Program) : Bool :=
  program.structs.all isStruct && program.functions.all isFunction
    && program.blocks.all isTopBlock

def structName : Node -> String
  | .structDecl _ name _ => name
  | _ => ""

/-- Resolves the types of parameters.  Where a type cannot be resolved the
signature holds an unknown one. -/
def resolveParams (table : Table) : List Node -> List Node × List Ty × List Diagnostic
  | [] => ([], [], [])
  | .varDecl note name type init :: nodes =>
    let (params, types, findings) := resolveParams table nodes
    match resolveType table none type with
    | .ok resolved =>
      (.varDecl { note with type := resolved } name type init :: params, resolved :: types,
        findings)
    | .error issue =>
      (.varDecl note name type init :: params, .unknown :: types,
        issue.foundAt note.span :: findings)
  | node :: nodes =>
    let (params, types, findings) := resolveParams table nodes
    (node :: params, .unknown :: types, findings)

def declareFunction (table : Table) (index : Nat) (node : Node) : Outcome Node :=
  match node with
  | .funcDecl note name params result body _ entry =>
    let (params, types, paramFindings) := resolveParams table params
    let (resultType, resultFindings) := match resolveType table none result with
      | .ok resolved => (resolved, [])
      | .error issue => (Ty.unknown, [issue.foundAt note.span])
    let signature : Signature := { params := types, result := resultType }
    let part := Node.funcDecl { note with type := resultType } name params result body
      (some signature) entry
    let fresh : Entity :=
      { kind := .function, type := resultType, site := some { span := note.span },
        callee := some { signature, function := index } }
    let findings := paramFindings ++ resultFindings
    match table.insert name fresh with
    | .ok (.added _ table) => { part, ok := findings.isEmpty, findings, table }
    | _ =>
      { part, ok := false,
        findings := findings ++ [(ScopeIssue.functionRedefined name).foundAt note.span], table }
  | _ => { part := node, ok := true, findings := [], table }

def declareFunctions (table : Table) (index : Nat) : List Node -> Outcome (List Node)
  | [] => { part := [], ok := true, findings := [], table }
  | node :: nodes =>
    let first := declareFunction table index node
    let rest := declareFunctions first.table (index + 1) nodes
    { part := first.part :: rest.part
      ok := first.ok && rest.ok
      findings := first.findings ++ rest.findings
      table := rest.table }

/-- Binds the parameters of `owner` in its frame.  A composite parameter takes
one cell, for the address of the argument. -/
def bindParams (table : Table) (owner : String) : List Node -> Outcome (List Node)
  | [] => { part := [], ok := true, findings := [], table }
  | node :: nodes =>
    let first : Outcome Node :=
      match node with
      | .varDecl note name type init =>
        if !note.type.isKnown then { part := node, ok := false, findings := [], table }
        else
          let byRef := note.type.isComposite
          match table.insertVariable name note.type byRef
              (some { span := note.span, belowFunction := true }) with
          | .ok (.added entity inserted) =>
            let address : Address := { offset := entity.offset, byRef }
            { part := .varDecl { note with address := address } name type init
              ok := frameFits inserted
              findings := frameFindings inserted table.frameSize name note.span
              table := inserted }
          | _ =>
            { part := node, ok := false,
              findings := [(ScopeIssue.duplicateParameter name owner).foundAt note.span], table }
      | _ => { part := node, ok := false, findings := [], table }
    let rest := bindParams first.table owner nodes
    { part := first.part :: rest.part
      ok := first.ok && rest.ok
      findings := first.findings ++ rest.findings
      table := rest.table }

/-- Resolves the body of a function inside the frame of its parameters. -/
def resolveFunctionBody (config : Config) (table : Table) (owner : String) (span : Span)
    (body : Node) : Outcome Node :=
  if body.isPresent then
    let inner := resolveBody config table.openBlock true body
    let (unused, table) := leave config inner.table
    { inner with findings := inner.findings ++ unused, table := table }
  else { part := body, ok := false, findings := [(ScopeIssue.noBody owner).foundAt span], table }

def resolveFunction (config : Config) (table : Table) (node : Node) : Outcome Node :=
  match node with
  | .funcDecl note name params result body signature entry =>
    let params := bindParams table.openFrame name params
    let body := resolveFunctionBody config params.table name note.span body
    let (unused, table) := leave config body.table
    { part := .funcDecl { note with frameSize := body.table.frameSize } name params.part result
        body.part signature entry
      ok := params.ok && body.ok
      findings := params.findings ++ body.findings ++ unused
      table }
  | _ => { part := node, ok := true, findings := [], table }

def resolveTopBlock (config : Config) (table : Table) (node : Node) : Outcome Node :=
  let inner := resolveBody config table.openFrame false node
  let (unused, table) := leave config inner.table
  { part := inner.part.withFrameSize inner.table.frameSize
    ok := inner.ok
    findings := inner.findings ++ unused
    table }

def resolveEach (resolve : Table -> Node -> Outcome Node) (table : Table) :
    List Node -> Outcome (List Node)
  | [] => { part := [], ok := true, findings := [], table }
  | node :: nodes =>
    let first := resolve table node
    let rest := resolveEach resolve first.table nodes
    { part := first.part :: rest.part
      ok := first.ok && rest.ok
      findings := first.findings ++ rest.findings
      table := rest.table }

/-- The finding that there is nothing to run. -/
def blockFindings (blocks : List Node) : List Diagnostic :=
  if blocks.isEmpty then [ScopeIssue.noBlock.foundAt .nowhere] else []

/-- Resolves a program that has everything it needs. -/
def run (config : Config) (program : Program) : Program × Judgement :=
  let structs := resolveStructs Table.empty.openBlock (program.structs.map structName) 0
    program.structs
  let declared := declareFunctions structs.table.openBlock 0 program.functions
  let functions := resolveEach (resolveFunction config) declared.table declared.part
  let blocks := resolveEach (resolveTopBlock config) functions.table program.blocks
  let (unusedFunctions, table) := leave config blocks.table
  let (unusedStructs, _) := leave config table
  let ok := structs.ok && declared.ok && functions.ok && !program.blocks.isEmpty && blocks.ok
  ({ structs := structs.part
     functions := functions.part
     blocks := blocks.part
     phase := if ok then .resolved else .parsed },
   { ok
     diagnostics := structs.findings ++ declared.findings ++ functions.findings
       ++ blockFindings program.blocks ++ blocks.findings ++ unusedFunctions ++ unusedStructs })

end Resolution

def Program.resolve (program : Program) (config : Config) :
    Program × Except Interruption Judgement :=
  if Resolution.isComplete program then
    let (resolved, judgement) := Resolution.run config program
    (resolved, .ok judgement)
  else ({ program with phase := .parsed }, .error .hole)

end PCode
