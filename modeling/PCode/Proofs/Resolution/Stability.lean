import PCode.Proofs.Extension
import PCode.Proofs.Resolution.Programs
import PCode.Proofs.Resolution.Renaming

namespace PCode
namespace Resolution

open Node (Extends ExtendsEach ExtendsFunction)

/-!
Resolving a program again.

Resolution overwrites what it has noted before, or leaves it alone because it fails at the same
place again.  It never looks at what later phases have noted.  So resolving a tree that extends a
resolved one finds the same as the first time, and leaves the tree as it is.
-/

/-! ## Expressions -/

variable {later node : Node}

theorem resolveIdent_again (table : Table) (note : Note) (name : String)
    (extended : Extends (resolveIdent table note name).part later) :
    resolveExpr table later = { resolveIdent table note name with part := later } := by
  cases found : table.lookup name with
  | none =>
    simp only [resolveIdent, found] at extended ⊢
    cases extended
    simp only [resolveExpr, resolveIdent, found]
  | some entity =>
    by_cases isVariable : entity.kind = .variable
    · simp only [resolveIdent, found, isVariable, if_true] at extended ⊢
      cases extended
      simp only [resolveExpr, resolveIdent, found, isVariable, if_true]
      rfl
    · simp only [resolveIdent, found, isVariable, if_false] at extended ⊢
      cases extended
      simp only [resolveExpr, resolveIdent, found, isVariable, if_false]

/-- A call is resolved as before if its arguments are. -/
theorem resolveCall_again (table : Table) (note : Note) (name : String) (args : Bound (List Node))
    (previous : Option Callee)
    (extended : Extends (resolveCall table note name args previous).part later) :
    exists note' args' callee, later = .call note' name args' callee
      ∧ ExtendsEach args.part args'
      ∧ resolveCall table note' name { args with part := args' } callee
          = { resolveCall table note name args previous with part := later } := by
  cases called : calledFunction table name with
  | error issue =>
    simp only [resolveCall, called] at extended ⊢
    rcases extended.of_call with ⟨args', rfl, each⟩
    exact ⟨_, _, _, rfl, each, rfl⟩
  | ok entity =>
    cases argsOk : args.ok with
    | true =>
      simp only [resolveCall, called, argsOk, if_true] at extended ⊢
      rcases extended.of_call with ⟨args', rfl, each⟩
      exact ⟨_, _, _, rfl, each, (if_pos argsOk).trans rfl⟩
    | false =>
      simp only [resolveCall, called, argsOk, Bool.false_eq_true, if_false] at extended ⊢
      rcases extended.of_call with ⟨args', rfl, each⟩
      exact ⟨_, _, _, rfl, each, (if_neg (Bool.eq_false_iff.mp argsOk)).trans rfl⟩

theorem operatorNote_again (note : Note) (ok : Bool) (signature : Option Operator.Signature) :
    operatorNote (operatorNote note ok signature) ok signature
      = operatorNote note ok signature := by
  cases signature with
  | none => rfl
  | some signature => cases ok <;> rfl

theorem operatorNote_span (note : Note) (ok : Bool) (signature : Option Operator.Signature) :
    (operatorNote note ok signature).span = note.span := by
  cases signature with
  | none => rfl
  | some signature => cases ok <;> rfl

mutual

/-- Resolving an expression again finds the same and leaves it as it is. -/
theorem resolveExpr_again (table : Table) (node : Node) {later}
    (extended : Extends (resolveExpr table node).part later) :
    resolveExpr table later = { resolveExpr table node with part := later } := by
  cases node with
  | ident note name => exact resolveIdent_again table note name extended
  | member note base field offset =>
    rw [resolveExpr] at extended
    cases extended with
    | leaf isLeaf => cases isLeaf
    | member inner => rw [resolveExpr, resolveExpr, resolveExpr_again table base inner]
  | subscript note array index =>
    rw [resolveExpr] at extended
    cases extended with
    | leaf isLeaf => cases isLeaf
    | subscript inArray inIndex =>
      rw [resolveExpr, resolveExpr, resolveExpr_again table array inArray,
        resolveExpr_again table index inIndex]
  | unary note operator operand =>
    rw [resolveExpr] at extended
    cases extended with
    | leaf isLeaf => cases isLeaf
    | unary inner =>
      rw [resolveExpr, resolveExpr, resolveExpr_again table operand inner]
      simp only [Bound.ok, operatorNote_again, operatorNote_span]
  | binary note operator left right =>
    rw [resolveExpr] at extended
    cases extended with
    | leaf isLeaf => cases isLeaf
    | binary inLeft inRight =>
      rw [resolveExpr, resolveExpr, resolveExpr_again table left inLeft,
        resolveExpr_again table right inRight]
      simp only [Bound.ok, operatorNote_again, operatorNote_span]
  | call note name args callee =>
    rw [resolveExpr] at extended ⊢
    rcases resolveCall_again table note name _ callee extended
        with ⟨note', args', callee', rfl, each, again⟩
    rw [resolveExpr, resolveExprs_again table args each, again]
  | _ =>
    cases extended <;> rfl

theorem resolveExprs_again (table : Table) : forall (nodes : List Node) {later},
    ExtendsEach (resolveExprs table nodes).part later ->
    resolveExprs table later = { resolveExprs table nodes with part := later }
  | [], _, extended => by
    cases extended
    rfl
  | node :: nodes, _, extended => by
    rw [resolveExprs] at extended
    cases extended with
    | cons first rest =>
      rw [resolveExprs, resolveExprs, resolveExpr_again table node first,
        resolveExprs_again table nodes rest]

end

/-! ## Statements -/

/-- A declaration is resolved as before if its initial value is. -/
theorem resolveVarDecl_again (config : Config) (table : Table) (below : Bool) (note : Note)
    (name : String) (type : Ty) (init : Bound Node)
    (extended : Extends (resolveVarDecl config table below note name type init).part later) :
    exists note' init', later = .varDecl note' name type init' ∧ Extends init.part init'
      ∧ resolveVarDecl config table below note' name type { init with part := init' }
          = { resolveVarDecl config table below note name type init with part := later } := by
  cases resolved : resolveType (table.useAll init.uses) none type with
  | error issue =>
    simp only [resolveVarDecl, resolved] at extended ⊢
    rcases extended.of_varDecl with ⟨init', rfl, inner⟩
    exact ⟨_, _, rfl, inner, rfl⟩
  | ok found =>
    rcases added : (table.useAll init.uses).insertVariable name found false
        (some { span := note.span, belowFunction := below })
      with fault | ⟨entity, inserted⟩ | existing
    · simp only [resolveVarDecl, resolved, added] at extended ⊢
      rcases extended.of_varDecl with ⟨init', rfl, inner⟩
      exact ⟨_, _, rfl, inner, by simp only [added]⟩
    · simp only [resolveVarDecl, resolved, added] at extended ⊢
      rcases extended.of_varDecl with ⟨init', rfl, inner⟩
      refine ⟨_, _, rfl, inner, ?_⟩
      simp only [added]
      rfl
    · simp only [resolveVarDecl, resolved, added] at extended ⊢
      rcases extended.of_varDecl with ⟨init', rfl, inner⟩
      exact ⟨_, _, rfl, inner, by simp only [added]⟩

mutual

/-- Resolving a statement again finds the same and leaves it as it is. -/
theorem resolveStmt_again (config : Config) (node : Node) {later} (table : Table) (below : Bool)
    (extended : Extends (resolveStmt config table below node).part later) :
    resolveStmt config table below later
      = { resolveStmt config table below node with part := later } := by
  cases node with
  | block note stmts =>
    rw [resolveStmt] at extended
    cases extended with
    | leaf isLeaf => cases isLeaf
    | block inner =>
      rw [resolveStmt, resolveStmt, resolveStmts_again config stmts table.openBlock inner]
  | varDecl note name type init =>
    rw [resolveStmt] at extended ⊢
    rcases resolveVarDecl_again config table below note name type _ extended
        with ⟨note', init', rfl, inner, again⟩
    rw [resolveStmt, resolveExpr_again table init inner, again]
  | assign note target value =>
    rw [resolveStmt] at extended
    cases extended with
    | leaf isLeaf => cases isLeaf
    | assign inTarget inValue =>
      rw [resolveStmt, resolveStmt, resolveExpr_again table target inTarget,
        resolveExpr_again table value inValue]
      rfl
  | branch note test thenBody elseBody =>
    rw [resolveStmt] at extended
    cases extended with
    | leaf isLeaf => cases isLeaf
    | branch inTest inThen inElse =>
      rw [resolveStmt, resolveStmt, resolveExpr_again table test inTest]
      dsimp only
      rw [resolveStmt_again config thenBody _ _ inThen]
      dsimp only
      rw [resolveStmt_again config elseBody _ _ inElse]
      rfl
  | loop note test body =>
    rw [resolveStmt] at extended
    cases extended with
    | leaf isLeaf => cases isLeaf
    | loop inTest inBody =>
      rw [resolveStmt, resolveStmt, resolveExpr_again table test inTest]
      dsimp only
      rw [resolveStmt_again config body _ _ inBody]
      rfl
  | ret note value =>
    rw [resolveStmt] at extended
    cases extended with
    | leaf isLeaf => cases isLeaf
    | ret inner =>
      rw [resolveStmt, resolveStmt, resolveExpr_again table value inner]
      rfl
  | _ =>
    cases extended <;> rfl

theorem resolveStmts_again (config : Config) : forall (nodes : List Node) {later}
    (table : Table), ExtendsEach (resolveStmts config table nodes).part later ->
    resolveStmts config table later = { resolveStmts config table nodes with part := later }
  | [], _, _, extended => by
    cases extended
    rfl
  | node :: nodes, _, table, extended => by
    rw [resolveStmts] at extended
    cases extended with
    | cons first rest =>
      rw [resolveStmts, resolveStmts, resolveStmt_again config node table false first]
      dsimp only
      rw [resolveStmts_again config nodes _ rest]

end

theorem resolveBody_again (config : Config) (table : Table) (below : Bool) (note : Note)
    (stmts : List Node)
    (extended : Extends (resolveBody config table below (.block note stmts)).part later) :
    resolveBody config table below later
      = { resolveBody config table below (.block note stmts) with part := later } := by
  rw [resolveBody] at extended
  cases extended with
  | leaf isLeaf => cases isLeaf
  | block inner => rw [resolveBody, resolveBody, resolveStmts_again config stmts table inner]

/-! ## Structures -/

section Structures

variable (table : Table)

theorem resolveFields_again (owner : Owner) (seen : List String) (nodes : List Node) :
    resolveFields table owner seen (resolveFields table owner seen nodes).nodes
      = resolveFields table owner seen nodes := by
  induction nodes generalizing seen with
  | nil => rfl
  | cons node nodes ih =>
    cases node with
    | varDecl note name type init =>
      cases resolved : resolveType table (some owner) type with
      | ok found => simp only [resolveFields, resolved, ih]
      | error issue => simp only [resolveFields, resolved, ih]
    | _ => simp only [resolveFields, ih]

theorem declareStruct_part (note : Note) (name : String) (outcome : FieldsOutcome) :
    exists type, (declareStruct table note name outcome).part
        = .structDecl { note with type } name outcome.nodes
      ∧ declareStruct table { note with type } name outcome
        = declareStruct table note name outcome := by
  by_cases clean : (outcome.findings ++ if outcome.nodes.isEmpty then
      [(ScopeIssue.noFields name).foundAt note.span] else []).isEmpty = true
  · by_cases fits : (Ty.struct name outcome.fields).fitsIn Ty.maxCells = true
    · rcases added : table.insert name
          { kind := .struct, type := .struct name outcome.fields,
            site := some { span := note.span } }
        with fault | ⟨entity, inserted⟩ | existing
      · exact ⟨note.type, by simp only [declareStruct, clean, fits, added]; rfl, rfl⟩
      · refine ⟨.struct name outcome.fields, ?_, ?_⟩
        · simp only [declareStruct, clean, fits, added]
          rfl
        · simp only [declareStruct, clean, fits, added]
          rfl
      · exact ⟨note.type, by simp only [declareStruct, clean, fits, added]; rfl, rfl⟩
    · exact ⟨note.type, by simp only [declareStruct, clean, fits]; rfl, rfl⟩
  · exact ⟨note.type, by simp only [declareStruct, clean]; rfl, rfl⟩

theorem resolveStruct_again (order : List String) (index : Nat) (node : Node) :
    resolveStruct table order index (resolveStruct table order index node).part
      = resolveStruct table order index node := by
  cases node with
  | structDecl note name fields =>
    rcases declareStruct_part table note name
      (resolveFields table { name, index, order } [] fields) with ⟨type, part, again⟩
    rw [resolveStruct, part, resolveStruct, resolveFields_again, again]
  | _ => rfl

theorem resolveStructs_again (order : List String) (index : Nat) (nodes : List Node) :
    resolveStructs table order index (resolveStructs table order index nodes).part
      = resolveStructs table order index nodes := by
  induction nodes generalizing table index with
  | nil => rfl
  | cons node nodes ih =>
    simp only [resolveStructs, resolveStruct_again, ih]

theorem isVarDecl_resolveFields (owner : Owner) (seen : List String) (nodes : List Node) :
    (resolveFields table owner seen nodes).nodes.all isVarDecl = nodes.all isVarDecl := by
  induction nodes generalizing seen with
  | nil => rfl
  | cons node nodes ih =>
    cases node with
    | varDecl note name type init =>
      rw [resolveFields, List.all_cons, ← ih (name :: seen)]
      cases resolveType table (some owner) type <;> rfl
    | _ => simp only [resolveFields, List.all_cons, ih]

theorem isStruct_resolveStructs (order : List String) (index : Nat) (nodes : List Node) :
    (resolveStructs table order index nodes).part.all isStruct = nodes.all isStruct := by
  induction nodes generalizing table index with
  | nil => rfl
  | cons node nodes ih =>
    have same : isStruct (resolveStruct table order index node).part = isStruct node := by
      cases node with
      | structDecl note name fields =>
        rcases declareStruct_part table note name
          (resolveFields table { name, index, order } [] fields) with ⟨_, part, _⟩
        rw [resolveStruct, part]
        exact isVarDecl_resolveFields table { name, index, order } [] fields
      | _ => rfl
    simp only [resolveStructs, List.all_cons, same, ih]

theorem structNames_again (order : List String) (index : Nat) (nodes : List Node) :
    (resolveStructs table order index nodes).part.map structName = nodes.map structName := by
  induction nodes generalizing table index with
  | nil => rfl
  | cons node nodes ih =>
    have same : structName (resolveStruct table order index node).part = structName node := by
      cases node with
      | structDecl note name fields =>
        rcases declareStruct_part table note name
          (resolveFields table { name, index, order } [] fields) with ⟨_, part, _⟩
        rw [resolveStruct, part]
        rfl
      | _ => rfl
    simp only [resolveStructs, List.map_cons, same, ih]

end Structures

/-! ## Parameters -/

theorem bindParams_cons (table : Table) (owner : String) (note : Note) (name : String) (type : Ty)
    (init : Node) (nodes : List Node) :
    exists address table', (bindParams table owner (.varDecl note name type init :: nodes)).part
      = .varDecl { note with address } name type init :: (bindParams table' owner nodes).part := by
  rw [bindParams]
  dsimp only
  split
  · exact ⟨note.address, _, rfl⟩
  · split
    · exact ⟨_, _, rfl⟩
    · exact ⟨note.address, _, rfl⟩

theorem isVarDecl_resolveParams (table : Table) (nodes : List Node) :
    (resolveParams table nodes).1.all isVarDecl = nodes.all isVarDecl := by
  induction nodes with
  | nil => rfl
  | cons node nodes ih =>
    rw [List.all_cons, ← ih]
    cases node with
    | varDecl note name type init =>
      rw [resolveParams]
      cases resolveType table none type <;> rfl
    | _ => rfl

theorem isVarDecl_bindParams (table : Table) (owner : String) (nodes : List Node) :
    (bindParams table owner nodes).part.all isVarDecl = nodes.all isVarDecl := by
  induction nodes generalizing table with
  | nil => rfl
  | cons node nodes ih =>
    cases node with
    | varDecl note name type init =>
      rcases bindParams_cons table owner note name type init nodes with ⟨address, table', part⟩
      rw [part, List.all_cons, List.all_cons, ih]
      rfl
    | _ => simp only [bindParams, List.all_cons, ih]

/-- The types of parameters are resolved as before, wherever these live. -/
theorem resolveParams_again (table inner : Table) (owner : String) (nodes : List Node) :
    resolveParams table (bindParams inner owner (resolveParams table nodes).1).part
      = ((bindParams inner owner (resolveParams table nodes).1).part,
          (resolveParams table nodes).2) := by
  induction nodes generalizing inner with
  | nil => rfl
  | cons node nodes ih =>
    cases node with
    | varDecl note name type init =>
      cases resolved : resolveType table none type with
      | ok found =>
        rcases bindParams_cons inner owner { note with type := found } name type init
          (resolveParams table nodes).1 with ⟨address, table', part⟩
        simp only [resolveParams, resolved, part, ih]
      | error issue =>
        rcases bindParams_cons inner owner note name type init (resolveParams table nodes).1
          with ⟨address, table', part⟩
        simp only [resolveParams, resolved, part, ih]
    | _ => simp only [resolveParams, bindParams, ih]

theorem bindParams_again (table : Table) (owner : String) (nodes : List Node) :
    bindParams table owner (bindParams table owner nodes).part = bindParams table owner nodes := by
  induction nodes generalizing table with
  | nil => rfl
  | cons node nodes ih =>
    cases node with
    | varDecl note name type init =>
      cases known : note.type.isKnown with
      | false =>
        simp only [bindParams, known, Bool.not_false, if_true, ih]
      | true =>
        rcases added : table.insertVariable name note.type note.type.isComposite
            (some { span := note.span, belowFunction := true })
          with fault | ⟨entity, inserted⟩ | existing
        all_goals
          simp only [bindParams, known, added, Bool.not_true, Bool.false_eq_true, if_false,
            ih]
    | _ => simp only [bindParams, ih]

/-! ## Functions and blocks -/

/-- A function with a block for a body and declarations for parameters. -/
inductive Bodied : Node -> Prop
  | funcDecl {note bodyNote name params stmts result signature entry} :
    params.all isVarDecl = true ->
    Bodied (.funcDecl note name params result (.block bodyNote stmts) signature entry)

theorem bodied_declareFunction (table : Table) (index : Nat) (bodied : Bodied node) :
    Bodied (declareFunction table index node).part := by
  cases bodied with
  | @funcDecl note _ name params _ result _ _ declared =>
    have resolved : (resolveParams table params).1.all isVarDecl = true :=
      (isVarDecl_resolveParams table params).trans declared
    unfold declareFunction
    dsimp only
    split
    · exact .funcDecl resolved
    · exact .funcDecl resolved

theorem bodied_resolveFunction (config : Config) (table : Table) (bodied : Bodied node) :
    Bodied (resolveFunction config table node).part := by
  cases bodied with
  | @funcDecl _ _ name params _ _ _ _ declared =>
    exact .funcDecl ((isVarDecl_bindParams _ name params).trans declared)

theorem Bodied.extended (bodied : Bodied node) (extended : ExtendsFunction node later) :
    Bodied later := by
  cases bodied with
  | funcDecl declared =>
    cases extended with
    | funcDecl inner =>
      cases inner with
      | leaf isLeaf => cases isLeaf
      | block _ => exact .funcDecl declared

theorem Bodied.extends_self (bodied : Bodied node) : ExtendsFunction node node := by
  cases bodied with
  | funcDecl _ => exact .funcDecl (.refl _)

theorem Bodied.isFunction (bodied : Bodied node) : Resolution.isFunction node = true := by
  cases bodied with
  | funcDecl declared => exact (congrArg (· && true) declared).trans rfl

theorem resolveFunctionBody_again (config : Config) (table : Table) (owner : String) (span : Span)
    (note : Note) (stmts : List Node)
    (extended : Extends (resolveFunctionBody config table owner span (.block note stmts)).part
      later) :
    resolveFunctionBody config table owner span later
      = { resolveFunctionBody config table owner span (.block note stmts) with part := later } := by
  have extendedBody : Extends (resolveBody config table.openBlock true (.block note stmts)).part
      later := extended
  have present : later.isPresent = true := by
    rw [resolveBody] at extendedBody
    cases extendedBody <;> rfl
  rw [resolveFunctionBody, if_pos present, resolveBody_again _ _ _ note stmts extendedBody]
  rfl

theorem resolveFunction_again (config : Config) (table : Table) (bodied : Bodied node)
    (extended : ExtendsFunction (resolveFunction config table node).part later) :
    resolveFunction config table later
      = { resolveFunction config table node with part := later } := by
  cases bodied with
  | @funcDecl note bodyNote name params stmts result signature entry _ =>
    rw [resolveFunction] at extended
    cases extended with
    | funcDecl inner =>
      rw [resolveFunction, resolveFunction, bindParams_again]
      dsimp only
      rw [resolveFunctionBody_again config _ name note.span bodyNote stmts inner]

theorem declareFunction_again (config : Config) (table inner : Table) (index : Nat)
    (bodied : Bodied node)
    (extended : ExtendsFunction (resolveFunction config inner
      (declareFunction table index node).part).part later) :
    declareFunction table index later
      = { declareFunction table index node with part := later } := by
  cases bodied with
  | @funcDecl note bodyNote name params stmts result signature entry _ =>
    cases resolved : resolveType table none result
    all_goals
      simp only [declareFunction, resolved, resolveFunction] at extended ⊢
      generalize added : table.insert name _ = outcome at extended ⊢
      rcases outcome with fault | ⟨entity, inserted⟩ | existing
      all_goals
        cases extended with
        | funcDecl _ => simp only [resolveParams_again, resolved, added]

variable {source : Int64} {table : Table} {config : Config} {resolved : Program}
  {judgement : Judgement}

section Tops

variable (config : Config) (table : Table) (top : Written.Top source node)
  (extended : Extends (resolveTopBlock config table node).part later)

include top extended

theorem isTopBlock_extends :
    isTopBlock later = true := by
  cases top with
  | block _ _ =>
    rw [resolveTopBlock, resolveBody] at extended
    cases extended <;> rfl

theorem resolveTop_again :
    resolveTopBlock config table later
      = { resolveTopBlock config table node with part := later } := by
  cases top with
  | @block note stmts _ _ =>
    rw [resolveTopBlock, resolveBody] at extended
    cases extended with
    | leaf isLeaf => cases isLeaf
    | block inner =>
      rw [resolveTopBlock, resolveTopBlock, resolveBody, resolveBody,
        resolveStmts_again config stmts _ inner]
      rfl

end Tops

/-! ## Programs -/

section Lists

variable {Part : Node -> Prop} {nodes later : List Node}

variable {resolve : Table -> Node -> Outcome Node} {Later : Node -> Node -> Prop}

/-- Parts that are resolved again in order, as soon as each of them can be. -/
theorem resolveEach_again
    (each : forall table node later, Part node -> Later (resolve table node).part later ->
      resolve table later = { resolve table node with part := later })
    (table : Table) (parts : forall node, node ∈ nodes -> Part node)
    (extended : List.Forall₂ Later (resolveEach resolve table nodes).part later) :
    resolveEach resolve table later = { resolveEach resolve table nodes with part := later } := by
  induction nodes generalizing table later with
  | nil =>
    cases extended
    rfl
  | cons node nodes ih =>
    rw [resolveEach] at extended
    cases extended with
    | cons here rest =>
      rw [resolveEach, resolveEach, each table node _ (parts node List.mem_cons_self) here]
      dsimp only
      rw [ih _ (List.forall_mem_cons.mp parts).2 rest]

theorem isEmpty_again (extended : List.Forall₂ Later (resolveEach resolve table nodes).part later) :
    later.isEmpty = nodes.isEmpty := by
  cases nodes with
  | nil =>
    cases extended
    rfl
  | cons node nodes =>
    rw [resolveEach] at extended
    cases extended
    rfl

theorem declareFunctions_again (config : Config) (table inner : Table) (index : Nat)
    (bodied : forall node, node ∈ nodes -> Bodied node)
    (extended : List.Forall₂ ExtendsFunction
      (resolveEach (resolveFunction config) inner (declareFunctions table index nodes).part).part
      later) :
    declareFunctions table index later
      = { declareFunctions table index nodes with part := later } := by
  induction nodes generalizing table inner index later with
  | nil =>
    cases extended
    rfl
  | cons node nodes ih =>
    rw [declareFunctions, resolveEach] at extended
    cases extended with
    | cons here rest =>
      rw [declareFunctions, declareFunctions,
        declareFunction_again config table inner index (bodied node List.mem_cons_self) here]
      dsimp only
      rw [ih _ _ _ (List.forall_mem_cons.mp bodied).2 rest]

theorem bodied_declareFunctions (table : Table) (index : Nat)
    (bodied : forall node, node ∈ nodes -> Bodied node) :
    forall node, node ∈ (declareFunctions table index nodes).part -> Bodied node := by
  induction nodes generalizing table index with
  | nil =>
    intro node member
    cases member
  | cons node nodes ih =>
    intro part member
    rcases List.mem_cons.mp member with here | rest
    · exact here ▸ bodied_declareFunction table index (bodied node List.mem_cons_self)
    · exact ih _ _ (List.forall_mem_cons.mp bodied).2 part rest

/-- What holds of each part behind a resolved one holds of all parts behind resolved ones. -/
theorem forall_behind {Good : Node -> Prop}
    (extended : List.Forall₂ Later (resolveEach resolve table nodes).part later)
    (parts : forall node, node ∈ nodes -> Part node)
    (each : forall table node later, Part node -> Later (resolve table node).part later ->
      Good later) :
    forall node, node ∈ later -> Good node := by
  induction nodes generalizing table later with
  | nil =>
    cases extended
    intro node member
    cases member
  | cons node nodes ih =>
    rw [resolveEach] at extended
    cases extended with
    | cons here rest =>
      intro part member
      rcases List.mem_cons.mp member with same | other
      · exact same ▸ each table node _ (parts node List.mem_cons_self) here
      · exact ih rest (List.forall_mem_cons.mp parts).2 part other

end Lists

section Whole

variable {source : Int64} {program later : Program}

theorem bodied_of_whole (whole : Written.Whole source program) :
    forall node, node ∈ program.functions -> Bodied node := by
  intro node member
  cases whole.functions node member with
  | @funcDecl _ _ _ params _ _ _ plain _ _ _ =>
    refine .funcDecl (List.all_eq_true.mpr ?_)
    intro param isParam
    cases plain param isParam
    rfl

theorem isComplete_again (config : Config) (whole : Written.Whole source program)
    (extended : Program.Extends (run config program).1 later) : isComplete later = true := by
  have complete := isComplete_of_whole whole
  rw [isComplete, Bool.and_eq_true_iff, Bool.and_eq_true_iff] at complete ⊢
  refine ⟨⟨?_, ?_⟩, ?_⟩
  · rw [extended.structs]
    exact (isStruct_resolveStructs _ _ _ _).trans complete.1.1
  · have bodied := forall_behind extended.functions
      (bodied_declareFunctions _ 0 (bodied_of_whole whole))
      fun table node later bodied => (bodied_resolveFunction config table bodied).extended
    exact List.all_eq_true.mpr fun node member => (bodied node member).isFunction
  · exact List.all_eq_true.mpr (forall_behind extended.blocks whole.blocks
      fun table node later top => isTopBlock_extends config table top)

/-- A resolved program extends itself. -/
theorem run_extends (config : Config) (whole : Written.Whole source program) :
    Program.Extends (run config program).1 (run config program).1 where
  structs := rfl
  functions := by
    have same : List.Forall₂ Eq (run config program).1.functions (run config program).1.functions :=
      List.forall₂_same.mpr fun _ _ => rfl
    have bodied := forall_behind same (bodied_declareFunctions _ 0 (bodied_of_whole whole))
      fun table node later bodied equal => equal ▸ bodied_resolveFunction config table bodied
    exact List.forall₂_same.mpr fun node member => (bodied node member).extends_self
  blocks := List.forall₂_same.mpr fun _ _ => .refl _

/-- Resolving a program that extends a resolved one finds the same as the first time, and changes
nothing but the phase. -/
theorem run_again (config : Config) (whole : Written.Whole source program)
    (extended : Program.Extends (run config program).1 later) :
    run config later
      = ({ later with phase := (run config program).1.phase }, (run config program).2) := by
  have structs := extended.structs
  have functions := extended.functions
  have blocks := extended.blocks
  dsimp only [run] at structs functions blocks ⊢
  rw [structs, structNames_again, resolveStructs_again]
  generalize resolveStructs Table.empty.openBlock (program.structs.map structName) 0
    program.structs = structs at functions blocks ⊢
  rw [declareFunctions_again config _ _ 0 (bodied_of_whole whole) functions]
  dsimp only
  rw [resolveEach_again (fun table node later => resolveFunction_again config table) _
    (bodied_declareFunctions _ 0 (bodied_of_whole whole)) functions]
  dsimp only
  rw [resolveEach_again (fun table node later top => resolveTop_again config table top) _
    whole.blocks blocks]
  dsimp only
  rw [blockFindings, isEmpty_again blocks]
  rfl

/-- The same for requests with settings of their own. -/
theorem resolve_again (config config' : Config) (whole : Written.Whole source program)
    (extended : Program.Extends (run config program).1 later) :
    later.resolve config'
      = ({ later with phase := (run config program).1.phase }, (program.resolve config').2) := by
  rw [← (run_settings config config' (isComplete_of_whole whole)).1] at extended ⊢
  rw [Program.resolve, if_pos (isComplete_again config' whole extended),
    run_again config' whole extended, resolve_of_whole config' whole]

theorem phase_of_resolve (whole : Written.Whole source program)
    (answered : program.resolve config = (resolved, .ok judgement)) :
    resolved.phase = if judgement.ok then .resolved else .parsed := by
  rw [resolve_of_whole config whole] at answered
  cases answered
  rfl

theorem resolve_agree (config' : Config) (whole : Written.Whole source program)
    (answered : program.resolve config = (resolved, .ok judgement)) :
    exists judgement', program.resolve config' = (resolved, .ok judgement')
      ∧ judgement'.ok = judgement.ok
      ∧ Diagnostics.errors judgement'.diagnostics = Diagnostics.errors judgement.diagnostics := by
  rcases run_settings config config' (isComplete_of_whole whole) with ⟨tree, ok, same⟩
  rw [resolve_of_whole config whole] at answered
  cases answered
  exact ⟨_, by rw [resolve_of_whole config' whole, tree], ok, same⟩

end Whole

end Resolution
end PCode
