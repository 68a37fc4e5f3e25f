import PCode.Proofs.Findings
import PCode.Proofs.Renaming
import PCode.Resolution

namespace PCode

open Diagnostics (Matches Rephrases errors)

/-!
Resolution under new names and other settings.

Names reach the table of names, the list of structures and the fields of a structure, and in all of
them a name is only ever held against other names.  So every step of resolution goes the same way
under new names: the table behind it is the old one under new names, and so is the tree with its
notes.  What is found is worded with the new names, and is the same otherwise.  Settings decide
which warnings are reported and nothing else, because no warning is ever looked at again.
-/

/-! ## Tables -/

/-- An entity under new names. -/
def Entity.rename (new : Renaming) (entity : Entity) : Entity :=
  { entity with
    name := new.names entity.name
    type := entity.type.rename new
    callee := entity.callee.map (Callee.rename new) }

/-- A scope under new names. -/
def Scope.rename (new : Renaming) (scope : Scope) : Scope :=
  { scope with entities := scope.entities.map (Entity.rename new) }

theorem Scope.find?_rename (new : Renaming) (scope : Scope) (name : String) :
    (scope.rename new).find? (new.names name) = (scope.find? name).map (Entity.rename new) := by
  have same : (fun entity => entity.name == new.names name) ∘ Entity.rename new
      = fun entity => entity.name == name := by
    funext entity
    exact new.names_beq entity.name name
  rw [Scope.find?, Scope.rename, List.find?_map, same]
  rfl

namespace Table

/-- A table under new names. -/
def rename (new : Renaming) (table : Table) : Table := ⟨table.scopes.map (Scope.rename new)⟩

/-- What came of binding a name, under new names. -/
def Insertion.rename (new : Renaming) : Insertion -> Insertion
  | .added entity table => .added (entity.rename new) (table.rename new)
  | .taken existing => .taken (existing.rename new)

variable (new : Renaming) (table : Table)

@[simp] theorem depth_rename : (table.rename new).depth = table.depth :=
  List.length_map _

@[simp] theorem frame?_rename : (table.rename new).frame? = table.frame? := by
  unfold frame? rename
  rw [List.findSome?_map]
  rfl

@[simp] theorem frameLevel_rename : (table.rename new).frameLevel = table.frameLevel := by
  simp only [frameLevel, frame?_rename]

@[simp] theorem frameSize_rename : (table.rename new).frameSize = table.frameSize := by
  simp only [frameSize, frame?_rename]

@[simp] theorem openBlock_rename : (table.rename new).openBlock = table.openBlock.rename new := rfl

@[simp] theorem openFrame_rename : (table.rename new).openFrame = table.openFrame.rename new := by
  have frames : (table.rename new).openFrames = table.openFrames := by
    unfold openFrames rename
    rw [List.countP_map]
    rfl
  simp only [openFrame, frames]
  rfl

/-- A name is found under its new name. -/
theorem lookup_rename (name : String) :
    (table.rename new).lookup (new.names name) = (table.lookup name).map (Entity.rename new) := by
  unfold lookup rename
  induction table.scopes with
  | nil => rfl
  | cons scope scopes ih =>
    rw [List.map_cons, List.findSome?_cons, List.findSome?_cons, Scope.find?_rename]
    cases scope.find? name with
    | none => exact ih
    | some entity => rfl

/-- A name is bound under its new name, or it is taken as before.  Binding overwrites the name of
the entity, so it does not matter which one it has. -/
theorem insert_rename (name : String) (entity : Entity) (other : String) :
    (table.rename new).insert (new.names name) { entity.rename new with name := other }
      = (table.insert name entity).map (Insertion.rename new) := by
  rcases table with ⟨scopes⟩
  cases scopes with
  | nil => rfl
  | cons scope scopes =>
    simp only [insert, rename, List.map_cons, Scope.find?_rename]
    cases scope.find? name with
    | some existing => rfl
    | none =>
      simp [Except.map, Insertion.rename, rename, Scope.rename, Entity.rename, depth]

theorem takeCells_rename (cells : Int64) (scopes : List Scope) :
    takeCells cells (scopes.map (Scope.rename new))
      = (takeCells cells scopes).map (Scope.rename new) := by
  induction scopes with
  | nil => rfl
  | cons scope scopes ih =>
    rw [List.map_cons, takeCells, takeCells, ih]
    cases framed : scope.frame with
    | none => simp [Scope.rename, framed]
    | some frame => simp [Scope.rename, framed]

/-- A variable gets its cells under every name. -/
theorem insertVariable_rename (name : String) (type : Ty) (byRef : Bool) (site : Option Site) :
    (table.rename new).insertVariable (new.names name) (type.rename new) byRef site
      = (table.insertVariable name type byRef site).map (Insertion.rename new) := by
  rcases table with ⟨scopes⟩
  cases scopes with
  | nil => rfl
  | cons scope scopes =>
    unfold insertVariable
    rw [frame?_rename]
    cases frame? ⟨scope :: scopes⟩ with
    | none => rfl
    | some frame =>
      have inserted := insert_rename new ⟨scope :: scopes⟩ name
        { kind := .variable, type, byRef, site, frame := frame.level, offset := frame.next } ""
      simp only [rename, List.map_cons, Entity.rename, Option.map_none] at inserted ⊢
      rw [inserted]
      cases insert ⟨scope :: scopes⟩ name
          { kind := .variable, type, byRef, site, frame := frame.level,
            offset := frame.next } with
      | error fault => rfl
      | ok insertion =>
        cases insertion with
        | added entity table =>
          simp [Except.map, Insertion.rename, rename, takeCells_rename]
        | taken existing => rfl

theorem useIn_rename (name : String) (scopes : List Scope) :
    useIn (new.names name) (scopes.map (Scope.rename new))
      = (useIn name scopes).map (Scope.rename new) := by
  induction scopes with
  | nil => rfl
  | cons scope scopes ih =>
    rw [List.map_cons, useIn, useIn, Scope.find?_rename, Option.isSome_map, ih]
    split
    · simp only [List.map_cons, Scope.rename, List.map_map]
      congr 2
      apply List.map_congr_left
      intro entity _
      simp only [Function.comp_apply, Entity.rename, Renaming.names_inj]
      split <;> rfl
    · rfl

/-- Uses are counted under new names. -/
theorem useAll_rename (names : List String) :
    (table.rename new).useAll (names.map new.names) = (table.useAll names).rename new := by
  induction names generalizing table with
  | nil => rfl
  | cons name names ih =>
    have here : (table.rename new).use (new.names name) = (table.use name).rename new :=
      congrArg Table.mk (useIn_rename new name table.scopes)
    simp only [useAll, List.map_cons, List.foldl_cons, here]
    exact ih _

end Table

/-- An issue under new names. -/
def ScopeIssue.rename (new : Renaming) : ScopeIssue -> ScopeIssue
  | .typeTooLarge type => .typeTooLarge (type.rename new)
  | .notStructType name kind => .notStructType (new.names name) kind
  | .containsItself owner => .containsItself (new.names owner)
  | .usedBeforeDeclaration name owner => .usedBeforeDeclaration (new.names name) (new.names owner)
  | .undefinedStruct name => .undefinedStruct (new.names name)
  | .duplicateField name owner => .duplicateField (new.fields name) (new.names owner)
  | .fieldInitializer name owner => .fieldInitializer (new.fields name) (new.names owner)
  | .noFields owner => .noFields (new.names owner)
  | .structTooLarge owner => .structTooLarge (new.names owner)
  | .structRedefined owner => .structRedefined (new.names owner)
  | .functionRedefined name => .functionRedefined (new.names name)
  | .duplicateParameter name owner => .duplicateParameter (new.names name) (new.names owner)
  | .noBody owner => .noBody (new.names owner)
  | .redeclared name => .redeclared (new.names name)
  | .frameTooLarge name => .frameTooLarge (new.names name)
  | .undefinedName name => .undefinedName (new.names name)
  | .notVariable name kind => .notVariable (new.names name) kind
  | .undefinedFunction name => .undefinedFunction (new.names name)
  | .notFunction name kind => .notFunction (new.names name) kind
  | issue => issue

namespace Resolution

variable (new : Renaming) {same : Prop}

/-! ## Outcomes -/

/-- What is found under new names where all findings are errors. -/
abbrev Finds (findings later : List Diagnostic) : Prop :=
  Matches (fun finding => finding.isError = true) True (new = .keep) findings later

/-- What is found under new names. -/
abbrev Reports (same : Prop) (findings later : List Diagnostic) : Prop :=
  Matches (fun _ => True) same (new = .keep) findings later

theorem found (issue : ScopeIssue) (span : Span) :
    Finds new [issue.foundAt span] [(issue.rename new).foundAt span] := by
  refine .error span (by cases issue <;> rfl) ?_ rfl
  rintro rfl
  cases issue <;> simp [ScopeIssue.rename]

/-- An outcome is another one under new names. -/
structure Renames {Part : Type} (same : Prop) (change : Part -> Part)
    (first later : Outcome Part) : Prop where
  part : later.part = change first.part
  ok : later.ok = first.ok
  findings : Reports new same first.findings later.findings
  table : later.table = first.table.rename new

/-- Expressions that are others under new names. -/
structure BindsAlike {Part : Type} (change : Part -> Part) (first later : Bound Part) : Prop where
  part : later.part = change first.part
  findings : Finds new first.findings later.findings
  uses : later.uses = first.uses.map new.names

variable {Part : Type}

theorem BindsAlike.ok {change : Part -> Part} {first later : Bound Part}
    (alike : BindsAlike new change first later) : later.ok = first.ok :=
  alike.findings.isEmpty_eq

theorem Renames.andThen {First Second : Type} {change : First -> First}
    {changeSecond : Second -> Second} {changePart : Part -> Part} {first first' second second'}
    (here : Renames new same change first first')
    (later : Renames new same changeSecond second second') (build : First -> Second -> Part)
    (built : forall one two, build (change one) (changeSecond two) = changePart (build one two)) :
    Renames new same changePart
      { part := build first.part second.part, ok := first.ok && second.ok,
        findings := first.findings ++ second.findings, table := second.table }
      { part := build first'.part second'.part, ok := first'.ok && second'.ok,
        findings := first'.findings ++ second'.findings, table := second'.table } where
  part := by rw [here.part, later.part, built]
  ok := by rw [here.ok, later.ok]
  findings := here.findings.append later.findings
  table := later.table

/-! ## Declared types and structures -/

/-- The structure around a field under new names. -/
def Owner.rename (owner : Owner) : Owner :=
  { owner with name := new.names owner.name, order := owner.order.map new.names }

theorem strangerIssue_rename (owner : Option Owner) (name : String) :
    strangerIssue (owner.map (Owner.rename new)) (new.names name)
      = (strangerIssue owner name).rename new := by
  cases owner with
  | none => rfl
  | some owner =>
    have same :
        (fun other => other == new.names name) ∘ new.names = fun other => other == name := by
      funext other
      exact new.names_beq other name
    simp only [Option.map_some, strangerIssue, Owner.rename, Renaming.names_inj,
      List.findIdx?_map, same]
    split
    · rfl
    · split
      · split <;> rfl
      · rfl

/-- What a declared type stands for, under new names. -/
def renameDenoted : Except ScopeIssue Ty -> Except ScopeIssue Ty
  | .ok type => .ok (type.rename new)
  | .error issue => .error (issue.rename new)

theorem resolveType_rename (table : Table) (owner : Option Owner) : forall type : Ty,
    resolveType (table.rename new) (owner.map (Owner.rename new)) (type.rename new)
      = renameDenoted new (resolveType table owner type)
  | .array length elem => by
    rw [Ty.rename, resolveType, resolveType, resolveType_rename table owner elem]
    split
    · rfl
    · cases resolveType table owner elem with
      | error issue => rfl
      | ok type =>
        have fits : (Ty.array length (type.rename new)).fitsIn Ty.maxCells
            = (Ty.array length type).fitsIn Ty.maxCells :=
          Ty.fitsIn_rename new (.array length type) Ty.maxCells
        dsimp only [renameDenoted]
        rw [fits]
        split <;> rfl
  | .struct name fields => by
    rw [Ty.rename, resolveType, resolveType, Table.lookup_rename]
    cases table.lookup name with
    | none => exact congrArg Except.error (strangerIssue_rename new owner name)
    | some entity =>
      dsimp only [Option.map_some, Entity.rename]
      split <;> rfl
  | .unknown | .integer | .boolean | .real | .char | .other _ => rfl

/-- The same outside of structures. -/
theorem resolveType_none_rename (table : Table) (type : Ty) :
    resolveType (table.rename new) none (type.rename new)
      = renameDenoted new (resolveType table none type) :=
  resolveType_rename new table none type

/-- The fields of a structure under new names. -/
structure FieldsAlike (first later : FieldsOutcome) : Prop where
  nodes : later.nodes = Node.renameFields new first.nodes
  fields : later.fields = Ty.renameFields new first.fields
  findings : Finds new first.findings later.findings

theorem contains_fields (seen : List String) (name : String) :
    (seen.map new.fields).contains (new.fields name) = seen.contains name := by
  apply Bool.eq_iff_iff.mpr
  simp

theorem resolveFields_rename (table : Table) (owner : Owner) (seen : List String)
    (nodes : List Node) :
    FieldsAlike new (resolveFields table owner seen nodes)
      (resolveFields (table.rename new) (owner.rename new) (seen.map new.fields)
        (Node.renameFields new nodes)) := by
  induction nodes generalizing seen with
  | nil => exact ⟨rfl, rfl, .nil⟩
  | cons node nodes ih =>
    cases node with
    | varDecl note name type init =>
      have rest := ih (name :: seen)
      have denoted := resolveType_rename new table (some owner) type
      rw [List.map_cons] at rest
      rw [Option.map_some] at denoted
      simp only [Node.renameFields, resolveFields, contains_fields, Node.isPresent_rename, denoted]
      have before := (Matches.guarded (found new (.duplicateField name owner.name) note.span)
        : Finds new (if seen.contains name then _ else []) _).append
          (.guarded (found new (.fieldInitializer name owner.name) note.span)
            : Finds new (if init.isPresent then _ else []) _)
      generalize resolveFields table owner (name :: seen) nodes = behind at rest ⊢
      generalize resolveFields (table.rename new) (owner.rename new)
        (new.fields name :: seen.map new.fields) (Node.renameFields new nodes)
        = behind' at rest ⊢
      cases resolveType table (some owner) type with
      | ok =>
        exact ⟨congrArg (_ :: ·) rest.nodes, congrArg (_ :: ·) rest.fields,
          before.append rest.findings⟩
      | error issue =>
        exact ⟨congrArg (_ :: ·) rest.nodes, rest.fields,
          (before.append (found new issue note.span)).append rest.findings⟩
    | _ =>
      have rest := ih seen
      exact ⟨congrArg (_ :: ·) rest.nodes, rest.fields, rest.findings⟩

theorem declareStruct_rename (table : Table) (note : Note) (name : String) {outcome outcome'}
    (alike : FieldsAlike new outcome outcome') :
    Renames new same (Node.rename new) (declareStruct table note name outcome)
      (declareStruct (table.rename new) (note.rename new) (new.names name) outcome') := by
  rcases outcome with ⟨nodes, fields, findings⟩
  rcases outcome' with ⟨nodes', fields', findings'⟩
  rcases alike with ⟨sameNodes, sameFields, rephrased⟩
  dsimp only at sameNodes sameFields rephrased
  subst sameNodes sameFields
  have fits : (Ty.struct (new.names name) (Ty.renameFields new fields)).fitsIn Ty.maxCells
      = (Ty.struct name fields).fitsIn Ty.maxCells :=
    Ty.fitsIn_rename new (.struct name fields) Ty.maxCells
  have inserted := table.insert_rename new name
    { kind := .struct, type := .struct name fields, site := some { span := note.span } } ""
  simp only [Entity.rename, Ty.rename, Option.map_none] at inserted
  have all : Finds new
      (findings ++ if nodes.isEmpty then [(ScopeIssue.noFields name).foundAt note.span] else [])
      (findings' ++ if nodes.isEmpty then [(ScopeIssue.noFields (new.names name)).foundAt note.span]
        else []) :=
    rephrased.append (.guarded (found new (.noFields name) note.span))
  simp only [declareStruct, Node.isEmpty_renameFields, fits]
  rw [Note.span_rename]
  generalize (if nodes.isEmpty then [(ScopeIssue.noFields name).foundAt note.span] else [])
    = missing at all ⊢
  generalize (if nodes.isEmpty then [(ScopeIssue.noFields (new.names name)).foundAt note.span]
    else []) = missing' at all ⊢
  rw [all.isEmpty_eq]
  split
  · exact ⟨rfl, rfl, all.reports, rfl⟩
  · split
    · exact ⟨rfl, rfl, (rephrased.append (found new (.structTooLarge name) _)).reports, rfl⟩
    · have refused := rephrased.append (found new (.structRedefined name) note.span)
      rw [inserted]
      cases table.insert name
          { kind := .struct, type := .struct name fields, site := some { span := note.span } } with
      | error fault => exact ⟨rfl, rfl, refused.reports, rfl⟩
      | ok insertion =>
        cases insertion with
        | added entity table => exact ⟨rfl, rfl, .nil, rfl⟩
        | taken existing => exact ⟨rfl, rfl, refused.reports, rfl⟩

theorem resolveStruct_rename (same : Prop) (table : Table) (order : List String) (index : Nat)
    (node : Node) :
    Renames new same (Node.rename new) (resolveStruct table order index node)
      (resolveStruct (table.rename new) (order.map new.names) index (node.rename new)) := by
  cases node with
  | structDecl note name fields =>
    exact declareStruct_rename new table note name
      (resolveFields_rename new table { name, index, order } [] fields)
  | _ => exact ⟨rfl, rfl, .nil, rfl⟩

theorem resolveStructs_rename (same : Prop) (table : Table) (order : List String) (index : Nat)
    (nodes : List Node) :
    Renames new same (Node.renameEach new) (resolveStructs table order index nodes)
      (resolveStructs (table.rename new) (order.map new.names) index
        (Node.renameEach new nodes)) := by
  induction nodes generalizing table index with
  | nil => exact ⟨rfl, rfl, .nil, rfl⟩
  | cons node nodes ih =>
    have first := resolveStruct_rename new same table order index node
    have rest := ih (resolveStruct table order index node).table (index + 1)
    rw [← first.table] at rest
    exact first.andThen new rest List.cons fun _ _ => rfl

/-! ## Expressions -/

theorem resolveIdent_rename (table : Table) (note : Note) (name : String) :
    BindsAlike new (Node.rename new) (resolveIdent table note name)
      (resolveIdent (table.rename new) (note.rename new) (new.names name)) := by
  unfold resolveIdent
  rw [Table.lookup_rename]
  cases table.lookup name with
  | none => exact ⟨rfl, found new (.undefinedName name) _, rfl⟩
  | some entity =>
    dsimp only [Option.map_some, Entity.rename]
    split
    · refine ⟨?_, .nil, rfl⟩
      simp [Node.rename, variableNote, Note.rename]
    · exact ⟨rfl, found new (.notVariable name entity.kind) _, rfl⟩

theorem resolveCall_rename (table : Table) (note : Note) (name : String) {args args'}
    (alike : BindsAlike new (Node.renameEach new) args args') (previous : Option Callee) :
    BindsAlike new (Node.rename new) (resolveCall table note name args previous)
      (resolveCall (table.rename new) (note.rename new) (new.names name) args'
        (previous.map (Callee.rename new))) := by
  unfold resolveCall calledFunction
  rw [Table.lookup_rename, alike.ok, alike.part]
  cases table.lookup name with
  | none =>
    exact ⟨rfl, (found new (.undefinedFunction name) _).append alike.findings, alike.uses⟩
  | some entity =>
    dsimp only [Option.map_some, Entity.rename]
    by_cases isFunction : entity.kind = .function
    · rw [if_pos isFunction, if_pos isFunction]
      dsimp only
      split
      · refine ⟨?_, .nil, ?_⟩
        · simp [Node.rename, Note.rename]
        · rw [List.map_append, alike.uses]
          rfl
      · exact ⟨rfl, alike.findings, alike.uses⟩
    · rw [if_neg isFunction, if_neg isFunction]
      exact ⟨rfl, (found new (.notFunction name entity.kind) _).append alike.findings, alike.uses⟩

theorem unknown_rename {Given : Type} (signature : Option Given)
    (issue : ScopeIssue) (span : Span) (kept : issue.rename new = issue := by rfl) :
    Finds new (if signature.isSome then [] else [issue.foundAt span])
      (if signature.isSome then [] else [issue.foundAt span]) := by
  have here := found new issue span
  rw [kept] at here
  split
  · exact .nil
  · exact here

theorem operatorNote_rename (note : Note) (ok : Bool) {signature}
    (scalar : forall known, signature = some known -> known.result.rename new = known.result) :
    operatorNote (note.rename new) ok signature = (operatorNote note ok signature).rename new := by
  cases signature with
  | none => rfl
  | some known =>
    unfold operatorNote
    dsimp only
    split
    · simp [Note.rename, scalar known rfl]
    · rfl

theorem unaryNote_rename (note : Note) (ok : Bool) (operator : Operator) :
    operatorNote (note.rename new) ok operator.unary?
      = (operatorNote note ok operator.unary?).rename new := by
  apply operatorNote_rename
  intro known isKnown
  cases operator <;> cases isKnown <;> rfl

theorem binaryNote_rename (note : Note) (ok : Bool) (operator : Operator) :
    operatorNote (note.rename new) ok operator.binary?
      = (operatorNote note ok operator.binary?).rename new := by
  apply operatorNote_rename
  intro known isKnown
  cases operator <;> cases isKnown <;> rfl

mutual

theorem resolveExpr_rename (table : Table) (node : Node) :
    BindsAlike new (Node.rename new) (resolveExpr table node)
      (resolveExpr (table.rename new) (node.rename new)) := by
  cases node with
  | ident note name => exact resolveIdent_rename new table note name
  | member note base field offset =>
    have inner := resolveExpr_rename table base
    refine ⟨?_, inner.findings, inner.uses⟩
    simp only [Node.rename, resolveExpr, inner.part]
  | subscript note array index =>
    have first := resolveExpr_rename table array
    have second := resolveExpr_rename table index
    refine ⟨?_, first.findings.append second.findings, ?_⟩
    · simp only [Node.rename, resolveExpr, first.part, second.part]
    · simp only [Node.rename, resolveExpr, first.uses, second.uses, List.map_append]
  | unary note operator operand =>
    have inner := resolveExpr_rename table operand
    refine ⟨?_, inner.findings.append (unknown_rename new _ _ _), inner.uses⟩
    simp only [Node.rename, resolveExpr, inner.part, inner.ok, unaryNote_rename]
  | binary note operator left right =>
    have first := resolveExpr_rename table left
    have second := resolveExpr_rename table right
    refine ⟨?_, (first.findings.append second.findings).append
      (unknown_rename new _ _ _), ?_⟩
    · simp only [Node.rename, resolveExpr, first.part, second.part, first.ok, second.ok,
        binaryNote_rename]
    · simp only [Node.rename, resolveExpr, first.uses, second.uses, List.map_append]
  | call note name args callee =>
    exact resolveCall_rename new table note name (resolveExprs_rename table args) callee
  | absent | number | real | bool | char => exact ⟨rfl, .nil, rfl⟩
  | _ => exact ⟨rfl, found new (.notExpression _) _, rfl⟩

theorem resolveExprs_rename (table : Table) : forall nodes : List Node,
    BindsAlike new (Node.renameEach new) (resolveExprs table nodes)
      (resolveExprs (table.rename new) (Node.renameEach new nodes))
  | [] => ⟨rfl, .nil, rfl⟩
  | node :: nodes => by
    have first := resolveExpr_rename table node
    have rest := resolveExprs_rename table nodes
    refine ⟨?_, first.findings.append rest.findings, ?_⟩
    · simp only [Node.renameEach, resolveExprs, first.part, rest.part]
    · simp only [Node.renameEach, resolveExprs, first.uses, rest.uses, List.map_append]

end

/-! ## Statements -/

variable (config config' : Config)

theorem unusedWarning_rename (entity : Entity) :
    Reports new (config = config') (unusedWarning config entity)
      (unusedWarning config' (entity.rename new)) := by
  unfold unusedWarning
  dsimp only [Entity.rename]
  split
  · split
    · split
      · exact .nil
      · exact .warn config config' (fun _ _ => trivial) _ _ _ _
    · exact .warn config config' (fun _ _ => trivial) _ _ _ _
    · exact .nil
  · exact .nil

/-- The same bindings are reported as unused when a scope is left. -/
theorem leave_rename (table : Table) :
    Reports new (config = config') (leave config table).1 (leave config' (table.rename new)).1
      ∧ (leave config' (table.rename new)).2 = (leave config table).2.rename new := by
  rcases table with ⟨scopes⟩
  cases scopes with
  | nil => exact ⟨.nil, rfl⟩
  | cons scope scopes =>
    refine ⟨?_, rfl⟩
    have each : forall entities : List Entity,
        Reports new (config = config') (entities.flatMap (unusedWarning config))
          ((entities.map (Entity.rename new)).flatMap (unusedWarning config')) := by
      intro entities
      induction entities with
      | nil => exact .nil
      | cons entity entities ih =>
        exact (unusedWarning_rename new config config' entity).append ih
    exact each scope.entities

variable {config config'} in
/-- The scope behind an outcome is left with the same reports. -/
theorem Renames.left {change : Part -> Part} {first later : Outcome Part}
    (alike : Renames new (config = config') change first later) :
    Reports new (config = config') (first.findings ++ (leave config first.table).1)
        (later.findings ++ (leave config' later.table).1)
      ∧ (leave config' later.table).2 = (leave config first.table).2.rename new := by
  rw [alike.table]
  rcases leave_rename new config config' first.table with ⟨reports, table⟩
  exact ⟨alike.findings.append reports, table⟩

theorem shadowWarning_rename (table : Table) (name : String) (span : Span) :
    Reports new (config = config') (shadowWarning config table name span)
      (shadowWarning config' (table.rename new) (new.names name) span) := by
  unfold shadowWarning
  rw [Table.lookup_rename, Table.depth_rename]
  cases table.lookup name with
  | none => exact .nil
  | some outer =>
    apply Matches.guarded
    exact .warn config config' (fun _ _ => trivial) _ _ _ _

theorem frameFindings_rename (table : Table) (before : Int64) (name : String) (span : Span) :
    Finds new (frameFindings table before name span)
      (frameFindings (table.rename new) before (new.names name) span) := by
  unfold frameFindings
  rw [Table.frameSize_rename]
  split
  · exact .nil
  · exact found new (.frameTooLarge name) span

@[simp] theorem frameFits_rename (table : Table) :
    frameFits (table.rename new) = frameFits table := by
  rw [frameFits, frameFits, Table.frameSize_rename]

theorem resolveVarDecl_rename (table : Table) (below : Bool) (note : Note) (name : String)
    (type : Ty) {init init'} (alike : BindsAlike new (Node.rename new) init init') :
    Renames new (config = config') (Node.rename new)
      (resolveVarDecl config table below note name type init)
      (resolveVarDecl config' (table.rename new) below (note.rename new) (new.names name)
        (type.rename new) init') := by
  have shadow := alike.findings.reports.append
    (shadowWarning_rename new config config' (table.useAll init.uses) name note.span)
  unfold resolveVarDecl
  simp only [alike.uses, Table.useAll_rename, alike.part, alike.ok, resolveType_none_rename]
  generalize table.useAll init.uses = table at shadow ⊢
  cases resolveType table none type with
  | error issue => exact ⟨rfl, rfl, (alike.findings.append (found new issue _)).reports, rfl⟩
  | ok resolved =>
    have refused := shadow.append (found new (.redeclared name) note.span).reports
    dsimp only [renameDenoted, Note.span_rename]
    rw [Table.insertVariable_rename]
    cases table.insertVariable name resolved false
        (some { span := note.span, belowFunction := below }) with
    | error fault => exact ⟨rfl, rfl, refused, rfl⟩
    | ok insertion =>
      cases insertion with
      | taken existing => exact ⟨rfl, rfl, refused, rfl⟩
      | added entity inserted =>
        have grown := frameFindings_rename new inserted table.frameSize name note.span
        refine ⟨rfl, ?_, ?_, rfl⟩
        · simp only [Except.map, Table.Insertion.rename, frameFits_rename]
        · simp only [Except.map, Table.Insertion.rename, Table.frameSize_rename]
          exact shadow.append grown.reports

mutual

theorem resolveStmt_rename (node : Node) (table : Table) (below : Bool) :
    Renames new (config = config') (Node.rename new) (resolveStmt config table below node)
      (resolveStmt config' (table.rename new) below (node.rename new)) := by
  cases node with
  | block note stmts =>
    have inner := resolveStmts_rename stmts table.openBlock
    simp only [Node.rename, resolveStmt, Table.openBlock_rename]
    exact ⟨congrArg (Node.block _) inner.part, inner.ok, (inner.left new).1, (inner.left new).2⟩
  | varDecl note name type init =>
    exact resolveVarDecl_rename new config config' table below note name type
      (resolveExpr_rename new table init)
  | assign note target value =>
    have first := resolveExpr_rename new table target
    have second := resolveExpr_rename new table value
    refine ⟨?_, ?_, (first.findings.append second.findings).reports, ?_⟩
    · simp only [Node.rename, resolveStmt, first.part, second.part]
    · simp only [Node.rename, resolveStmt, first.ok, second.ok]
    · simp only [Node.rename, resolveStmt, first.uses, second.uses, ← List.map_append,
        Table.useAll_rename]
  | branch note test thenBody elseBody =>
    have tested := resolveExpr_rename new table test
    have first := resolveStmt_rename thenBody (table.useAll (resolveExpr table test).uses) false
    rw [← Table.useAll_rename, ← tested.uses] at first
    have second := resolveStmt_rename elseBody
      (resolveStmt config (table.useAll (resolveExpr table test).uses) false thenBody).table false
    rw [← first.table] at second
    refine ⟨?_, ?_, (tested.findings.reports.append first.findings).append second.findings,
      second.table⟩
    · simp only [Node.rename, resolveStmt, tested.part, first.part, second.part]
    · simp only [Node.rename, resolveStmt, tested.ok, first.ok, second.ok]
  | loop note test body =>
    have tested := resolveExpr_rename new table test
    have inner := resolveStmt_rename body (table.useAll (resolveExpr table test).uses) false
    rw [← Table.useAll_rename, ← tested.uses] at inner
    refine ⟨?_, ?_, tested.findings.reports.append inner.findings, inner.table⟩
    · simp only [Node.rename, resolveStmt, tested.part, inner.part]
    · simp only [Node.rename, resolveStmt, tested.ok, inner.ok]
  | ret note value =>
    have inner := resolveExpr_rename new table value
    refine ⟨?_, inner.ok, inner.findings.reports, ?_⟩
    · simp only [Node.rename, resolveStmt, inner.part]
    · simp only [Node.rename, resolveStmt, inner.uses, Table.useAll_rename]
  | absent => exact ⟨rfl, rfl, .nil, rfl⟩
  | _ => exact ⟨rfl, rfl, (found new (.notStatement _) _).reports, rfl⟩

theorem resolveStmts_rename : forall (nodes : List Node) (table : Table),
    Renames new (config = config') (Node.renameEach new) (resolveStmts config table nodes)
      (resolveStmts config' (table.rename new) (Node.renameEach new nodes))
  | [], _ => ⟨rfl, rfl, .nil, rfl⟩
  | node :: nodes, table => by
    have first := resolveStmt_rename node table false
    have rest := resolveStmts_rename nodes (resolveStmt config table false node).table
    rw [← first.table] at rest
    exact first.andThen new rest List.cons fun _ _ => rfl

end

theorem resolveBody_rename (table : Table) (below : Bool) (node : Node) :
    Renames new (config = config') (Node.rename new) (resolveBody config table below node)
      (resolveBody config' (table.rename new) below (node.rename new)) := by
  cases node with
  | block note stmts =>
    have inner := resolveStmts_rename new config config' stmts table
    exact ⟨congrArg (Node.block _) inner.part, inner.ok, inner.findings, inner.table⟩
  | _ => exact resolveStmt_rename new config config' _ table below

/-! ## Functions and blocks of the main program -/

theorem resolveParams_rename (table : Table) (nodes : List Node) :
    (resolveParams (table.rename new) (Node.renameEach new nodes)).1
        = Node.renameEach new (resolveParams table nodes).1
      ∧ (resolveParams (table.rename new) (Node.renameEach new nodes)).2.1
        = (resolveParams table nodes).2.1.map (Ty.rename new)
      ∧ Finds new (resolveParams table nodes).2.2
        (resolveParams (table.rename new) (Node.renameEach new nodes)).2.2 := by
  induction nodes with
  | nil => exact ⟨rfl, rfl, .nil⟩
  | cons node nodes ih =>
    rcases ih with ⟨params, types, findings⟩
    cases node with
    | varDecl note name type init =>
      simp only [Node.renameEach, Node.rename, resolveParams, resolveType_none_rename]
      cases resolveType table none type with
      | ok => exact ⟨congrArg (_ :: ·) params, congrArg (_ :: ·) types, findings⟩
      | error issue =>
        exact ⟨congrArg (_ :: ·) params, congrArg (_ :: ·) types,
          (found new issue _).append findings⟩
    | _ => exact ⟨congrArg (_ :: ·) params, congrArg (_ :: ·) types, findings⟩

theorem declareFunction_rename (same : Prop) (table : Table) (index : Nat) (node : Node) :
    Renames new same (Node.rename new) (declareFunction table index node)
      (declareFunction (table.rename new) index (node.rename new)) := by
  cases node with
  | funcDecl note name params result body signature entry =>
    have alike := resolveParams_rename new table params
    simp only [Node.rename, declareFunction, Note.span_rename, resolveType_none_rename]
    generalize resolveParams table params = first at alike ⊢
    generalize resolveParams (table.rename new) (Node.renameEach new params) = later at alike ⊢
    rcases first with ⟨params', types, _⟩
    rcases later with ⟨_, _, _⟩
    rcases alike with ⟨rfl, rfl, paramFindings⟩
    have refused := found new (.functionRedefined name) note.span
    have inserted (type : Ty) := table.insert_rename new name
      { kind := .function, type, site := some { span := note.span },
        callee := some { signature := { params := types, result := type }, function := index } }
      ""
    simp only [Entity.rename, Callee.rename, Signature.rename, Option.map_some] at inserted
    cases resolveType table none result with
    | ok type =>
      have all := paramFindings.append .nil
      dsimp only [renameDenoted] at all ⊢
      rw [inserted type, all.isEmpty_eq]
      rcases table.insert name _ with fault | ⟨entity, table⟩ | existing
      · exact ⟨rfl, rfl, (all.append refused).reports, rfl⟩
      · exact ⟨rfl, rfl, all.reports, rfl⟩
      · exact ⟨rfl, rfl, (all.append refused).reports, rfl⟩
    | error issue =>
      have all := paramFindings.append (found new issue note.span)
      have unknown := inserted .unknown
      rw [show Ty.unknown.rename new = .unknown from rfl] at unknown
      dsimp only [renameDenoted] at all ⊢
      rw [unknown, all.isEmpty_eq]
      rcases table.insert name _ with fault | ⟨entity, table⟩ | existing
      · exact ⟨rfl, rfl, (all.append refused).reports, rfl⟩
      · exact ⟨rfl, rfl, all.reports, rfl⟩
      · exact ⟨rfl, rfl, (all.append refused).reports, rfl⟩
  | _ => exact ⟨rfl, rfl, .nil, rfl⟩

theorem declareFunctions_rename (same : Prop) (table : Table) (index : Nat) (nodes : List Node) :
    Renames new same (Node.renameEach new) (declareFunctions table index nodes)
      (declareFunctions (table.rename new) index (Node.renameEach new nodes)) := by
  induction nodes generalizing table index with
  | nil => exact ⟨rfl, rfl, .nil, rfl⟩
  | cons node nodes ih =>
    have first := declareFunction_rename new same table index node
    have rest := ih (declareFunction table index node).table (index + 1)
    rw [← first.table] at rest
    exact first.andThen new rest List.cons fun _ _ => rfl

/-- Binds one parameter of `owner`. -/
def bindParam (table : Table) (owner : String) (node : Node) : Outcome Node :=
  match node with
  | .varDecl note name type init =>
    if !note.type.isKnown then { part := node, ok := false, findings := [], table }
    else
      match table.insertVariable name note.type note.type.isComposite
          (some { span := note.span, belowFunction := true }) with
      | .ok (.added entity inserted) =>
        { part := .varDecl { note with address :=
            { offset := entity.offset, byRef := note.type.isComposite } } name type init
          ok := frameFits inserted
          findings := frameFindings inserted table.frameSize name note.span
          table := inserted }
      | _ =>
        { part := node, ok := false,
          findings := [(ScopeIssue.duplicateParameter name owner).foundAt note.span], table }
  | _ => { part := node, ok := false, findings := [], table }

/-- Parameters are bound one after another. -/
theorem bindParams_eq (table : Table) (owner : String) (node : Node) (nodes : List Node) :
    bindParams table owner (node :: nodes)
      = { part := (bindParam table owner node).part
            :: (bindParams (bindParam table owner node).table owner nodes).part
          ok := (bindParam table owner node).ok
            && (bindParams (bindParam table owner node).table owner nodes).ok
          findings := (bindParam table owner node).findings
            ++ (bindParams (bindParam table owner node).table owner nodes).findings
          table := (bindParams (bindParam table owner node).table owner nodes).table } := rfl

theorem bindParam_rename (same : Prop) (table : Table) (owner : String) (node : Node) :
    Renames new same (Node.rename new) (bindParam table owner node)
      (bindParam (table.rename new) (new.names owner) (node.rename new)) := by
  cases node with
  | varDecl note name type init =>
    have refused := found new (.duplicateParameter name owner) note.span
    simp only [Node.rename, bindParam, Note.rename, Ty.isKnown_rename, Ty.isComposite_rename]
    split
    · exact ⟨rfl, rfl, .nil, rfl⟩
    · rw [Table.insertVariable_rename]
      cases table.insertVariable name note.type note.type.isComposite _ with
      | error fault => exact ⟨rfl, rfl, refused.reports, rfl⟩
      | ok insertion =>
        cases insertion with
        | taken existing => exact ⟨rfl, rfl, refused.reports, rfl⟩
        | added entity inserted =>
          have grown := frameFindings_rename new inserted table.frameSize name note.span
          refine ⟨rfl, ?_, ?_, rfl⟩
          · simp only [Except.map, Table.Insertion.rename, frameFits_rename]
          · simpa only [Except.map, Table.Insertion.rename, Table.frameSize_rename]
              using grown.reports
  | _ => exact ⟨rfl, rfl, .nil, rfl⟩

theorem bindParams_rename (same : Prop) (table : Table) (owner : String) (nodes : List Node) :
    Renames new same (Node.renameEach new) (bindParams table owner nodes)
      (bindParams (table.rename new) (new.names owner) (Node.renameEach new nodes)) := by
  induction nodes generalizing table with
  | nil => exact ⟨rfl, rfl, .nil, rfl⟩
  | cons node nodes ih =>
    have first := bindParam_rename new same table owner node
    have rest := ih (bindParam table owner node).table
    rw [← first.table] at rest
    rw [Node.renameEach, bindParams_eq, bindParams_eq]
    exact first.andThen new rest List.cons fun _ _ => rfl

theorem resolveFunctionBody_rename (table : Table) (owner : String) (span : Span) (body : Node) :
    Renames new (config = config') (Node.rename new)
      (resolveFunctionBody config table owner span body)
      (resolveFunctionBody config' (table.rename new) (new.names owner) span
        (body.rename new)) := by
  unfold resolveFunctionBody
  rw [Node.isPresent_rename]
  split
  · have inner := resolveBody_rename new config config' table.openBlock true body
    exact ⟨inner.part, inner.ok, (inner.left new).1, (inner.left new).2⟩
  · exact ⟨rfl, rfl, (found new (.noBody owner) span).reports, rfl⟩

theorem resolveFunction_rename (table : Table) (node : Node) :
    Renames new (config = config') (Node.rename new) (resolveFunction config table node)
      (resolveFunction config' (table.rename new) (node.rename new)) := by
  cases node with
  | funcDecl note name params result body signature entry =>
    have formals := bindParams_rename new (config = config') table.openFrame name params
    have inner := resolveFunctionBody_rename new config config'
      (bindParams table.openFrame name params).table name note.span body
    rw [← formals.table] at inner
    simp only [Node.rename, resolveFunction, Table.openFrame_rename, Note.span_rename]
    refine ⟨?_, ?_, ?_, (inner.left new).2⟩
    · dsimp only
      rw [formals.part, inner.part, inner.table, Table.frameSize_rename]
      rfl
    · dsimp only
      rw [formals.ok, inner.ok]
    · simpa only [List.append_assoc] using formals.findings.append (inner.left new).1
  | _ => exact ⟨rfl, rfl, .nil, rfl⟩

theorem resolveTopBlock_rename (table : Table) (node : Node) :
    Renames new (config = config') (Node.rename new) (resolveTopBlock config table node)
      (resolveTopBlock config' (table.rename new) (node.rename new)) := by
  have inner := resolveBody_rename new config config' table.openFrame false node
  simp only [resolveTopBlock, Table.openFrame_rename]
  refine ⟨?_, inner.ok, (inner.left new).1, (inner.left new).2⟩
  rw [inner.part, inner.table, Table.frameSize_rename, Node.withFrameSize_rename]

theorem resolveEach_rename {resolve resolve' : Table -> Node -> Outcome Node}
    (each : forall table node, Renames new same (Node.rename new) (resolve table node)
      (resolve' (table.rename new) (node.rename new)))
    (table : Table) (nodes : List Node) :
    Renames new same (Node.renameEach new) (resolveEach resolve table nodes)
      (resolveEach resolve' (table.rename new) (Node.renameEach new nodes)) := by
  induction nodes generalizing table with
  | nil => exact ⟨rfl, rfl, .nil, rfl⟩
  | cons node nodes ih =>
    have first := each table node
    have rest := ih (resolve table node).table
    rw [← first.table] at rest
    exact first.andThen new rest List.cons fun _ _ => rfl

/-! ## Programs -/

theorem isStruct_rename (node : Node) : isStruct (node.rename new) = isStruct node := by
  have each : forall nodes : List Node,
      (Node.renameFields new nodes).all isVarDecl = nodes.all isVarDecl := by
    intro nodes
    induction nodes with
    | nil => rfl
    | cons node nodes ih =>
      cases node <;> simp only [Node.renameFields, List.all_cons, ih] <;> rfl
  cases node with
  | structDecl note name fields => exact each fields
  | _ => rfl

theorem isBody_rename (node : Node) : isBody (node.rename new) = isBody node := by
  cases node with
  | blank note kind => cases kind <;> rfl
  | _ => rfl

theorem all_renameEach {test : Node -> Bool}
    (each : forall node, test (node.rename new) = test node)
    (nodes : List Node) : (Node.renameEach new nodes).all test = nodes.all test := by
  have same : test ∘ Node.rename new = test := funext each
  rw [Node.renameEach_eq_map, List.all_map, same]

theorem isFunction_rename (node : Node) : isFunction (node.rename new) = isFunction node := by
  have each : forall node : Node, isVarDecl (node.rename new) = isVarDecl node := by
    intro node
    cases node <;> rfl
  cases node with
  | funcDecl note name params result body signature entry =>
    simp only [Node.rename, isFunction, all_renameEach new each, isBody_rename]
  | _ => rfl

/-- A program lacks nothing under new names that it does not lack anyway. -/
theorem isComplete_rename (program : Program) :
    isComplete (program.rename new) = isComplete program := by
  have blocks : forall node : Node, isTopBlock (node.rename new) = isTopBlock node := by
    intro node
    rw [isTopBlock, isTopBlock, Node.isPresent_rename, isBody_rename]
  simp only [isComplete, Program.rename, all_renameEach new (isStruct_rename new),
    all_renameEach new (isFunction_rename new), all_renameEach new blocks]

theorem map_structName_rename {nodes} (structs : nodes.all isStruct = true) :
    (Node.renameEach new nodes).map structName = (nodes.map structName).map new.names := by
  rw [Node.renameEach_eq_map, List.map_map, List.map_map]
  apply List.map_congr_left
  intro node member
  have struct := List.all_eq_true.mp structs node member
  cases node with
  | structDecl note name fields => rfl
  | _ => exact absurd struct Bool.false_ne_true

/-- A program is resolved under new names and other settings as it is under the old ones. -/
theorem run_rename {program} (complete : isComplete program = true) :
    (run config' (program.rename new)).1 = (run config program).1.rename new
      ∧ (run config' (program.rename new)).2.ok = (run config program).2.ok
      ∧ Reports new (config = config') (run config program).2.diagnostics
          (run config' (program.rename new)).2.diagnostics := by
  simp only [isComplete, Bool.and_eq_true] at complete
  have structs := resolveStructs_rename new (config = config') Table.empty.openBlock
    (program.structs.map structName) 0 program.structs
  rw [← map_structName_rename new complete.1.1, ← Table.openBlock_rename,
    show Table.empty.rename new = Table.empty from rfl] at structs
  dsimp only [run, Program.rename]
  -- Every stage hands its table on to the next one.
  generalize resolveStructs Table.empty.openBlock _ 0 program.structs = first at structs ⊢
  generalize resolveStructs _ _ 0 (Node.renameEach new program.structs) = first' at structs ⊢
  rw [structs.table, Table.openBlock_rename]
  have declared := declareFunctions_rename new (config = config') first.table.openBlock 0
    program.functions
  generalize declareFunctions first.table.openBlock 0 program.functions = second at declared ⊢
  generalize declareFunctions _ 0 (Node.renameEach new program.functions) = second' at declared ⊢
  rw [declared.table, declared.part]
  have functions := resolveEach_rename new (resolveFunction_rename new config config')
    second.table second.part
  generalize resolveEach (resolveFunction config) second.table second.part = third at functions ⊢
  generalize resolveEach (resolveFunction config') (second.table.rename new) _ = third'
    at functions ⊢
  rw [functions.table]
  have blocks := resolveEach_rename new (resolveTopBlock_rename new config config') third.table
    program.blocks
  generalize resolveEach (resolveTopBlock config) third.table program.blocks = last at blocks ⊢
  generalize resolveEach (resolveTopBlock config') (third.table.rename new) _ = last' at blocks ⊢
  rw [blocks.table]
  have inner := leave_rename new config config' last.table
  have outer := leave_rename new config config' (leave config last.table).2
  have empty : (Node.renameEach new program.blocks).isEmpty = program.blocks.isEmpty := by
    cases program.blocks <;> rfl
  have missing : Finds new (blockFindings program.blocks) (blockFindings program.blocks) :=
    .guarded (found new .noBlock .nowhere)
  rw [inner.2, structs.part, structs.ok, declared.ok, functions.part, functions.ok, blocks.part,
    blocks.ok, blockFindings, blockFindings, empty]
  refine ⟨rfl, rfl, ?_⟩
  exact ((((((structs.findings.append declared.findings).append functions.findings).append
    missing.reports).append blocks.findings).append inner.1).append outer.1)

/-- Programs that are resolved under different settings have the same notes, the same verdict and
the same errors. -/
theorem run_settings {program} (complete : isComplete program = true) :
    (run config' program).1 = (run config program).1
      ∧ (run config' program).2.ok = (run config program).2.ok
      ∧ errors (run config' program).2.diagnostics = errors (run config program).2.diagnostics := by
  rcases run_rename .keep config config' complete with ⟨tree, ok, found⟩
  rw [Program.rename_keep] at tree ok found
  exact ⟨tree.trans (Program.rename_keep _), ok, found.errors_eq rfl⟩

end Resolution

/-- Resolution of a complete program under new names gives the tree under new names, the same
verdict, and the same findings in other words. -/
theorem Program.resolve_rename (new : Renaming) (config : Config) {program resolved : Program}
    {judgement} (result : program.resolve config = (resolved, .ok judgement)) :
    exists judgement', (program.rename new).resolve config = (resolved.rename new, .ok judgement')
      ∧ judgement'.ok = judgement.ok
      ∧ Rephrases judgement.diagnostics judgement'.diagnostics := by
  unfold Program.resolve at result ⊢
  rw [Resolution.isComplete_rename]
  split at result
  · rename_i complete
    rcases Resolution.run_rename new config config complete with ⟨tree, ok, found⟩
    cases result
    rw [if_pos complete]
    exact ⟨_, congrArg (·, _) tree, ok, found.rephrases rfl⟩
  · cases result

end PCode
