import PCode.Proofs.Resolution.Programs
import PCode.Proofs.Resolution.Renaming

namespace PCode
namespace Resolution

open Static
open Diagnostics

/-!
Resolution fails exactly if it reports an error.

Not every failure comes with a finding of its own.  A declaration behind the one that
has made the frame too large fails in silence, and so does a parameter whose type was
found to be wrong when the signature was declared.  In both cases the error has been
reported before, so over a whole program failures and errors are the same.
-/

theorem severe_foundAt (issue : ScopeIssue) (span : Span) : Severe [issue.foundAt span] :=
  .single _ _ _

/-- Whatever is found in an expression is an error. -/
theorem severe_resolveExpr (table : Table) (node : Node) :
    Severe (resolveExpr table node).findings :=
  (resolveExpr_rename .keep table node).findings.known

/-! ## Statements -/

/-- An outcome that fails with an error, if the frame was within its limit before: then
success means that there is no error and that the frame is within its limit still. -/
structure Fair {Part : Type} (before : Table) (outcome : Outcome Part) : Prop where
  clean : outcome.ok = true -> hasErrors outcome.findings = false
  accepted : hasErrors outcome.findings = false -> frameFits before = true ->
    outcome.ok = true ∧ frameFits outcome.table = true
  owned : owners outcome.table.scopes = owners before.scopes

theorem frameFits_useAll (table : Table) (names : List String) :
    frameFits (table.useAll names) = frameFits table := by
  rw [frameFits, frameFits, Table.frameSize, Table.frameSize]
  rw [show (table.useAll names).frame? = table.frame? from
    frame_of_frames (useAll_alike names table).frames]

theorem hasErrors_leave (config : Config) (table : Table) :
    hasErrors (leave config table).1 = false := by
  unfold leave
  split
  · refine hasErrors_flatMap ?_
    intro entity _
    unfold unusedWarning
    split
    · split
      · split
        · rfl
        · exact hasErrors_warn _ _ _ _
      · exact hasErrors_warn _ _ _ _
      · rfl
    · rfl
  · rfl

theorem hasErrors_shadowWarning (config : Config) (table : Table) (name : String) (span : Span) :
    hasErrors (shadowWarning config table name span) = false := by
  unfold shadowWarning
  split
  · split
    · exact hasErrors_warn _ _ _ _
    · rfl
  · rfl

/-- Leaving a scope that shares its frame keeps the frame. -/
theorem leave_shared (config : Config) {inner outer : Table}
    (owned : owners inner.scopes = false :: owners outer.scopes) :
    frameFits (leave config inner).2 = frameFits inner
      ∧ owners (leave config inner).2.scopes = owners outer.scopes := by
  rcases inner with ⟨scopes⟩
  cases scopes with
  | nil => cases owned
  | cons scope scopes =>
    have unowned : scope.frame = none :=
      Option.isNone_iff_eq_none.mp (Option.isSome_eq_false_iff.mp (List.cons.inj owned).1)
    rw [leave_table rfl]
    refine ⟨?_, (List.cons.inj owned).2⟩
    rw [frameFits, frameFits, Table.frameSize, Table.frameSize, Table.frame?, Table.frame?,
      List.findSome?_cons, unowned]

variable {table inserted : Table} {name : String} {entity : Entity} {Part : Type}

theorem owners_of_insert {fresh} (added : table.insert name fresh = .ok (.added entity inserted)) :
    owners inserted.scopes = owners table.scopes := by
  rcases table with ⟨scopes⟩
  cases scopes with
  | nil => cases added
  | cons scope scopes =>
    rw [Table.insert] at added
    dsimp only at added
    split at added
    · cases added
    · cases added
      rfl

theorem owners_of_insertVariable {type byRef site}
    (added : table.insertVariable name type byRef site = .ok (.added entity inserted)) :
    owners inserted.scopes = owners table.scopes := by
  unfold Table.insertVariable at added
  split at added
  · cases added
  · cases added
  · dsimp only at added
    split at added
    · rename_i isAdded
      cases added
      exact (takeCells_owners _ _).trans (owners_of_insert isAdded)
    · rename_i other
      exact absurd added (other _ _)

namespace Fair

variable {First Second Part : Type} {before : Table}

/-- Parts in order are fair if both are. -/
theorem andThen {first : Outcome First} {second : Outcome Second} (here : Fair before first)
    (later : Fair first.table second) (part : Part) :
    Fair before
      { part, ok := first.ok && second.ok, findings := first.findings ++ second.findings,
        table := second.table : Outcome Part } where
  clean := by
    intro ok
    rcases Bool.and_eq_true_iff.mp ok with ⟨firstOk, secondOk⟩
    rw [hasErrors_append, here.clean firstOk, later.clean secondOk]
    rfl
  accepted := by
    intro harmless fits
    rw [hasErrors_append, Bool.or_eq_false_iff] at harmless
    rcases here.accepted harmless.1 fits with ⟨firstOk, firstFits⟩
    rcases later.accepted harmless.2 firstFits with ⟨secondOk, secondFits⟩
    exact ⟨Bool.and_eq_true_iff.mpr ⟨firstOk, secondOk⟩, secondFits⟩
  owned := later.owned.trans here.owned

/-- Reading expressions leaves the frame alone and fails with a finding. -/
theorem reads {findings} (severe : Severe findings) (table : Table) (part : Part)
    (names : List String) :
    Fair table { part, ok := findings.isEmpty, findings, table := table.useAll names } where
  clean := by
    intro ok
    rw [severe.hasErrors_eq]
    exact congrArg (! ·) ok
  accepted := by
    intro harmless fits
    rw [severe.hasErrors_eq, Bool.not_eq_false'] at harmless
    exact ⟨harmless, (frameFits_useAll table names).trans fits⟩
  owned := owners_useAll table names

/-- A failure with an error among its findings. -/
theorem fails {findings} (severe : hasErrors findings = true) {table}
    (owned : owners table.scopes = owners before.scopes) (part : Part) :
    Fair before { part, ok := false, findings, table } where
  clean := nofun
  accepted := by
    intro harmless
    rw [severe] at harmless
    cases harmless
  owned := owned

/-- Findings that are no errors may be added. -/
theorem remarks {outcome : Outcome Part} (fair : Fair before outcome) {extra}
    (harmless : hasErrors extra = false) :
    Fair before { outcome with findings := outcome.findings ++ extra } where
  clean := by
    intro ok
    rw [hasErrors_append, fair.clean ok, harmless]
    rfl
  accepted := by
    intro quiet fits
    rw [hasErrors_append, harmless, Bool.or_false] at quiet
    exact fair.accepted quiet fits
  owned := fair.owned

end Fair

theorem hasErrors_foundAt (findings : List Diagnostic) (issue : ScopeIssue) (span : Span) :
    hasErrors (findings ++ [issue.foundAt span]) = true := by
  rw [hasErrors_append, Bool.or_eq_true_iff]
  exact .inr rfl

/-- Only a declaration that makes the frame too large is reported, and the ones behind it
need no report. -/
theorem frameFits_of_findings {before after span}
    (harmless : hasErrors (frameFindings after before.frameSize name span) = false)
    (fits : frameFits before = true) : frameFits after = true := by
  rw [frameFits, decide_eq_true_eq] at fits ⊢
  unfold frameFindings at harmless
  split at harmless
  · rename_i condition
    rcases Bool.or_eq_true_iff.mp condition with within | beyond
    · exact of_decide_eq_true within
    · exact absurd (of_decide_eq_true beyond) (Int64.not_lt.mpr fits)
  · cases harmless

theorem frameFindings_of_fits {after} (fits : frameFits after = true) (before : Int64)
    (name : String) (span : Span) : frameFindings after before name span = [] := by
  rw [frameFits] at fits
  rw [frameFindings, if_pos (by rw [fits]; rfl)]

theorem Fair.declares {type byRef site}
    (added : table.insertVariable name type byRef site = .ok (.added entity inserted)) (span : Span)
    (part : Part) :
    Fair table
      { part, ok := frameFits inserted,
        findings := frameFindings inserted table.frameSize name span, table := inserted } where
  clean := by
    intro fits
    rw [frameFindings_of_fits fits]
    rfl
  accepted := by
    intro harmless fits
    have fitsAfter := frameFits_of_findings harmless fits
    exact ⟨fitsAfter, fitsAfter⟩
  owned := owners_of_insertVariable added

theorem fair_resolveVarDecl (config : Config) (table : Table) (below : Bool) (note : Note)
    (name : String) (type : Ty) {init} (severe : Severe init.findings) :
    Fair table (resolveVarDecl config table below note name type init) := by
  have kept := owners_useAll table init.uses
  unfold resolveVarDecl
  dsimp only
  split
  · exact .fails (hasErrors_foundAt _ _ _) kept _
  · split
    · rename_i entity inserted added
      have value := (Fair.reads severe table () init.uses).remarks
        (hasErrors_shadowWarning config (table.useAll init.uses) name note.span)
      rw [Bool.and_comm]
      exact value.andThen (.declares added note.span ()) _
    · exact .fails (hasErrors_foundAt _ _ _) kept _

/-- A scope inside a frame: what is reported when it is left are warnings. -/
theorem Fair.scoped {First : Type} {inner : Outcome First} (fair : Fair table.openBlock inner)
    (config : Config) (part : Part) :
    Fair table
      { part, ok := inner.ok, findings := inner.findings ++ (leave config inner.table).1,
        table := (leave config inner.table).2 } := by
  rcases leave_shared config fair.owned with ⟨frame, owned⟩
  constructor
  · intro ok
    rw [hasErrors_append, fair.clean ok, hasErrors_leave]
    rfl
  · intro harmless fits
    rw [hasErrors_append, hasErrors_leave, Bool.or_false] at harmless
    rw [frame]
    exact fair.accepted harmless fits
  · exact owned

mutual

theorem fair_resolveStmt (config : Config) (below : Bool) (table : Table) (node : Node) :
    Fair table (resolveStmt config table below node) := by
  cases node with
  | absent => exact .reads .nil table _ []
  | block _ stmts => exact (fair_resolveStmts config table.openBlock stmts).scoped config _
  | varDecl note name type init =>
    exact fair_resolveVarDecl config table below note name type (severe_resolveExpr table init)
  | assign note target value =>
    have first :=
      Fair.reads (severe_resolveExpr table target) table () (resolveExpr table target).uses
    have second := first.andThen
      (.reads (severe_resolveExpr table value) _ () (resolveExpr table value).uses)
      (Node.assign note (resolveExpr table target).part (resolveExpr table value).part)
    rw [show (table.useAll (resolveExpr table target).uses).useAll (resolveExpr table value).uses
      = table.useAll ((resolveExpr table target).uses ++ (resolveExpr table value).uses) from
        List.foldl_append.symm] at second
    exact second
  | branch _ test thenBody elseBody =>
    have first :=
      Fair.reads (severe_resolveExpr table test) table () (resolveExpr table test).uses
    have second := first.andThen (fair_resolveStmt config false _ thenBody) ()
    exact second.andThen (fair_resolveStmt config false _ elseBody) _
  | loop _ test body =>
    have first :=
      Fair.reads (severe_resolveExpr table test) table () (resolveExpr table test).uses
    exact first.andThen (fair_resolveStmt config false _ body) _
  | ret _ value => exact .reads (severe_resolveExpr table value) table _ _
  | _ =>
    exact .fails rfl rfl _

theorem fair_resolveStmts (config : Config) : forall (table : Table) (nodes : List Node),
    Fair table (resolveStmts config table nodes)
  | table, [] => .reads .nil table _ []
  | table, node :: nodes =>
    (fair_resolveStmt config false table node).andThen (fair_resolveStmts config _ nodes) _

end

/-! ## Frames and parts in order -/

theorem fair_resolveBody (config : Config) (table : Table) (below : Bool) (node : Node) :
    Fair table (resolveBody config table below node) := by
  unfold resolveBody
  split
  · exact { fair_resolveStmts config table _ with }
  · exact fair_resolveStmt config below table node

theorem fair_resolveFunctionBody (config : Config) (table : Table) (owner : String) (span : Span)
    (body : Node) : Fair table (resolveFunctionBody config table owner span body) := by
  unfold resolveFunctionBody
  split
  · exact (fair_resolveBody config table.openBlock true body).scoped config _
  · exact .fails rfl rfl _

theorem fair_bindParams (owner : String) {nodes}
    (typed : forall node, node ∈ nodes -> TypedParam node) (table : Table) :
    Fair table (bindParams table owner nodes) := by
  induction nodes generalizing table with
  | nil => exact .reads .nil table _ []
  | cons node nodes ih =>
    have rest := ih (List.forall_mem_cons.mp typed).2
    rcases typed node List.mem_cons_self with ⟨sized⟩
    rw [bindParams]
    simp only [sized.known, Bool.not_true, Bool.false_eq_true, if_false]
    split
    · rename_i entity inserted added
      exact (Fair.declares added _ _).andThen (rest inserted) _
    · exact (Fair.fails rfl rfl _).andThen (rest table) _

/-- An outcome that fails exactly if there is an error among its findings. -/
def Just {Part : Type} (outcome : Outcome Part) : Prop :=
  outcome.ok = true <-> hasErrors outcome.findings = false

/-- In a frame of its own, what is fair is just. -/
theorem Fair.just {outcome : Outcome Part} (fair : Fair table.openFrame outcome) :
    Just outcome := by
  have fresh : frameFits table.openFrame = true := rfl
  exact ⟨fair.clean, fun harmless => (fair.accepted harmless fresh).1⟩

theorem Just.andThen {First Second : Type} {first : Outcome First} {second : Outcome Second}
    (here : Just first) (later : Just second) (part : Part) (table : Table) :
    Just { part, ok := first.ok && second.ok, findings := first.findings ++ second.findings,
           table : Outcome Part } := by
  rw [Just, Bool.and_eq_true_iff, hasErrors_append, Bool.or_eq_false_iff]
  exact and_congr here later

theorem Just.fails {findings} (severe : hasErrors findings = true) (part : Part) (table : Table) :
    Just { part, ok := false, findings, table } := by
  rw [Just, severe]
  exact ⟨nofun, nofun⟩

theorem Just.ofSevere {findings} (severe : Severe findings) (part : Part) (table : Table) :
    Just { part, ok := findings.isEmpty, findings, table } := by
  unfold Just
  rw [severe.hasErrors_eq, Bool.not_eq_false']

theorem just_resolveFunction {source} (config : Config) (table : Table) {node}
    (signed : Signed source node) : Just (resolveFunction config table node) := by
  cases signed with
  | @funcDecl note bodyNote name params stmts declared signature entry typed _ =>
    have fair := (fair_bindParams name typed table.openFrame).andThen
      (fair_resolveFunctionBody config _ name note.span (.block bodyNote stmts)) ()
    exact (fair.remarks (hasErrors_leave config _)).just

theorem just_resolveTopBlock (config : Config) (table : Table) (node : Node) :
    Just (resolveTopBlock config table node) := by
  have fair := fair_resolveBody config table.openFrame false node
  exact (fair.remarks (hasErrors_leave config _)).just

theorem just_resolveEach {resolve : Table -> Node -> Outcome Node} {nodes}
    (each : forall table node, node ∈ nodes -> Just (resolve table node)) (table : Table) :
    Just (resolveEach resolve table nodes) := by
  induction nodes generalizing table with
  | nil => exact ⟨fun _ => rfl, fun _ => rfl⟩
  | cons node nodes ih =>
    have rest := ih fun table node member =>
      each table node (List.mem_cons_of_mem _ member)
    exact (each table node List.mem_cons_self).andThen (rest _) _ _

/-! ## Declarations -/

theorem severe_resolveFields (table : Table) (owner : Owner) (seen : List String)
    (nodes : List Node) : Severe (resolveFields table owner seen nodes).findings :=
  (resolveFields_rename .keep table owner seen nodes).findings.known

theorem just_declareStruct (table : Table) (note : Note) (name : String) {outcome}
    (severe : Severe outcome.findings) : Just (declareStruct table note name outcome) := by
  have missed : Severe (if outcome.nodes.isEmpty then
      [(ScopeIssue.noFields name).foundAt note.span] else []) := by
    split
    · exact severe_foundAt _ _
    · exact .nil
  unfold declareStruct
  generalize (if outcome.nodes.isEmpty then
    [(ScopeIssue.noFields name).foundAt note.span] else []) = missing at missed ⊢
  dsimp only
  split
  · rename_i found
    exact .fails ((severe.append missed).hasErrors_eq.trans found) _ _
  · split
    · exact .fails (hasErrors_foundAt _ _ _) _ _
    · split
      · exact ⟨fun _ => rfl, fun _ => rfl⟩
      · exact .fails (hasErrors_foundAt _ _ _) _ _

theorem just_resolveStructs (table : Table) (order : List String) (index : Nat)
    (nodes : List Node) : Just (resolveStructs table order index nodes) := by
  induction nodes generalizing table index with
  | nil => exact ⟨fun _ => rfl, fun _ => rfl⟩
  | cons node nodes ih =>
    have first : Just (resolveStruct table order index node) := by
      unfold resolveStruct
      split
      · exact just_declareStruct _ _ _ (severe_resolveFields _ _ _ _)
      · exact ⟨fun _ => rfl, fun _ => rfl⟩
    exact first.andThen (ih _ _) _ _

theorem severe_resolveParams (table : Table) (nodes : List Node) :
    Severe (resolveParams table nodes).2.2 :=
  (resolveParams_rename .keep table nodes).2.2.known

theorem just_declareFunction (table : Table) (index : Nat) (node : Node) :
    Just (declareFunction table index node) := by
  unfold declareFunction
  split
  · rename_i note name params result body signature entry
    have params := severe_resolveParams table params
    dsimp only
    split
    · cases resolveType table none result with
      | ok resolved => exact .ofSevere (params.append .nil) _ _
      | error issue => exact .ofSevere (params.append (severe_foundAt issue note.span)) _ _
    · exact .fails (hasErrors_foundAt _ _ _) _ _
  · exact ⟨fun _ => rfl, fun _ => rfl⟩

theorem just_declareFunctions (table : Table) (index : Nat) (nodes : List Node) :
    Just (declareFunctions table index nodes) := by
  induction nodes generalizing table index with
  | nil => exact ⟨fun _ => rfl, fun _ => rfl⟩
  | cons node nodes ih =>
    exact (just_declareFunction table index node).andThen (ih _ _) _ _

/-! ## Programs -/

section Programs

variable {source : Int64} {program : Program}

/-- Where signatures are in order, all parameters have a type. -/
theorem signed_of_declared (whole : Written.Whole source program)
    (structsOk : (resolveStructs Table.empty.openBlock (program.structs.map structName) 0
      program.structs).ok = true)
    (declaredOk : (declareFunctions (resolveStructs Table.empty.openBlock
      (program.structs.map structName) 0 program.structs).table.openBlock 0
      program.functions).ok = true) :
    forall node, node ∈ (declareFunctions (resolveStructs Table.empty.openBlock
      (program.structs.map structName) 0 program.structs).table.openBlock 0
      program.functions).part -> Signed source node := by
  have rests : Rests Table.empty.openBlock [[]] := Rests.empty.openBlock
  have finished : Env.Finished [[]] := Env.All.nil.enter
  rcases scoped_of_resolveStructs whole.structs rests finished structsOk
      with ⟨_, layer, structs, settled⟩
  have finishedStructs := signatures_finished structs
  rcases scoped_of_declareFunctions whole.functions settled.rests.openBlock finishedStructs
    declaredOk with ⟨_, _, signatures, announced⟩
  rw [announced.part]
  exact signed_of_scoped signatures finishedStructs whole.functions

theorem blockFindings_eq (blocks : List Node) :
    hasErrors (blockFindings blocks) = blocks.isEmpty := by
  unfold blockFindings
  split
  · rename_i empty
    exact empty.symm
  · rename_i nonempty
    exact (Bool.eq_false_iff.mpr nonempty).symm

/-- A whole program is accepted exactly if no error is reported. -/
theorem ok_iff_no_errors (config : Config) (whole : Written.Whole source program) :
    (run config program).2.ok = true
      <-> hasErrors (run config program).2.diagnostics = false := by
  have signed := signed_of_declared whole
  have justStructs := just_resolveStructs Table.empty.openBlock (program.structs.map structName) 0
    program.structs
  dsimp only [run]
  generalize resolveStructs Table.empty.openBlock (program.structs.map structName) 0
    program.structs = structs at signed justStructs ⊢
  have justDeclared := just_declareFunctions structs.table.openBlock 0 program.functions
  generalize declareFunctions structs.table.openBlock 0 program.functions = declared
    at signed justDeclared ⊢
  have justFunctions (structsOk : structs.ok = true) (declaredOk : declared.ok = true) :=
    just_resolveEach (fun table node member =>
      just_resolveFunction config table (signed structsOk declaredOk node member)) declared.table
  generalize resolveEach (resolveFunction config) declared.table declared.part = functions
    at justFunctions ⊢
  have justBlocks : Just (resolveEach (resolveTopBlock config) functions.table program.blocks) :=
    just_resolveEach (fun table node _ => just_resolveTopBlock config table node) functions.table
  generalize resolveEach (resolveTopBlock config) functions.table program.blocks = blocks
    at justBlocks ⊢
  simp only [hasErrors_append, hasErrors_leave, blockFindings_eq, Bool.or_false,
    Bool.or_eq_false_iff, Bool.and_eq_true_iff, Bool.not_eq_true']
  constructor
  · rintro ⟨⟨⟨⟨structsOk, declaredOk⟩, functionsOk⟩, nonempty⟩, blocksOk⟩
    exact ⟨⟨⟨⟨justStructs.mp structsOk, justDeclared.mp declaredOk⟩,
      (justFunctions structsOk declaredOk).mp functionsOk⟩, nonempty⟩, justBlocks.mp blocksOk⟩
  · rintro ⟨⟨⟨⟨structsClean, declaredClean⟩, functionsClean⟩, nonempty⟩, blocksClean⟩
    have structsOk := justStructs.mpr structsClean
    have declaredOk := justDeclared.mpr declaredClean
    exact ⟨⟨⟨⟨structsOk, declaredOk⟩, (justFunctions structsOk declaredOk).mpr functionsClean⟩,
      nonempty⟩, justBlocks.mpr blocksClean⟩

end Programs

end Resolution
end PCode
