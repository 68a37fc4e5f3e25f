import PCode.Proofs.Resolution.Mirror
import PCode.Proofs.Written

set_option linter.unusedSectionVars false

namespace PCode
namespace Resolution

open Static

/-!
Bodies: resolution against the scoping judgement.

What is well scoped is resolved, to the tree that the judgement gives: this
follows the derivation, and the table mirrors the context all along.  Conversely
a whole tree in which resolution finds no fault has a derivation.  The second
statement does not speak of notes; they follow from the first one.
-/

/-! ## Declared types -/

variable {table : Table} {declared type : Ty} {note : Note} {args : Bound (List Node)}

theorem denotes_of_resolveType {env owner} (shows : Shows table.scopes env)
    (written : Written.Declared declared) (resolved : resolveType table owner declared = .ok type) :
    Denotes env declared type := by
  induction written generalizing type with
  | integer => cases resolved; exact .integer
  | boolean => cases resolved; exact .boolean
  | real => cases resolved; exact .real
  | char => cases resolved; exact .char
  | struct _ =>
    rw [resolveType] at resolved
    split at resolved
    · rename_i entity found
      split at resolved
      · rename_i kind
        cases resolved
        rcases binds_of_lookup shows found with ⟨binding, binds, stands⟩
        rw [stands.of_struct kind] at binds
        exact .struct binds
      · cases resolved
    · cases resolved
  | array _ _ ih =>
    rw [resolveType] at resolved
    split at resolved
    · cases resolved
    rename_i positive
    split at resolved
    · cases resolved
    rename_i elem elemResolved
    dsimp only at resolved
    split at resolved
    · rename_i fits
      cases resolved
      refine .array ?_ (ih elemResolved)
        (Ty.cells_of_fitsIn _ (by decide) fits).2.1
      rw [Int64.le_iff_toInt_le, Int64.toInt_zero] at positive
      omega
    · cases resolved

theorem resolveType_of_denotes {env} (owner : Option Owner) (shows : Shows table.scopes env)
    (finished : env.Finished) (denotes : Denotes env declared type) :
    resolveType table owner declared = .ok type := by
  induction denotes with
  | integer => rfl
  | boolean => rfl
  | real => rfl
  | char => rfl
  | struct binds =>
    rcases lookup_of_binds shows binds with ⟨entity, found, _, stands⟩
    rcases stands.2.2 with ⟨kind, same⟩
    rw [resolveType, found]
    simp only [kind, same, if_pos]
  | @array length elem type positive denotes bounded ih =>
    have notSmall : ¬ length <= 0 := by
      rw [Int64.le_iff_toInt_le, Int64.toInt_zero]
      omega
    have sized : Sized (.array length type) :=
      ⟨⟨positive, (denotes.sized finished).proper⟩, bounded⟩
    rw [resolveType, if_neg notSmall, ih]
    simp only [sized.fits, if_pos]

/-! ## Expressions -/

theorem bound_ok_iff {Part : Type} {bound : Bound Part} : bound.ok = true <-> bound.findings = [] :=
  List.isEmpty_iff

section Names

variable {table : Table} {context : Context} {name : String}

theorem resolveIdent_of_binds {out offset byRef} (mirrors : Mirrors table context)
    (binds : Binds context.env name out (.variable type offset byRef)) (note : Note) :
    resolveIdent table note name
      = { part := .ident (useNote note out type offset byRef) name, uses := [name] } := by
  rcases lookup_of_binds mirrors.shows binds
      with ⟨entity, found, distance, _, _, kind, sameType, frame, place, sameByRef⟩
  rw [resolveIdent, found]
  simp only [kind, if_pos, variableNote, useNote, distance, mirrors.frameLevel, frame, sameType,
    place, sameByRef, Nat.sub_self]

theorem binds_of_resolveIdent (mirrors : Mirrors table context)
    (clean : (resolveIdent table note name).findings = []) :
    exists out type offset byRef, Binds context.env name out (.variable type offset byRef) := by
  rw [resolveIdent] at clean
  split at clean
  · cases clean
  rename_i entity found
  split at clean
  · rename_i kind
    rcases binds_of_lookup mirrors.shows found with ⟨binding, binds, stands⟩
    rcases stands.of_variable kind with ⟨offset, meaning, _⟩
    exact ⟨_, _, _, _, meaning ▸ binds⟩
  · cases clean

theorem resolveCall_of_binds {out callee} (mirrors : Mirrors table context)
    (binds : Binds context.env name out (.function callee)) (clean : args.findings = [])
    (note : Note) (previous : Option Callee) :
    resolveCall table note name args previous
      = { part := .call (callNote note out callee.signature.result) name args.part (some callee),
          uses := args.uses ++ [name] } := by
  rcases lookup_of_binds mirrors.shows binds
      with ⟨entity, found, distance, _, _, kind, sameType, sameCallee⟩
  rw [resolveCall, calledFunction, found]
  simp only [kind, if_pos, bound_ok_iff.mpr clean, callNote, distance, sameType, sameCallee]

theorem binds_of_resolveCall {previous} (mirrors : Mirrors table context)
    (clean : (resolveCall table note name args previous).findings = []) :
    (exists out callee, Binds context.env name out (.function callee)) ∧ args.findings = [] := by
  rw [resolveCall, calledFunction] at clean
  split at clean
  · cases clean
  rename_i entity called
  split at called
  · cases called
  rename_i found
  split at called
  · rename_i kind
    cases called
    rcases binds_of_lookup mirrors.shows found with ⟨binding, binds, stands⟩
    rcases stands.of_function kind with ⟨callee, meaning, _⟩
    refine ⟨⟨_, callee, meaning ▸ binds⟩, ?_⟩
    split at clean
    · rename_i ok
      exact bound_ok_iff.mp ok
    · exact clean
  · cases called

end Names

section Expressions

variable {table : Table} {context : Context} (mirrors : Mirrors table context)

include mirrors

mutual

/-- A well-scoped expression is resolved without findings, to the tree that the
judgement gives. -/
theorem resolveExpr_of_scoped {node node'} : ScopedExpr context.env node node' ->
    (resolveExpr table node).findings = [] ∧ (resolveExpr table node).part = node'
  | .number => ⟨rfl, rfl⟩
  | .real => ⟨rfl, rfl⟩
  | .bool => ⟨rfl, rfl⟩
  | .char => ⟨rfl, rfl⟩
  | .ident binds => by
    rw [resolveExpr, resolveIdent_of_binds mirrors binds]
    exact ⟨rfl, rfl⟩
  | .member base => by
    rcases resolveExpr_of_scoped base with ⟨clean, part⟩
    rw [resolveExpr]
    exact ⟨clean, by rw [part]⟩
  | .subscript array index => by
    rcases resolveExpr_of_scoped array with ⟨arrayClean, arrayPart⟩
    rcases resolveExpr_of_scoped index with ⟨indexClean, indexPart⟩
    simp only [resolveExpr, arrayClean, indexClean, arrayPart, indexPart, List.append_nil,
      and_self]
  | .unary rule operand => by
    rcases resolveExpr_of_scoped operand with ⟨clean, part⟩
    simp only [resolveExpr, clean, part, unary_iff.mpr rule, Option.isSome_some, if_pos,
      List.append_nil,
      operatorNote, bound_ok_iff.mpr clean, typeNote, and_self]
  | .binary rule left right => by
    rcases resolveExpr_of_scoped left with ⟨leftClean, leftPart⟩
    rcases resolveExpr_of_scoped right with ⟨rightClean, rightPart⟩
    simp only [resolveExpr, leftClean, rightClean, leftPart, rightPart, binary_iff.mpr rule,
      Option.isSome_some, if_pos, List.append_nil, operatorNote, bound_ok_iff.mpr leftClean,
      bound_ok_iff.mpr rightClean, Bool.and_self, typeNote, and_self]
  | .call binds args => by
    rcases resolveExprs_of_scoped args with ⟨clean, part⟩
    rw [resolveExpr, resolveCall_of_binds mirrors binds clean]
    exact ⟨rfl, by rw [part]⟩

theorem resolveExprs_of_scoped {nodes nodes'} :
    ScopedExprs context.env nodes nodes' ->
    (resolveExprs table nodes).findings = [] ∧ (resolveExprs table nodes).part = nodes'
  | .nil => ⟨rfl, rfl⟩
  | .cons first rest => by
    rcases resolveExpr_of_scoped first with ⟨firstClean, firstPart⟩
    rcases resolveExprs_of_scoped rest with ⟨restClean, restPart⟩
    simp only [resolveExprs, firstClean, restClean, firstPart, restPart, List.append_nil,
      and_self]

end

mutual

/-- A whole expression that is resolved without findings is well scoped. -/
theorem scoped_of_resolveExpr {source node} : Written.Expr source node ->
    (resolveExpr table node).findings = [] -> exists node', ScopedExpr context.env node node'
  | .number _ _, _ => ⟨_, .number⟩
  | .real _, _ => ⟨_, .real⟩
  | .bool _, _ => ⟨_, .bool⟩
  | .char _, _ => ⟨_, .char⟩
  | .ident _, clean => by
    rw [resolveExpr] at clean
    rcases binds_of_resolveIdent mirrors clean with ⟨_, _, _, _, binds⟩
    exact ⟨_, .ident binds⟩
  | .member _ base, clean => by
    rw [resolveExpr] at clean
    rcases scoped_of_resolveExpr base clean with ⟨_, base⟩
    exact ⟨_, .member base⟩
  | .subscript _ array index, clean => by
    rw [resolveExpr] at clean
    rcases List.append_eq_nil_iff.mp clean with ⟨arrayClean, indexClean⟩
    rcases scoped_of_resolveExpr array arrayClean with ⟨_, array⟩
    rcases scoped_of_resolveExpr index indexClean with ⟨_, index⟩
    exact ⟨_, .subscript array index⟩
  | .unary _ _ operand, clean => by
    rw [resolveExpr] at clean
    rcases List.append_eq_nil_iff.mp clean with ⟨operandClean, known⟩
    rcases scoped_of_resolveExpr operand operandClean with ⟨_, operand⟩
    split at known
    · rename_i isSome
      rcases Option.isSome_iff_exists.mp isSome with ⟨_, known⟩
      exact ⟨_, .unary (unary_iff.mp known) operand⟩
    · cases known
  | .binary _ _ left right, clean => by
    rw [resolveExpr] at clean
    rcases List.append_eq_nil_iff.mp clean with ⟨operandsClean, known⟩
    rcases List.append_eq_nil_iff.mp operandsClean with ⟨leftClean, rightClean⟩
    rcases scoped_of_resolveExpr left leftClean with ⟨_, left⟩
    rcases scoped_of_resolveExpr right rightClean with ⟨_, right⟩
    split at known
    · rename_i isSome
      rcases Option.isSome_iff_exists.mp isSome with ⟨_, known⟩
      exact ⟨_, .binary (binary_iff.mp known) left right⟩
    · cases known
  | .call _ args, clean => by
    rw [resolveExpr] at clean
    rcases binds_of_resolveCall mirrors clean with ⟨⟨_, _, binds⟩, argsClean⟩
    rcases scoped_of_resolveExprs args argsClean with ⟨_, args⟩
    exact ⟨_, .call binds args⟩

theorem scoped_of_resolveExprs {source nodes} : Written.Exprs source nodes ->
    (resolveExprs table nodes).findings = [] -> exists nodes', ScopedExprs context.env nodes nodes'
  | .nil, _ => ⟨_, .nil⟩
  | .cons first rest, clean => by
    rw [resolveExprs] at clean
    rcases List.append_eq_nil_iff.mp clean with ⟨firstClean, restClean⟩
    rcases scoped_of_resolveExpr first firstClean with ⟨_, first⟩
    rcases scoped_of_resolveExprs rest restClean with ⟨_, rest⟩
    exact ⟨_, .cons first rest⟩

end

end Expressions

/-! ## Statements -/

/-- An outcome follows a judgement: it is in order, its tree is that of the
judgement, its table mirrors the context behind, and the same scopes are open. -/
structure Follows {Part : Type} (table : Table) (outcome : Outcome Part) (part : Part)
    (behind : Context) : Prop where
  ok : outcome.ok = true
  part : outcome.part = part
  mirrors : Mirrors outcome.table behind
  owned : owners outcome.table.scopes = owners table.scopes

section Declarations

variable {table : Table} {context : Context} {name : String} {declared : Ty} {init : Bound Node}

theorem resolveVarDecl_of_scoped (config : Config) (below : Bool) (note : Note)
    (mirrors : Mirrors table context) (finished : context.env.Finished) (clean : init.findings = [])
    (denotes : Denotes context.env declared type) (free : context.inner.lookup name = none)
    (bounded : (context.declare name type false).used <= Ty.cellLimit) :
    Follows table (resolveVarDecl config table below note name declared init)
      (.varDecl (placeNote (typeNote note type) context.used false) name declared init.part)
      (context.declare name type false) := by
  have used := mirrors.useAll init.uses
  rcases used.insertVariable (denotes.sized finished) free false
      (some { span := note.span, belowFunction := below })
      with ⟨entity, inserted, added, place, owned, fits, mirrored⟩
  rw [resolveVarDecl, resolveType_of_denotes none used.shows finished denotes]
  dsimp only
  rw [added]
  dsimp only
  exact {
    ok := by rw [fits.mpr bounded, bound_ok_iff.mpr clean]; rfl
    part := by rw [place]; rfl
    mirrors := mirrored bounded
    owned := owned.trans (owners_useAll table init.uses) }

theorem scoped_of_resolveVarDecl {config below} (mirrors : Mirrors table context)
    (finished : context.env.Finished) (written : Written.Declared declared)
    (ok : (resolveVarDecl config table below note name declared init).ok = true) :
    init.findings = [] ∧ exists type, Denotes context.env declared type
      ∧ context.inner.lookup name = none
      ∧ (context.declare name type false).used <= Ty.cellLimit := by
  have used := mirrors.useAll init.uses
  rw [resolveVarDecl] at ok
  dsimp only at ok
  split at ok
  · cases ok
  rename_i type resolved
  have denotes := denotes_of_resolveType used.shows written resolved
  cases bound : context.inner.lookup name with
  | some binding =>
    rcases used.insertVariable_of_bound bound type false
      (some { span := note.span, belowFunction := below }) with ⟨existing, taken⟩
    rw [taken] at ok
    cases ok
  | none =>
    rcases used.insertVariable (denotes.sized finished)
      bound false (some { span := note.span, belowFunction := below })
        with ⟨entity, inserted, added, _, _, fits, _⟩
    rw [added] at ok
    rcases Bool.and_eq_true_iff.mp ok with ⟨inFrame, clean⟩
    exact ⟨bound_ok_iff.mp clean, type, denotes, rfl, fits.mp inFrame⟩

end Declarations

mutual

/-- A well-scoped statement is resolved, as long as the frame stays within its
limit. -/
theorem resolveStmt_of_scoped (config : Config) (below : Bool) {table context behind node node'} :
    ScopedStmt context node node' behind ->
    Mirrors table context -> context.env.Finished -> behind.used <= Ty.cellLimit ->
    Follows table (resolveStmt config table below node) node' behind
  | .block stmts, mirrors, finished, bounded => by
    have inner := resolveStmts_of_scoped config stmts mirrors.openBlock
      (Context.enter_finished finished) bounded
    rcases inner.mirrors.leave inner.owned stmts.grows.outer_eq config with ⟨left, owned⟩
    rw [resolveStmt]
    exact ⟨inner.ok, by rw [inner.part], left, owned⟩
  | .varDecl denotes free, mirrors, finished, bounded => by
    rw [resolveStmt]
    exact resolveVarDecl_of_scoped config below _ mirrors finished rfl denotes free bounded
  | .varDeclInit init denotes free, mirrors, finished, bounded => by
    rcases resolveExpr_of_scoped mirrors init with ⟨clean, part⟩
    rw [resolveStmt, ← part]
    exact resolveVarDecl_of_scoped config below _ mirrors finished clean denotes free bounded
  | .assign target value, mirrors, _, _ => by
    rcases resolveExpr_of_scoped mirrors target with ⟨targetClean, targetPart⟩
    rcases resolveExpr_of_scoped mirrors value with ⟨valueClean, valuePart⟩
    rw [resolveStmt]
    exact {
      ok := by rw [bound_ok_iff.mpr targetClean, bound_ok_iff.mpr valueClean]; rfl
      part := by rw [targetPart, valuePart]
      mirrors := mirrors.useAll _
      owned := owners_useAll table _ }
  | .branch test thenBody, mirrors, finished, bounded => by
    rcases resolveExpr_of_scoped mirrors test with ⟨clean, part⟩
    have first (uses : List String) := resolveStmt_of_scoped config false thenBody
      (mirrors.useAll uses) finished bounded
    rw [resolveStmt, resolveStmt]
    exact {
      ok := by rw [bound_ok_iff.mpr clean, (first _).ok]; rfl
      part := by rw [part, (first _).part]
      mirrors := (first _).mirrors
      owned := (first _).owned.trans (owners_useAll table _) }
  | .branchElse test thenBody elseBody, mirrors, finished, bounded => by
    rcases resolveExpr_of_scoped mirrors test with ⟨clean, part⟩
    have finishedBetween := thenBody.grows.finished finished
    have first (uses : List String) := resolveStmt_of_scoped config false thenBody
      (mirrors.useAll uses) finished (Int.le_trans (elseBody.grows.used_le finishedBetween) bounded)
    have second (uses : List String) := resolveStmt_of_scoped config false elseBody
      (first uses).mirrors finishedBetween bounded
    rw [resolveStmt]
    exact {
      ok := by rw [bound_ok_iff.mpr clean, (first _).ok, (second _).ok]; rfl
      part := by rw [part, (first _).part, (second _).part]
      mirrors := (second _).mirrors
      owned := ((second _).owned.trans (first _).owned).trans (owners_useAll table _) }
  | .loop test body, mirrors, finished, bounded => by
    rcases resolveExpr_of_scoped mirrors test with ⟨clean, part⟩
    have inner (uses : List String) := resolveStmt_of_scoped config false body
      (mirrors.useAll uses) finished bounded
    rw [resolveStmt]
    exact {
      ok := by rw [bound_ok_iff.mpr clean, (inner _).ok]; rfl
      part := by rw [part, (inner _).part]
      mirrors := (inner _).mirrors
      owned := (inner _).owned.trans (owners_useAll table _) }
  | .ret, mirrors, _, _ => by
    rw [resolveStmt, resolveExpr]
    exact ⟨rfl, rfl, mirrors, rfl⟩
  | .retValue value, mirrors, _, _ => by
    rcases resolveExpr_of_scoped mirrors value with ⟨clean, part⟩
    rw [resolveStmt]
    exact ⟨bound_ok_iff.mpr clean, by rw [part], mirrors.useAll _, owners_useAll table _⟩

theorem resolveStmts_of_scoped (config : Config) {table context behind nodes nodes'} :
    ScopedStmts context nodes nodes' behind ->
    Mirrors table context -> context.env.Finished -> behind.used <= Ty.cellLimit ->
    Follows table (resolveStmts config table nodes) nodes' behind
  | .nil, mirrors, _, _ => ⟨rfl, rfl, mirrors, rfl⟩
  | .cons first rest, mirrors, finished, bounded => by
    have finishedBetween := first.grows.finished finished
    have first := resolveStmt_of_scoped config false first mirrors finished
      (Int.le_trans (rest.grows.used_le finishedBetween) bounded)
    have rest := resolveStmts_of_scoped config rest first.mirrors finishedBetween bounded
    rw [resolveStmts]
    exact {
      ok := by rw [first.ok, rest.ok]; rfl
      part := by rw [first.part, rest.part]
      mirrors := rest.mirrors
      owned := rest.owned.trans first.owned }

end

mutual

/-- A whole statement that is resolved is well scoped, and the frame stays within
its limit. -/
theorem scoped_of_resolveStmt {source config table below context node} :
    Written.Stmt source node -> Mirrors table context ->
    context.env.Finished -> (resolveStmt config table below node).ok = true ->
    exists node' behind, ScopedStmt context node node' behind ∧ behind.used <= Ty.cellLimit
  | .block _ stmts, mirrors, finished, ok => by
    rw [resolveStmt] at ok
    rcases scoped_of_resolveStmts stmts mirrors.openBlock
      (Context.enter_finished finished) ok with ⟨_, inside, stmts, bounded⟩
    exact ⟨_, context.resume inside, .block stmts, bounded⟩
  | .varDecl _ _ written, mirrors, finished, ok => by
    rw [resolveStmt] at ok
    rcases scoped_of_resolveVarDecl mirrors finished written ok
        with ⟨_, _, denotes, free, bounded⟩
    exact ⟨_, _, .varDecl denotes free, bounded⟩
  | .varDeclInit _ _ written init, mirrors, finished, ok => by
    rw [resolveStmt] at ok
    rcases scoped_of_resolveVarDecl mirrors finished written ok
        with ⟨clean, _, denotes, free, bounded⟩
    rcases scoped_of_resolveExpr mirrors init clean with ⟨_, init⟩
    exact ⟨_, _, .varDeclInit init denotes free, bounded⟩
  | .assign _ target value, mirrors, _, ok => by
    rw [resolveStmt] at ok
    rcases Bool.and_eq_true_iff.mp ok with ⟨targetOk, valueOk⟩
    rcases scoped_of_resolveExpr mirrors target (bound_ok_iff.mp targetOk) with ⟨_, target⟩
    rcases scoped_of_resolveExpr mirrors value (bound_ok_iff.mp valueOk) with ⟨_, value⟩
    exact ⟨_, context, .assign target value, mirrors.high⟩
  | .branch _ test thenBody, mirrors, finished, ok => by
    rw [resolveStmt] at ok
    rcases Bool.and_eq_true_iff.mp ok with ⟨ok, _⟩
    rcases Bool.and_eq_true_iff.mp ok with ⟨testOk, thenOk⟩
    rcases scoped_of_resolveExpr mirrors test (bound_ok_iff.mp testOk) with ⟨_, test⟩
    rcases scoped_of_resolveStmt thenBody (mirrors.useAll _) finished thenOk
        with ⟨_, behind, thenBody, bounded⟩
    exact ⟨_, behind, .branch test thenBody, bounded⟩
  | .branchElse _ test thenBody elseBody, mirrors, finished, ok => by
    rw [resolveStmt] at ok
    rcases Bool.and_eq_true_iff.mp ok with ⟨ok, elseOk⟩
    rcases Bool.and_eq_true_iff.mp ok with ⟨testOk, thenOk⟩
    rcases scoped_of_resolveExpr mirrors test (bound_ok_iff.mp testOk) with ⟨_, test⟩
    rcases scoped_of_resolveStmt thenBody (mirrors.useAll _) finished thenOk
        with ⟨_, between, thenBody, boundedBetween⟩
    have first (uses : List String) := resolveStmt_of_scoped config false thenBody
      (mirrors.useAll uses) finished boundedBetween
    have finishedBetween := thenBody.grows.finished finished
    rcases scoped_of_resolveStmt elseBody (first _).mirrors finishedBetween elseOk
        with ⟨_, behind, elseBody, bounded⟩
    exact ⟨_, behind, .branchElse test thenBody elseBody, bounded⟩
  | .loop _ test body, mirrors, finished, ok => by
    rw [resolveStmt] at ok
    rcases Bool.and_eq_true_iff.mp ok with ⟨testOk, bodyOk⟩
    rcases scoped_of_resolveExpr mirrors test (bound_ok_iff.mp testOk) with ⟨_, test⟩
    rcases scoped_of_resolveStmt body (mirrors.useAll _) finished bodyOk
        with ⟨_, behind, body, bounded⟩
    exact ⟨_, behind, .loop test body, bounded⟩
  | .ret _, mirrors, _, _ => ⟨_, context, .ret, mirrors.high⟩
  | .retValue _ value, mirrors, _, ok => by
    rw [resolveStmt] at ok
    rcases scoped_of_resolveExpr mirrors value (bound_ok_iff.mp ok) with ⟨_, value⟩
    exact ⟨_, context, .retValue value, mirrors.high⟩

theorem scoped_of_resolveStmts {source config table context nodes} :
    Written.Stmts source nodes -> Mirrors table context ->
    context.env.Finished -> (resolveStmts config table nodes).ok = true ->
    exists nodes' behind, ScopedStmts context nodes nodes' behind ∧ behind.used <= Ty.cellLimit
  | .nil, mirrors, _, _ => ⟨[], context, .nil, mirrors.high⟩
  | .cons first rest, mirrors, finished, ok => by
    rw [resolveStmts] at ok
    rcases Bool.and_eq_true_iff.mp ok with ⟨firstOk, restOk⟩
    rcases scoped_of_resolveStmt first mirrors finished firstOk
        with ⟨_, between, first, boundedBetween⟩
    have resolved := resolveStmt_of_scoped config false first mirrors finished boundedBetween
    rcases scoped_of_resolveStmts rest resolved.mirrors (first.grows.finished finished) restOk
        with ⟨_, behind, rest, bounded⟩
    exact ⟨_, behind, .cons first rest, bounded⟩

end

end Resolution
end PCode
