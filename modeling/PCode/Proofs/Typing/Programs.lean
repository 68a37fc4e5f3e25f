import PCode.Proofs.Resolution.Programs
import PCode.Proofs.Typing.Answers

namespace PCode
namespace Typing

open Diagnostics Static
open Resolution (Signed signed_of_scoped signatures_finished formals_grows)

/-!
Programs: checking against the typing judgement.

Functions and blocks are checked one after another, and none of them depends on
what the check says about another one.  The statements for single bodies
therefore carry over to programs.
-/

section Frames

variable {source : Int64} {env : Env} {node node' : Node}

theorem checkFunction_of_typed (config : Config) (finished : env.Finished)
    (signed : Signed source node) (typed : TypedFunction env node node') :
    exists resolved, ScopedFunction env node resolved
      ∧ exists findings,
          checkFunction config resolved = .ok { part := node', ok := true, findings } := by
  cases typed with
  | @funcDecl formals behind note bodyNote name _ _ _ _ _ signature entry params scalar stmts
    bounded =>
    rcases signed with ⟨typedParams, _⟩
    have finishedInside :=
      (formals_grows params typedParams).finished (Context.start_finished finished)
    rcases checkStmts_of_typed
      (some { name, result := signature.result }) stmts (Context.enter_finished finishedInside)
        with ⟨resolved, judged, passed⟩
    refine ⟨_, .funcDecl params judged bounded, ?_⟩
    simp only [checkFunction, scalar, Bool.false_eq_true, if_false, checkStmt, passed,
      Results.ok_bind, List.isEmpty_nil, Bool.and_self]
    exact ⟨_, rfl⟩

theorem hasErrors_returnWarning (config : Config) (name : String) (span : Span) (body : Node) :
    hasErrors (returnWarning config name span body) = false := by
  unfold returnWarning
  split
  · rfl
  · exact hasErrors_warn _ _ _ _

theorem answers_checkFunction (config : Config) (finished : env.Finished)
    (signed : Signed source node) {resolved} (judged : ScopedFunction env node resolved) :
    exists verified, checkFunction config resolved = .ok verified
      ∧ (verified.ok = true -> TypedFunction env node verified.part)
      ∧ exists premises, FunctionPremises .staged env node premises
        ∧ Clear premises verified.ok (errors verified.findings) := by
  cases judged with
  | @funcDecl formals behind note bodyNote name _ _ _ _ _ _ entry params stmts bounded =>
    cases signed with
    | @funcDecl _ _ _ _ _ _ signature _ typedParams _ =>
      have finishedInside :=
        (formals_grows params typedParams).finished (Context.start_finished finished)
      rcases answers_checkStmts (some { name, result := signature.result }) stmts
        (Context.enter_finished finishedInside) with ⟨inner, passed, typed, _, asked, clear⟩
      simp only [checkFunction, checkStmt, passed, Results.ok_bind]
      refine ⟨_, rfl, ?_, _, .funcDecl params asked, ?_⟩
      · intro ok
        rcases Bool.and_eq_true_iff.mp ok with ⟨noFinding, bodyOk⟩
        have scalar : signature.result.isComposite = false := by
          cases composite : signature.result.isComposite with
          | false => rfl
          | true =>
            rw [composite] at noFinding
            cases noFinding
        exact .funcDecl params scalar (typed bodyOk) bounded
      · have scalar : Violations [.plain (signature.result.isComposite = false)
              (.compositeResult name signature.result) note.span]
            (if signature.result.isComposite then
              [(TypeIssue.compositeResult name signature.result).foundAt note.span]
            else []) := by
          split
          · rename_i composite
            exact .plain_violated (by rw [composite]; decide)
          · rename_i scalar
            exact .plain_kept (Bool.eq_false_iff.mpr scalar)
        have both := Clear.and ⟨scalar, rfl⟩ clear
        rw [errors_append, errors_eq_nil (hasErrors_returnWarning _ _ _ _), List.append_nil]
        exact both.as_errors

theorem checkTop_of_typed (finished : env.Finished) (typed : TypedTop env node node') :
    exists resolved, ScopedTop env node resolved
      ∧ exists findings, checkStmt none resolved = .ok { part := node', ok := true, findings } := by
  cases typed with
  | block stmts bounded =>
    rcases checkStmts_of_typed none stmts (Context.start_finished finished)
        with ⟨resolved, judged, passed⟩
    refine ⟨_, .block judged bounded, ?_⟩
    rw [checkStmt, passed]
    exact ⟨_, rfl⟩

theorem answers_checkTop (finished : env.Finished) {resolved}
    (judged : ScopedTop env node resolved) :
    exists verified, checkStmt none resolved = .ok verified
      ∧ (verified.ok = true -> TypedTop env node verified.part)
      ∧ exists premises, TopPremises .staged env node premises
        ∧ Clear premises verified.ok (errors verified.findings) := by
  cases judged with
  | block stmts bounded =>
    rcases answers_checkStmts none stmts (Context.start_finished finished)
      with ⟨inner, passed, typed, _, asked, clear⟩
    rw [checkStmt, passed]
    exact ⟨_, rfl, fun ok => .block (typed ok) bounded, _, .block asked, clear.as_errors⟩

end Frames

/-! ## Lists of parts -/

section Parts

variable {check : Node -> Checked (Verified Node)} {Part : Node -> Prop}
  {Scoped Typed : Node -> Node -> Prop} {nodes : List Node}

theorem checkEach_of_typed (each : forall node node', Part node -> Typed node node' ->
      exists resolved, Scoped node resolved
        ∧ exists findings, check resolved = .ok { part := node', ok := true, findings })
    (parts : forall node, node ∈ nodes -> Part node) {nodes'}
    (typed : List.Forall₂ Typed nodes nodes') :
    exists resolved, List.Forall₂ Scoped nodes resolved
      ∧ exists findings,
          checkEach check resolved = .ok { part := nodes', ok := true, findings } := by
  induction typed with
  | nil => exact ⟨[], .nil, [], rfl⟩
  | cons here _ ih =>
    rcases each _ _ (parts _ List.mem_cons_self) here with ⟨first, judged, findings, passed⟩
    rcases ih (List.forall_mem_cons.mp parts).2
        with ⟨rest, judgedRest, findingsRest, passedRest⟩
    refine ⟨first :: rest, .cons judged judgedRest, findings ++ findingsRest, ?_⟩
    rw [checkEach, passed, passedRest]
    rfl

theorem answers_checkEach {Asks : Node -> List Premise -> Prop}
    (each : forall node resolved, Part node -> Scoped node resolved ->
      exists verified, check resolved = .ok verified
        ∧ (verified.ok = true -> Typed node verified.part)
        ∧ exists premises, Asks node premises
          ∧ Clear premises verified.ok (errors verified.findings))
    (parts : forall node, node ∈ nodes -> Part node) {resolved}
    (judged : List.Forall₂ Scoped nodes resolved) :
    exists verified, checkEach check resolved = .ok verified
      ∧ (verified.ok = true -> List.Forall₂ Typed nodes verified.part)
      ∧ exists premises, List.Forall₂ Asks nodes premises
        ∧ Clear premises.flatten verified.ok (errors verified.findings) := by
  induction judged with
  | nil => exact ⟨_, rfl, fun _ => .nil, [], .nil, .passes⟩
  | cons here _ ih =>
    rcases List.forall_mem_cons.mp parts with ⟨part, parts⟩
    rcases each _ _ part here with ⟨_, passed, typed, _, asked, clear⟩
    rcases ih parts with ⟨_, passedRest, typedRest, _, askedRest, clearRest⟩
    rw [checkEach, passed, passedRest]
    refine ⟨_, rfl, ?_, _, .cons asked askedRest, ?_⟩
    · intro ok
      rcases Bool.and_eq_true_iff.mp ok with ⟨firstOk, restOk⟩
      exact .cons (typed firstOk) (typedRest restOk)
    · rw [errors_append]
      exact clear.and clearRest

end Parts

/-! ## Whole programs -/

section Whole

variable {source : Int64} {program : Program}

theorem check_of_typed (config : Config) (whole : Written.Whole source program) {checked}
    (typed : TypedProgram program checked) :
    exists resolved, ScopedProgram program resolved
      ∧ exists findings, resolved.check config = (checked, .ok ⟨true, findings⟩) := by
  cases typed with
  | intro structs signatures typedFunctions nonempty typedBlocks =>
    have finishedStructs := signatures_finished structs
    have finished := signatures.finished finishedStructs
    rcases checkEach_of_typed
      (fun _ _ signed typed => checkFunction_of_typed config finished signed typed)
      (signed_of_scoped signatures finishedStructs whole.functions) typedFunctions
        with ⟨functions, judgedFunctions, findings, passedFunctions⟩
    rcases checkEach_of_typed
      (fun _ _ _ typed => checkTop_of_typed finished typed) whole.blocks typedBlocks
        with ⟨blocks, judgedBlocks, findingsBlocks, passedBlocks⟩
    refine ⟨_, .intro structs signatures judgedFunctions nonempty judgedBlocks,
      findings ++ findingsBlocks, ?_⟩
    rw [Program.check, if_pos (show Phase.resolved.reaches .resolved = true by decide), run,
      passedFunctions, passedBlocks]
    rfl

/-- The check of a resolved program gives an answer.  A program that passes is well typed, and
there is an error for each premise that is violated. -/
theorem typed_of_check (config : Config) (whole : Written.Whole source program) {resolved}
    (judged : ScopedProgram program resolved) :
    exists checked judgement, resolved.check config = (checked, .ok judgement)
      ∧ (judgement.ok = true -> TypedProgram program checked)
      ∧ exists premises, ProgramPremises .staged program premises
        ∧ Clear premises judgement.ok (errors judgement.diagnostics) := by
  cases judged with
  | intro structs signatures judgedFunctions nonempty judgedBlocks =>
    have finishedStructs := signatures_finished structs
    have finished := signatures.finished finishedStructs
    rcases answers_checkEach
      (fun _ _ signed judged => answers_checkFunction config finished signed judged)
      (signed_of_scoped signatures finishedStructs whole.functions) judgedFunctions
        with ⟨functions, passedFunctions, typedFunctions, _, askedFunctions, clearFunctions⟩
    rcases answers_checkEach
      (fun _ _ _ judged => answers_checkTop finished judged) whole.blocks judgedBlocks
        with ⟨blocks, passedBlocks, typedBlocks, _, askedBlocks, clearBlocks⟩
    rw [Program.check, if_pos (show Phase.resolved.reaches .resolved = true by decide), run,
      passedFunctions, passedBlocks]
    refine ⟨_, _, rfl, ?_, _, .intro structs signatures askedFunctions askedBlocks, ?_⟩
    · intro ok
      rcases Bool.and_eq_true_iff.mp ok with ⟨functionsOk, blocksOk⟩
      have typed := TypedProgram.intro structs signatures (typedFunctions functionsOk) nonempty
        (typedBlocks blocksOk)
      dsimp only at ok
      rw [ok]
      exact typed
    · rw [errors_append]
      exact clearFunctions.and clearBlocks

theorem check_iff_typed (config : Config) (whole : Written.Whole source program) {resolved}
    (judged : ScopedProgram program resolved) (checked : Program) :
    (exists findings, resolved.check config = (checked, .ok ⟨true, findings⟩))
      <-> TypedProgram program checked := by
  constructor
  · rintro ⟨findings, accepted⟩
    rcases typed_of_check config whole judged with ⟨_, judgement, answered, typed, _⟩
    rw [accepted] at answered
    cases answered
    exact typed rfl
  · intro typed
    rcases check_of_typed config whole typed with ⟨_, judgedAgain, accepted⟩
    cases Resolution.scoped_unique whole judged judgedAgain
    exact accepted

end Whole

/-- The check accepts exactly the well-typed programs, and the types and field
offsets that it notes are those of the typing judgement. -/
theorem check_accepts_wellTyped {bytes : List UInt8} {source : Int64} {program resolved : Program}
    {config : Config} {diagnostics : List Diagnostic}
    (decoded : Program.decode bytes source = .ok program)
    (accepted : program.resolve config = (resolved, .ok ⟨true, diagnostics⟩)) (config' : Config) :
    (exists judgement, (resolved.check config').2 = .ok judgement)
      ∧ forall checked,
          (exists findings, resolved.check config' = (checked, .ok ⟨true, findings⟩))
            <-> TypedProgram program checked := by
  have whole := Written.whole_of_decode decoded
  have judged := (Resolution.resolve_iff_scoped config whole resolved).mp ⟨diagnostics, accepted⟩
  rcases typed_of_check config' whole judged with ⟨_, judgement, answered, _⟩
  exact ⟨⟨judgement, congrArg Prod.snd answered⟩, check_iff_typed config' whole judged⟩

/-- The small document passes the check. -/
theorem check_sample : exists findings, (Written.sample.resolve {}).1.check {}
    = (((Written.sample.resolve {}).1.check {}).1, .ok ⟨true, findings⟩) :=
  Results.accepted_of_ok (by decide +kernel)

/-- The document with an array of structures passes the check. -/
theorem check_grid : exists findings, (Written.grid.resolve {}).1.check {}
    = (((Written.grid.resolve {}).1.check {}).1, .ok ⟨true, findings⟩) :=
  Results.accepted_of_ok (by decide +kernel)

/-- The program of the small document is well typed. -/
theorem check_accepts_wellTyped_sample :
    (exists diagnostics,
        Written.sample.resolve {} = ((Written.sample.resolve {}).1, .ok ⟨true, diagnostics⟩))
      ∧ TypedProgram Written.sample ((Written.sample.resolve {}).1.check {}).1 := by
  rcases Resolution.resolve_sample with ⟨diagnostics, resolved⟩
  rcases check_accepts_wellTyped Written.decode_sampleText resolved {} with ⟨_, exactly⟩
  exact ⟨⟨diagnostics, resolved⟩, (exactly _).mp check_sample⟩

end Typing
end PCode
