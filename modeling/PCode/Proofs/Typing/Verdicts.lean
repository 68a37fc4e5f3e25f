import PCode.Proofs.Typing.Programs

namespace PCode
namespace Typing

open Diagnostics Static

/-!
The verdict of the check and its errors.

The check reports one error for each premise of the typing rules that is violated, in the order of
the premises.  All findings are errors, apart from the warnings about functions without a return.
-/

variable {node target value : Node} {premises : List Premise} {context : Context}
  {around : Option Around} {source : Int64} {program resolved checked : Program} {config : Config}
  {judgement : Judgement}

theorem Clear.ok_iff {ok findings} (clear : Clear premises ok (errors findings)) :
    ok = true <-> hasErrors findings = false := by
  rw [clear.ok_eq, List.isEmpty_iff, errors, List.filter_eq_nil_iff, hasErrors,
    List.any_eq_false]

/-- A resolved program passes exactly if there is no error, and there is one for each premise that
is violated. -/
theorem clear_check (whole : Written.Whole source program) (judged : ScopedProgram program resolved)
    (answered : resolved.check config = (checked, .ok judgement)) :
    exists premises, ProgramPremises .staged program premises
      ∧ Clear premises judgement.ok (errors judgement.diagnostics) := by
  rcases typed_of_check config whole judged with ⟨_, _, again, _, asked⟩
  rw [answered] at again
  cases again
  exact asked

/-- A resolved program passes exactly if no error is reported. -/
theorem check_ok_iff
    (whole : Written.Whole source program) (judged : ScopedProgram program resolved)
    (answered : resolved.check config = (checked, .ok judgement)) :
    judgement.ok = true <-> hasErrors judgement.diagnostics = false := by
  rcases clear_check whole judged answered with ⟨_, _, clear⟩
  exact clear.ok_iff

/-- The errors of the check are exactly those for the premises of the program that are violated, in
their order. -/
theorem check_reports_violations {bytes : List UInt8} {diagnostics : List Diagnostic}
    (decoded : Program.decode bytes source = .ok program)
    (accepted : program.resolve config = (resolved, .ok ⟨true, diagnostics⟩)) (config' : Config) :
    exists checked judgement premises, resolved.check config' = (checked, .ok judgement)
      ∧ ProgramPremises .staged program premises
      ∧ Violations premises (errors judgement.diagnostics) := by
  have whole := Written.whole_of_decode decoded
  have judged := (Resolution.resolve_iff_scoped config whole resolved).mp ⟨diagnostics, accepted⟩
  rcases typed_of_check config' whole judged with ⟨checked, judgement, answered, _⟩
  rcases clear_check whole judged answered with ⟨premises, asked, clear⟩
  exact ⟨checked, judgement, premises, answered, asked, clear.violations⟩

/-- A document that assigns a truth value to a number.  The number is no place, and the types of the
two sides differ. -/
def misplacedText : List UInt8 :=
  List.flatMap (fun line => line.toUTF8.data.toList)
    ["\x7b\"blocks\":[\x7b\"kind\":\"block\",\"stmts\":[\x7b\"kind\":\"assign\",",
     "\"lhs\":\x7b\"kind\":\"int\",\"value\":1\x7d,",
     "\"rhs\":\x7b\"kind\":\"bool\",\"value\":true\x7d\x7d]\x7d]\x7d"]

/-- The program of that document. -/
def misplaced : Program := (Program.decode misplacedText 0).toOption.getD default

theorem decode_misplacedText : Program.decode misplacedText 0 = .ok misplaced :=
  Written.eq_ok_of_isSome (by decide +kernel)

/-- Whether the blocks are a single one that assigns a truth value to a number. -/
def assignsTruth : List Node -> Bool
  | [.block _ [.assign _ (.number _ _) (.bool _ _)]] => true
  | _ => false

theorem blocks_misplaced : exists around note targetNote target valueNote value,
    misplaced.blocks
      = [.block around [.assign note (.number targetNote target) (.bool valueNote value)]] := by
  have shape : assignsTruth misplaced.blocks = true := by decide +kernel
  unfold assignsTruth at shape
  split at shape
  · rename_i blocks
    exact ⟨_, _, _, _, _, _, blocks⟩
  · cases shape

theorem resolve_misplaced : exists diagnostics, misplaced.resolve {}
    = ((misplaced.resolve {}).1, .ok ⟨true, diagnostics⟩) :=
  Results.accepted_of_ok (by decide +kernel)

/-- The target is reported: it is no place. -/
theorem errors_misplaced :
    ((misplaced.resolve {}).1.check {}).2.toOption.map (errors ·.diagnostics)
      = some [(TypeIssue.notAssignable .number).foundAt {}] := by
  decide +kernel

/-- The only premise that is found violated there, each being asked only if those before it hold. -/
theorem check_reports_violations_misplaced : exists diagnostics,
    misplaced.resolve {} = ((misplaced.resolve {}).1, .ok ⟨true, diagnostics⟩)
      ∧ exists premises, ProgramPremises .staged misplaced premises
        ∧ Violations premises [(TypeIssue.notAssignable .number).foundAt {}] := by
  rcases resolve_misplaced with ⟨diagnostics, accepted⟩
  rcases check_reports_violations decode_misplacedText accepted {}
    with ⟨_, _, premises, answered, asked, violations⟩
  have found := errors_misplaced
  rw [answered] at found
  exact ⟨diagnostics, accepted, premises, asked, Option.some.inj found ▸ violations⟩

/-- If each premise is asked by itself, the types of the two sides are one of an assignment. -/
theorem stored_mem_of_assign {behind note}
    (asked : StmtPremises .each around context (.assign note target value) premises behind) :
    .stored context.env .assignment note.span
      (fun wanted => Types context.env target wanted ∧ (Asking.each = .staged -> IsPlace target))
      value ∈ premises := by
  cases asked with
  | assign _ _ => simp [storePremises]

/-- It does not report that the types differ as well. -/
theorem misplaced_not_each : exists found,
    ((misplaced.resolve {}).1.check {}).2.toOption.map (errors ·.diagnostics) = some found
      ∧ ¬ exists premises, ProgramPremises .each misplaced premises ∧ Violations premises found := by
  refine ⟨_, errors_misplaced, ?_⟩
  rintro ⟨premises, asked, violations⟩
  rcases blocks_misplaced with ⟨_, _, _, _, _, _, blocks⟩
  rcases asked with ⟨_, _, _, top⟩
  rw [blocks] at top
  rcases top with _ | ⟨⟨stmts⟩, _⟩
  rcases stmts with _ | ⟨assign, _⟩
  have asked := stored_mem_of_assign assign
  rcases violations.reports
      (List.mem_append_right _ (List.mem_append_left _ (List.mem_append_left _ asked)))
      ⟨.integer, ⟨⟨_, .number⟩, nofun⟩, .boolean, ⟨_, .bool⟩, nofun, rfl, rfl⟩
    with ⟨_, _, ⟨_, ⟨⟨_, target⟩, _⟩, _, ⟨_, value⟩, _, issue, _⟩, reported⟩
  cases target
  cases value
  cases issue
  cases congrArg Diagnostic.verdict (List.mem_singleton.mp reported)

end Typing
end PCode
