import PCode.Compilation
import PCode.Proofs.Lowering.Programs
import PCode.Proofs.Resolution.Verdicts
import PCode.Proofs.Typing.Verdicts

namespace PCode

open Diagnostics

/-!
Compilations of decoded programs.

A compilation takes one of three courses: resolution refuses the program, or the check does, or
there is code.  Lowering refuses nothing that has passed the check.  So there is code exactly if
neither of the other phases reports an error, and if there is none, the reason is the report of the
phase that failed.
-/

namespace Diagnostics

theorem mem_categories {diagnostics category} :
    category ∈ categories diagnostics
      <-> exists diagnostic, diagnostic ∈ diagnostics ∧ diagnostic.verdict = .error category := by
  simp only [categories, errors, List.mem_filterMap, List.mem_filter, Diagnostic.isError,
    Diagnostic.category?]
  constructor
  · rintro ⟨diagnostic, ⟨member, isError⟩, named⟩
    refine ⟨diagnostic, member, ?_⟩
    split at isError
    · rename_i verdict
      rw [verdict] at named
      cases named
      exact verdict
    · cases isError
  · rintro ⟨diagnostic, member, verdict⟩
    exact ⟨diagnostic, ⟨member, by rw [verdict]⟩, by rw [verdict]⟩

end Diagnostics

namespace Compilation

/-- What the phase that ends a compilation has reported. -/
inductive FailsWith (program : Program) (config : Config) : List Diagnostic -> Prop
  | resolution {judgement} :
    (program.resolve config).2 = .ok judgement -> judgement.ok = false ->
    FailsWith program config judgement.diagnostics
  | typing {resolved diagnostics judgement} :
    program.resolve config = (resolved, .ok ⟨true, diagnostics⟩) ->
    (resolved.check config).2 = .ok judgement -> judgement.ok = false ->
    FailsWith program config judgement.diagnostics

/-- The course of a compilation: the program behind it, and what it gives. -/
inductive Course (program : Program) (config : Config) : Program -> Compilation -> Prop
  | unresolved {resolved found} :
    program.resolve config = (resolved, .ok ⟨false, found⟩) ->
    Course program config resolved
      { log := [resolving], diagnostics := found, result := .error (.resolution found) }
  | mistyped {resolved checked diagnostics found} :
    program.resolve config = (resolved, .ok ⟨true, diagnostics⟩) ->
    resolved.check config = (checked, .ok ⟨false, found⟩) ->
    Course program config checked
      { log := [resolving, checking], diagnostics := diagnostics ++ found,
        result := .error (.typing found) }
  | compiled {resolved checked placed diagnostics findings generated} :
    program.resolve config = (resolved, .ok ⟨true, diagnostics⟩) ->
    resolved.check config = (checked, .ok ⟨true, findings⟩) ->
    checked.generate config = (placed, .ok (.ok generated)) ->
    Course program config placed (finish (diagnostics ++ findings) (.ok generated))

theorem compile_of_course {program behind config compilation}
    (course : Course program config behind compilation) :
    program.compile config = (behind, .ok compilation) := by
  cases course with
  | unresolved refused => simp [Program.compile, refused]
  | mistyped accepted refused => simp [Program.compile, accepted, refused]
  | compiled accepted passed generates => simp [Program.compile, accepted, passed, generates]

section Whole

variable {source : Int64} {program : Program}

/-- A whole program takes one of the courses, whatever the settings. -/
theorem course_of_whole (config : Config) (whole : Written.Whole source program) :
    exists behind compilation, Course program config behind compilation := by
  have answered := Resolution.resolve_of_whole config whole
  rcases ran : Resolution.run config program with ⟨resolved, ok, diagnostics⟩
  rw [ran] at answered
  cases ok with
  | false => exact ⟨_, _, .unresolved answered⟩
  | true =>
    have judged := (Resolution.resolve_iff_scoped config whole resolved).mp
      ⟨diagnostics, answered⟩
    rcases Typing.typed_of_check config whole judged
        with ⟨checked, ⟨ok, findings⟩, checkAnswered, typed, _⟩
    cases ok with
    | false => exact ⟨_, _, .mistyped answered checkAnswered⟩
    | true =>
      rcases Lowering.generate_of_typed config whole (typed rfl)
          with ⟨placed, generated, generates, _⟩
      exact ⟨_, _, .compiled answered checkAnswered generates⟩

variable {config : Config} {behind : Program} {compilation : Compilation}

theorem resolve_ok_iff {resolved judgement} (whole : Written.Whole source program)
    (answered : program.resolve config = (resolved, .ok judgement)) :
    judgement.ok = true <-> hasErrors judgement.diagnostics = false := by
  rw [Resolution.resolve_of_whole config whole] at answered
  cases answered
  exact Resolution.ok_iff_no_errors config whole

/-- Along each course there is code exactly if no error is reported. -/
theorem Course.code_iff (whole : Written.Whole source program)
    (course : Course program config behind compilation) :
    (exists generated, compilation.result = .ok generated)
      <-> hasErrors compilation.diagnostics = false := by
  cases course with
  | @unresolved resolved found refused =>
    have clean := resolve_ok_iff whole refused
    constructor
    · rintro ⟨_, impossible⟩
      cases impossible
    · intro clear
      cases clean.mpr clear
  | @mistyped resolved checked diagnostics found accepted refused =>
    have judged := (Resolution.resolve_iff_scoped config whole resolved).mp
      ⟨diagnostics, accepted⟩
    have clean := Typing.check_ok_iff whole judged refused
    constructor
    · rintro ⟨_, impossible⟩
      cases impossible
    · intro clear
      rw [hasErrors_append, Bool.or_eq_false_iff] at clear
      cases clean.mpr clear.2
  | @compiled resolved checked placed diagnostics findings generated accepted passed generates =>
    have judged := (Resolution.resolve_iff_scoped config whole resolved).mp
      ⟨diagnostics, accepted⟩
    have cleanResolution := (resolve_ok_iff whole accepted).mp rfl
    have cleanTyping := (Typing.check_ok_iff whole judged passed).mp rfl
    refine ⟨fun _ => ?_, fun _ => ⟨generated, rfl⟩⟩
    exact (hasErrors_append _ _).trans (by rw [cleanResolution, cleanTyping]; rfl)

/-- Code comes from a program that is accepted by both phases before. -/
theorem Course.accepted {generated} (whole : Written.Whole source program)
    (course : Course program config behind compilation)
    (code : compilation.result = .ok generated) :
    exists resolved checked diagnostics findings,
      program.resolve config = (resolved, .ok ⟨true, diagnostics⟩)
        ∧ resolved.check config = (checked, .ok ⟨true, findings⟩)
        ∧ checked.generate config = (behind, .ok (.ok generated))
        ∧ Static.TypedProgram program checked := by
  cases course with
  | unresolved _ => cases code
  | mistyped _ _ => cases code
  | @compiled resolved checked placed diagnostics findings found accepted passed generates =>
    cases code
    have judged := (Resolution.resolve_iff_scoped config whole resolved).mp
      ⟨diagnostics, accepted⟩
    have typed := (Typing.check_iff_typed config whole judged checked).mp ⟨findings, passed⟩
    exact ⟨resolved, checked, diagnostics, findings, accepted, passed, generates, typed⟩

/-- A compilation without code names the categories that the failing phase has reported. -/
theorem Course.reported {error} (course : Course program config behind compilation)
    (refused : compilation.result = .error error) :
    error.isFailure = true ∧ exists reported, FailsWith program config reported
      ∧ forall category, category ∈ error.categories
        <-> exists diagnostic, diagnostic ∈ reported ∧ diagnostic.verdict = .error category := by
  cases course with
  | @unresolved resolved found unresolved =>
    cases refused
    exact ⟨rfl, found, .resolution (congrArg Prod.snd unresolved) rfl, fun _ => mem_categories⟩
  | @mistyped resolved checked diagnostics found accepted mistyped =>
    cases refused
    exact ⟨rfl, found, .typing accepted (congrArg Prod.snd mistyped) rfl,
      fun _ => mem_categories⟩
  | compiled accepted passed generates => cases refused

end Whole

/-- Success means that no error is reported, in every phase.  A compilation of a decoded program
has code or an error for the report of the phase that failed. -/
theorem success_iff_no_errors {bytes : List UInt8} {source : Int64} {program : Program}
    (decoded : Program.decode bytes source = .ok program) (config : Config) :
    (exists judgement, (program.resolve config).2 = .ok judgement
        ∧ (judgement.ok = true <-> hasErrors judgement.diagnostics = false))
      ∧ (forall resolving resolved diagnostics,
          program.resolve resolving = (resolved, .ok ⟨true, diagnostics⟩) ->
          exists judgement, (resolved.check config).2 = .ok judgement
            ∧ (judgement.ok = true <-> hasErrors judgement.diagnostics = false))
      ∧ exists compilation, (program.compile config).2 = .ok compilation
          ∧ ((exists generated, compilation.result = .ok generated)
              <-> hasErrors compilation.diagnostics = false)
          ∧ forall error, compilation.result = .error error ->
              error.isFailure = true ∧ exists reported, FailsWith program config reported
                ∧ forall category, category ∈ error.categories
                  <-> exists diagnostic, diagnostic ∈ reported
                    ∧ diagnostic.verdict = .error category := by
  have whole := Written.whole_of_decode decoded
  refine ⟨?_, ?_, ?_⟩
  · have answered := Resolution.resolve_of_whole config whole
    exact ⟨_, congrArg Prod.snd answered, resolve_ok_iff whole answered⟩
  · intro resolving resolved diagnostics accepted
    have judged := (Resolution.resolve_iff_scoped resolving whole resolved).mp
      ⟨diagnostics, accepted⟩
    rcases Typing.typed_of_check config whole judged with ⟨_, judgement, answered, _⟩
    exact ⟨judgement, congrArg Prod.snd answered, Typing.check_ok_iff whole judged answered⟩
  · rcases course_of_whole config whole with ⟨_, compilation, course⟩
    exact ⟨compilation, congrArg Prod.snd (compile_of_course course), course.code_iff whole,
      fun _ refused => course.reported refused⟩

/-- A function with a parameter of a structure that is not there.  Its signature is reported, and
its body is refused without a report of its own. -/
def faultyText : List UInt8 :=
  List.flatMap (fun line => line.toUTF8.data.toList)
    ["\x7b\"functions\":[\x7b\"kind\":\"func\",\"name\":\"f\",\"params\":[",
     "\x7b\"kind\":\"var\",\"name\":\"p\",\"type\":",
     "\x7b\"kind\":\"Struct\",\"name\":\"Q\"\x7d\x7d],",
     "\"returns\":\x7b\"kind\":\"Integer\"\x7d,\"body\":\x7b\"kind\":\"block\"\x7d\x7d],",
     "\"blocks\":[\x7b\"kind\":\"block\"\x7d]\x7d"]

/-- The program of that document. -/
def faulty : Program := (Program.decode faultyText 0).toOption.getD default

theorem decode_faultyText : Program.decode faultyText 0 = .ok faulty :=
  Written.eq_ok_of_isSome (by decide +kernel)

/-- The compilation of that document reports an error and gives no code. -/
theorem success_iff_no_errors_faulty :
    Program.decode faultyText 0 = .ok faulty
      ∧ exists compilation error, (faulty.compile {}).2 = .ok compilation
          ∧ hasErrors compilation.diagnostics = true ∧ compilation.result = .error error
          ∧ error.isFailure = true := by
  rcases success_iff_no_errors decode_faultyText {} with ⟨_, _, compilation, answered, code, failed⟩
  have reported : (faulty.compile {}).2.toOption.map (hasErrors ·.diagnostics) = some true := by
    decide +kernel
  rw [answered] at reported
  have found : hasErrors compilation.diagnostics = true := Option.some.inj reported
  cases refused : compilation.result with
  | ok generated =>
    have clean := code.mp ⟨generated, refused⟩
    rw [found] at clean
    cases clean
  | error error =>
    exact ⟨decode_faultyText, compilation, error, answered, found, refused,
      (failed error refused).1⟩

end Compilation
end PCode
