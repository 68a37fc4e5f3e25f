import PCode.Proofs.Lowering.Programs
import PCode.Proofs.Lowering.Renaming
import PCode.Proofs.Lowering.Stability
import PCode.Proofs.Resolution.Renaming
import PCode.Proofs.Resolution.Stability
import PCode.Proofs.Typing.Renaming
import PCode.Proofs.Typing.Stability

namespace PCode
namespace Invariance

open Diagnostics (Rephrases errors)
open Lowering (SameCode Printable)
open Resolution (resolve_agree)
open Typing (check_agree)

/-!
What a compilation does not depend on.

Two runs of the phases are held side by side.  Under settings that ask for the same code, they
differ in their warnings only.  For a program and the same program under new names, they differ in
nothing but names: in the tree, in the wording of findings and in the comments of the code.
-/

/-! ## Runs -/

/-- What the phases give, one after another, for a fresh program. -/
structure Run where
  resolved : Program
  resolution : Judgement
  checked : Program
  verdict : Judgement
  placed : Program
  answer : Except GenerationError Generated

namespace Run

/-- The phases are called one after another, each on the program that the one before has left
behind, and none of them is interrupted. -/
structure Of (run : Run) (program : Program) (config : Config) : Prop where
  resolves : program.resolve config = (run.resolved, .ok run.resolution)
  checks : run.resolved.check config = (run.checked, .ok run.verdict)
  generates : run.checked.generate config = (run.placed, .ok run.answer)

/-- Both resolution and the check accept the program. -/
def accepts (run : Run) : Bool := run.resolution.ok && run.verdict.ok

/-- The texts of the instructions, if there is code and all of it can be printed. -/
def instructions? (run : Run) : Option (List String) :=
  match run.answer with
  | .ok generated => (generated.code.texts generated.bindings).toOption
  | .error _ => none

/-- The ways in which a run can end: with code that can be printed, or at the gate of the last
phase. -/
inductive Ends (run : Run) : Prop
  | code {generated} :
    run.accepts = true -> run.answer = .ok generated -> Printable generated -> Ends run
  | refused :
    run.accepts = false -> run.checked.phase.reaches .checked = false ->
    run.placed = run.checked -> run.answer = .error (.notChecked run.checked.phase) -> Ends run

end Run

variable {source : Int64} {program : Program}

variable {config : Config} {resolved : Program}

theorem check_of_early (early : resolved.phase.reaches .resolved = false) :
    resolved.check config = (resolved, .ok ⟨false,
      [(TypeIssue.notResolved resolved.phase).foundAt .nowhere]⟩) := by
  rw [Program.check, if_neg (Bool.eq_false_iff.mp early)]

theorem generate_of_early {checked : Program} (early : checked.phase.reaches .checked = false) :
    checked.generate config = (checked, .ok (.error (.notChecked checked.phase))) := by
  rw [Program.generate, if_neg (Bool.eq_false_iff.mp early)]

/-- The phases can be run on every whole program. -/
theorem exists_run (config : Config) (whole : Written.Whole source program) :
    exists run : Run, run.Of program config ∧ run.Ends := by
  have answered := Resolution.resolve_of_whole config whole
  rcases ran : Resolution.run config program with ⟨resolved, ok, diagnostics⟩
  rw [ran] at answered
  have phase := Resolution.phase_of_resolve whole answered
  cases ok with
  | false =>
    -- The check and the lowering refuse a program that is not resolved.
    have isParsed : resolved.phase = .parsed := phase
    have unready : resolved.phase.reaches .resolved = false := by rw [isParsed]; decide
    have early : resolved.phase.reaches .checked = false := by rw [isParsed]; decide
    exact ⟨⟨resolved, ⟨false, diagnostics⟩, resolved, _, resolved, _⟩,
      ⟨answered, check_of_early unready, generate_of_early early⟩, .refused rfl early rfl rfl⟩
  | true =>
    have isResolved : resolved.phase = .resolved := phase
    have ready : resolved.phase.reaches .resolved = true := by rw [isResolved]; decide
    have judged :=
      (Resolution.resolve_iff_scoped config whole resolved).mp ⟨diagnostics, answered⟩
    rcases Typing.typed_of_check config whole judged
        with ⟨checked, ⟨ok, findings⟩, checks, typed, _⟩
    have phase := Typing.phase_of_check ready checks
    cases ok with
    | false =>
      have isResolved : checked.phase = .resolved := phase
      have early : checked.phase.reaches .checked = false := by rw [isResolved]; decide
      exact ⟨⟨resolved, ⟨true, diagnostics⟩, checked, ⟨false, findings⟩, checked, _⟩,
        ⟨answered, checks, generate_of_early early⟩, .refused rfl early rfl rfl⟩
    | true =>
      rcases Lowering.generate_of_typed config whole (typed rfl)
          with ⟨placed, generated, generates, printable⟩
      exact ⟨⟨resolved, ⟨true, diagnostics⟩, checked, ⟨true, findings⟩, placed, .ok generated⟩,
        ⟨answered, checks, generates⟩, .code rfl rfl printable⟩

/-- There is code exactly if the program is accepted. -/
theorem Run.Ends.code_iff {run : Run} (ends : run.Ends) :
    (exists generated, run.answer = .ok generated) <-> run.accepts = true := by
  cases ends with
  | code accepts answer _ => exact ⟨fun _ => accepts, fun _ => ⟨_, answer⟩⟩
  | refused accepts _ _ answer =>
    constructor
    · rintro ⟨generated, code⟩
      cases answer.symm.trans code
    · intro accepted
      cases accepts.symm.trans accepted

theorem Run.Ends.isSome_instructions? {run : Run} (ends : run.Ends) :
    run.instructions?.isSome = run.accepts := by
  cases ends with
  | code accepts answer printable =>
    rcases printable.texts with ⟨texts, listed⟩
    rw [instructions?, answer, accepts]
    dsimp only
    rw [listed]
    rfl
  | refused accepts _ _ answer =>
    rw [instructions?, answer, accepts]
    rfl

/-! ## Settings -/

/-- Two runs that differ in warnings only. -/
structure Run.Agree (first second : Run) : Prop where
  resolved : second.resolved = first.resolved
  resolutionOk : second.resolution.ok = first.resolution.ok
  resolutionErrors : errors second.resolution.diagnostics = errors first.resolution.diagnostics
  checked : second.checked = first.checked
  verdictOk : second.verdict.ok = first.verdict.ok
  verdictErrors : errors second.verdict.diagnostics = errors first.verdict.diagnostics
  placed : second.placed = first.placed
  answer : second.answer = first.answer

/-- Warnings and the style of listings never influence a compilation.  Under settings that agree on
the checks of indices and on stack extents, resolution and check leave the same notes in a decoded
program, give the same verdicts and report the same errors, and lowering gives the same code with
the same comments.  There is code exactly if both accept the program. -/
theorem settings_never_influence {bytes : List UInt8} {config config' : Config}
    (decoded : Program.decode bytes source = .ok program) (same : SameCode config config') :
    exists first second : Run, first.Of program config ∧ second.Of program config'
      ∧ first.Agree second
      ∧ ((exists generated, first.answer = .ok generated) <-> first.accepts = true) := by
  have whole := Written.whole_of_decode decoded
  rcases exists_run config whole with ⟨first, ran, ends⟩
  rcases resolve_agree config' whole ran.resolves with ⟨resolution, resolves, ok, sameErrors⟩
  rcases check_agree config' ran.checks with ⟨verdict, checks, verdictOk, verdictErrors⟩
  have generates := ran.generates
  rw [Lowering.generate_settings same] at generates
  exact ⟨first, { first with resolution, verdict }, ran, ⟨resolves, checks, generates⟩,
    ⟨rfl, ok, sameErrors, rfl, verdictOk, verdictErrors, rfl, rfl⟩, ends.code_iff⟩

/-- Settings for a bare listing without any remarks. -/
def terse : Config where
  features := fun feature => feature = .boundsCheck || feature = .stackExtent
  warnings := fun _ => false
  dialect := .bare

/-- The document with an array has the same code when the listing is bare and nothing is
remarked. -/
theorem settings_never_influence_grid :
    Program.decode Written.gridText 0 = .ok Written.grid ∧ SameCode {} terse
      ∧ exists first second : Run, first.Of Written.grid {} ∧ second.Of Written.grid terse
          ∧ first.Agree second
          ∧ ((exists generated, first.answer = .ok generated) <-> first.accepts = true) :=
  ⟨Written.decode_gridText, ⟨rfl, rfl⟩,
    settings_never_influence Written.decode_gridText ⟨rfl, rfl⟩⟩

/-! ## Names -/

/-- The second run is the first one under new names. -/
structure Run.Renamed (new : Renaming) (first second : Run) : Prop where
  resolved : second.resolved = first.resolved.rename new
  resolutionOk : second.resolution.ok = first.resolution.ok
  resolutionFindings : Rephrases first.resolution.diagnostics second.resolution.diagnostics
  checked : second.checked = first.checked.rename new
  verdictOk : second.verdict.ok = first.verdict.ok
  verdictFindings : Rephrases first.verdict.diagnostics second.verdict.diagnostics
  placed : second.placed = first.placed.rename new
  instructions : second.instructions? = first.instructions?

theorem generate_renamed (new : Renaming) {first : Run} (ran : first.Of program config)
    (ends : first.Ends) :
    exists answer,
      (first.checked.rename new).generate config = (first.placed.rename new, .ok answer)
        ∧ Run.instructions? { first with answer } = first.instructions? := by
  have generates := ran.generates
  cases ends with
  | code accepts answer printable =>
    rw [answer] at generates
    rcases Program.generate_rename new config generates
        with ⟨generated', generates', entries, code⟩
    refine ⟨.ok generated', generates', ?_⟩
    have bindings : generated'.bindings = Generated.bindings _ :=
      congrArg (fun entries => Bindings.mk [] [] (List.map _ entries)) entries
    rw [Run.instructions?, Run.instructions?, answer]
    dsimp only
    rw [bindings, code.texts_eq]
  | refused accepts early kept answer =>
    rw [kept]
    exact ⟨_, generate_of_early early, by rw [Run.instructions?, Run.instructions?, answer]⟩

/-- Compilation is invariant under renaming.  A decoded program and the same program under new names
are accepted or refused alike, with findings that differ in their wording only, and if they are
accepted, their instructions are the same. -/
theorem renaming_never_influences {bytes : List UInt8}
    (decoded : Program.decode bytes source = .ok program) (config : Config) (new : Renaming) :
    exists first second : Run, first.Of program config ∧ second.Of (program.rename new) config
      ∧ first.Renamed new second ∧ first.instructions?.isSome = first.accepts := by
  have whole := Written.whole_of_decode decoded
  rcases exists_run config whole with ⟨first, ran, ends⟩
  rcases Program.resolve_rename new config ran.resolves with ⟨resolution, resolves, ok, findings⟩
  rcases Program.check_rename new config ran.checks
      with ⟨verdict, checks, verdictOk, verdictFindings⟩
  rcases generate_renamed new ran ends with ⟨answer, generates, instructions⟩
  exact ⟨first,
    ⟨first.resolved.rename new, resolution, first.checked.rename new, verdict,
      first.placed.rename new, answer⟩,
    ran, ⟨resolves, checks, generates⟩,
    ⟨rfl, ok, findings, rfl, verdictOk, verdictFindings, rfl, instructions⟩,
    ends.isSome_instructions?⟩

/-- Names with a letter in front, one letter for fields and one for all other names. -/
def marked : Renaming where
  names := fun name => "n" ++ name
  fields := fun name => "f" ++ name
  names_injective := fun _ _ same => (String.append_right_inj "n").mp same
  fields_injective := fun _ _ same => (String.append_right_inj "f").mp same

/-- The small document has the same instructions when a letter is put in front of every name. -/
theorem renaming_never_influences_sample :
    Program.decode Written.sampleText 0 = .ok Written.sample
      ∧ exists first second : Run, first.Of Written.sample {}
          ∧ second.Of (Written.sample.rename marked) {}
          ∧ first.Renamed marked second ∧ first.instructions?.isSome = first.accepts :=
  ⟨Written.decode_sampleText,
    renaming_never_influences Written.decode_sampleText {} marked⟩

end Invariance
end PCode
