import PCode.Proofs.Compilation
import PCode.Proofs.Lowering.Stability
import PCode.Proofs.Resolution.Stability
import PCode.Proofs.Typing.Renaming
import PCode.Proofs.Typing.Stability

namespace PCode

open Lowering (SameCode)

/-!
Programs with a history.

All phases write into one tree, and they may be asked for in any order and any number of times.
A decoded program gets into few states that way: nothing has happened to it, or its names are
resolved, or it has been checked behind that, or its functions are placed as well.  The phase may
have been set back in between, but what is written stays.  In each of these states a phase answers
as it does for a fresh program.
-/

/-- What a program may be asked for. -/
inductive Request where
  | resolve
  | check
  | generate
  | compile
deriving DecidableEq, Repr

/-- The program behind a request. -/
def Program.behind (program : Program) (request : Request × Config) : Program :=
  match request with
  | (.resolve, config) => (program.resolve config).1
  | (.check, config) => (program.check config).1
  | (.generate, config) => (program.generate config).1
  | (.compile, config) => (program.compile config).1

/-- The program behind requests that are made one after another. -/
def Program.after (program : Program) (history : List (Request × Config)) : Program :=
  history.foldl Program.behind program

namespace History

/-- The states that a program gets into.  All of them are described by what happens to a fresh
program under some settings; a phase that was set back is the only trace of a history. -/
inductive Stage (settings : Config) (program : Program) : Program -> Prop
  | fresh : Stage settings program program
  | resolved {resolved judgement} :
    program.resolve settings = (resolved, .ok judgement) -> Stage settings program resolved
  | checked {resolved checked diagnostics judgement phase} :
    program.resolve settings = (resolved, .ok ⟨true, diagnostics⟩) ->
    resolved.check settings = (checked, .ok judgement) ->
    phase ∈ [.resolved, checked.phase] -> Stage settings program { checked with phase }
  | generated {resolved checked placed diagnostics findings generated phase} :
    program.resolve settings = (resolved, .ok ⟨true, diagnostics⟩) ->
    resolved.check settings = (checked, .ok ⟨true, findings⟩) ->
    checked.generate settings = (placed, .ok (.ok generated)) ->
    phase ∈ [.resolved, .checked, .generated] -> Stage settings program { placed with phase }

section Steps

variable {source : Int64} {settings : Config} {program state : Program}

variable {config : Config} {resolved checked : Program} {diagnostics : List Diagnostic}
  {judgement : Judgement}

theorem ready_of_accepted (whole : Written.Whole source program)
    (accepted : program.resolve config = (resolved, .ok ⟨true, diagnostics⟩)) :
    resolved.phase = .resolved ∧ resolved.phase.reaches .resolved = true := by
  have phase : resolved.phase = .resolved := Resolution.phase_of_resolve whole accepted
  refine ⟨phase, ?_⟩
  rw [phase]
  decide

/-- A checked program behind a resolved one, also with other entries and in another phase. -/
theorem extends_of_placed {later} (ready : state.phase.reaches .resolved = true)
    (answered : state.check config = (checked, .ok judgement)) (placed : checked.Placed later) :
    state.Extends later :=
  (Typing.run_again (Typing.run_of_check ready answered) placed).1

section Trees

variable (whole : Written.Whole source program)

include whole

theorem tree_eq {reply} (answered : program.resolve settings = (resolved, reply)) :
    (Resolution.run settings program).1 = resolved :=
  congrArg Prod.fst ((Resolution.resolve_of_whole settings whole).symm.trans answered)

/-- A state that is not fresh extends the resolved program, and it stays a state when the phase is
set back to the one behind resolution. -/
theorem Stage.past (stage : Stage settings program state) :
    state = program ∨ (Resolution.run settings program).1.Extends state
      ∧ Stage settings program
          { state with phase := (Resolution.run settings program).1.phase } := by
  cases stage with
  | fresh => exact .inl rfl
  | resolved answered =>
    have extended := Resolution.run_extends settings whole
    rw [tree_eq whole answered] at extended ⊢
    exact .inr ⟨extended, .resolved answered⟩
  | @checked resolved checked _ _ _ accepted answered _ =>
    rcases ready_of_accepted whole accepted with ⟨isResolved, ready⟩
    have stays : Stage settings program { checked with phase := resolved.phase } :=
      .checked accepted answered (by simp [isResolved])
    rw [tree_eq whole accepted]
    exact .inr ⟨extends_of_placed ready answered ((Program.Placed.refl _).ofPhase _), stays⟩
  | @generated resolved _ placed _ _ _ _ accepted passed generates _ =>
    rcases ready_of_accepted whole accepted with ⟨isResolved, ready⟩
    have stays : Stage settings program { placed with phase := resolved.phase } :=
      .generated accepted passed generates (by simp [isResolved])
    have isPlaced := Lowering.placed_of_generate generates
    rw [tree_eq whole accepted]
    exact .inr ⟨extends_of_placed ready passed (isPlaced.ofPhase _), stays⟩

/-- Resolution answers in every state as it does for a fresh program, and leaves behind a state that
extends the resolved program. -/
theorem Stage.resolve (stage : Stage settings program state) (config : Config) :
    exists later, state.resolve config = (later, (program.resolve config).2)
      ∧ Stage settings program later ∧ (Resolution.run settings program).1.Extends later
      ∧ later.phase = (Resolution.run settings program).1.phase := by
  rcases stage.past whole with isFresh | ⟨extended, again⟩
  · subst isFresh
    have answer := Resolution.resolve_of_whole settings whole
    rcases Resolution.resolve_agree config whole answer with ⟨_, answered, _⟩
    exact ⟨_, by rw [answered], .resolved answer, Resolution.run_extends settings whole, rfl⟩
  · exact ⟨_, Resolution.resolve_again settings config whole extended, again, extended.ofPhase _,
      rfl⟩

theorem accepted_settings
    (accepted : program.resolve settings = (resolved, .ok ⟨true, diagnostics⟩)) (config : Config) :
    exists diagnostics', program.resolve config = (resolved, .ok ⟨true, diagnostics'⟩) := by
  rcases Resolution.resolve_agree config whole accepted with ⟨⟨_, diagnostics'⟩, answered, rfl, _⟩
  exact ⟨diagnostics', answered⟩

theorem ready_behind (accepted : program.resolve config = (resolved, .ok ⟨true, diagnostics⟩))
    (phase : state.phase = (Resolution.run settings program).1.phase) :
    state.phase.reaches .resolved = true := by
  rcases accepted_settings whole accepted settings with ⟨_, acceptedThere⟩
  rw [phase, tree_eq whole acceptedThere]
  exact (ready_of_accepted whole accepted).2

/-- What a program comes to by resolution and check is the same under all settings. -/
theorem checked_settings (accepted : program.resolve settings = (resolved, .ok ⟨true, diagnostics⟩))
    (answered : resolved.check settings = (checked, .ok judgement)) (config : Config) :
    exists diagnostics' findings,
      program.resolve config = (resolved, .ok ⟨true, diagnostics'⟩)
        ∧ resolved.check config = (checked, .ok ⟨judgement.ok, findings⟩) := by
  rcases accepted_settings whole accepted config with ⟨diagnostics', acceptedHere⟩
  rcases Typing.check_agree config answered
      with ⟨⟨_, findings⟩, passes, rfl, _⟩
  exact ⟨diagnostics', findings, acceptedHere, passes⟩

/-- Past its gate, the check answers in every state as it does for a program that has just been
resolved. -/
theorem Stage.check (stage : Stage settings program state) (config : Config)
    (ready : state.phase.reaches .resolved = true) :
    exists resolved checked later diagnostics judgement,
      program.resolve config = (resolved, .ok ⟨true, diagnostics⟩)
        ∧ resolved.check config = (checked, .ok judgement)
        ∧ state.check config = (later, .ok judgement)
        ∧ Stage settings program later ∧ later.phase = checked.phase := by
  cases stage with
  | fresh =>
    rw [whole.phase] at ready
    exact absurd ready (by decide)
  | @resolved _ judgement answered =>
    rcases judgement with ⟨ok, diagnostics⟩
    cases ok with
    | false =>
      have isParsed : state.phase = .parsed := Resolution.phase_of_resolve whole answered
      rw [isParsed] at ready
      exact absurd ready (by decide)
    | true =>
      have judged := (Resolution.resolve_iff_scoped settings whole state).mp
        ⟨diagnostics, answered⟩
      rcases accepted_settings whole answered config with ⟨diagnostics', accepted⟩
      rcases Typing.typed_of_check config whole judged with ⟨checked, judgement, passes, _⟩
      rcases Typing.check_agree settings passes with ⟨_, passesHere, _⟩
      have stays : Stage settings program { checked with phase := checked.phase } :=
        .checked answered passesHere (by simp)
      exact ⟨state, checked, checked, diagnostics', judgement, accepted, passes, passes, stays,
        rfl⟩
  | @checked resolved checked _ _ _ accepted answered _ =>
    have readyThen := (ready_of_accepted whole accepted).2
    rcases checked_settings whole accepted answered config with ⟨_, _, acceptedHere, passes⟩
    have stays : Stage settings program { checked with phase := checked.phase } :=
      .checked accepted answered (by simp)
    exact ⟨resolved, checked, _, _, _, acceptedHere, passes,
      Typing.check_again readyThen passes ((Program.Placed.refl _).ofPhase _) ready, stays, rfl⟩
  | @generated resolved checked placed _ _ _ _ accepted passed generates _ =>
    have readyThen := (ready_of_accepted whole accepted).2
    rcases checked_settings whole accepted passed config with ⟨_, _, acceptedHere, passes⟩
    have isChecked : checked.phase = .checked := Typing.phase_of_check readyThen passed
    have isPlaced := Lowering.placed_of_generate generates
    have stays : Stage settings program { placed with phase := checked.phase } :=
      .generated accepted passed generates (by simp [isChecked])
    exact ⟨resolved, checked, _, _, _, acceptedHere, passes,
      Typing.check_again readyThen passes (isPlaced.ofPhase _) ready, stays, rfl⟩

end Trees

/-- Behind a check, the gate to lowering is open only if the check was passed and the phase has not
been set back. -/
theorem passed_of_ready {phase} (readyThen : state.phase.reaches .resolved = true)
    (answered : state.check config = (checked, .ok judgement))
    (allowed : phase ∈ [.resolved, checked.phase]) (ready : phase.reaches .checked = true) :
    phase = checked.phase ∧ judgement.ok = true := by
  have isPhase := Typing.phase_of_check readyThen answered
  simp only [List.mem_cons, List.not_mem_nil, or_false] at allowed
  rcases allowed with isResolved | isChecked
  · rw [isResolved] at ready
    exact absurd ready (by decide)
  · refine ⟨isChecked, ?_⟩
    by_contra failed
    rw [isChecked, isPhase, if_neg failed] at ready
    exact absurd ready (by decide)

variable (whole : Written.Whole source program)

include whole

/-- Past its gate, lowering gives in every state the code that it gives for a program that has just
been checked. -/
theorem Stage.generate (stage : Stage settings program state) (same : SameCode config settings)
    (ready : state.phase.reaches .checked = true) :
    exists resolved checked placed diagnostics findings generated,
      program.resolve config = (resolved, .ok ⟨true, diagnostics⟩)
        ∧ resolved.check config = (checked, .ok ⟨true, findings⟩)
        ∧ checked.generate config = (placed, .ok (.ok generated))
        ∧ state.generate config = (placed, .ok (.ok generated))
        ∧ Stage settings program placed := by
  cases stage with
  | fresh =>
    rw [whole.phase] at ready
    exact absurd ready (by decide)
  | @resolved _ judgement answered =>
    rw [Resolution.phase_of_resolve whole answered] at ready
    cases judged : judgement.ok <;> rw [judged] at ready <;> exact absurd ready (by decide)
  | @checked resolved checked diagnostics judgement phase accepted answered allowed =>
    have readyThen := (ready_of_accepted whole accepted).2
    rcases checked_settings whole accepted answered config with ⟨_, _, acceptedHere, passes⟩
    rcases passed_of_ready readyThen answered allowed ready with ⟨rfl, ok⟩
    rcases judgement with ⟨_, findings⟩
    cases ok
    have judged := (Resolution.resolve_iff_scoped settings whole resolved).mp
      ⟨diagnostics, accepted⟩
    have typed := (Typing.check_iff_typed settings whole judged checked).mp ⟨findings, answered⟩
    rcases Lowering.generate_of_typed settings whole typed
        with ⟨placed, generated, generates, _⟩
    have stays : Stage settings program { placed with phase := placed.phase } :=
      .generated accepted answered generates (by simp [Lowering.phase_of_generate generates])
    rw [← Lowering.generate_settings same] at generates
    exact ⟨resolved, checked, placed, _, _, generated, acceptedHere, passes, generates, generates,
      stays⟩
  | @generated resolved checked placed _ _ _ _ accepted passed generates _ =>
    rcases checked_settings whole accepted passed config with ⟨_, _, acceptedHere, passes⟩
    have stays : Stage settings program { placed with phase := placed.phase } :=
      .generated accepted passed generates (by simp [Lowering.phase_of_generate generates])
    have again := Lowering.generate_again generates ready
    rw [← Lowering.generate_settings same] at generates again
    exact ⟨resolved, checked, placed, _, _, _, acceptedHere, passes, generates, again, stays⟩

/-- Compilation takes the same course in every state. -/
theorem Stage.compile (stage : Stage settings program state) (same : SameCode config settings) :
    exists behind later compilation, Compilation.Course program config behind compilation
      ∧ Compilation.Course state config later compilation ∧ Stage settings program later := by
  rcases Compilation.course_of_whole config whole with ⟨behind, compilation, course⟩
  rcases stage.resolve whole config with ⟨later, answers, stays, _, phase⟩
  cases course with
  | unresolved refused =>
    rw [refused] at answers
    exact ⟨_, later, _, .unresolved refused, .unresolved answers, stays⟩
  | mistyped accepted refused =>
    rw [accepted] at answers
    have ready := ready_behind whole accepted phase
    rcases stays.check whole config ready
        with ⟨_, _, later', _, _, acceptedAgain, refusedAgain, refuses, stays', _⟩
    cases accepted.symm.trans acceptedAgain
    cases refused.symm.trans refusedAgain
    exact ⟨_, later', _, .mistyped accepted refused, .mistyped answers refuses, stays'⟩
  | @compiled _ checked _ _ _ _ accepted passed generates =>
    rw [accepted] at answers
    have ready := ready_behind whole accepted phase
    rcases stays.check whole config ready
        with ⟨_, _, later', _, _, acceptedAgain, passedAgain, passes, stays', phase'⟩
    cases accepted.symm.trans acceptedAgain
    cases passed.symm.trans passedAgain
    have isChecked : checked.phase = .checked :=
      Typing.phase_of_check (ready_of_accepted whole accepted).2 passed
    have readyAgain : later'.phase.reaches .checked = true := by
      rw [phase', isChecked]
      decide
    rcases stays'.generate whole same readyAgain
        with ⟨_, _, _, _, _, _, acceptedLast, passedLast, generatesLast, lowers, stays''⟩
    cases accepted.symm.trans acceptedLast
    cases passed.symm.trans passedLast
    cases generates.symm.trans generatesLast
    exact ⟨_, _, _, .compiled accepted passed generates, .compiled answers passes lowers, stays''⟩

/-- Each request leads from one of the states to one of the states.  Only those that lower the
program have to agree with the settings. -/
theorem Stage.behind (stage : Stage settings program state) {request}
    (same : request.1 = .generate ∨ request.1 = .compile -> SameCode request.2 settings) :
    Stage settings program (state.behind request) := by
  rcases request with ⟨request, config⟩
  cases request with
  | resolve =>
    rcases stage.resolve whole config with ⟨later, answers, stays, _⟩
    rw [Program.behind, answers]
    exact stays
  | check =>
    by_cases ready : state.phase.reaches .resolved = true
    · rcases stage.check whole config ready with ⟨_, _, later, _, _, _, _, answers, stays, _⟩
      rw [Program.behind, answers]
      exact stays
    · rw [Program.behind, Program.check, if_neg ready]
      exact stage
  | generate =>
    by_cases ready : state.phase.reaches .checked = true
    · rcases stage.generate whole (same (.inl rfl)) ready
          with ⟨_, _, placed, _, _, _, _, _, _, answers, stays⟩
      rw [Program.behind, answers]
      exact stays
    · rw [Program.behind, Program.generate, if_neg ready]
      exact stage
  | compile =>
    rcases stage.compile whole (same (.inr rfl)) with ⟨_, later, _, _, course, stays⟩
    rw [Program.behind, Compilation.compile_of_course course]
    exact stays

theorem stage_along {history} (same : forall request, request ∈ history ->
      request.1 = .generate ∨ request.1 = .compile -> SameCode request.2 settings)
    (stage : Stage settings program state) : Stage settings program (state.after history) := by
  induction history generalizing state with
  | nil => exact stage
  | cons request history ih =>
    exact ih (List.forall_mem_cons.mp same).2
      (stage.behind whole (same request List.mem_cons_self))

/-- After any requests, a program is in one of the states. -/
theorem stage_after {history}
    (same : forall request, request ∈ history -> SameCode request.2 settings)
    (stage : Stage settings program state) : Stage settings program (state.after history) :=
  stage_along whole (fun request member _ => same request member) stage

end Steps

/-- In this state a program answers as the fresh one does.  There is an answer to every request.
Where a check is made at all, it is the one of a program that has just been resolved; where code is
generated at all, it is the code of a fresh compilation.  Resolving twice is resolving once. -/
structure AnswersAs (program state : Program) (config : Config) : Prop where
  resolves : exists judgement, (program.resolve config).2 = .ok judgement
    ∧ (state.resolve config).2 = .ok judgement
  checks : exists judgement, (state.check config).2 = .ok judgement
    ∧ (state.phase.reaches .resolved = true -> exists resolved diagnostics,
        program.resolve config = (resolved, .ok ⟨true, diagnostics⟩)
          ∧ (resolved.check config).2 = .ok judgement)
  generates : exists answer, (state.generate config).2 = .ok answer
    ∧ forall generated, answer = .ok generated -> exists compilation,
        (program.compile config).2 = .ok compilation ∧ compilation.result = .ok generated
  compiles : exists compilation, (program.compile config).2 = .ok compilation
    ∧ (state.compile config).2 = .ok compilation
  repeated : forall config', ((state.resolve config).1.resolve config').1 = (state.resolve config).1

section Answers

variable {source : Int64} {program state : Program} {config : Config}

theorem Stage.answersAs (whole : Written.Whole source program)
    (stage : Stage config program state) : AnswersAs program state config where
  resolves := by
    rcases stage.resolve whole config with ⟨_, answers, _⟩
    rw [answers, Resolution.resolve_of_whole config whole]
    exact ⟨_, rfl, rfl⟩
  checks := by
    by_cases ready : state.phase.reaches .resolved = true
    · rcases stage.check whole config ready
          with ⟨resolved, _, _, diagnostics, judgement, accepted, passes, answers, _⟩
      rw [answers]
      exact ⟨judgement, rfl, fun _ => ⟨resolved, diagnostics, accepted, by rw [passes]⟩⟩
    · rw [Program.check, if_neg ready]
      exact ⟨_, rfl, fun open_ => absurd open_ ready⟩
  generates := by
    by_cases ready : state.phase.reaches .checked = true
    · rcases stage.generate whole ⟨rfl, rfl⟩ ready
          with ⟨_, _, _, _, _, generated, accepted, passes, generates, answers, _⟩
      rw [answers, Compilation.compile_of_course (.compiled accepted passes generates)]
      refine ⟨_, rfl, ?_⟩
      rintro _ ⟨⟩
      exact ⟨_, rfl, rfl⟩
    · rw [Program.generate, if_neg ready]
      refine ⟨_, rfl, ?_⟩
      rintro _ ⟨⟩
  compiles := by
    rcases stage.compile whole ⟨rfl, rfl⟩ with ⟨_, _, compilation, course, courseHere, _⟩
    rw [Compilation.compile_of_course course, Compilation.compile_of_course courseHere]
    exact ⟨compilation, rfl, rfl⟩
  repeated := by
    intro config'
    rcases stage.resolve whole config with ⟨later, answers, _, extended, phase⟩
    rw [answers, Resolution.resolve_again config config' whole extended, ← phase]

end Answers

/-- Results do not depend on history.  After any requests under settings that agree on the two
features that reach the code, a decoded program answers as a fresh one. -/
theorem results_independent_of_history {bytes : List UInt8} {source : Int64} {program : Program}
    (decoded : Program.decode bytes source = .ok program) (history : List (Request × Config))
    (config : Config)
    (same : forall request, request ∈ history -> SameCode request.2 config) :
    AnswersAs program (program.after history) config := by
  have whole := Written.whole_of_decode decoded
  exact (stage_after whole same .fresh).answersAs whole

/-- Requests that set the phase back and forth: the program of the document with an array is
compiled, resolved without any warnings, checked and resolved again. -/
def restless : List (Request × Config) :=
  [(.compile, {}), (.resolve, { warnings := fun _ => false }), (.check, {}), (.resolve, {})]

/-- Behind these requests the document with an array compiles to the same code. -/
theorem results_independent_of_history_grid :
    Program.decode Written.gridText 0 = .ok Written.grid
      ∧ (forall request, request ∈ restless -> SameCode request.2 {})
      ∧ exists compilation, (Written.grid.compile {}).2 = .ok compilation
          ∧ ((Written.grid.after restless).compile {}).2 = .ok compilation := by
  have same : forall request, request ∈ restless -> SameCode request.2 {} := by
    intro request member
    simp only [restless, List.mem_cons, List.not_mem_nil, or_false] at member
    rcases member with rfl | rfl | rfl | rfl <;> exact ⟨rfl, rfl⟩
  exact ⟨Written.decode_gridText, same,
    (results_independent_of_history Written.decode_gridText restless {} same).compiles⟩

end History
end PCode
