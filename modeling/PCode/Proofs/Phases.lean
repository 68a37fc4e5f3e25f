import Mathlib.Data.List.Induction
import PCode.Proofs.Annotations
import PCode.Proofs.History

namespace PCode
namespace Phases

open History (Stage)
open Lowering
open Static

/-!
What the phase of a program says.

The phase is one number, moved forwards and backwards by whatever is asked of a program, and what it
stands for is spread over the tree.  Yet it can be trusted after any history: it tells whether the
latest resolution was passed and whether a check has been passed since, and what these phases note
is in the tree.  Requests behind a closed gate change nothing.

Behind an open gate, lowering gives code, with one exception.  The entries of functions are noted
once and for all, so under settings that move a function, lowering stops at it.
-/

/-! ## Lowering placed functions under other settings -/

section Placed

variable {config settings : Config}

/-- Functions that have entries keep them.  They are lowered, or there is one that would have to be
placed again. -/
theorem lowerFunctions_placed {count env} (callable : env.All (Callable count))
    {declared functions placed} (typed : List.Forall₂ (TypedFunction env) declared functions)
    {address code} (laid : Laid settings address functions placed code) (start : Nat) :
    (exists code', lowerFunctions config start placed = (placed, .ok code'))
      ∨ lowerFunctions config start placed = (placed, .error (.interrupted .placedTwice)) := by
  induction typed generalizing address placed code start with
  | nil =>
    cases laid
    exact .inl ⟨[], rfl⟩
  | cons first _ ih =>
    cases first with
    | @funcDecl _ behind note bodyNote name _ _ _ _ _ _ _ formals scalar stmts _ =>
      cases laid with
      | cons _ laidRest =>
        by_cases same : address = start
        · have known : Stream.place (some address) start = .ok start := if_pos same
          rcases lowerFunction_of_typed config callable formals scalar stmts start name
            (frameNote note behind.used).frameSize bodyNote with ⟨first, lowered⟩
          rw [lowerFunctions, known]
          dsimp only
          rw [lowered]
          dsimp only
          rcases ih laidRest (start + first.size) with ⟨rest, again⟩ | stops
          · rw [again, same]
            exact .inl ⟨_, rfl⟩
          · rw [stops, same]
            exact .inr rfl
        · have known : Stream.place (some address) start = .error .placedTwice := if_neg same
          rw [lowerFunctions, known]
          exact .inr rfl

/-- A program with code is lowered again under any settings, or a function would have to be placed
again and the program stays as it is. -/
theorem generate_placed {program checked placed generated} (config : Config)
    (typed : TypedProgram program checked)
    (generates : checked.generate settings = (placed, .ok (.ok generated))) {phase}
    (ready : phase.reaches .checked = true) :
    (exists generated', { placed with phase }.generate config = (placed, .ok (.ok generated')))
      ∨ { placed with phase }.generate config
          = ({ placed with phase }, .error .placedTwice) := by
  have isGenerated : { placed with phase := .generated } = placed := by
    rw [← phase_of_generate generates]
  rcases arranged_of_generate generates with ⟨functionCode, _, arranged⟩
  cases typed with
  | @intro _ _ _ blocks _ _ structs signatures typedFunctions _ typedBlocks =>
    have callable := (ready_of_typed structs signatures typedFunctions).2
    have kept : placed.blocks = blocks := arranged.kept
    subst kept
    rw [Program.generate, if_pos ready, Program.lower, if_pos (isPresent_of_typed typedBlocks)]
    dsimp only
    rcases lowerFunctions_placed callable typedFunctions arranged.functions (prologueSize config)
        with ⟨code, again⟩ | stops
    · rcases lowerBlocks_of_typed config callable typedBlocks (prologueSize config + code.size) 1
          with ⟨blockCode, lowered⟩
      rw [again, Results.ok_bind, lowered]
      exact .inl ⟨_, Prod.ext isGenerated rfl⟩
    · rw [stops]
      exact .inr rfl

end Placed

/-! ## The phase behind one request -/

section Steps

variable {source : Int64} {settings : Config} {program state : Program}

theorem reaches_resolved {phase : Phase} (past : phase.reaches .checked = true) :
    phase.reaches .resolved = true := by
  have later : (2 : Int64) <= phase.rank := of_decide_eq_true past
  exact decide_eq_true (Int64.le_trans (by decide) later)

variable (whole : Written.Whole source program) (stage : Stage settings program state)
  (config : Config)

include whole stage

theorem phase_of_resolution :
    exists ok diagnostics, (state.resolve config).2 = .ok ⟨ok, diagnostics⟩
      ∧ (state.resolve config).1.phase = if ok then .resolved else .parsed := by
  have answered := Resolution.resolve_of_whole settings whole
  rcases stage.resolve whole config with ⟨later, answers, _, _, phase⟩
  rcases Resolution.resolve_agree config whole answered
      with ⟨⟨ok, diagnostics⟩, answeredHere, same, _⟩
  rw [answers, answeredHere]
  refine ⟨ok, diagnostics, rfl, ?_⟩
  rw [phase, Resolution.phase_of_resolve whole answered, ← same]

/-- Past its gate, a check sets the phase by its verdict, and it is passed if one was passed
before. -/
theorem phase_of_checking (ready : state.phase.reaches .resolved = true) :
    exists ok findings, (state.check config).2 = .ok ⟨ok, findings⟩
      ∧ (state.check config).1.phase = (if ok then .checked else .resolved)
      ∧ (state.phase.reaches .checked = true -> ok = true) := by
  rcases stage.check whole config ready
      with ⟨resolved, checked, later, _, ⟨ok, findings⟩, accepted, passes, answers, _, phase⟩
  have readyThen := (History.ready_of_accepted whole accepted).2
  rw [answers]
  refine ⟨ok, findings, rfl, phase.trans (Typing.phase_of_check readyThen passes), ?_⟩
  intro past
  rcases stage.generate whole ⟨rfl, rfl⟩ past with ⟨_, _, _, _, _, _, acceptedThere, passed, _⟩
  rcases History.checked_settings whole acceptedThere passed config
      with ⟨_, _, acceptedHere, passedHere⟩
  cases accepted.symm.trans acceptedHere
  cases passes.symm.trans passedHere
  rfl

/-- Settings leave their trace in a program only by the entries of its functions. -/
theorem stage_settings :
    Stage config program state
      ∨ exists checked placed generated phase, TypedProgram program checked
          ∧ checked.generate settings = (placed, .ok (.ok generated))
          ∧ Stage settings program placed ∧ state = { placed with phase } := by
  cases stage with
  | fresh => exact .inl .fresh
  | resolved answered =>
    rcases Resolution.resolve_agree config whole answered with ⟨_, answeredHere, _⟩
    exact .inl (.resolved answeredHere)
  | checked accepted answered allowed =>
    rcases History.checked_settings whole accepted answered config
        with ⟨_, _, acceptedHere, passes⟩
    exact .inl (.checked acceptedHere passes allowed)
  | @generated resolved checked placed diagnostics findings generated phase accepted passed
    generates _ =>
    have judged := (Resolution.resolve_iff_scoped settings whole resolved).mp
      ⟨diagnostics, accepted⟩
    have typed := (Typing.check_iff_typed settings whole judged checked).mp ⟨findings, passed⟩
    have stays : Stage settings program { placed with phase := placed.phase } :=
      .generated accepted passed generates (by simp [phase_of_generate generates])
    exact .inr ⟨checked, placed, generated, phase, typed, generates, stays, rfl⟩

/-- Past its gate, lowering gives code in the last phase, or it stops and changes nothing. -/
theorem phase_of_generation (ready : state.phase.reaches .checked = true) :
    (exists placed generated, state.generate config = (placed, .ok (.ok generated))
        ∧ placed.phase = .generated ∧ exists settings', Stage settings' program placed)
      ∨ state.generate config = (state, .error .placedTwice) := by
  rcases stage_settings whole stage config
      with here | ⟨checked, placed, _, phase, typed, generates, stays, rfl⟩
  · rcases here.generate whole ⟨rfl, rfl⟩ ready
        with ⟨_, _, placed, _, _, generated, _, _, _, answers, stays⟩
    exact .inl ⟨placed, generated, answers, phase_of_generate answers, config, stays⟩
  · rcases generate_placed config typed generates ready with ⟨generated, again⟩ | stops
    · exact .inl ⟨placed, generated, again, phase_of_generate again, settings, stays⟩
    · exact .inr stops

end Steps

/-! ## Histories -/

section Histories

variable {Holds : List (Request × Config) -> Request × Config -> Prop}
  {history : List (Request × Config)} {request : Request × Config} {program : Program}

/-- Some request has a property, which may speak of what was asked before, and no resolution has
been asked for since. -/
def Since (Holds : List (Request × Config) -> Request × Config -> Prop)
    (history : List (Request × Config)) : Prop :=
  exists before request later, history = before ++ request :: later
    ∧ (forall other, other ∈ later -> other.1 ≠ .resolve) ∧ Holds before request

theorem since_snoc : Since Holds (history ++ [request])
    <-> Holds history request ∨ (request.1 ≠ .resolve ∧ Since Holds history) := by
  constructor
  · rintro ⟨before, other, later, equal, none, holds⟩
    rcases List.eq_nil_or_concat later with rfl | ⟨later, last, rfl⟩
    · rcases List.append_inj' equal rfl with ⟨rfl, same⟩
      cases same
      exact .inl holds
    · rw [List.concat_eq_append, ← List.cons_append, ← List.append_assoc] at equal
      rcases List.append_inj' equal rfl with ⟨rfl, same⟩
      cases same
      exact .inr ⟨none _ (by simp), before, other, later, rfl,
        fun other member => none other (by simp [member]), holds⟩
  · rintro (holds | ⟨different, before, other, later, rfl, none, holds⟩)
    · exact ⟨history, request, [], rfl, fun _ member => (by cases member), holds⟩
    · refine ⟨before, other, later ++ [request], by simp, ?_, holds⟩
      intro next member
      rcases List.mem_append.mp member with earlier | last
      · exact none next earlier
      · exact List.mem_singleton.mp last ▸ different

/-- The latest resolution was passed. -/
def ResolvedLast (program : Program) (history : List (Request × Config)) : Prop :=
  Since (fun before request => request.1 = .resolve
    ∧ exists diagnostics, ((program.after before).resolve request.2).2 = .ok ⟨true, diagnostics⟩)
    history

/-- The latest resolution was passed, and so was a check since. -/
def CheckedSince (program : Program) (history : List (Request × Config)) : Prop :=
  ResolvedLast program history
    ∧ Since (fun before request => request.1 = .check
        ∧ exists findings, ((program.after before).check request.2).2 = .ok ⟨true, findings⟩)
      history

/-- Code has been generated under some settings. -/
def Streamed (program : Program) (history : List (Request × Config)) (settings : Config) : Prop :=
  exists before later generated, history = before ++ (.generate, settings) :: later
    ∧ ((program.after before).generate settings).2 = .ok (.ok generated)

theorem Streamed.snoc {settings} (streamed : Streamed program history settings)
    (request : Request × Config) : Streamed program (history ++ [request]) settings := by
  rcases streamed with ⟨before, later, generated, rfl, answers⟩
  exact ⟨before, later ++ [request], generated, by simp, answers⟩

theorem after_snoc (program : Program) (history : List (Request × Config))
    (request : Request × Config) :
    program.after (history ++ [request]) = (program.after history).behind request := by
  rw [Program.after, Program.after, List.foldl_append]
  rfl

variable {config : Config}

theorem resolvedLast_resolve :
    ResolvedLast program (history ++ [(.resolve, config)])
      <-> exists diagnostics,
        ((program.after history).resolve config).2 = .ok ⟨true, diagnostics⟩ := by
  rw [ResolvedLast, since_snoc]
  simp

theorem resolvedLast_other (different : request.1 ≠ .resolve) :
    ResolvedLast program (history ++ [request]) <-> ResolvedLast program history := by
  rw [ResolvedLast, since_snoc]
  simp [different, ResolvedLast]

theorem checkedSince_resolve : ¬ CheckedSince program (history ++ [(.resolve, config)]) := by
  rw [CheckedSince, since_snoc]
  simp

theorem checkedSince_check :
    CheckedSince program (history ++ [(.check, config)])
      <-> (ResolvedLast program history ∧ exists findings,
          ((program.after history).check config).2 = .ok ⟨true, findings⟩)
        ∨ CheckedSince program history := by
  have kept : ResolvedLast program (history ++ [(.check, config)])
      <-> ResolvedLast program history := resolvedLast_other nofun
  rw [CheckedSince, CheckedSince, kept, since_snoc, and_or_left]
  simp

theorem checkedSince_generate :
    CheckedSince program (history ++ [(.generate, config)]) <-> CheckedSince program history := by
  have kept : ResolvedLast program (history ++ [(.generate, config)])
      <-> ResolvedLast program history := resolvedLast_other nofun
  rw [CheckedSince, CheckedSince, kept, since_snoc]
  simp

end Histories

/-! ## The phase behind any history -/

/-- The phase tells what has happened to a program, which is in one of its states. -/
structure Told (program : Program) (history : List (Request × Config)) : Prop where
  stage : exists settings, Stage settings program (program.after history)
  resolved : (program.after history).phase.reaches .resolved = true
    <-> ResolvedLast program history
  checked : (program.after history).phase.reaches .checked = true
    <-> CheckedSince program history

section Runs

variable {source : Int64} {program : Program} {history : List (Request × Config)}

section Told

variable (whole : Written.Whole source program) (told : Told program history) (config : Config)

include whole told

theorem Told.resolve : Told program (history ++ [(.resolve, config)]) := by
  rcases told.stage with ⟨settings, stage⟩
  rcases stage.resolve whole config with ⟨later, answers, stays, _⟩
  rcases phase_of_resolution whole stage config with ⟨ok, diagnostics, answer, phase⟩
  rw [answers] at phase
  refine ⟨⟨settings, ?_⟩, ?_, ?_⟩
  · rw [after_snoc, Program.behind, answers]
    exact stays
  · rw [resolvedLast_resolve, after_snoc, Program.behind, answer, answers, phase]
    cases ok <;> simp <;> decide
  · rw [after_snoc, Program.behind, answers, phase]
    refine iff_of_false ?_ checkedSince_resolve
    cases ok <;> decide

theorem Told.check : Told program (history ++ [(.check, config)]) := by
  rcases told.stage with ⟨settings, stage⟩
  have kept : ResolvedLast program (history ++ [(.check, config)])
      <-> ResolvedLast program history := resolvedLast_other nofun
  have stays : Stage settings program (program.after (history ++ [(.check, config)])) := by
    rw [after_snoc]
    exact stage.behind whole (by simp)
  by_cases ready : (program.after history).phase.reaches .resolved = true
  · rcases phase_of_checking whole stage config ready with ⟨ok, findings, answer, phase, passed⟩
    refine ⟨⟨settings, stays⟩, ?_, ?_⟩
    · rw [after_snoc, Program.behind, phase, kept]
      exact iff_of_true (by cases ok <;> decide) (told.resolved.mp ready)
    · rw [after_snoc, Program.behind, phase, checkedSince_check, answer, ← told.checked]
      cases ok with
      | true => exact iff_of_true (by decide) (.inl ⟨told.resolved.mp ready, findings, rfl⟩)
      | false =>
        refine iff_of_false (by decide) ?_
        rintro (⟨_, _, impossible⟩ | past)
        · cases impossible
        · cases passed past
  · have refused : (program.after (history ++ [(.check, config)])) = program.after history := by
      rw [after_snoc, Program.behind, Program.check, if_neg ready]
    refine ⟨⟨settings, stays⟩, ?_, ?_⟩
    · rw [refused, kept]
      exact told.resolved
    · rw [refused, checkedSince_check, told.checked]
      refine ⟨.inr, ?_⟩
      rintro (⟨passed, _⟩ | passed)
      · exact absurd (told.resolved.mpr passed) ready
      · exact passed

theorem Told.generate : Told program (history ++ [(.generate, config)]) := by
  rcases told.stage with ⟨settings, stage⟩
  have kept : ResolvedLast program (history ++ [(.generate, config)])
      <-> ResolvedLast program history := resolvedLast_other nofun
  have unchanged (same : program.after (history ++ [(.generate, config)]) = program.after history) :
      Told program (history ++ [(.generate, config)]) :=
    ⟨⟨settings, by rw [same]; exact stage⟩, by rw [same, kept, told.resolved],
      by rw [same, checkedSince_generate, told.checked]⟩
  by_cases ready : (program.after history).phase.reaches .checked = true
  · rcases phase_of_generation whole stage config ready
        with ⟨placed, generated, answers, phase, stays⟩ | stops
    · refine ⟨?_, ?_, ?_⟩
      · rw [after_snoc, Program.behind, answers]
        exact stays
      · rw [after_snoc, Program.behind, answers, phase, kept]
        exact iff_of_true (by decide) (told.resolved.mp (reaches_resolved ready))
      · rw [after_snoc, Program.behind, answers, phase, checkedSince_generate]
        exact iff_of_true (by decide) (told.checked.mp ready)
    · apply unchanged
      rw [after_snoc, Program.behind, stops]
  · apply unchanged
    rw [after_snoc, Program.behind, Program.generate, if_neg ready]

end Told

/-- The phase tells the truth behind any resolutions, checks and generations. -/
theorem told_of_whole (whole : Written.Whole source program)
    (direct : forall request, request ∈ history -> request.1 ≠ .compile) :
    Told program history := by
  induction history using List.reverseRecOn with
  | nil =>
    have nothing {Holds : List (Request × Config) -> Request × Config -> Prop} :
        ¬ Since Holds [] := by
      rintro ⟨before, request, later, impossible, _⟩
      cases before <;> cases impossible
    have parsed : (program.after []).phase = .parsed := whole.phase
    refine ⟨⟨{}, .fresh⟩, ?_, ?_⟩
    · rw [parsed]
      exact iff_of_false (by decide) nothing
    · rw [parsed]
      exact iff_of_false (by decide) fun checked => nothing checked.1
  | append_singleton history request ih =>
    have told := ih fun request member =>
      direct request (List.mem_append_left _ member)
    rcases request with ⟨request, config⟩
    cases request with
    | resolve => exact told.resolve whole config
    | check => exact told.check whole config
    | generate => exact told.generate whole config
    | compile => exact absurd rfl (direct _ (List.mem_append_right _ List.mem_cons_self))

/-- Where all code was generated under settings that agree with some others, a program is in a state
that it gets into under those. -/
theorem stage_of_streams (whole : Written.Whole source program)
    (direct : forall request, request ∈ history -> request.1 ≠ .compile) {config}
    (same : forall settings, Streamed program history settings -> SameCode settings config) :
    Stage config program (program.after history) := by
  induction history using List.reverseRecOn with
  | nil => exact .fresh
  | append_singleton history request ih =>
    have stage := ih
      (fun request member => direct request (List.mem_append_left _ member))
      (fun settings streamed => same settings (streamed.snoc request))
    rcases request with ⟨request, settings⟩
    rw [after_snoc]
    cases request with
    | resolve => exact stage.behind whole (by simp)
    | check => exact stage.behind whole (by simp)
    | compile => exact absurd rfl (direct _ (List.mem_append_right _ List.mem_cons_self))
    | generate =>
      by_cases ready : (program.after history).phase.reaches .checked = true
      · rcases phase_of_generation whole stage settings ready
            with ⟨placed, generated, answers, _⟩ | stops
        · have streamed : Streamed program (history ++ [(.generate, settings)]) settings :=
            ⟨history, [], generated, rfl, by rw [answers]⟩
          exact stage.behind whole fun _ => same settings streamed
        · rw [Program.behind, stops]
          exact stage
      · rw [Program.behind, Program.generate, if_neg ready]
        exact stage

end Runs

/-! ## What the phase vouches for -/

section Notes

variable {source : Int64} {settings : Config} {program state : Program}

theorem resolved_of_stage (whole : Written.Whole source program)
    (stage : Stage settings program state) (ready : state.phase.reaches .resolved = true) :
    Annotations.Resolved state := by
  rcases stage.past whole with rfl | ⟨extended, _⟩
  · rw [whole.phase] at ready
    exact absurd ready (by decide)
  · rcases stage.check whole settings ready with ⟨resolved, _, _, diagnostics, _, accepted, _⟩
    have judged := (Resolution.resolve_iff_scoped settings whole resolved).mp
      ⟨diagnostics, accepted⟩
    rw [History.tree_eq whole accepted] at extended
    exact (Annotations.resolved_of_scoped whole judged).of_extends extended

theorem checked_of_stage (whole : Written.Whole source program)
    (stage : Stage settings program state) (ready : state.phase.reaches .checked = true) :
    Annotations.Checked state := by
  rcases stage.generate whole ⟨rfl, rfl⟩ ready with ⟨resolved, checked, placed, diagnostics,
    findings, _, accepted, passes, generates, answers, _⟩
  have judged := (Resolution.resolve_iff_scoped settings whole resolved).mp ⟨diagnostics, accepted⟩
  have typed := (Typing.check_iff_typed settings whole judged checked).mp ⟨findings, passes⟩
  -- The state and the checked program differ from the lowered one in their entries only.
  have lowered :=
    (Annotations.checked_of_typed whole typed).of_placed (placed_of_generate generates)
  exact lowered.of_placed (placed_of_generate answers).symm

end Notes

/-- The phase of a program can be trusted behind a history. -/
structure Truthful (program : Program) (history : List (Request × Config)) : Prop where
  /-- It is at least resolved if and only if the latest resolution was passed. -/
  resolved : (program.after history).phase.reaches .resolved = true
    <-> ResolvedLast program history
  /-- It is at least checked if and only if a check has been passed since, too. -/
  checked : (program.after history).phase.reaches .checked = true
    <-> CheckedSince program history
  resolvedNotes : (program.after history).phase.reaches .resolved = true ->
    Annotations.Resolved (program.after history)
  checkedNotes : (program.after history).phase.reaches .checked = true ->
    Annotations.Checked (program.after history)
  /-- A check behind a closed gate is not passed and changes nothing. -/
  refusesCheck : (program.after history).phase.reaches .resolved = false ->
    forall config, exists findings,
      (program.after history).check config = (program.after history, .ok ⟨false, findings⟩)
  /-- Behind a closed gate there is no code, and nothing changes. -/
  refusesGenerate : (program.after history).phase.reaches .checked = false ->
    forall config, exists error,
      (program.after history).generate config = (program.after history, .ok (.error error))
  /-- Behind an open gate there is code, unless code was generated under settings that do not agree
  on the two features that reach it. -/
  generates : forall config,
    (forall settings, Streamed program history settings -> SameCode settings config) ->
    ((exists generated, ((program.after history).generate config).2 = .ok (.ok generated))
      <-> (program.after history).phase.reaches .checked = true)
  /-- Under all other settings there is code as well, or a function would have to be placed again
  and nothing changes. -/
  stops : (program.after history).phase.reaches .checked = true -> forall config,
    (exists generated, ((program.after history).generate config).2 = .ok (.ok generated))
      ∨ (program.after history).generate config = (program.after history, .error .placedTwice)

/-- The phase is truthful.  Behind any resolutions, checks and generations, the phase of a decoded
program says which of them were passed, and what the passed ones note is in the tree. -/
theorem phase_truthful {bytes : List UInt8} {source : Int64} {program : Program}
    (decoded : Program.decode bytes source = .ok program) (history : List (Request × Config))
    (direct : forall request, request ∈ history -> request.1 ≠ .compile) :
    Truthful program history := by
  have whole := Written.whole_of_decode decoded
  have told := told_of_whole whole direct
  rcases told.stage with ⟨settings, stage⟩
  have closed : (program.after history).phase.reaches .checked = false -> forall config,
      (program.after history).generate config = (program.after history,
        .ok (.error (.notChecked (program.after history).phase))) := by
    intro early config
    rw [Program.generate, if_neg (Bool.eq_false_iff.mp early)]
  refine ⟨told.resolved, told.checked, resolved_of_stage whole stage,
    checked_of_stage whole stage, ?_, fun early config => ⟨_, closed early config⟩, ?_, ?_⟩
  · intro early config
    rw [Program.check, if_neg (Bool.eq_false_iff.mp early)]
    exact ⟨_, rfl⟩
  · intro config same
    constructor
    · rintro ⟨generated, answers⟩
      by_contra early
      rw [closed (Bool.eq_false_iff.mpr early) config] at answers
      cases answers
    · intro ready
      rcases (stage_of_streams whole direct same).generate whole ⟨rfl, rfl⟩ ready
          with ⟨_, _, _, _, _, generated, _, _, _, answers, _⟩
      exact ⟨generated, by rw [answers]⟩
  · intro ready config
    rcases phase_of_generation whole stage config ready with ⟨_, generated, answers, _⟩ | unchanged
    · exact .inl ⟨generated, by rw [answers]⟩
    · exact .inr unchanged

/-- Settings without the extent of the stack. -/
def extentless : Config := { features := fun feature => feature != .stackExtent }

/-- Requests that come too early, then a compilation, and then a resolution that sets the phase back
and a check that brings it forward again. -/
def wandering : List (Request × Config) :=
  [(.check, {}), (.generate, extentless), (.resolve, {}), (.check, {}), (.generate, {}),
    (.resolve, extentless), (.check, extentless)]

/-- Behind these requests, the phase of the small document vouches for all that is noted in it. -/
theorem phase_truthful_sample :
    Program.decode Written.sampleText 0 = .ok Written.sample
      ∧ (forall request, request ∈ wandering -> request.1 ≠ .compile)
      ∧ CheckedSince Written.sample wandering
      ∧ Annotations.Resolved (Written.sample.after wandering)
      ∧ Annotations.Checked (Written.sample.after wandering) := by
  have direct : forall request, request ∈ wandering -> request.1 ≠ .compile := by decide
  have truthful := phase_truthful Written.decode_sampleText wandering direct
  have ready : (Written.sample.after wandering).phase.reaches .checked = true := by decide +kernel
  exact ⟨Written.decode_sampleText, direct, truthful.checked.mp ready,
    truthful.resolvedNotes (reaches_resolved ready), truthful.checkedNotes ready⟩

/-- A compilation, request by request. -/
def straight : List (Request × Config) := [(.resolve, {}), (.check, {}), (.generate, {})]

/-- Generation does not give code whenever the phase is at least checked.  Behind a compilation of
the small document, settings without the extent of the stack move its function, and generation stops
although the gate is open. -/
theorem generate_stops_when_checked :
    Program.decode Written.sampleText 0 = .ok Written.sample
      ∧ (Written.sample.after straight).phase.reaches .checked = true
      ∧ ((Written.sample.after straight).generate extentless).2 = .error .placedTwice
      ∧ ¬ exists generated,
          ((Written.sample.after straight).generate extentless).2 = .ok (.ok generated) := by
  have whole := Written.whole_of_decode Written.decode_sampleText
  have direct : forall request, request ∈ straight -> request.1 ≠ .compile := by decide
  have evaluated : (Written.sample.after straight).phase.reaches .checked = true
      ∧ ((Written.sample.after straight).generate extentless).2.isOk = false := by
    decide +kernel
  rcases evaluated with ⟨ready, isError⟩
  rcases (told_of_whole whole direct).stage with ⟨settings, stage⟩
  rcases phase_of_generation whole stage extentless ready with ⟨_, _, answers, _⟩ | stops
  · rw [answers] at isError
    cases isError
  · rw [stops]
    refine ⟨Written.decode_sampleText, ready, rfl, ?_⟩
    rintro ⟨_, impossible⟩
    cases impossible

end Phases
end PCode
