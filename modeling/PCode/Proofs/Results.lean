import PCode.Judgement

namespace PCode
namespace Results

/-!
Results of steps that may fail.

A sequence of such steps gives a result exactly when each step does.  Proofs
about reading, checking and lowering take sequences apart with these facts and
never unfold the sequencing itself.
-/

variable {Failure First Second Third : Type} {first : Except Failure First}

theorem ok_bind (value : First) (next : First -> Except Failure Second) :
    (Except.ok value >>= next) = next value :=
  rfl

theorem of_bind {next : First -> Except Failure Second} {result : Second}
    (built : (first >>= next) = .ok result) :
    exists value, first = .ok value ∧ next value = .ok result := by
  cases first with
  | error failure => cases built
  | ok value => exact ⟨value, rfl, built⟩

/-- Two steps at once. -/
theorem of_binds {second : First -> Except Failure Second}
    {next : First -> Second -> Except Failure Third} {result}
    (built : (first >>= fun value => second value >>= next value) = .ok result) :
    exists value, first = .ok value
      ∧ exists value', second value = .ok value' ∧ next value value' = .ok result := by
  rcases of_bind built with ⟨value, answered, built⟩
  exact ⟨value, answered, of_bind built⟩

theorem of_map {change : First -> Second} {result : Second}
    (built : first.map change = .ok result) :
    exists value, first = .ok value ∧ change value = result := by
  cases first with
  | error failure => cases built
  | ok value =>
    cases built
    exact ⟨value, rfl, rfl⟩

/-- The answer of a phase that accepts a program. -/
theorem accepted_of_ok {answer : Program × Except Interruption Judgement}
    (accepted : answer.2.toOption.map Judgement.ok = some true) :
    exists diagnostics, answer = (answer.1, .ok ⟨true, diagnostics⟩) := by
  rcases answer with ⟨program, answer⟩
  cases answer with
  | error interruption => cases accepted
  | ok judgement =>
    rcases judgement with ⟨ok, diagnostics⟩
    cases accepted
    exact ⟨diagnostics, rfl⟩

/-! ## Two runs side by side -/

/-- Results of steps that go the same way: both fail, or both give a value and the values are
related. -/
inductive Alike {Failure First Second : Type} (related : First -> Second -> Prop) :
    Except Failure First -> Except Failure Second -> Prop
  | ok {first : First} {second} : related first second -> Alike related (.ok first) (.ok second)
  | error (failure failure' : Failure) : Alike related (.error failure) (.error failure')

namespace Alike

variable {Fourth : Type} {related : First -> Second -> Prop} {related' : Third -> Fourth -> Prop}

/-- Steps one after another go the same way if each of them does. -/
theorem bind {second} {next : First -> Except Failure Third}
    {next' : Second -> Except Failure Fourth} (alike : Alike related first second)
    (further : forall value value', related value value' ->
      Alike related' (next value) (next' value')) :
    Alike related' (first >>= next) (second >>= next') := by
  cases alike with
  | ok same => exact further _ _ same
  | error failure failure' => exact .error failure failure'

theorem exists_ok {second value} (alike : Alike related first second) (result : first = .ok value) :
    exists value', second = .ok value' ∧ related value value' := by
  cases alike with
  | ok same =>
    cases result
    exact ⟨_, rfl, same⟩
  | error failure failure' => cases result

end Alike

end Results
end PCode
