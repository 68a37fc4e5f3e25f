import PCode.Diagnostic

namespace PCode
namespace Diagnostics

/-!
Errors among findings.

A phase reports errors and warnings in one list, and only errors count.  Most parts of a
phase report nothing but errors; then there is an error as soon as there is a finding.
-/

@[simp] theorem hasErrors_append (first second : List Diagnostic) :
    hasErrors (first ++ second) = (hasErrors first || hasErrors second) :=
  List.any_append

@[simp] theorem hasErrors_warn (config : Config) (warning : Warning) (span : Span)
    (message : String) : hasErrors (Diagnostic.warn config warning span message) = false := by
  unfold Diagnostic.warn
  split <;> rfl

theorem errors_append (first second : List Diagnostic) :
    errors (first ++ second) = errors first ++ errors second :=
  List.filter_append first second

theorem errors_eq_nil {findings} (harmless : hasErrors findings = false) :
    errors findings = [] := by
  rw [errors, List.filter_eq_nil_iff]
  intro finding member isError
  exact absurd (List.any_eq_true.mpr ⟨finding, member, isError⟩) (Bool.eq_false_iff.mp harmless)

theorem hasErrors_flatMap {Source : Type} {sources : List Source}
    {report : Source -> List Diagnostic}
    (harmless : forall source, source ∈ sources -> hasErrors (report source) = false) :
    hasErrors (sources.flatMap report) = false := by
  induction sources with
  | nil => rfl
  | cons source sources ih =>
    rw [List.flatMap_cons, hasErrors_append, harmless source List.mem_cons_self,
      ih (List.forall_mem_cons.mp harmless).2]
    rfl

/-- Findings that are errors, all of them. -/
def Severe (findings : List Diagnostic) : Prop :=
  forall finding, finding ∈ findings -> finding.isError = true

namespace Severe

variable {first second findings : List Diagnostic}

theorem nil : Severe [] := fun _ member => by cases member

theorem single (category : Category) (span : Span) (message : String) :
    Severe [Diagnostic.error category span message] := by
  intro finding member
  cases List.mem_singleton.mp member
  rfl

theorem append (left : Severe first) (right : Severe second) : Severe (first ++ second) := by
  intro finding member
  rcases List.mem_append.mp member with before | behind
  · exact left finding before
  · exact right finding behind

/-- Without errors there are no findings at all. -/
theorem hasErrors_eq (severe : Severe findings) : hasErrors findings = !findings.isEmpty := by
  cases findings with
  | nil => rfl
  | cons finding rest =>
    show (finding.isError || rest.any Diagnostic.isError) = true
    rw [severe finding List.mem_cons_self]
    rfl

theorem errors_eq (severe : Severe findings) : errors findings = findings :=
  List.filter_eq_self.mpr severe

end Severe

/-! ## Findings in other words -/

/-- What a finding says apart from its wording: whether it is an error, of which sort, and where. -/
def essence (finding : Diagnostic) : Verdict × Span := (finding.verdict, finding.span)

/-- The second findings are the first ones in other words, in the same order. -/
def Rephrases (findings later : List Diagnostic) : Prop :=
  later.map essence = findings.map essence

namespace Rephrases

variable {findings later findings' later' : List Diagnostic}

theorem append (first : Rephrases findings later) (second : Rephrases findings' later') :
    Rephrases (findings ++ findings') (later ++ later') := by
  rw [Rephrases, List.map_append, List.map_append, first, second]

theorem isEmpty_eq (rephrases : Rephrases findings later) : later.isEmpty = findings.isEmpty := by
  have lengths : later.length = findings.length := by
    simpa using congrArg List.length rephrases
  cases later <;> cases findings <;> simp_all

/-- A warning is rephrased by a warning of its flag at its place. -/
theorem warn (config : Config) (warning : Warning) (span : Span) (message message' : String) :
    Rephrases (Diagnostic.warn config warning span message)
      (Diagnostic.warn config warning span message') := by
  unfold Diagnostic.warn
  split <;> rfl

end Rephrases

/-! ## Findings of two runs -/

/-- How the findings of a run match those of another one, where both have the same settings or not,
and see the same names or not.  Under the `same` settings the later ones are the first ones in other
words, and with all names `kept` the errors are equal.  All findings are `Known`. -/
structure Matches (Known : Diagnostic -> Prop) (same kept : Prop)
    (findings later : List Diagnostic) : Prop where
  rephrases : same -> Rephrases findings later
  errors_eq : kept -> errors later = errors findings
  known : forall finding, finding ∈ findings -> Known finding

namespace Matches

variable {Known : Diagnostic -> Prop} {same kept : Prop}
  {findings later findings' later' : List Diagnostic}

theorem nil : Matches Known same kept [] [] := ⟨fun _ => rfl, fun _ => rfl, List.forall_mem_nil _⟩

theorem append (first : Matches Known same kept findings later)
    (second : Matches Known same kept findings' later') :
    Matches Known same kept (findings ++ findings') (later ++ later') where
  rephrases equal := (first.rephrases equal).append (second.rephrases equal)
  errors_eq equal := by
    rw [errors_append, errors_append, first.errors_eq equal, second.errors_eq equal]
  known := List.forall_mem_append.mpr ⟨first.known, second.known⟩

theorem guarded {condition : Prop} [Decidable condition]
    (here : Matches Known same kept findings later) :
    Matches Known same kept (if condition then findings else [])
      (if condition then later else []) := by
  split
  · exact here
  · exact .nil

theorem error {category category'} (span : Span) {message message'}
    (rephrased : category' = category) (equal : kept -> message' = message)
    (known : Known (Diagnostic.error category span message)) :
    Matches Known same kept [Diagnostic.error category span message]
      [Diagnostic.error category' span message'] := by
  subst rephrased
  exact ⟨fun _ => rfl, fun names => by rw [equal names],
    List.forall_mem_singleton.mpr known⟩

theorem warn (config config' : Config)
    (known : forall finding : Diagnostic, finding.isError = false -> Known finding)
    (warning : Warning) (span : Span) (message message' : String) :
    Matches Known (config = config') kept (Diagnostic.warn config warning span message)
      (Diagnostic.warn config' warning span message') where
  rephrases equal := equal ▸ .warn config warning span message message'
  errors_eq _ := by
    rw [errors_eq_nil (hasErrors_warn _ _ _ _), errors_eq_nil (hasErrors_warn _ _ _ _)]
  known finding member := known finding
    (Bool.eq_false_iff.mpr (List.any_eq_false.mp (hasErrors_warn _ _ _ _) finding member))

/-- Findings that match whatever the settings are. -/
theorem always {Known' : Diagnostic -> Prop} (here : Matches Known True kept findings later)
    (weaker : forall finding, Known finding -> Known' finding) :
    Matches Known' same kept findings later where
  rephrases _ := here.rephrases trivial
  errors_eq := here.errors_eq
  known finding member := weaker finding (here.known finding member)

theorem reports (here : Matches Known True kept findings later) :
    Matches (fun _ => True) same kept findings later :=
  here.always fun _ _ => trivial

theorem isEmpty_eq (here : Matches Known True kept findings later) :
    later.isEmpty = findings.isEmpty :=
  (here.rephrases trivial).isEmpty_eq

end Matches

end Diagnostics
end PCode
