import Mathlib.Data.List.Basic
import PCode.Config

namespace PCode
namespace Config

/-!
Precedence of flags.

A flag decides some settings and leaves the others alone.  Of the flags for single settings the last
one that decides a setting has the last word on it, wherever the group flags stand, and a group flag
decides only what none of the others decides.  So what flags amount to can be read off for each
setting on its own, and flags that are carried out a second time find everything as they want it.
-/

/-- What flags can switch on and off. -/
inductive Setting where
  | warning (warning : Warning)
  | feature (feature : Feature)
deriving DecidableEq, Repr

/-- Whether a setting is on. -/
def isOn (config : Config) : Setting -> Bool
  | .warning warning => config.warnings warning
  | .feature feature => config.features feature

/-- What a change makes of a setting, if it touches that at all. -/
def Change.decides : Change -> Setting -> Option Bool
  | .allWarnings enabled, .warning kind => if kind = .pedantic then none else some enabled
  | .warning named enabled, .warning kind => if kind = named then some enabled else none
  | .feature named enabled, .feature kind => if kind = named then some enabled else none
  | _, _ => none

/-- What the last of the flags that touch a setting makes of it. -/
def lastWord (flags : List String) (setting : Setting) : Option Bool :=
  (flags.filterMap fun flag => (Change.ofFlag flag).decides setting).getLast?

/-- The flags that are no group flags. -/
def singles (flags : List String) : List String := flags.filter fun flag => !isGroupFlag flag

/-- What `-Wall` and `-Wno-all` make of a warning. -/
def wholesale (flags : List String) : Option Bool :=
  (flags.filterMap fun flag =>
    if flag = "-Wall" then some true else if flag = "-Wno-all" then some false else none).getLast?

/-- What the group flags make of a warning under a dialect. -/
def demanded (dialect : Dialect) (flags : List String) (warning : Warning) : Option Bool :=
  if warning = .pedantic then if "-Wpedantic" ∈ flags then some true else none
  else if "-Wpedantic" ∈ flags ∧ dialect = .bare ∧ (warning = .shadow ∨ warning = .unusedFunc) then
    some true
  else wholesale flags

/-- Two configurations with the same settings and the same dialect are one. -/
theorem eq_of_isOn {first second : Config} (settings : forall setting,
    first.isOn setting = second.isOn setting) (dialect : first.dialect = second.dialect) :
    first = second := by
  rcases first with ⟨features, warnings, _⟩
  rcases second with ⟨features', warnings', _⟩
  have sameFeatures : features = features' := funext fun feature => settings (.feature feature)
  have sameWarnings : warnings = warnings' := funext fun warning => settings (.warning warning)
  cases dialect
  rw [sameFeatures, sameWarnings]

theorem isOn_apply (config : Config) (change : Change) (setting : Setting) :
    (config.apply change).isOn setting = (change.decides setting).getD (config.isOn setting) := by
  cases change with
  | nothing => rfl
  | allWarnings enabled => cases setting with
    | feature feature => rfl
    | warning warning =>
      simp only [apply, isOn, Change.decides]
      split <;> rfl
  | warning named enabled => cases setting with
    | feature feature => rfl
    | warning warning =>
      simp only [apply, setWarning, isOn, Change.decides]
      split <;> rfl
  | feature named enabled => cases setting with
    | warning warning => rfl
    | feature feature =>
      simp only [apply, setFeature, isOn, Change.decides]
      split <;> rfl

theorem dialect_apply (config : Config) (change : Change) :
    (config.apply change).dialect = config.dialect := by
  cases change <;> rfl

theorem dialect_applyFlags (config : Config) (flags : List String) :
    (config.applyFlags flags).dialect = config.dialect := by
  induction flags generalizing config with
  | nil => rfl
  | cons flag flags ih => exact (ih _).trans (dialect_apply config _)

/-- A later flag goes before an earlier one. -/
theorem lastWord_cons (flag : String) (flags : List String) (setting : Setting) :
    lastWord (flag :: flags) setting
      = (lastWord flags setting).or ((Change.ofFlag flag).decides setting) := by
  rw [lastWord, lastWord, List.filterMap_cons]
  cases (Change.ofFlag flag).decides setting with
  | none => exact Option.or_none.symm
  | some enabled =>
    dsimp only
    rw [List.getLast?_cons]
    cases (List.filterMap _ flags).getLast? <;> rfl

/-- Of flags that are carried out in their order the last one has the last word. -/
theorem isOn_applyFlags (config : Config) (flags : List String) (setting : Setting) :
    (config.applyFlags flags).isOn setting
      = (lastWord flags setting).getD (config.isOn setting) := by
  induction flags generalizing config with
  | nil => rfl
  | cons flag flags ih =>
    have rest := ih (config.apply (.ofFlag flag))
    rw [isOn_apply] at rest
    rw [lastWord_cons]
    refine rest.trans ?_
    cases lastWord flags setting <;> rfl

/-! ## Group flags -/

/-- What a group flag makes of the settings. -/
theorem decides_of_isGroupFlag {flag} (group : isGroupFlag flag = true) :
    (Change.ofFlag flag).decides = fun
      | .feature _ => none
      | .warning .pedantic => if flag = "-Wpedantic" then some true else none
      | .warning _ =>
        if flag = "-Wall" then some true else if flag = "-Wno-all" then some false else none := by
  simp only [isGroupFlag, Bool.or_eq_true, beq_iff_eq] at group
  funext setting
  rcases group with (rfl | rfl) | rfl <;> rcases setting with kind | kind <;> cases kind <;> decide

theorem lastWord_groups_feature (flags : List String) (kind : Feature) :
    lastWord (flags.filter isGroupFlag) (.feature kind) = none := by
  rw [lastWord, List.getLast?_eq_none_iff, List.filterMap_eq_nil_iff]
  intro flag member
  rw [decides_of_isGroupFlag (List.mem_filter.mp member).2]

theorem lastWord_groups_pedantic (flags : List String) :
    lastWord (flags.filter isGroupFlag) (.warning .pedantic)
      = if "-Wpedantic" ∈ flags then some true else none := by
  induction flags with
  | nil => rfl
  | cons flag flags ih =>
    by_cases group : isGroupFlag flag = true
    · rw [List.filter_cons_of_pos group, lastWord_cons, ih, decides_of_isGroupFlag group]
      by_cases later : "-Wpedantic" ∈ flags
      · simp [later]
      · simp [later, eq_comm]
    · have other : "-Wpedantic" ≠ flag := by
        rintro rfl
        exact group rfl
      simp [List.filter_cons_of_neg group, ih, other]

theorem lastWord_groups_warning (flags : List String) {kind} (other : kind ≠ .pedantic) :
    lastWord (flags.filter isGroupFlag) (.warning kind) = wholesale flags := by
  rw [lastWord, wholesale, List.filterMap_filter]
  refine congrArg List.getLast? (List.filterMap_congr fun flag _ => ?_)
  split
  · rename_i group
    rw [decides_of_isGroupFlag group]
    cases kind with
    | pedantic => exact absurd rfl other
    | _ => rfl
  · rename_i single
    rw [if_neg, if_neg]
    · rintro rfl
      exact single rfl
    · rintro rfl
      exact single rfl

/-- The settings when the group flags have been carried out. -/
def prepared (config : Config) (flags : List String) : Config :=
  let grouped := config.applyFlags (flags.filter isGroupFlag)
  if "-Wpedantic" ∈ flags then grouped.applyPedantic else grouped

theorem dialect_prepared (config : Config) (flags : List String) :
    (config.prepared flags).dialect = config.dialect := by
  unfold prepared applyPedantic
  dsimp only
  split
  · split <;> exact dialect_applyFlags config _
  · exact dialect_applyFlags config _

theorem features_prepared (config : Config) (flags : List String) (kind : Feature) :
    (config.prepared flags).features kind = config.features kind := by
  have grouped := isOn_applyFlags config (flags.filter isGroupFlag) (.feature kind)
  rw [lastWord_groups_feature] at grouped
  unfold prepared applyPedantic
  dsimp only
  split
  · split <;> exact grouped
  · exact grouped

/-- Every warning gets what the group flags demand. -/
theorem warnings_prepared (config : Config) (flags : List String) (kind : Warning) :
    (config.prepared flags).warnings kind
      = (demanded config.dialect flags kind).getD (config.warnings kind) := by
  have grouped (kind : Warning) : (config.applyFlags (flags.filter isGroupFlag)).warnings kind = _ :=
    isOn_applyFlags config (flags.filter isGroupFlag) (.warning kind)
  have pedantic := grouped .pedantic
  rw [lastWord_groups_pedantic] at pedantic
  have others (kind : Warning) (other : kind ≠ .pedantic) :=
    lastWord_groups_warning flags other ▸ grouped kind
  unfold prepared demanded applyPedantic
  dsimp only
  rw [dialect_applyFlags]
  by_cases asked : "-Wpedantic" ∈ flags
  · rw [if_pos asked, Option.getD_some] at pedantic
    rw [if_pos asked, pedantic]
    cases config.dialect <;> cases kind <;> simp [asked, setWarning, pedantic, others, isOn]
  · cases kind <;> simp [asked, pedantic, others, isOn]

/-! ## All flags -/

theorem dialect_processFlags (config : Config) (flags : List String) :
    (config.processFlags flags).dialect = config.dialect :=
  (dialect_applyFlags _ _).trans (dialect_prepared config flags)

theorem features_processFlags (config : Config) (flags : List String) (kind : Feature) :
    (config.processFlags flags).features kind
      = (lastWord (singles flags) (.feature kind)).getD (config.features kind) := by
  rw [← features_prepared config flags]
  exact isOn_applyFlags _ _ (.feature kind)

theorem warnings_processFlags (config : Config) (flags : List String) (kind : Warning) :
    (config.processFlags flags).warnings kind
      = (lastWord (singles flags) (.warning kind)).getD
        ((demanded config.dialect flags kind).getD (config.warnings kind)) := by
  rw [← warnings_prepared config flags]
  exact isOn_applyFlags _ _ (.warning kind)

/-- Group flags may stand anywhere, as long as they keep their own order. -/
theorem processFlags_congr (config : Config) {flags others}
    (groups : others.filter isGroupFlag = flags.filter isGroupFlag)
    (same : singles others = singles flags) :
    config.processFlags others = config.processFlags flags := by
  have among (flags : List String) :
      "-Wpedantic" ∈ flags.filter isGroupFlag <-> "-Wpedantic" ∈ flags :=
    List.mem_filter.trans (and_iff_left rfl)
  have asked : "-Wpedantic" ∈ others <-> "-Wpedantic" ∈ flags := by
    rw [← among others, groups, among flags]
  have prepared : config.prepared others = config.prepared flags := by
    simp only [prepared, asked, groups]
  show (config.prepared others).applyFlags (singles others) = _
  rw [prepared, same]
  rfl

theorem processFlags_again (config : Config) (flags : List String) :
    (config.processFlags flags).processFlags flags = config.processFlags flags := by
  refine eq_of_isOn ?_ (dialect_processFlags _ flags)
  rintro (kind | kind)
  · simp only [isOn, warnings_processFlags, dialect_processFlags]
    cases lastWord (singles flags) (.warning kind) with
    | some enabled => rfl
    | none => cases demanded config.dialect flags kind <;> rfl
  · simp only [isOn, features_processFlags]
    cases lastWord (singles flags) (.feature kind) <;> rfl

end Config
end PCode
