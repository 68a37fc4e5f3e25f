import Mathlib.Data.List.Find
import Mathlib.Data.List.Pairwise
import PCode.Flags

namespace PCode

/-!
Command lines in two parts.

How an argument is read depends on what is defined, and neither on what was read before nor on the
order of the families, if no stem leads another one.  So arguments that are read to their end may be
followed by others, and these are read as if they were alone.
-/

/-- Neither stem leads the other one. -/
def Family.Apart (first second : Family) : Prop :=
  ¬ first.stem.toList <+: second.stem.toList ∧ ¬ second.stem.toList <+: first.stem.toList
deriving Decidable

instance : Std.Symm Family.Apart where
  symm _ _ neither := neither.symm

namespace FlagSet

/-! ## Families in another order -/

/-- Two sets with the same flags and values, and with families of which no stem leads another one.
The families have collected the same and may stand in another order, and the arguments of the second
set come behind those in `front`. -/
inductive Similar (front : List String) (set : FlagSet) : FlagSet -> Prop
  | intro (order : List Family) :
    set.families.Pairwise Family.Apart -> order.Perm set.families ->
    Similar front set { set with families := order, args := front ++ set.args }

section Similar

variable {front : List String} {set next later : FlagSet}

theorem Similar.apart (similar : Similar front set later) :
    set.families.Pairwise Family.Apart := by
  rcases similar with ⟨_, apart, _⟩
  exact apart

/-- At most one family takes an argument, so their order does not matter. -/
theorem Similar.read_eq (similar : Similar front set later) (arg : String) :
    later.read arg = set.read arg := by
  rcases similar with ⟨order, apart, reordered⟩
  have family (args : List String) (arg : List Char) :
      familyOf? { set with families := order, args } arg = set.familyOf? arg := by
    refine (List.find?_eq_find?_of_perm reordered.symm ?_).symm
    rintro first ⟨member, takes⟩ second ⟨member', takes'⟩
    by_contra different
    have neither := apart.forall member member' different
    rw [Bool.and_eq_true_iff, List.isPrefixOf_iff_prefix] at takes takes'
    rcases List.prefix_or_prefix_of_prefix takes.1 takes'.1 with leads | leads
    · exact neither.1 (List.cons_prefix_cons.mp leads).2
    · exact neither.2 (List.cons_prefix_cons.mp leads).2
  simp only [read, family]
  rfl

theorem Similar.argue (similar : Similar front set later) (more : List String) :
    Similar front { set with args := set.args ++ more }
      { later with args := later.args ++ more } := by
  rcases similar with ⟨order, apart, reordered⟩
  rw [List.append_assoc]
  exact .intro order apart reordered

theorem Similar.collect (similar : Similar front set later) (stem arg : String) :
    Similar front (set.collect stem arg) (later.collect stem arg) := by
  rcases similar with ⟨order, apart, reordered⟩
  refine .intro _ (List.pairwise_map.mpr (apart.imp ?_)) (reordered.map _)
  intro first second neither
  split <;> split <;> exact neither

/-- A setting is taken or refused in the same way. -/
theorem Similar.assign (similar : Similar front set later) (name setting : String) :
    exists turn : FlagSet -> FlagSet,
      later.assign name setting = (set.assign name setting).map turn
        ∧ forall next, set.assign name setting = .ok next -> Similar front next (turn next) := by
  rcases similar with ⟨order, apart, reordered⟩
  refine ⟨({ · with families := order, args := front ++ set.args }), ?_⟩
  rw [FlagSet.assign, FlagSet.assign, show find? { set with families := order, args := _ } name
    = set.find? name from rfl]
  cases set.find? name with
  | none => exact ⟨rfl, nofun⟩
  | some flag =>
    dsimp only
    cases flag.value.set setting with
    | error error => exact ⟨rfl, nofun⟩
    | ok value =>
      refine ⟨rfl, ?_⟩
      rintro next ⟨⟩
      exact .intro order apart reordered

/-- The same arguments are read in the same way, and leave similar sets. -/
theorem Similar.parseFrom (similar : Similar front set later) (arguments : List String) :
    Similar front (set.parseFrom arguments).1 (later.parseFrom arguments).1
      ∧ (later.parseFrom arguments).2 = (set.parseFrom arguments).2 := by
  fun_induction FlagSet.parseFrom set arguments generalizing later with
  | case1 => exact ⟨similar, rfl⟩
  | case2 set arg rest reading =>
    simp only [FlagSet.parseFrom, similar.read_eq, reading]
    exact ⟨similar.argue rest, trivial⟩
  | case3 set arg rest reading ih =>
    simp only [FlagSet.parseFrom, similar.read_eq, reading]
    exact ih (similar.argue [arg])
  | case4 set arg rest stem reading ih =>
    simp only [FlagSet.parseFrom, similar.read_eq, reading]
    exact ih (similar.collect stem arg)
  | case5 set arg rest error reading =>
    simp only [FlagSet.parseFrom, similar.read_eq, reading]
    exact ⟨similar, trivial⟩
  | case6 set arg rest name value reading next assigned ih =>
    rcases similar.assign name value with ⟨turn, turned, alike⟩
    simp only [FlagSet.parseFrom, similar.read_eq, reading, turned, assigned, Except.map]
    exact ih (alike next assigned)
  | case7 set arg rest name value reading error refused =>
    rcases similar.assign name value with ⟨turn, turned, _⟩
    simp only [FlagSet.parseFrom, similar.read_eq, reading, turned, refused, Except.map]
    exact ⟨similar, trivial⟩
  | case8 set arg name spelled reading =>
    simp only [FlagSet.parseFrom, similar.read_eq, reading]
    exact ⟨similar, trivial⟩
  | case9 set arg name spelled reading value rest next assigned ih =>
    rcases similar.assign name value with ⟨turn, turned, alike⟩
    simp only [FlagSet.parseFrom, similar.read_eq, reading, turned, assigned, Except.map]
    exact ih (alike next assigned)
  | case10 set arg name spelled reading value rest error refused =>
    rcases similar.assign name value with ⟨turn, turned, _⟩
    simp only [FlagSet.parseFrom, similar.read_eq, reading, turned, refused, Except.map]
    exact ⟨similar, trivial⟩

theorem Similar.trans (similar : Similar front set next) (reordered : Similar [] next later) :
    Similar front set later := by
  rcases similar with ⟨_, apart, first⟩
  rcases reordered with ⟨order, _, second⟩
  exact .intro order apart (second.trans first)

end Similar

/-! ## Arguments behind others -/

/-- The terminator stands behind arguments that are read without an error: it is not the setting of
a flag that waits for one. -/
def Meets (set : FlagSet) (arguments : List String) : Prop :=
  exists place, place < arguments.length
    ∧ arguments[place]? = some "--" ∧ (set.parseFrom (arguments.take place)).2 = none

instance (set : FlagSet) (arguments : List String) : Decidable (set.Meets arguments) := by
  unfold Meets
  infer_instance

section Meets

variable {set next last : FlagSet} {first : List String}

theorem readFlag_ne_terminator (dashes : String) (body : List Char) :
    set.readFlag dashes body ≠ .terminator := by
  have found (flag : Flag) (spelled : String) (setting : Option (List Char)) :
      readFound flag spelled setting ≠ .terminator := by
    unfold readFound
    split <;> try split
    all_goals exact Reading.noConfusion
  unfold readFlag
  dsimp only
  split
  · exact Reading.noConfusion
  · split
    · apply found
    · split
      · exact Reading.noConfusion
      · apply found

theorem eq_terminator {arg} (reading : set.read arg = .terminator) : arg = "--" := by
  rw [read] at reading
  split at reading
  · rename_i written
    exact String.toList_inj.mp written
  · exact absurd reading (readFlag_ne_terminator _ _)
  · cases reading
  · split at reading
    · cases reading
    · exact absurd reading (readFlag_ne_terminator _ _)
  · cases reading

/-- Arguments behind `front`, after which `next` goes on. -/
theorem append_behind (front : List String) {rest second result}
    (continues : forall more, set.parseFrom (front ++ more) = next.parseFrom more)
    (ih : ¬ next.Meets rest -> next.parseFrom (rest ++ second) = result)
    (unmet : ¬ set.Meets (front ++ rest)) : set.parseFrom (front ++ rest ++ second) = result := by
  rw [List.append_assoc, continues]
  refine ih ?_
  rintro ⟨place, bound, terminator, succeeds⟩
  refine unmet ⟨front.length + place, ?_, ?_, ?_⟩
  · rw [List.length_append]
    omega
  · rw [List.getElem?_append_right (Nat.le_add_right ..), Nat.add_sub_cancel_left, terminator]
  · rw [List.take_length_add_append, continues, succeeds]

/-- Arguments that are read to their end leave the set in which those behind them are read. -/
theorem parseFrom_append (succeeds : set.parseFrom first = (last, none))
    (unmet : ¬ set.Meets first) (second : List String) :
    set.parseFrom (first ++ second) = last.parseFrom second := by
  fun_induction FlagSet.parseFrom set first with
  | case1 set =>
    cases succeeds
    rfl
  | case2 set arg rest reading =>
    cases eq_terminator reading
    exact absurd ⟨0, Nat.succ_pos _, rfl, rfl⟩ unmet
  | case3 set arg rest reading ih | case4 set arg rest stem reading ih =>
    refine append_behind [arg] (fun more => ?_) (ih succeeds) unmet
    simp only [List.singleton_append, parseFrom, reading]
  | case6 set arg rest name value reading next assigned ih =>
    refine append_behind [arg] (fun more => ?_) (ih succeeds) unmet
    simp only [List.singleton_append, parseFrom, reading, assigned]
  | case9 set arg name spelled reading value rest next assigned ih =>
    refine append_behind [arg, value] (fun more => ?_) (ih succeeds) unmet
    simp only [List.cons_append, List.nil_append, parseFrom, reading, assigned]
  | _ => cases succeeds

end Meets

/-- Arguments that are read to their end may be followed by others.  Then both parts give what they
give one after the other, in whatever order the families are looked at.  Behind a terminator there
is nothing to read, whatever follows. -/
theorem parse_append {set last : FlagSet} {first : List String}
    (apart : set.families.Pairwise Family.Apart) (succeeds : set.parse first = (last, none))
    (unmet : ¬ Meets { set with args := [] } first) {order order' : List Family}
    (reordered : order.Perm set.families) (reordered' : order'.Perm last.families)
    (second : List String) :
    let whole := parse { set with families := order } (first ++ second)
    let after := parse { last with families := order' } second
    let ended := parse { set with families := order } (first ++ "--" :: second)
    (Similar last.args after.1 whole.1 ∧ whole.2 = after.2)
      ∧ Similar last.args { last with args := second } ended.1 ∧ ended.2 = none := by
  have similar : Similar [] { set with args := [] } { set with families := order, args := [] } :=
    .intro order apart reordered
  have joined := parseFrom_append succeeds unmet
  have apart' : last.families.Pairwise Family.Apart := by
    have read := (similar.parseFrom first).1.apart
    rwa [show parseFrom { set with args := [] } first = (last, none) from succeeds] at read
  constructor
  · have alone : Similar last.args { last with families := order', args := [] }
        { last with args := last.args ++ [] } :=
      .intro _ ((reordered'.pairwise_iff fun neither => neither.symm).mpr apart') reordered'.symm
    rw [List.append_nil] at alone
    have whole := similar.parseFrom (first ++ second)
    rw [joined] at whole
    have after := alone.parseFrom second
    exact ⟨after.1.trans whole.1, whole.2.trans after.2⟩
  · have ended := similar.parseFrom (first ++ "--" :: second)
    rw [joined] at ended
    exact ⟨.trans (.intro _ apart' (.refl _)) ended.1, ended.2⟩

/-- A set with two families, which are looked at in either order; the first terminator is a
setting. -/
theorem parse_append_crossed :
    let set : FlagSet :=
      { flags := [{ name := "out", value := .text "" }], families := [⟨"W", []⟩, ⟨"X", []⟩] }
    let crossed : FlagSet := { set with families := [⟨"X", []⟩, ⟨"W", []⟩] }
    let last := (set.parse ["-Wa", "b", "--out", "--"]).1
    let whole := crossed.parse ["-Wa", "b", "--out", "--", "-Xc", "d", "-out=e"]
    let ended := crossed.parse ["-Wa", "b", "--out", "--", "--", "-Xc", "d", "-out=e"]
    (last.args = ["b"] ∧ Similar ["b"] (last.parse ["-Xc", "d", "-out=e"]).1 whole.1
      ∧ whole.2 = none)
      ∧ Similar ["b"] { last with args := ["-Xc", "d", "-out=e"] } ended.1 ∧ ended.2 = none := by
  intro set crossed last whole ended
  have composed := @parse_append set last ["-Wa", "b", "--out", "--"] (by decide) (by decide)
    (by decide) crossed.families last.families (by decide) (.refl _) ["-Xc", "d", "-out=e"]
  exact ⟨⟨by decide, composed.1.1, by decide⟩, composed.2⟩

end FlagSet
end PCode
