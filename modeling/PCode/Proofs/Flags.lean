import PCode.Flags

namespace PCode
namespace FlagSet

/-!
Values attached to a shorthand.

Behind one dash a letter may stand for the name of a flag, and its value may follow directly.  But
the text behind the dash is divided at its first equals sign before the letter is looked for.  So a
value without an equals sign arrives as it is written, and of any other one only what stands behind
the sign.
-/

/-! ## Division at an equals sign -/

section Division

variable {chars : List Char}

theorem cutSetting_of_free (free : '=' ∉ chars) : cutSetting chars = (chars, none) := by
  induction chars with
  | nil => rfl
  | cons char chars ih =>
    rw [cutSetting, if_neg (List.ne_of_not_mem_cons free).symm,
      ih (List.not_mem_of_not_mem_cons free)]

theorem cutSetting_append (free : '=' ∉ chars) (setting : List Char) :
    cutSetting (chars ++ '=' :: setting) = (chars, some setting) := by
  induction chars with
  | nil => rfl
  | cons char chars ih =>
    rw [List.cons_append, cutSetting, if_neg (List.ne_of_not_mem_cons free).symm,
      ih (List.not_mem_of_not_mem_cons free)]

end Division

/-- What arrives of a value that is attached to a letter. -/
def attached (value : String) : String :=
  match (cutSetting value.toList).2 with
  | some setting => String.ofList setting
  | none => value

/-- A value arrives as it is written exactly if it has no equals sign. -/
theorem attached_eq_iff (value : String) : attached value = value <-> '=' ∉ value.toList := by
  unfold attached
  by_cases signed : '=' ∈ value.toList
  · rcases List.eq_append_cons_of_mem signed with ⟨name, setting, divided, free⟩
    refine ⟨fun same => ?_, fun absent => absurd signed absent⟩
    rw [divided, cutSetting_append free] at same
    have lengths := congrArg (fun text => text.toList.length) same
    dsimp only at lengths
    rw [String.toList_ofList, divided, List.length_append, List.length_cons] at lengths
    omega
  · rw [cutSetting_of_free signed]
    exact ⟨fun _ => signed, fun _ => rfl⟩

/-! ## Shorthands -/

/-- A flag that takes a value can be set by a letter, which is not itself the name of a flag. -/
structure Shortened (set : FlagSet) (flag : Flag) (letter : Char) : Prop where
  found : set.find? flag.name = some flag
  short : set.shorthands.lookup (String.singleton letter) = some flag.name
  valued : flag.value.isToggle = false
  isLetter : letter.isAlpha = true
  notName : set.find? (String.singleton letter) = none
  named : flag.name ≠ ""
  undivided : '=' ∉ flag.name.toList

/-- What is written behind one dash belongs to no family and is not the name of a flag. -/
structure Uncaptured (set : FlagSet) (body : List Char) : Prop where
  family : set.familyOf? ('-' :: body) = none
  name : set.find? (String.ofList (cutSetting body).1) = none

variable {set : FlagSet} {flag : Flag} {letter : Char} {value : String}

/-- If no family takes an argument, no family takes its first two characters: the only stem that
leaves something of these is the empty one. -/
theorem familyOf?_letter {body} (uncaptured : set.familyOf? ('-' :: letter :: body) = none) :
    set.familyOf? ['-', letter] = none := by
  rw [familyOf?, List.find?_eq_none] at uncaptured ⊢
  intro family member taken
  refine uncaptured family member ?_
  have short : family.stem.toList.length + 1 < 2 := by
    simpa using (Bool.and_eq_true_iff.mp taken).2
  have empty : family.stem.toList = [] := List.length_eq_zero_iff.mp (by omega)
  simp [empty]

/-- A letter behind one dash is read as a flag, unless a family takes the argument. -/
theorem read_dash {arg body} (isLetter : letter.isAlpha = true)
    (written : arg.toList = '-' :: letter :: body)
    (family : set.familyOf? ('-' :: letter :: body) = none) :
    set.read arg = set.readFlag "-" (letter :: body) := by
  have noDash : letter ≠ '-' := by
    rintro rfl
    cases isLetter
  rw [read, written]
  split
  · rename_i same
    exact absurd (List.cons.inj (List.cons.inj same).2).1 noDash
  · rename_i same
    exact absurd (List.cons.inj (List.cons.inj same).2).1 noDash
  · rename_i same
    cases (List.cons.inj same).2
  · rename_i same
    cases (List.cons.inj same).2
    rw [family]
  · rename_i other
    exact absurd rfl (other _)

section Shortened

variable (shortened : Shortened set flag letter)

include shortened

theorem Shortened.cutSetting_cons (body : List Char) :
    cutSetting (letter :: body) = (letter :: (cutSetting body).1, (cutSetting body).2) := by
  have noSign : letter ≠ '=' := by
    rintro rfl
    cases shortened.isLetter
  rw [cutSetting, if_neg noSign]

theorem Shortened.isAscii : letter.toNat < 128 := by
  rcases Bool.or_eq_true_iff.mp shortened.isLetter with upper | lower
  · have small : letter.val <= 'Z'.val := (of_decide_eq_true upper).2
    exact Nat.lt_of_le_of_lt (UInt32.le_iff_toNat_le.mp small) (by decide)
  · have small : letter.val <= 'z'.val := of_decide_eq_true (Bool.and_eq_true_iff.mp lower).2
    exact Nat.lt_of_le_of_lt (UInt32.le_iff_toNat_le.mp small) (by decide)

/-- The flag of a letter is read with the setting behind an equals sign, and without one with all
that follows the letter. -/
theorem Shortened.readFlag_eq {body}
    (notName : set.find? (String.ofList (cutSetting (letter :: body)).1) = none) :
    exists spelled, set.readFlag "-" (letter :: body) = readFound flag spelled
      (if (cutSetting body).2.isNone && !(cutSetting body).1.isEmpty then some (cutSetting body).1
        else (cutSetting body).2) := by
  rw [shortened.cutSetting_cons] at notName
  refine ⟨"-" ++ String.ofList (letter :: (cutSetting body).1), ?_⟩
  simp only [readFlag, shortened.cutSetting_cons, notName, shortened.isAscii, decide_true,
    Bool.and_self, if_true, shortened.short, Option.bind_some, shortened.found]

/-- A letter with a value is read as a setting. -/
theorem Shortened.read_attached (uncaptured : Uncaptured set (letter :: value.toList))
    (nonempty : value ≠ "") :
    set.read ("-" ++ String.singleton letter ++ value) = .setting flag.name (attached value) := by
  have written : ("-" ++ String.singleton letter ++ value).toList
      = '-' :: letter :: value.toList := by simp
  rcases shortened.readFlag_eq uncaptured.name with ⟨spelled, reads⟩
  rw [read_dash shortened.isLetter written uncaptured.family, reads, attached]
  by_cases signed : '=' ∈ value.toList
  · rcases List.eq_append_cons_of_mem signed with ⟨name, setting, divided, free⟩
    rw [divided, cutSetting_append free]
    rfl
  · have letters : value.toList.isEmpty = false := by simpa using nonempty
    rw [cutSetting_of_free signed, letters]
    exact congrArg (Reading.setting flag.name) String.ofList_toList

/-- A letter alone is read as a flag that awaits its setting. -/
theorem Shortened.read_letter (family : set.familyOf? ['-', letter] = none) :
    exists spelled, set.read ("-" ++ String.singleton letter) = .awaiting flag.name spelled := by
  have written : ("-" ++ String.singleton letter).toList = ['-', letter] := by simp
  have notName : set.find? (String.ofList (cutSetting [letter]).1) = none := by
    rw [shortened.cutSetting_cons]
    exact shortened.notName
  rcases shortened.readFlag_eq notName with ⟨spelled, reads⟩
  refine ⟨spelled, ?_⟩
  rw [read_dash shortened.isLetter written family, reads]
  exact if_neg (Bool.eq_false_iff.mp shortened.valued)

/-- A name with a setting is read as it is written. -/
theorem Shortened.read_named (setting : String) :
    set.read ("--" ++ flag.name ++ "=" ++ setting) = .setting flag.name setting := by
  have written : ("--" ++ flag.name ++ "=" ++ setting).toList
      = '-' :: '-' :: (flag.name.toList ++ '=' :: setting.toList) := by simp
  have divided := cutSetting_append shortened.undivided setting.toList
  have name : String.ofList flag.name.toList = flag.name := String.ofList_toList
  cases characters : flag.name.toList with
  | nil => exact absurd (String.toList_eq_nil_iff.mp characters) shortened.named
  | cons first others =>
    rw [characters] at divided name
    rw [read, written, characters]
    simp only [List.cons_append] at divided ⊢
    simp only [readFlag, divided, name, shortened.found, readFound, String.ofList_toList]

end Shortened

/-- A value that is attached to a letter is read as if it were the next argument, or behind the name
of the flag and an equals sign, as far as it arrives.  All of it arrives exactly if it has no equals
sign itself. -/
theorem parse_attached (shortened : Shortened set flag letter)
    (uncaptured : Uncaptured set (letter :: value.toList)) (nonempty : value ≠ "")
    (rest : List String) :
    set.parse (("-" ++ String.singleton letter ++ value) :: rest)
        = set.parse (("-" ++ String.singleton letter) :: attached value :: rest)
      ∧ set.parse (("-" ++ String.singleton letter ++ value) :: rest)
        = set.parse (("--" ++ flag.name ++ "=" ++ attached value) :: rest)
      ∧ (attached value = value <-> '=' ∉ value.toList) := by
  have read_eq (arg : String) : read { set with args := [] } arg = set.read arg := rfl
  rcases shortened.read_letter (familyOf?_letter uncaptured.family) with ⟨spelled, awaits⟩
  refine ⟨?_, ?_, attached_eq_iff value⟩
  · simp only [parse, parseFrom, read_eq, shortened.read_attached uncaptured nonempty, awaits]
  · simp only [parse, parseFrom, read_eq, shortened.read_attached uncaptured nonempty,
      shortened.read_named]

/-- A flag for a text. -/
def output : Flag := { name := "output", shorthand := "o", value := .text "" }

/-- The set with this flag alone. -/
def single : FlagSet := { flags := [output], shorthands := [("o", "output")] }

/-- Of `a=b` only `b` arrives when it is attached to the letter. -/
theorem parse_attached_signed :
    Shortened single output 'o' ∧ Uncaptured single ['o', 'a', '=', 'b']
      ∧ single.parse ["-oa=b"] = single.parse ["-o", "b"]
      ∧ single.parse ["-oa=b"] = single.parse ["--output=b"]
      ∧ single.parse ["-o", "b"] ≠ single.parse ["-o", "a=b"] := by
  have shortened : Shortened single output 'o' :=
    ⟨by decide, by decide, by decide, by decide, by decide, by decide, by decide⟩
  have uncaptured : Uncaptured single ['o', 'a', '=', 'b'] := ⟨by decide, by decide⟩
  have arrives : attached "a=b" = "b" := by decide
  rcases @parse_attached single output 'o' "a=b" shortened uncaptured (by decide) []
    with ⟨next, named, _⟩
  rw [arrives] at next named
  exact ⟨shortened, uncaptured, next, named, by decide⟩

end FlagSet
end PCode
