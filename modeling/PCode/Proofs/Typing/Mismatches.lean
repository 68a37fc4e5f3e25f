import Mathlib.Data.List.Basic
import PCode.Proofs.Suite.Golden
import PCode.Proofs.Typing.Renaming

namespace PCode

/-!
Types and their texts.

Two types are equal exactly if messages write them alike.  The first letter of a text says which
form the type has, and what stands between its brackets gives the rest back: the name of a structure
may hold brackets itself, but it goes up to the last one, and a length holds none.  So a finding
that holds one type against another one never shows the same text twice.
-/

namespace Ty

/-- The letter that the text of a type starts with. -/
def initial : Ty -> Char
  | .unknown => '<'
  | .integer => 'I'
  | .boolean => 'B'
  | .real => 'R'
  | .char => 'C'
  | .other _ => 'K'
  | .struct _ _ => 'S'
  | .array _ _ => 'A'

theorem text_other (tag : Int64) : (other tag).text = "Kind(" ++ toString tag ++ ")" := rfl

theorem text_array (length : Int64) (elem : Ty) :
    (array length elem).text = "Array[" ++ toString length ++ "](" ++ elem.text ++ ")" := rfl

theorem head?_text (type : Ty) : type.text.toList.head? = some type.initial := by
  cases type with
  | other tag => simp [text_other, initial]
  | array length elem => simp [text_array, initial]
  | _ => simp [text, initial]

theorem text_ne {left right : Ty} (apart : left.initial ≠ right.initial) :
    left.text ≠ right.text := by
  intro same
  have heads := head?_text left
  rw [same, head?_text] at heads
  exact apart (Option.some.inj heads).symm

theorem int64_of_text {first second : Int64} (same : toString first = toString second) :
    first = second := by
  rw [Golden.toString_int64, Golden.toString_int64] at same
  have read := congrArg Json.int64? same
  rw [Json.int64?_integerText, Json.int64?_integerText] at read
  exact Option.some.inj read

/-- A length goes up to the first bracket behind it. -/
theorem takeWhile_length (length : Int64) (rest : List Char) :
    ((toString length).toList ++ ']' :: rest).takeWhile (· != ']') = (toString length).toList := by
  rw [List.takeWhile_append_of_pos, List.takeWhile_cons_of_neg (by decide), List.append_nil]
  intro char member
  rw [Golden.toString_int64, Json.integerText, String.toList_ofList, List.mem_append] at member
  rw [bne_iff_ne]
  rintro rfl
  rcases member with sign | digit
  · revert sign
    cases decide (length.toInt < 0) <;> decide
  · exact absurd ((Json.digits_toDigits _).all _ digit) (by decide)

/-- Types are equal exactly if they have the same text. -/
theorem equal_iff_text (left right : Ty) : left.equal right = true <-> left.text = right.text := by
  induction left, right using equal.induct with
  | case1 | case2 | case3 | case4 | case5 => exact ⟨fun _ => rfl, fun _ => rfl⟩
  | case6 tag tag' =>
    rw [equal, beq_iff_eq, text_other, text_other]
    refine ⟨fun same => same ▸ rfl, fun same => int64_of_text ?_⟩
    simpa using same
  | case7 name fields name' fields' => simp [equal, text]
  | case8 length elem length' elem' ih =>
    rw [equal, Bool.and_eq_true, beq_iff_eq, ih, text_array, text_array]
    constructor
    · rintro ⟨rfl, same⟩
      rw [same]
    · intro same
      have chars := congrArg String.toList same
      simp only [String.toList_append, List.append_assoc] at chars
      have inner := List.append_cancel_left chars
      have lengths := congrArg (List.takeWhile (· != ']')) inner
      have same' := int64_of_text (String.toList_inj.mp
        ((takeWhile_length length _).symm.trans (lengths.trans (takeWhile_length length' _))))
      subst same'
      exact ⟨rfl, by simpa using same⟩
  | case9 left right =>
    cases left <;> cases right <;>
      first
      | exact iff_of_false Bool.false_ne_true (text_ne (by simp [initial]))
      | grind

end Ty

namespace Typing

/-- Types are equal exactly if their texts are, so equality of types is an equivalence, and no error
of a check that holds a type against another one shows the same text for both of them. -/
theorem equality_coincides_with_text :
    (forall left right : Ty, left.equal right = true <-> left.text = right.text)
      ∧ Equivalence (fun left right : Ty => left.equal right = true)
      ∧ forall (program checked : Program) (config : Config) (judgement : Judgement),
          program.check config = (checked, .ok judgement) ->
          forall finding, finding ∈ judgement.diagnostics -> finding.isError = true ->
            exists issue span, finding = TypeIssue.foundAt issue span
              ∧ forall left right, issue.compared? = some (left, right) ->
                  left.text ≠ right.text := by
  refine ⟨Ty.equal_iff_text, ?_, ?_⟩
  · simp only [Ty.equal_iff_text]
    exact ⟨fun _ => rfl, Eq.symm, Eq.trans⟩
  · intro program checked config judgement answered finding member isError
    rcases check_rename .keep config config answered with ⟨_, _, _, found⟩
    rcases found.known finding member isError with ⟨issue, span, rfl, apart⟩
    refine ⟨issue, span, rfl, fun left right compared same => ?_⟩
    rw [← Ty.equal_iff_text, apart left right compared] at same
    cases same

end Typing
end PCode
