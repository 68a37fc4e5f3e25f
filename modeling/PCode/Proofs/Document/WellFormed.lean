import PCode.Proofs.Document.Encoding
import PCode.Proofs.Outline

namespace PCode

/-!
The trees of documents.

Which trees are there to be compiled?  Those that documents give, and these are exactly the
well-formed ones: whole trees with finite real numbers.  Every well-formed tree has a document, and
a document that was read from a text gives no other tree.
-/

namespace Document

/-! ## Real numbers of a tree -/

theorem isFinite_of_realValue {value number}
    (legible : forall text, value = some (.number text) -> Json.IsNumeral text)
    (read : realValue value = .ok number) : number.isFinite = true := by
  rw [realValue.eq_def] at read
  split at read
  · cases read
  · cases read
    exact Binary64.isFinite_zero false
  · split at read
    · rename_i value equal
      cases read
      exact Binary64.isFinite_of_read (legible _ rfl) equal
    · cases read
  · cases read

/-- The real numbers in the program of a legible document are finite. -/
theorem isFinite_of_program {source} {document : Document} {program} (legible : document.Legible)
    (built : document.program source = .ok program) :
    forall note value, program.Holds (.real note value) -> value.isFinite = true := by
  intro note value holds
  rcases Written.reals_of_program legible built _ holds note value rfl with ⟨_, numeral, read⟩
  exact isFinite_of_realValue numeral read

/-! ## Exactly the well-formed trees -/

/-- A program as documents give it: without holes, with literals, lengths and places in their
ranges, with the operators of the table, with no note of a phase, and with every node in its own
surroundings. -/
structure WellFormed (source : Int64) (program : Program) : Prop where
  whole : Written.Whole source program
  finite : forall note value, program.Holds (.real note value) -> value.isFinite = true
  surrounded : exists outlines, program.outline? = some outlines ∧ program.Outlined outlines

/-- Documents give exactly the well-formed programs.  What holds of a document here, that its
numbers are numerals, holds of every document that is read from a text. -/
theorem exists_program_iff_wellFormed (source : Int64) (program : Program) :
    ((exists document : Document, document.Legible ∧ document.program source = .ok program)
      <-> WellFormed source program)
    ∧ (forall bytes document, Document.read bytes = .ok document -> document.Legible) := by
  refine ⟨⟨?_, ?_⟩, fun _ _ => legible_of_read⟩
  · rintro ⟨document, legible, built⟩
    have whole := Written.whole_of_program built
    exact ⟨whole, isFinite_of_program legible built, Program.outlined_of_whole whole⟩
  · intro wellFormed
    exact ⟨Written.documentOf program, Written.legible_documentOf program,
      Written.program_documentOf wellFormed.whole wellFormed.finite⟩

end Document
end PCode
