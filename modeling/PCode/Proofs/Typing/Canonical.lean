import PCode.Proofs.Typing.Stability

namespace PCode
namespace Typing

open Static

/-!
One type for each name.

Types are compared by the names of structures, and a declared type starts as a bare name.  This is
safe because the phases never hand such a name on: every type that they note stands for a structure
as it was declared, at any depth, and no two structures of a program have the same name.  So types
that compare as equal are the same tree.
-/

/-! ## Type checking -/

section Lawful

variable {Holds : Ty -> Prop} (lawful : Lawful Holds)

include lawful

theorem admits_checkFunction {config} (node : Node) {verified}
    (passed : checkFunction config node = .ok verified) (before : Admits Holds node.noted) :
    Admits Holds verified.part.noted := by
  unfold checkFunction at passed
  split at passed
  · rename_i note name params result body signature entry
    rcases Results.of_bind passed with ⟨inner, passedBody, ⟨⟩⟩
    simp only [Node.noted, admits_cons, admits_append] at before ⊢
    exact ⟨before.1, before.2.1, (fixed_checkStmt _ body passedBody).admits lawful before.2.2⟩
  · cases passed

omit lawful in
theorem admits_checkEach {check : Node -> Checked (Verified Node)} {nodes}
    (each : forall (node : Node) {verified}, check node = .ok verified ->
      Admits Holds node.noted -> Admits Holds verified.part.noted) {verified}
    (passed : checkEach check nodes = .ok verified) (before : Admits Holds (Node.notedIn nodes)) :
    Admits Holds (Node.notedIn verified.part) := by
  induction nodes generalizing verified with
  | nil =>
    cases passed
    exact admits_nil
  | cons node nodes ih =>
    rw [checkEach] at passed
    rcases Results.of_binds passed with ⟨first, passedFirst, rest, passedRest, ⟨⟩⟩
    simp only [Node.notedIn, admits_append] at before ⊢
    exact ⟨each node passedFirst before.1, ih passedRest before.2⟩

/-- Behind a check, whatever it says, all noted types have the property if they had it before. -/
theorem admits_check (config : Config) {program : Program}
    (before : Admits Holds program.noted) : Admits Holds (program.check config).1.noted := by
  simp only [Program.noted, admits_append] at before
  unfold Program.check
  split
  · split
    · rename_i checked judgement passed
      rcases Results.of_binds passed with ⟨functions, passedFunctions, blocks, passedBlocks, ⟨⟩⟩
      simp only [Program.noted, admits_append]
      exact ⟨⟨before.1.1,
        admits_checkEach (admits_checkFunction lawful) passedFunctions before.1.2⟩,
        admits_checkEach (fun node _ passed => (fixed_checkStmt none node passed).admits lawful)
          passedBlocks before.2⟩
    · simpa only [Program.noted, admits_append] using before
  · simpa only [Program.noted, admits_append] using before

end Lawful

/-! ## Canonical types -/

mutual

/-- A type whose structures are all as they were declared. -/
def Canonical (structs : Layer) : Ty -> Prop
  | .struct name fields =>
    structs.lookup name = some (.struct (.struct name fields)) ∧ CanonicalFields structs fields
  | .array _ elem => Canonical structs elem
  | _ => True

/-- Fields with such types. -/
def CanonicalFields (structs : Layer) : List (String × Ty) -> Prop
  | [] => True
  | (_, type) :: fields => Canonical structs type ∧ CanonicalFields structs fields

end

theorem canonicalFields_iff {structs fields} :
    CanonicalFields structs fields
      <-> forall field, field ∈ fields -> Canonical structs field.2 := by
  induction fields with
  | nil => exact ⟨fun _ => List.forall_mem_nil _, fun _ => trivial⟩
  | cons field fields ih =>
    rw [List.forall_mem_cons, ← ih]
    rfl

theorem lawful_canonical (structs : Layer) : Lawful (Canonical structs) where
  unknown := trivial
  integer := trivial
  boolean := trivial
  real := trivial
  char := trivial
  array := Iff.rfl
  field := fun canonical => canonicalFields_iff.mp canonical.2

/-- Where structures are as they were declared, types that compare as equal are the same. -/
theorem eq_of_equal {structs} : forall {left right}, Canonical structs left ->
    Canonical structs right -> left.equal right = true -> left = right
  | .struct name fields, right, canonical, canonicalRight, equal => by
    cases right with
    | struct name' fields' =>
      cases beq_iff_eq.mp equal
      cases canonical.1.symm.trans canonicalRight.1
      rfl
    | _ => cases equal
  | .array length elem, right, canonical, canonicalRight, equal => by
    cases right with
    | array length' elem' =>
      simp only [Ty.equal, Bool.and_eq_true, beq_iff_eq] at equal
      have inner : Canonical structs elem := canonical
      have innerRight : Canonical structs elem' := canonicalRight
      rw [equal.1, eq_of_equal inner innerRight equal.2]
    | _ => cases equal
  | .other tag, right, _, _, equal => by
    cases right with
    | other tag' => rw [beq_iff_eq.mp equal]
    | _ => cases equal
  | .unknown, right, _, _, equal | .integer, right, _, _, equal | .boolean, right, _, _, equal
  | .real, right, _, _, equal | .char, right, _, _, equal => by
    cases right <;> first | rfl | cases equal

/-! ## Structures -/

/-- What a structure is declared as stays in force. -/
theorem lookup_of_scopedStructs {layer behind nodes nodes' binding}
    (judged : ScopedStructs layer nodes nodes' behind) (found : layer.lookup name = some binding) :
    behind.lookup name = some binding := by
  induction judged with
  | nil => exact found
  | cons _ _ _ _ _ _ ih =>
    apply ih
    rw [lookup_snoc, found]
    rfl

/-- Structures are noted as they are declared. -/
theorem admits_structs {layer behind nodes nodes'}
    (judged : ScopedStructs layer nodes nodes' behind)
    (all : EnvAdmits (Canonical behind) [layer]) :
    Admits (Canonical behind) (Node.notedIn nodes') ∧ EnvAdmits (Canonical behind) [behind] := by
  induction judged with
  | nil => exact ⟨admits_nil, all⟩
  | @cons layer behind _ name _ _ fields _ _ judgedFields _ _ _ free rest ih =>
    have members := admits_fields (lawful_canonical behind).passes all judgedFields
    have declared : behind.lookup name = some (.struct (.struct name fields)) := by
      apply lookup_of_scopedStructs rest
      rw [lookup_snoc, free, if_pos rfl]
      rfl
    have canonical : Canonical behind (.struct name fields) :=
      ⟨declared, canonicalFields_iff.mpr members.2⟩
    have later := ih (all.push (admits_cons.mpr ⟨canonical, admits_nil⟩))
    simp only [Node.notedIn, Node.noted, admits_append, admits_cons]
    exact ⟨⟨⟨canonical, members.1⟩, later.1⟩, later.2⟩

/-- All types that are noted in a program that resolution accepts are canonical. -/
theorem canonical_of_scoped {source program resolved} (whole : Written.Whole source program)
    (judged : ScopedProgram program resolved) :
    exists structs, Admits (Canonical structs) resolved.noted := by
  cases judged with
  | @intro _ _ _ _ structLayer _ structs signatures functions _ blocks =>
    have passes := (lawful_canonical structLayer).passes
    have declared := admits_structs structs (Env.All.enter .nil)
    have bodies := admits_bodies passes whole signatures functions blocks declared.2.enter
    refine ⟨structLayer, ?_⟩
    simp only [Program.noted, admits_append]
    exact ⟨⟨declared.1, bodies.1⟩, bodies.2⟩

/-- Comparing structures by name is safe.  In a decoded program that resolution accepts, types that
were noted by resolution or by the check and that compare as equal are the same types, with the same
fields in the same order.  So they have the same size, and the same fields are found in them. -/
theorem equal_types_identical {bytes : List UInt8} {source : Int64} {program resolved : Program}
    {config : Config} {diagnostics : List Diagnostic}
    (decoded : Program.decode bytes source = .ok program)
    (accepted : program.resolve config = (resolved, .ok ⟨true, diagnostics⟩)) (checking : Config)
    {left right : Ty} (leftNoted : left ∈ resolved.noted ++ (resolved.check checking).1.noted)
    (rightNoted : right ∈ resolved.noted ++ (resolved.check checking).1.noted)
    (equal : left.equal right = true) :
    left = right ∧ left.size = right.size ∧ forall name, left.field? name = right.field? name := by
  have whole := Written.whole_of_decode decoded
  have judged := (Resolution.resolve_iff_scoped config whole resolved).mp ⟨diagnostics, accepted⟩
  rcases canonical_of_scoped whole judged with ⟨structs, noted⟩
  have all : Admits (Canonical structs) (resolved.noted ++ (resolved.check checking).1.noted) :=
    admits_append.mpr ⟨noted, admits_check (lawful_canonical structs) checking noted⟩
  have same : left = right := eq_of_equal (all left leftNoted) (all right rightNoted) equal
  exact ⟨same, congrArg Ty.size same, fun name => congrArg (Ty.field? name) same⟩

/-- The structure of the document with an array, as it is declared. -/
def point : Ty := .struct "P" [("x", .integer), ("r", .array 3 .integer)]

/-- In the document with an array, resolution notes the whole structure at its declaration and the
check at an element of the array.  The bare name compares as equal to it, and is noted nowhere. -/
theorem equal_types_identical_grid :
    (exists left right, left ∈ (Written.grid.resolve {}).1.noted
        ∧ right ∈ ((Written.grid.resolve {}).1.check {}).1.noted ∧ left.equal right = true
        ∧ left = right ∧ left.size = right.size
        ∧ forall name, left.field? name = right.field? name)
      ∧ (Ty.struct "P" []).equal point = true
      ∧ Ty.struct "P" [] ∉ (Written.grid.resolve {}).1.noted
          ++ ((Written.grid.resolve {}).1.check {}).1.noted := by
  rcases Resolution.resolve_grid with ⟨_, accepted⟩
  have noted : point ∈ (Written.grid.resolve {}).1.noted
      ∧ point ∈ ((Written.grid.resolve {}).1.check {}).1.noted
      ∧ Ty.struct "P" [] ∉ (Written.grid.resolve {}).1.noted
          ++ ((Written.grid.resolve {}).1.check {}).1.noted := by
    decide +kernel
  rcases noted with ⟨resolved, checked, bare⟩
  refine ⟨⟨point, point, resolved, checked, by decide, ?_⟩, by decide, bare⟩
  exact equal_types_identical Written.decode_gridText accepted {}
    (List.mem_append_left _ resolved) (List.mem_append_right _ checked) (by decide)

end Typing
end PCode
