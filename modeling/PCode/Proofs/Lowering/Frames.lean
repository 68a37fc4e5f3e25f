import PCode.Proofs.Lowering.Programs
import PCode.Proofs.Resolution.Frames

namespace PCode
namespace Lowering

open Static
open Resolution (SoundFrame soundFrame_of_scoped counted_of_scoped)

/-!
The main frame.

Blocks of the main program have frames of their own in the layout, but they run one
after another in one frame of the machine.  The prologue makes that frame as large as
the largest block asks for.  The check comes between the layout and the code, and it
leaves the sizes of frames as they are.
-/

/-! ## The size of the main frame -/

theorem toInt_max (left right : Int64) :
    left.toInt <= (max left right).toInt ∧ right.toInt <= (max left right).toInt := by
  have larger : max left right = if left <= right then right else left := rfl
  rw [larger]
  split
  · rename_i below
    exact ⟨Int64.le_iff_toInt_le.mp below, Int.le_refl _⟩
  · rename_i above
    have greater := mt Int64.le_iff_toInt_le.mpr above
    exact ⟨Int.le_refl _, by omega⟩

theorem le_foldl_max (start : Int64) (sizes : List Int64) :
    start.toInt <= (sizes.foldl max start).toInt
      ∧ forall size, size ∈ sizes -> size.toInt <= (sizes.foldl max start).toInt := by
  induction sizes generalizing start with
  | nil => exact ⟨Int.le_refl _, fun _ member => by cases member⟩
  | cons first sizes ih =>
    rcases ih (max start first) with ⟨above, each⟩
    rcases toInt_max start first with ⟨startBelow, firstBelow⟩
    refine ⟨Int.le_trans startBelow above, ?_⟩
    intro size member
    rcases List.mem_cons.mp member with rfl | later
    · exact Int.le_trans firstBelow above
    · exact each size later

theorem mainFrameSize_eq (blocks : List Node) :
    mainFrameSize blocks = (blocks.map fun block => block.note.frameSize).foldl max 0 := by
  rw [mainFrameSize, List.foldl_map]

/-- The main frame has room for every block. -/
theorem frameSize_le_main {blocks size}
    (member : size ∈ blocks.map fun block => block.note.frameSize) :
    size.toInt <= (mainFrameSize blocks).toInt := by
  rw [mainFrameSize_eq]
  exact (le_foldl_max 0 _).2 size member

/-! ## What the check keeps -/

theorem frameSize_of_checkEach {env nodes resolved verified}
    (judged : List.Forall₂ (ScopedTop env) nodes resolved)
    (passed : Typing.checkEach (Typing.checkStmt none) resolved = .ok verified) :
    (verified.part.map fun block => block.note.frameSize)
      = resolved.map fun block => block.note.frameSize := by
  induction judged generalizing verified with
  | nil =>
    cases passed
    rfl
  | cons here _ ih =>
    rw [Typing.checkEach] at passed
    rcases Results.of_binds passed with ⟨first, firstPassed, rest, restPassed, ⟨⟩⟩
    cases here with
    | block _ _ =>
      rw [Typing.checkStmt] at firstPassed
      rcases Results.of_bind firstPassed with ⟨inner, _, ⟨⟩⟩
      rw [List.map_cons, List.map_cons, ih restPassed]
      rfl

/-- The sizes of the blocks of a program are the same before and after the check. -/
theorem frameSize_of_check {config program resolved checked judgement}
    (judged : ScopedProgram program resolved)
    (passed : resolved.check config = (checked, .ok judgement)) :
    (checked.blocks.map fun block => block.note.frameSize)
      = resolved.blocks.map fun block => block.note.frameSize := by
  cases judged with
  | intro _ _ _ _ blocks =>
    rw [Program.check, if_pos (show Phase.resolved.reaches .resolved = true by decide)] at passed
    split at passed
    · rename_i run
      cases passed
      rcases Results.of_binds run with ⟨functions, _, verified, blocksPassed, ⟨⟩⟩
      exact frameSize_of_checkEach blocks blocksPassed
    · cases passed

/-! ## The first instruction -/

/-- Code starts by setting up the main frame. -/
theorem Arranged.first_eq {config program placed generated functionCode blockCode}
    (arranged : Arranged config program placed generated functionCode blockCode) :
    generated.code.instructions[0]?
      = some ⟨.ssp, [.int (mainFrameSize program.blocks).toInt]⟩ := by
  rw [arranged.code]
  rfl

/-- Frame layout is sound.  In every program that resolution accepts, each frame is in
order and each type is counted exactly; if the check accepts it too, the main frame of
its code has room for every block. -/
theorem accepted_program_framesSound {bytes : List UInt8} {source : Int64}
    {program resolved : Program} {config : Config} {diagnostics : List Diagnostic}
    (decoded : Program.decode bytes source = .ok program)
    (accepted : program.resolve config = (resolved, .ok ⟨true, diagnostics⟩)) :
    (forall owner, owner ∈ resolved.functions ++ resolved.blocks -> SoundFrame owner)
      ∧ (forall node, resolved.Holds node -> node.type.CountsExactly)
      ∧ forall checking generating checked findings,
          resolved.check checking = (checked, .ok ⟨true, findings⟩) ->
          exists placed generated size,
            checked.generate generating = (placed, .ok (.ok generated))
              ∧ generated.code.instructions[0]? = some ⟨.ssp, [.int size]⟩
              ∧ forall block, block ∈ resolved.blocks -> block.note.frameSize.toInt <= size := by
  have whole := Written.whole_of_decode decoded
  have judged := (Resolution.resolve_iff_scoped config whole resolved).mp ⟨diagnostics, accepted⟩
  refine ⟨soundFrame_of_scoped whole judged, counted_of_scoped whole judged, ?_⟩
  intro checking generating checked findings passed
  have typed := (Typing.check_iff_typed checking whole judged checked).mp ⟨findings, passed⟩
  rcases generate_of_typed generating whole typed with ⟨placed, generated, generates, _⟩
  rcases arranged_of_generate generates with ⟨_, _, arranged⟩
  refine ⟨placed, generated, _, generates, arranged.first_eq, ?_⟩
  intro block member
  apply frameSize_le_main
  rw [frameSize_of_check judged passed]
  exact List.mem_map_of_mem member

/-- The frames of the small document are in order. -/
theorem accepted_program_framesSound_sample :
    (forall owner, owner ∈ (Written.sample.resolve {}).1.functions
        ++ (Written.sample.resolve {}).1.blocks -> SoundFrame owner)
      ∧ exists placed generated size,
          ((Written.sample.resolve {}).1.check {}).1.generate {} = (placed, .ok (.ok generated))
            ∧ generated.code.instructions[0]? = some ⟨.ssp, [.int size]⟩
            ∧ forall block, block ∈ (Written.sample.resolve {}).1.blocks ->
                block.note.frameSize.toInt <= size := by
  rcases Resolution.resolve_sample with ⟨diagnostics, resolved⟩
  rcases Typing.check_sample with ⟨findings, checked⟩
  rcases accepted_program_framesSound Written.decode_sampleText resolved with ⟨frames, _, room⟩
  exact ⟨frames, room {} {} _ findings checked⟩

end Lowering
end PCode
