import PCode.Proofs.Lowering.Regions
import PCode.Proofs.Semantics.Statements
import PCode.Proofs.Typing.Programs
import PCode.Proofs.Typing.Stability

namespace PCode
namespace Semantics

open Static
open Lowering
open Node (Extends ExtendsEach)

/-!
Blocks of the main program.

The layout of a block has been settled before the check, and the check leaves it as it is.
The code of the block stands somewhere in the code of the program, where its jumps lead
to.  Run on its own it does what the block means.
-/

/-! ## The frame of a block -/

mutual

/-- The check leaves the variables of a tree where they are. -/
theorem slots_of_extends {node later} : Extends node later -> later.slots = node.slots
  | .leaf _ | .member _ | .subscript _ _ | .unary _ | .binary _ _ | .call _ | .varDecl _
  | .assign _ _ | .ret _ => rfl
  | .branch _ thenBody elseBody => by
    rw [Node.slots, Node.slots, slots_of_extends thenBody, slots_of_extends elseBody]
  | .loop _ body => by rw [Node.slots, Node.slots, slots_of_extends body]
  | .block stmts => by rw [Node.slots, Node.slots, slots_of_extendsEach stmts]

theorem slots_of_extendsEach {nodes laters} :
    ExtendsEach nodes laters -> Node.slotsIn laters = Node.slotsIn nodes
  | .nil => rfl
  | .cons first rest => by
    rw [Node.slotsIn, Node.slotsIn, slots_of_extends first, slots_of_extendsEach rest]

end

variable {env : Env} {config : Config}

/-- The variables of a block have places in a frame of the size that the block asks for. -/
theorem inFrame_of_typed {node node' size} (typed : TypedTop env node node')
    (finished : env.Finished) (room : node'.note.frameSize.toInt <= size) :
    InFrame node'.slots size := by
  cases typed with
  | @block behind note stmts stmts' typedStmts bounded =>
    have finishedStart := Context.start_finished finished
    rcases Typing.checkStmts_of_typed none typedStmts finishedStart with ⟨_, judged, passed⟩
    have header : 0 <= Context.headerCells := by decide
    have row := judged.row finishedStart header bounded
    rw [← slots_of_extendsEach (Typing.fixed_checkStmts none _ passed).1] at row
    have exactSize : (Int64.ofInt behind.used).toInt = behind.used :=
      Ty.toInt_ofInt_cells (Int.le_trans header row.tiles.first_le_stop) bounded
    have enough : behind.used <= size := by
      rw [← exactSize]
      exact room
    rw [Node.slots]
    exact inFrame_of_row row header enough

/-! ## The code of a block -/

/-- The code of a block stands in the code of all blocks. -/
theorem block_of_lowerBlocks {written blocks} {start number index : Nat} {code block}
    (typed : List.Forall₂ (TypedTop env) written blocks)
    (lowered : lowerBlocks config start number blocks = .ok code)
    (found : written[index]? = some block) :
    exists checked piece before after, blocks[index]? = some checked
      ∧ TypedTop env block checked
      ∧ lowerStmt config false (start + List.length before) checked = .ok piece
      ∧ code.instructions = before ++ piece.instructions ++ after := by
  induction typed generalizing start number index code with
  | nil => cases found
  | @cons node checked _ _ here _ ih =>
    rw [lowerBlocks] at lowered
    rcases Results.of_binds lowered with ⟨first, firstLowered, rest, restLowered, ⟨⟩⟩
    have parts : Code.instructions ([.comment s!"block {number}"] ++ first ++ rest)
        = first.instructions ++ rest.instructions := by
      rw [Code.instructions_append, Code.instructions_append, Code.instructions_comment]
      rfl
    cases index with
    | zero =>
      cases found
      exact ⟨checked, first, [], rest.instructions, rfl, here, firstLowered, parts⟩
    | succ index =>
      rcases ih restLowered found
          with ⟨later, piece, before, after, listed, typedLater, pieceLowered, split⟩
      refine ⟨later, piece, first.instructions ++ before, after, listed, typedLater, ?_, ?_⟩
      · rw [List.length_append, ← Nat.add_assoc]
        exact pieceLowered
      · rw [parts, split]
        simp only [List.append_assoc]

/-- The code of the blocks comes behind the prologue and the functions. -/
theorem front_of_arranged {program placed generated functionCode blockCode}
    (arranged : Arranged config program placed generated functionCode blockCode) :
    exists front, List.length front = prologueSize config + functionCode.size
      ∧ generated.code.instructions = front ++ (blockCode.instructions ++ [⟨.stp, []⟩]) := by
  have joined := congrArg Code.instructions arranged.code
  rw [Code.instructions_append, Code.instructions_append, Code.instructions_append,
    Code.instructions_emit] at joined
  refine ⟨_, ?_, joined⟩
  rw [List.length_append, size_prologue]
  rfl

/-- The code of a block stands in the code of the program. -/
theorem block_of_arranged {program placed generated functionCode blockCode written} {index : Nat}
    {block} (arranged : Arranged config program placed generated functionCode blockCode)
    (typed : List.Forall₂ (TypedTop env) written program.blocks)
    (found : written[index]? = some block) :
    exists checked piece before after, program.blocks[index]? = some checked
      ∧ TypedTop env block checked
      ∧ lowerStmt config false (List.length before) checked = .ok piece
      ∧ generated.code.instructions = before ++ piece.instructions ++ after := by
  rcases block_of_lowerBlocks typed arranged.blocks found
      with ⟨checked, piece, before, after, listed, typedBlock, lowered, split⟩
  rcases front_of_arranged arranged with ⟨front, length, joined⟩
  refine ⟨checked, piece, front ++ before, after ++ [⟨.stp, []⟩], listed, typedBlock, ?_, ?_⟩
  · rw [List.length_append, length]
    exact lowered
  · rw [joined, split]
    simp only [List.append_assoc]

/-! ## Faithful code -/

/-- Code that does what a block means: every frame shows a store, the machine runs to the
end of the code if and only if the block ends, and then the frame shows the store that
the block leaves, with all other cells as before. -/
structure Faithful {Value : Type} (machine : Machine Value) (start : Nat)
    (code : List Instruction) (slots : List Slot) (scope : Scope) (block : Node) : Prop where
  shows : forall cells : Int -> Value, exists store, Represents slots cells store
  ends_iff : forall cells store, Represents slots cells store ->
    ((exists memory, Reaches machine start code ⟨start, ⟨[], cells⟩⟩ ⟨start + code.length, memory⟩)
      <-> exists after, Exec machine.toInterpretation scope block store after)
  agrees : forall cells store memory after, Represents slots cells store ->
    Reaches machine start code ⟨start, ⟨[], cells⟩⟩ ⟨start + code.length, memory⟩ ->
    Exec machine.toInterpretation scope block store after ->
    memory.stack = [] ∧ Represents slots memory.cells after ∧ Untouched slots cells memory.cells

/-- Code of the shapes that control flow relies on is faithful. -/
theorem faithful_of_compiled {Value : Type} {machine : Machine Value} {start code slots scope block}
    (compiled : Compiled machine slots scope block start code) :
    Faithful machine start code slots scope block where
  shows := exists_represents slots
  ends_iff := by
    intro cells store represents
    constructor
    · rintro ⟨memory, count, steps⟩
      exact exec_of_steps compiled .whole represents steps
    · rintro ⟨after, exec⟩
      rcases arrives_of_exec exec compiled .whole represents with ⟨cells', reaches, _, _⟩
      exact ⟨_, reaches⟩
  agrees := by
    intro cells store memory after represents ⟨count, steps⟩ exec
    rcases arrives_of_exec exec compiled .whole represents
        with ⟨cells', ⟨taken, front⟩, shown, untouched⟩
    rcases front.rest steps (step_end memory) with ⟨rest, _, remains⟩
    -- The machine has stopped where the block ends, so no steps are left.
    cases remains with
    | refl => exact ⟨rfl, shown, untouched⟩
    | next more _ =>
      rw [step_end] at more
      cases more

/-- The code of a well-typed block without calls is faithful on every machine whose frame
has room for the block. -/
theorem faithful_of_typed {Value : Type} {machine : Machine Value}
    {config env scope block checked start code} (bounds : config.features .boundsCheck = true)
    (finished : env.Finished) (agrees : Agrees checked.slots env scope) (first : scope.next = 0)
    (typed : TypedTop env block checked) (callFree : block.holdsKind .funcCall = false)
    (lowered : lowerStmt config false start checked = .ok code)
    (room : checked.note.frameSize.toInt <= machine.size) :
    Faithful machine start code.instructions checked.slots scope block := by
  have inFrame := inFrame_of_typed typed finished room
  cases typed with
  | @block behind note stmts stmts' typedStmts _ =>
    have setting : Setting machine config (Node.slotsIn stmts') ([] :: env) scope :=
      ⟨bounds, inFrame, finished.enter, agrees.enter⟩
    have places : Room (Node.slotsIn stmts') scope.next (Node.slotsIn stmts') := by
      rw [first]
      exact .whole
    rw [lowerStmt] at lowered
    have compiled := compiledAll_of_typed typedStmts setting places callFree
      (lowers_of_lowerStmts lowered)
    exact faithful_of_compiled (.block compiled)

/-- Lowering keeps the meaning of blocks without calls.  With bounds checked, every program
that is accepted has code, and the code of each of its blocks without calls does what the
block means, on every machine with a frame of the size that the block asks for. -/
theorem accepted_program_blocksFaithful {bytes : List UInt8} {source : Int64}
    {program resolved checked : Program} {config checking : Config}
    {diagnostics findings : List Diagnostic}
    (decoded : Program.decode bytes source = .ok program)
    (accepted : program.resolve config = (resolved, .ok ⟨true, diagnostics⟩))
    (passed : resolved.check checking = (checked, .ok ⟨true, findings⟩))
    (generating : Config) (bounds : generating.features .boundsCheck = true) :
    exists placed generated, checked.generate generating = (placed, .ok (.ok generated))
      ∧ forall (index : Nat) (block : Node), program.blocks[index]? = some block ->
          block.holdsKind .funcCall = false ->
          exists checkedBlock code before after, checked.blocks[index]? = some checkedBlock
            ∧ lowerStmt generating false (List.length before) checkedBlock = .ok code
            ∧ generated.code.instructions = before ++ code.instructions ++ after
            ∧ forall (Value : Type) (machine : Machine Value),
                checkedBlock.note.frameSize.toInt <= machine.size ->
                Faithful machine before.length code.instructions checkedBlock.slots
                  (Scope.start program) block := by
  have whole := Written.whole_of_decode decoded
  have judged := (Resolution.resolve_iff_scoped config whole resolved).mp ⟨diagnostics, accepted⟩
  have typed := (Typing.check_iff_typed checking whole judged checked).mp ⟨findings, passed⟩
  rcases generate_of_typed generating whole typed with ⟨placed, generated, generates, _⟩
  rcases arranged_of_generate generates with ⟨_, _, arranged⟩
  refine ⟨placed, generated, generates, ?_⟩
  intro index block found callFree
  cases typed with
  | intro structs signatures _ _ blocks =>
    rcases block_of_arranged arranged blocks found
        with ⟨checkedBlock, code, before, after, listed, typedBlock, lowered, split⟩
    refine ⟨checkedBlock, code, before, after, listed, lowered, split, ?_⟩
    intro Value machine room
    have finished := signatures.finished (Resolution.signatures_finished structs)
    have agrees := agrees_start checkedBlock.slots structs signatures
    exact faithful_of_typed bounds finished agrees rfl typedBlock callFree lowered room

/-- The code of the block with an array `a` of structures is faithful on the machine whose
frame has just the size that the block asks for. -/
theorem accepted_program_blocksFaithful_grid :
    exists placed generated block checkedBlock code before after,
      ((Written.grid.resolve {}).1.check {}).1.generate {} = (placed, .ok (.ok generated))
        ∧ Written.grid.blocks[0]? = some block ∧ block.holdsKind .funcCall = false
        ∧ generated.code.instructions = before ++ Code.instructions code ++ after
        ∧ Faithful (Machine.onWords checkedBlock.note.frameSize.toInt) before.length
            (Code.instructions code) (Node.slots checkedBlock) (Scope.start Written.grid)
            block := by
  rcases Resolution.resolve_grid with ⟨diagnostics, resolved⟩
  rcases Typing.check_grid with ⟨findings, checked⟩
  rcases accepted_program_blocksFaithful Written.decode_gridText resolved checked {} rfl
      with ⟨placed, generated, generates, faithful⟩
  have picked : (Written.grid.blocks[0]?.map fun block => block.holdsKind .funcCall)
      = some false := by
    decide +kernel
  rcases Option.map_eq_some_iff.mp picked with ⟨block, found, callFree⟩
  rcases faithful 0 block found callFree
      with ⟨checkedBlock, code, before, after, _, _, split, onEvery⟩
  exact ⟨placed, generated, block, checkedBlock, code, before, after, generates, found, callFree,
    split, onEvery Word (Machine.onWords checkedBlock.note.frameSize.toInt) (Int.le_refl _)⟩

end Semantics
end PCode
