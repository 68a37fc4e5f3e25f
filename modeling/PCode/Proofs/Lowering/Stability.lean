import PCode.Proofs.Extension
import PCode.Proofs.Lowering.Layout

set_option linter.unusedSectionVars false

namespace PCode
namespace Lowering

open Node (Placed)

/-!
Lowering a program again.

Two settings reach the code: whether indices are checked, and whether frames announce their stack
extent.  Under settings that agree on both, the code is the same.  Lowering writes nothing into a
program but the entries of its functions, and a placed function is placed at the same address once
more.
-/

/-! ## Settings -/

/-- Settings under which code is the same. -/
structure SameCode (config config' : Config) : Prop where
  boundsCheck : config.features .boundsCheck = config'.features .boundsCheck
  stackExtent : config.features .stackExtent = config'.features .stackExtent

section Settings

variable {config config' : Config}

variable (same : SameCode config config')

include same

theorem indexCode_settings (length : Int64) (elem : Ty) :
    indexCode config length elem = indexCode config' length elem := by
  rw [indexCode, indexCode, same.boundsCheck]

mutual

theorem lowerExpr_settings (node : Node) (form : Form) :
    lowerExpr config form node = lowerExpr config' form node := by
  cases node with
  | member _ base =>
    rw [lowerExpr, lowerExpr, lowerExpr_settings base]
  | subscript _ array index =>
    simp only [lowerExpr, lowerExpr_settings array, lowerExpr_settings index,
      indexCode_settings same]
  | unary _ _ operand =>
    rw [lowerExpr, lowerExpr, lowerExpr_settings operand]
  | binary _ _ left right =>
    rw [lowerExpr, lowerExpr, lowerExpr_settings left, lowerExpr_settings right]
  | call _ _ args =>
    simp only [lowerExpr, lowerArgs_settings args]
  | _ => exact rfl

theorem lowerArgs_settings : forall (args : List Node)
    (params : List Ty), lowerArgs config params args = lowerArgs config' params args
  | [], _ => rfl
  | arg :: args, params => by
    rw [lowerArgs, lowerArgs, lowerExpr_settings arg, lowerArgs_settings args]

end

theorem lowerStore_settings (target : Lowered Code) (type : Ty) (value : Node) :
    lowerStore config target type value = lowerStore config' target type value := by
  simp only [lowerStore, lowerExpr_settings same]

mutual

theorem lowerStmt_settings (inFunction : Bool) (node : Node) (start : Nat) :
    lowerStmt config inFunction start node = lowerStmt config' inFunction start node := by
  cases node with
  | block _ stmts =>
    rw [lowerStmt, lowerStmt, lowerStmts_settings inFunction stmts]
  | varDecl _ _ _ init =>
    simp only [lowerStmt, lowerStore_settings same]
  | assign _ target value =>
    simp only [lowerStmt, lowerExpr_settings same, lowerStore_settings same]
  | branch _ test thenBody elseBody =>
    simp only [lowerStmt, lowerExpr_settings same, lowerStmt_settings inFunction thenBody,
      lowerStmt_settings inFunction elseBody]
  | loop _ test body =>
    simp only [lowerStmt, lowerExpr_settings same, lowerStmt_settings inFunction body]
  | ret _ value =>
    simp only [lowerStmt, lowerReturn, lowerExpr_settings same]
  | _ => exact rfl

theorem lowerStmts_settings (inFunction : Bool) :
    forall (nodes : List Node) (start : Nat),
      lowerStmts config inFunction start nodes = lowerStmts config' inFunction start nodes
  | [], _ => rfl
  | node :: nodes, start => by
    simp only [lowerStmts, lowerStmt_settings inFunction node,
      lowerStmts_settings inFunction nodes]

end

theorem frameCode_settings :
    frameCode config = frameCode config' := by
  funext size extent
  rw [frameCode, frameCode, same.stackExtent]

theorem frameCodeSize_settings :
    frameCodeSize config = frameCodeSize config' := by
  rw [frameCodeSize, frameCodeSize, same.stackExtent]

theorem lowerFunctions_settings (nodes : List Node) (start : Nat) :
    lowerFunctions config start nodes = lowerFunctions config' start nodes := by
  have function : lowerFunction config = lowerFunction config' := by
    funext start name size body
    rw [lowerFunction, lowerFunction, frameCode_settings same, frameCodeSize_settings same,
      lowerStmt_settings same]
  induction nodes generalizing start with
  | nil => rfl
  | cons node nodes ih =>
    cases node with
    | funcDecl note name params result body signature entry =>
      simp only [lowerFunctions, function, ih]
    | _ => rfl

theorem lowerBlocks_settings (nodes : List Node) (start number : Nat) :
    lowerBlocks config start number nodes = lowerBlocks config' start number nodes := by
  induction nodes generalizing start number with
  | nil => rfl
  | cons node nodes ih =>
    simp only [lowerBlocks, lowerStmt_settings same, ih]

/-- Under settings that agree on the two features, code is the same. -/
theorem generate_settings (program : Program) :
    program.generate config = program.generate config' := by
  have lower : program.lower config = program.lower config' := by
    simp only [Program.lower, prologueSize, prologue, frameCode_settings same,
      frameCodeSize_settings same, lowerFunctions_settings same, lowerBlocks_settings same]
  rw [Program.generate, Program.generate, lower]

end Settings

/-! ## Placed functions -/

section Again

variable {config : Config}

theorem Laid.placed {start nodes placed code} (laid : Laid config start nodes placed code) :
    List.Forall₂ Placed nodes placed := by
  induction laid with
  | nil => exact .nil
  | cons _ _ ih => exact .cons .funcDecl ih

/-- Functions that are lowered again keep their entries and their code. -/
theorem Laid.again {start nodes placed code} (laid : Laid config start nodes placed code) :
    lowerFunctions config start placed = (placed, .ok code) := by
  induction laid with
  | nil => rfl
  | @cons start note name params result body signature entry nodes placed code rest lowered _
    ih =>
    have known : Stream.place (some start) start = .ok start := if_pos rfl
    rw [lowerFunctions, known]
    dsimp only
    rw [lowered]
    dsimp only
    rw [ih]
    rfl

variable {program placed : Program} {generated : Generated}

theorem lower_again (lowered : program.lower config = (placed, .ok generated)) :
    program.Placed placed ∧ placed.lower config = (placed, .ok generated) := by
  rw [Program.lower] at lowered
  split at lowered
  · rename_i present
    rcases Prod.mk.inj lowered with ⟨placedEqual, generatedEqual⟩
    rcases Results.of_bind generatedEqual with ⟨functionCode, functionsLowered, next⟩
    have laid := laid_of_lowerFunctions (Prod.ext rfl functionsLowered)
    subst placedEqual
    refine ⟨⟨rfl, laid.placed, rfl⟩, ?_⟩
    rw [Program.lower, if_pos present]
    dsimp only
    rw [laid.again]
    exact Prod.ext rfl next
  · cases lowered

/-- Lowering does not look at the phase. -/
theorem lower_phase (config : Config) (program : Program) (phase : Phase) :
    { program with phase }.lower config
      = ({ (program.lower config).1 with phase }, (program.lower config).2) := by
  unfold Program.lower
  split <;> rfl

variable (generates : program.generate config = (placed, .ok (.ok generated)))

include generates

/-- A program with code is a lowered one in its last phase. -/
theorem lower_of_generate :
    exists lowered, program.lower config = (lowered, .ok generated)
      ∧ placed = { lowered with phase := .generated } := by
  rw [Program.generate] at generates
  split at generates
  · split at generates
    · rename_i lowered
      cases generates
      exact ⟨_, lowered, rfl⟩
    · cases generates
    · cases generates
  · cases generates

theorem placed_of_generate :
    program.Placed placed := by
  rcases lower_of_generate generates with ⟨lowered, lowers, rfl⟩
  exact (lower_again lowers).1.ofPhase _

theorem phase_of_generate :
    placed.phase = .generated := by
  rcases lower_of_generate generates with ⟨_, _, rfl⟩
  rfl

/-- Generating code again gives the same code and leaves the program as it is, whatever happened to
its phase in between. -/
theorem generate_again {phase} (ready : phase.reaches .checked = true) :
    { placed with phase }.generate config = (placed, .ok (.ok generated)) := by
  rcases lower_of_generate generates with ⟨lowered, lowers, rfl⟩
  rw [Program.generate, if_pos ready, lower_phase, lower_phase, (lower_again lowers).2]

end Again

end Lowering
end PCode
