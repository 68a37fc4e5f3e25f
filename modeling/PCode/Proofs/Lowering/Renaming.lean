import PCode.Proofs.Lowering.Erasure

namespace PCode
namespace Lowering

/-!
Lowering under new names.

Names reach the code in two places: in comments, and beside the entry of a called function, where
they serve for messages only.  Apart from them, the code of a renamed tree is the code of the tree,
and so the printed instructions are the same.
-/

/-! ## Texts -/

section Texts

variable {names : String -> String} (bindings : Bindings)

/-- Names do not show in the text of an operand, only in the reason why there is none. -/
theorem text_renameOperand (operand : Operand) :
    ((renameOperand names operand).text bindings).toOption
      = (operand.text bindings).toOption := by
  cases operand with
  | entry name tail =>
    cases tail with
    | none => rfl
    | some tail =>
      simp only [renameOperand, Operand.text]
      cases (bindings.tails[tail]?).join <;> rfl
  | _ => rfl

theorem operandTexts_cons (operand : Operand) (operands : List Operand) :
    (Instruction.operandTexts bindings (operand :: operands)).toOption
      = (operand.text bindings).toOption.bind fun text =>
          (Instruction.operandTexts bindings operands).toOption.map fun rest =>
            " " ++ text ++ rest := by
  rw [Instruction.operandTexts]
  cases operand.text bindings with
  | error cause => rfl
  | ok text => cases Instruction.operandTexts bindings operands <;> rfl

theorem text_rename (instruction : Instruction) :
    ((rename names instruction).text bindings).toOption = (instruction.text bindings).toOption := by
  have each (operands : List Operand) :
      (Instruction.operandTexts bindings (operands.map (renameOperand names))).toOption
        = (Instruction.operandTexts bindings operands).toOption := by
    induction operands with
    | nil => rfl
    | cons operand operands ih =>
      rw [List.map_cons, operandTexts_cons, operandTexts_cons, text_renameOperand, ih]
  have mapped (texts : Except Unresolved String) :
      (texts.map fun text => instruction.opcode.mnemonic ++ text).toOption
        = texts.toOption.map fun text => instruction.opcode.mnemonic ++ text := by
    cases texts <;> rfl
  simp only [Instruction.text, rename, mapped, each]

/-- The texts of code are the texts of its instructions. -/
theorem textsFrom_toOption (address : Nat) (code : Code) :
    (code.textsFrom bindings address).toOption
      = code.instructions.mapM fun instruction => (instruction.text bindings).toOption := by
  induction code generalizing address with
  | nil => rfl
  | cons item code ih =>
    cases item with
    | comment text => exact ih address
    | instruction instruction =>
      have instructions : Code.instructions (Item.instruction instruction :: code)
          = instruction :: Code.instructions code := rfl
      rw [instructions, List.mapM_cons, ← ih (address + 1), Code.textsFrom]
      cases instruction.text bindings with
      | error cause => rfl
      | ok text => cases Code.textsFrom bindings (address + 1) code <;> rfl

end Texts

/-! ## Code under new names -/

/-- Nothing changes but names. -/
def relabel (new : Renaming) : Turn := { names := new }

/-- Code under new names. -/
def Renames (new : Renaming) (code later : Code) : Prop :=
  later.instructions = code.instructions.map (rename new.names)

/-- Code that is the same apart from names has the same instruction texts. -/
theorem Renames.texts_eq {new code later} (renames : Renames new code later) (bindings : Bindings) :
    (later.texts bindings).toOption = (code.texts bindings).toOption := by
  rw [Code.texts, Code.texts, textsFrom_toOption, textsFrom_toOption, renames, List.mapM_map]
  simp only [Function.comp_def, text_rename]

variable {new : Renaming} {config : Config} {start : Nat} {code : Code}

theorem relabel_suits : (relabel new).Suits config config :=
  ⟨(Bool.and_true _).symm, (Bool.and_true _).symm⟩

theorem tree_relabel : (relabel new).tree = Node.rename new :=
  funext fun node => congrArg (Node.rename new) (Node.reindex_id node)

theorem length_relabel {offset} (inside : offset <= code.size) :
    (relabel new).move (start + offset)
      = start + ((relabel new).apply (code.instructions.take offset)).length := by
  rw [Follows.length_full rfl inside]
  rfl

/-- Functions are placed at the same addresses under new names. -/
theorem lowerFunctions_rename {nodes placed}
    (lowered : lowerFunctions config start nodes = (placed, .ok code)) :
    exists later, lowerFunctions config start (Node.renameEach new nodes)
        = (Node.renameEach new placed, .ok later)
      ∧ Turns (relabel new) code later := by
  induction nodes generalizing start placed code with
  | nil =>
    cases lowered
    exact ⟨[], rfl, .nil⟩
  | cons node nodes ih =>
    match node with
    | .funcDecl note name params result body signature entry =>
      rw [lowerFunctions] at lowered
      split at lowered
      · cases lowered
      · rename_i address given
        split at lowered
        · cases lowered
        · rename_i first firstLowered
          rcases Prod.mk.inj lowered with ⟨placedEqual, codeEqual⟩
          rcases Results.of_map codeEqual with ⟨rest, restLowered, joined⟩
          subst placedEqual joined
          rcases turns_function (relabel_suits : (relabel new).Suits config config) firstLowered
              fun offset inside => length_relabel (Nat.le_of_lt inside)
            with ⟨later, loweredLater, turns⟩
          rcases ih (Prod.ext rfl restLowered) with ⟨restLater, loweredRest, turnsRest⟩
          rw [tree_relabel] at loweredLater
          have here : lowerFunction config start (new.names name) (note.rename new).frameSize
              (body.rename new) = .ok later := loweredLater
          refine ⟨later ++ restLater, ?_, turns.append turnsRest⟩
          rw [Node.renameEach, Node.rename, lowerFunctions, given]
          dsimp only
          rw [here]
          dsimp only
          rw [turns.size_eq rfl, loweredRest]
          rfl

theorem mainFrameSize_rename (blocks : List Node) :
    mainFrameSize (Node.renameEach new blocks) = mainFrameSize blocks := by
  rw [Node.renameEach_eq_map, mainFrameSize, List.foldl_map]
  simp only [Node.note_rename]
  rfl

theorem entries_rename (program : Program) : (program.rename new).entries = program.entries := by
  have functions : (program.rename new).functions = program.functions.map (Node.rename new) :=
    Node.renameEach_eq_map new _
  rw [entries_eq, entries_eq, functions, List.map_map]
  refine List.map_congr_left fun node _ => ?_
  cases node <;> rfl

/-- A program that has code has it under new names. -/
theorem lower_rename (new : Renaming) {program placed : Program} {generated}
    (lowered : program.lower config = (placed, .ok generated)) :
    exists later, (program.rename new).lower config = (placed.rename new, .ok later)
      ∧ later.entries = generated.entries ∧ Turns (relabel new) generated.code later.code := by
  rw [Program.lower] at lowered
  split at lowered
  · rename_i isPresent
    rcases Prod.mk.inj lowered with ⟨placedEqual, generatedEqual⟩
    rcases Results.of_binds generatedEqual
      with ⟨functionCode, functionsLowered, blockCode, blocksLowered, equal⟩
    subst placedEqual
    cases equal
    have blocks : (program.rename new).blocks = program.blocks.map (Node.rename new) :=
      Node.renameEach_eq_map new _
    have present : (program.rename new).blocks.all Node.isPresent = true := by
      rw [blocks, List.all_map, ← isPresent]
      exact congrArg program.blocks.all (funext (Node.isPresent_rename new))
    rcases lowerFunctions_rename (Prod.ext rfl functionsLowered)
        with ⟨functionsLater, loweredFunctions, turnsFunctions⟩
    rcases turns_blocks (relabel_suits : (relabel new).Suits config config) blocksLowered
        fun offset inside => length_relabel inside
      with ⟨blocksLater, loweredBlocks, turnsBlocks⟩
    rw [tree_relabel, ← Node.renameEach_eq_map, ← turnsFunctions.size_eq rfl] at loweredBlocks
    have main : Turns (relabel new) (blockCode ++ Code.emit .stp [])
        (blocksLater ++ Code.emit .stp []) := turnsBlocks.append (.same rfl rfl)
    refine ⟨_, lower_eq present loweredFunctions loweredBlocks, entries_rename _, ?_⟩
    rw [main.peak_eq, turnsFunctions.size_eq rfl]
    refine .append (.append ?_ turnsFunctions) main
    rw [prologue, prologue, show mainFrameSize (program.rename new).blocks
      = mainFrameSize program.blocks from mainFrameSize_rename _]
    exact ((Turns.comment _ _).append (turns_frameCode relabel_suits _ _)).append
      (.jump rfl rfl rfl rfl)
  · cases lowered

/-- The code of a program is its own code under the old names: what jumps name are addresses. -/
theorem renames_of_turns {program placed : Program} {generated later}
    (lowered : program.lower config = (placed, .ok generated))
    (turns : Turns (relabel new) generated.code later) : Renames new generated.code later := by
  rcases lower_rename .keep lowered with ⟨same, loweredSame, _, turnsSame⟩
  rw [Program.rename_keep, Program.rename_keep, lowered] at loweredSame
  cases loweredSame
  rw [Turns, Turn.apply_full rfl, Turn.image_of_keep rfl] at turnsSame
  have image : (relabel new).image = rename new.names ∘ carry id id := rfl
  rw [Renames, turns, Turn.apply_full rfl, image, ← List.map_map]
  exact congrArg (List.map _) turnsSame.symm

end Lowering

/-- Generating code under new names gives the tree under new names, the same entries, and code that
is the same apart from names. -/
theorem Program.generate_rename (new : Renaming) (config : Config) {program placed : Program}
    {generated} (result : program.generate config = (placed, .ok (.ok generated))) :
    exists generated',
      (program.rename new).generate config = (placed.rename new, .ok (.ok generated'))
        ∧ generated'.entries = generated.entries
        ∧ Lowering.Renames new generated.code generated'.code := by
  have phase : (program.rename new).phase = program.phase := rfl
  unfold Program.generate at result ⊢
  rw [phase]
  split at result
  · rename_i checked
    rw [if_pos checked]
    split at result
    · rename_i behind generated lowered
      cases result
      rcases Lowering.lower_rename new lowered with ⟨generated', lowered', entries, turns⟩
      refine ⟨generated', ?_, entries, Lowering.renames_of_turns lowered turns⟩
      rw [lowered']
      rfl
    · cases result
    · cases result
  · cases result

end PCode
