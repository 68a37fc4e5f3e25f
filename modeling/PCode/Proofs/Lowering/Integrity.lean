import Mathlib.Algebra.Group.Nat.Defs
import PCode.Proofs.Lowering.Calls
import PCode.Proofs.Lowering.Items
import PCode.Proofs.Lowering.Regions

namespace PCode
namespace Lowering

open Static
open Stack

/-!
Integrity of control flow.

Control flow enters a region at its first address only: the prologue jumps to the main
code, and a call goes to the function that it names.  Inside a region every jump stays
inside, and the last instruction does not go on.  Whatever is announced about frames has
no part in this, so it holds for all settings.
-/

/-! ## Where calls come from -/

/-- Code whose calls all stand for calls among certain nodes. -/
def CallsAmong (nodes : Node -> Prop) (code : Code) : Prop :=
  forall instruction, instruction ∈ code.instructions -> instruction.opcode = .cup ->
    exists note name args callee, nodes (.call note name args (some callee))
      ∧ instruction = ⟨.cup, [.int args.length, .entry name (some callee.function)]⟩

variable {config : Config} {program placed checked : Program} {generated : Generated}
  {functionCode blockCode code : Code} {texts : List String} {name : String} {nodes : List Node}
  {address : Nat} {source : Int64}

/-- Every call in the code of a program stands for a call of the program. -/
theorem Arranged.callsAmong
    (arranged : Arranged config program placed generated functionCode blockCode) :
    CallsAmong program.Holds generated.code := by
  intro instruction member isCall
  cases arranged.items _ (Code.mem_instructions.mp member) with
  | numbers other _ => exact absurd isCall other
  | real _ | bool _ | char _ => cases isCall
  | call holds => exact ⟨_, _, _, _, holds, rfl⟩

/-! ## Sealed regions -/

/-- A region that control flow does not leave.  It is inside the code, its last
instruction ends it, whatever comes behind one of its instructions is in it, and so is
the printed target of each of its jumps. -/
structure Sealed (code : List Instruction) (texts : List String) (region : Region) : Prop where
  inside : region.entry < region.stop ∧ region.stop <= code.length
  closed : code[region.stop - 1]? = some ⟨region.last, []⟩
  flows : forall address instruction next, region.Has address ->
    code[address]? = some instruction -> Leads instruction address next -> region.Has next
  jumps : forall address instruction, region.Has address -> code[address]? = some instruction ->
    instruction.opcode.jumps = true ->
    exists target : Nat, region.Has target ∧ instruction.operands = [.int target]
      ∧ texts[address]? = some (instruction.opcode.mnemonic ++ " " ++ toString target)

theorem text_int (bindings : Bindings) (opcode : Opcode) (value : Int) :
    Instruction.text bindings ⟨opcode, [.int value]⟩
      = .ok (opcode.mnemonic ++ " " ++ toString value) := by
  refine congrArg Except.ok ?_
  show opcode.mnemonic ++ (" " ++ toString value ++ "") = opcode.mnemonic ++ " " ++ toString value
  rw [String.append_empty, ← String.append_assoc]

theorem Region.Stands.sealed {region before opening after}
    (stands : region.Stands config generated.code.instructions before opening code after)
    (listed : generated.code.texts generated.bindings = .ok texts) :
    Sealed generated.code.instructions texts region where
  inside := by
    have total := congrArg List.length stands.joined
    rw [List.length_append, List.length_append, ← stands.stop] at total
    exact ⟨stands.entered.1.2, by omega⟩
  closed := stands.closed
  flows := by
    intro address instruction next has found leads
    rcases stands.orderly has with ⟨same, foundSame, orderly⟩
    cases foundSame.symm.trans found
    exact (orderly.flows next leads).1
  jumps := by
    intro address instruction has found jumps
    rcases stands.orderly has with ⟨same, foundSame, orderly⟩
    cases foundSame.symm.trans found
    rcases orderly.jumps jumps with ⟨target, operands, _⟩
    refine ⟨target, (orderly.flows target (.jump jumps operands)).1, operands, ?_⟩
    rcases Code.text_of_textsFrom listed found with ⟨text, rendered, printed⟩
    rcases instruction with ⟨opcode, _⟩
    cases operands
    rw [text_int] at rendered
    cases rendered
    exact printed

/-- The region of a function is sealed, and it starts where its frame is set up. -/
def SealedFunction (code : List Instruction) (texts : List String) (region : Region) : Prop :=
  Sealed code texts region ∧ exists size, code[region.entry]? = some ⟨.ssp, [.int size]⟩

theorem sealed_of_lowerFunction (listed : generated.code.texts generated.bindings = .ok texts)
    {before after size body} (flat : netEffect before = 0)
    (lowered : lowerFunction config before.length name size body = .ok code)
    (joined : generated.code.instructions = before ++ code.instructions ++ after) :
    SealedFunction generated.code.instructions texts
      (.ofFunction config before.length code.size body) := by
  rcases stands_of_lowerFunction flat lowered joined with ⟨bodyCode, stands⟩
  refine ⟨stands.sealed listed, size.toInt, ?_⟩
  have first := stands.getElem?_eq 0
  rw [Region.instructions, frameCode, Code.instructions_append] at first
  exact first (Nat.zero_lt_succ _)

/-! ## Calls that land -/

/-- A call instruction with its text: it stands for a call of the program, and its target
is the first address of the region of the function that the call names. -/
inductive CallLands (checked placed : Program) (regions : List Region) (text : String) :
    Instruction -> Prop
  | intro {note declNote name args params callee result body signature region} :
    checked.Holds (.call note name args (some callee)) ->
    placed.functions[callee.function]?
      = some (.funcDecl declNote name params result body signature (some region.entry)) ->
    regions[callee.function]? = some region ->
    text = "cup " ++ toString args.length ++ " " ++ toString (Int64.ofNat region.entry) ->
    CallLands checked placed regions text
      ⟨.cup, [.int args.length, .entry name (some callee.function)]⟩

/-- Functions and their regions have the same numbers. -/
theorem Regions.region_of_function {start stop regions}
    (ordered : Regions config start nodes regions stop) {index : Nat}
    {note params result body signature}
    (found : nodes[index]? = some (.funcDecl note name params result body signature
      (some address))) : exists region, regions[index]? = some region ∧ region.entry = address := by
  induction ordered generalizing index with
  | nil => cases found
  | cons _ _ ih =>
    cases index with
    | zero =>
      cases found
      exact ⟨_, rfl, rfl⟩
    | succ index => exact ih found

theorem text_cup {bindings function entry}
    (known : (Operand.entry name (some function)).text bindings = .ok entry) (count : Nat) :
    Instruction.text bindings ⟨.cup, [.int count, .entry name (some function)]⟩
      = .ok ("cup " ++ toString count ++ " " ++ entry) := by
  rw [Instruction.text, Instruction.operandTexts, Operand.text, Instruction.operandTexts, known]
  refine congrArg Except.ok ?_
  show "cup" ++ (" " ++ toString count ++ (" " ++ entry ++ ""))
    = "cup " ++ toString count ++ " " ++ entry
  rw [String.append_empty, ← String.append_assoc, ← String.append_assoc, ← String.append_assoc]
  rfl

/-- Addresses of code that fits a machine's memory are printed as they are. -/
theorem toString_ofNat (fits : address < 2 ^ 63) :
    toString (Int64.ofNat address) = toString address := by
  have equal : (Int64.ofNat address).toInt = address := Int64.toInt_ofNat_of_lt fits
  show toString (Int64.ofNat address).toInt = toString address
  rw [equal]
  rfl

/-! ## Programs -/

/-- The name that a function is declared under. -/
def declaredName? : Node -> Option String
  | .funcDecl _ name _ _ _ _ _ => some name
  | _ => none

theorem names_of_signatures {structs layer behind index declared}
    (judged : ScopedSignatures structs layer index nodes declared behind) :
    declared.map declaredName? = nodes.map declaredName? := by
  induction judged with
  | nil => rfl
  | cons _ _ _ _ ih => rw [List.map_cons, ih]; rfl

theorem names_of_typed {env declared functions}
    (typed : List.Forall₂ (TypedFunction env) declared functions) :
    functions.map declaredName? = declared.map declaredName? := by
  induction typed with
  | nil => rfl
  | cons first _ ih =>
    cases first with
    | funcDecl _ _ _ _ => rw [List.map_cons, ih]; rfl

theorem Laid.names_eq {start placed} (laid : Laid config start nodes placed code) :
    placed.map declaredName? = nodes.map declaredName? := by
  induction laid with
  | nil => rfl
  | cons _ _ ih => rw [List.map_cons, ih]; rfl

/-- Code whose control flow is sealed.  It falls into the prologue, which jumps to the
main code, one region for each function, in the order of the declarations and without
gaps, and the main code, which is the rest.  All regions are sealed, those of functions
start with their frame at the entry that is noted in the function, and all calls land. -/
structure FlowSealed (config : Config) (program checked placed : Program) (generated : Generated)
    (texts : List String) (main : Nat) (regions : List Region) : Prop where
  listed : generated.code.texts generated.bindings = .ok texts
  prologue : exists size extent, generated.code.instructions.take (prologueSize config)
    = (frameCode config size extent).instructions ++ [⟨.ujp, [.int main]⟩]
  enters : texts[prologueSize config - 1]? = some ("ujp " ++ toString main)
  names : placed.functions.map declaredName? = program.functions.map declaredName?
  ordered : Regions config (prologueSize config) placed.functions regions main
  functions : forall region, region ∈ regions ->
    SealedFunction generated.code.instructions texts region
  mainCode : Sealed generated.code.instructions texts
    (.ofMain main generated.code.size placed.blocks)
  calls : forall (address : Nat) (instruction : Instruction),
    generated.code.instructions[address]? = some instruction -> instruction.opcode = .cup ->
    exists text, texts[address]? = some text ∧ CallLands checked placed regions text instruction
  exact : generated.code.size <= 2 ^ 63 -> forall region, region ∈ regions ->
    toString (Int64.ofNat region.entry) = toString region.entry

theorem Arranged.prologue_eq
    (arranged : Arranged config program placed generated functionCode blockCode) :
    generated.code.instructions.take (prologueSize config)
      = (frameCode config (mainFrameSize program.blocks)
          (Code.peak (blockCode ++ Code.emit .stp []))).instructions
        ++ [⟨.ujp, [.int (prologueSize config + functionCode.size : Nat)]⟩] := by
  rw [arranged.code, List.append_assoc, Code.instructions_append, ← instructions_prologue]
  exact List.take_left' (size_prologue _ _ _ _)

theorem Arranged.enters (arranged : Arranged config program placed generated functionCode blockCode)
    (listed : generated.code.texts generated.bindings = .ok texts) :
    texts[prologueSize config - 1]?
      = some ("ujp " ++ toString (prologueSize config + functionCode.size)) := by
  have size := size_frameCode config (mainFrameSize program.blocks)
    (Code.peak (blockCode ++ Code.emit .stp []))
  have found : generated.code.instructions[frameCodeSize config]?
      = some ⟨.ujp, [.int (prologueSize config + functionCode.size : Nat)]⟩ := by
    rw [← List.getElem?_take_of_lt (Nat.lt_succ_self (frameCodeSize config))]
    rw [show (frameCodeSize config).succ = prologueSize config from rfl, arranged.prologue_eq,
      List.getElem?_append_right (Nat.le_of_eq size), ← size]
    exact congrArg _ (Nat.sub_self _)
  rcases Code.text_of_textsFrom listed found with ⟨text, rendered, printed⟩
  rw [text_int] at rendered
  cases rendered
  exact printed

section Landing

variable (whole : Written.Whole source program) (typed : TypedProgram program checked)
  (arranged : Arranged config checked placed generated functionCode blockCode)

include whole typed arranged

/-- A call in a well-typed program is noted with the function that it names. -/
theorem declares_of_call {note args callee}
    (holds : checked.Holds (.call note name args (some callee))) :
    Declares checked.functions name callee := by
  cases typed with
  | intro structs signatures typedFunctions _ typedBlocks =>
    have finishedStructs := Resolution.signatures_finished structs
    have finished := signatures.finished finishedStructs
    have signed := Resolution.signed_of_scoped signatures finishedStructs whole.functions
    have ready := ready_of_typed structs signatures typedFunctions
    have calls := calls_of_typed structs signatures signed finished typedFunctions
    rcases arranged.emitted (stable_calls _) ⟨ready, calls⟩ structs signed typedFunctions
      typedBlocks holds rfl with ⟨good, hasType, _, _⟩
    rcases hasType.call_inversion with ⟨_, _, _, _, same, binds, _⟩
    cases same
    exact good.2 _ _ _ binds

/-- A call of a well-typed program lands where its function is placed. -/
theorem callLands_of_typed {regions main}
    (listed : generated.code.texts generated.bindings = .ok texts)
    (ordered : Regions config (prologueSize config) placed.functions regions main) {instruction}
    (found : generated.code.instructions[address]? = some instruction)
    (isCall : instruction.opcode = .cup) :
    exists text, texts[address]? = some text
      ∧ CallLands checked placed regions text instruction := by
  rcases arranged.callsAmong instruction (List.mem_of_getElem? found) isCall
      with ⟨note, name, args, callee, holds, rfl⟩
  rcases declares_of_call whole typed arranged holds
    with ⟨declNote, params, result, body, signature, entry, isFunction, _⟩
  rcases arranged.functions.placed_eq isFunction with ⟨place, isPlaced⟩
  rcases ordered.region_of_function isPlaced with ⟨region, isRegion, rfl⟩
  rcases Code.text_of_textsFrom listed found with ⟨text, rendered, printed⟩
  rw [text_cup (arranged.entry_text isPlaced)] at rendered
  cases rendered
  exact ⟨_, printed, .intro holds isPlaced isRegion rfl⟩

theorem flowSealed_of_typed (listed : generated.code.texts generated.bindings = .ok texts) :
    exists regions, FlowSealed config program checked placed generated texts
      (prologueSize config + functionCode.size) regions := by
  rcases arranged.regions (SealedFunction generated.code.instructions texts)
    (sealed_of_lowerFunction listed) with ⟨regions, ordered, sealedFunctions⟩
  rcases arranged.stands_main with ⟨_, _, _, stands⟩
  refine ⟨regions, ?_⟩
  exact {
    listed
    prologue := ⟨_, _, arranged.prologue_eq⟩
    enters := arranged.enters listed
    names := by
      cases typed with
      | intro _ signatures typedFunctions _ _ =>
        exact arranged.functions.names_eq.trans
          ((names_of_typed typedFunctions).trans (names_of_signatures signatures))
    ordered
    functions := sealedFunctions
    mainCode := arranged.kept.symm ▸ stands.sealed listed
    calls := fun _ _ found isCall =>
      callLands_of_typed whole typed arranged listed ordered found isCall
    exact := by
      intro fits region member
      have inside := (sealedFunctions region member).1.inside
      have length : generated.code.instructions.length = generated.code.size := rfl
      exact toString_ofNat (by omega) }

end Landing

/-- Control flow is sealed in the code of every accepted program. -/
theorem accepted_program_flowSealed {bytes : List UInt8} {source : Int64}
    {program resolved checked : Program} {resolving checking : Config}
    {diagnostics findings : List Diagnostic}
    (decoded : Program.decode bytes source = .ok program)
    (accepted : program.resolve resolving = (resolved, .ok ⟨true, diagnostics⟩))
    (passed : resolved.check checking = (checked, .ok ⟨true, findings⟩)) (config : Config) :
    exists placed generated, checked.generate config = (placed, .ok (.ok generated))
      ∧ exists texts main regions,
          FlowSealed config program checked placed generated texts main regions := by
  have whole := Written.whole_of_decode decoded
  have judged := (Resolution.resolve_iff_scoped resolving whole resolved).mp ⟨diagnostics, accepted⟩
  have typed := (Typing.check_iff_typed checking whole judged checked).mp ⟨findings, passed⟩
  rcases generate_of_typed config whole typed with ⟨placed, generated, generates, printable⟩
  rcases arranged_of_generate generates with ⟨_, _, arranged⟩
  rcases printable.texts with ⟨texts, listed⟩
  rcases flowSealed_of_typed whole typed arranged listed with ⟨regions, flowSealed⟩
  exact ⟨placed, generated, generates, texts, _, regions, flowSealed⟩

/-- Control flow is sealed in the code of the small document. -/
theorem accepted_program_flowSealed_sample :
    Program.decode Written.sampleText 0 = .ok Written.sample
      ∧ exists placed generated,
          ((Written.sample.resolve {}).1.check {}).1.generate {} = (placed, .ok (.ok generated))
            ∧ exists texts main regions,
                FlowSealed {} Written.sample ((Written.sample.resolve {}).1.check {}).1 placed
                  generated texts main regions := by
  rcases Resolution.resolve_sample with ⟨diagnostics, accepted⟩
  rcases Typing.check_sample with ⟨findings, passed⟩
  exact ⟨Written.decode_sampleText,
    accepted_program_flowSealed Written.decode_sampleText accepted passed {}⟩

end Lowering
end PCode
