import PCode.Compilation
import PCode.Proofs.Lowering.Items
import PCode.Proofs.Lowering.Parts
import PCode.Proofs.Typing.Programs

namespace PCode
namespace Lowering

open Static

/-!
Accepted programs are compiled.

Whether code refers to functions that exist is a property of the whole program: a
call inside a body may name any function of the list, also a later one.  The
signatures fix how many there are before the first body is lowered, and lowering
gives each of them an entry.
-/

variable {count : Nat} {layer behind : Layer} {nodes declared : List Node} {env : Env}
  {source : Int64} {program : Program}

/-! ## Functions and blocks -/

/-- A function without an entry. -/
def Unplaced : Node -> Prop
  | .funcDecl _ _ _ _ _ _ entry => entry = none
  | _ => False

theorem unplaced_signatures {structs index}
    (judged : ScopedSignatures structs layer index nodes declared behind)
    (written : forall node, node ∈ nodes -> Written.Function source node) :
    forall node, node ∈ declared -> Unplaced node := by
  induction judged with
  | nil => exact fun node member => by cases member
  | cons _ _ _ _ ih =>
    intro node member
    rcases List.mem_cons.mp member with same | later
    · cases written _ List.mem_cons_self
      exact same ▸ rfl
    · exact ih (List.forall_mem_cons.mp written).2 node later

theorem lowerFunction_of_typed (config : Config) (callable : env.All (Callable count))
    {formals behind params params' stmts stmts' result}
    (judged : ScopedFormals (Context.start env) params params' formals)
    (scalar : result.isComposite = false)
    (typed : TypedStmts (some result) formals.enter stmts stmts' behind) (start : Nat)
    (name : String) (frameSize : Int64) (bodyNote : Note) :
    exists code, lowerFunction config start name frameSize (.block bodyNote stmts') = .ok code := by
  have inside := (callable_formals judged callable.enter).enter
  have returns : forall other, some result = some other -> other.isComposite = false :=
    fun other same => Option.some.inj same ▸ scalar
  rcases lowersStmts_of_typed config returns (start + frameCodeSize config) typed inside
      with ⟨code, lowers⟩
  rw [Option.isSome_some] at lowers
  rw [lowerFunction, lowerStmt, lowerStmts_of_lowers lowers]
  exact ⟨_, rfl⟩

theorem lowerFunctions_of_typed (config : Config) (callable : env.All (Callable count)) {functions}
    (typed : List.Forall₂ (TypedFunction env) declared functions)
    (unplaced : forall node, node ∈ declared -> Unplaced node) (start : Nat) :
    exists code, (lowerFunctions config start functions).2 = .ok code := by
  induction typed generalizing start with
  | nil => exact ⟨[], rfl⟩
  | cons first _ ih =>
    have fresh := unplaced _ List.mem_cons_self
    cases first with
    | @funcDecl _ behind note bodyNote name _ _ _ _ _ _ _ formals scalar stmts _ =>
      cases fresh
      rcases lowerFunction_of_typed config callable formals scalar
        stmts start name (frameNote note behind.used).frameSize bodyNote with ⟨code, lowered⟩
      rcases ih (List.forall_mem_cons.mp unplaced).2 (start + code.size)
          with ⟨rest, restLowered⟩
      rw [lowerFunctions, Stream.place]
      dsimp only
      rw [lowered]
      dsimp only
      rw [restLowered]
      exact ⟨_, rfl⟩

theorem lowerBlocks_of_typed (config : Config) (callable : env.All (Callable count))
    {written blocks} (typed : List.Forall₂ (TypedTop env) written blocks) (start number : Nat) :
    exists code, lowerBlocks config start number blocks = .ok code := by
  induction typed generalizing start number with
  | nil => exact ⟨[], rfl⟩
  | cons first _ ih =>
    cases first with
    | block stmts _ =>
      rcases lowersStmts_of_typed config (fun _ none => by cases none) start stmts callable.enter
          with ⟨code, lowers⟩
      rcases ih (start + code.size) (number + 1) with ⟨rest, restLowered⟩
      rw [Option.isSome_none] at lowers
      rw [lowerBlocks, lowerStmt, lowerStmts_of_lowers lowers, Results.ok_bind, restLowered]
      exact ⟨_, rfl⟩

/-! ## Programs -/

/-- Code that can be listed and printed: every operand is known or refers to a
function of the program, and all functions have an entry. -/
structure Printable (generated : Generated) : Prop where
  refers : generated.code.RefersBelow generated.entries.length
  placed : forall entry, entry ∈ generated.entries -> entry.isSome = true
  texts : exists texts, generated.code.texts generated.bindings = .ok texts
  listing : forall style, (generated.code.listing generated.bindings style).error = none

theorem isPresent_of_typed {written blocks} (typed : List.Forall₂ (TypedTop env) written blocks) :
    blocks.all Node.isPresent = true := by
  induction typed with
  | nil => rfl
  | cons first _ ih =>
    cases first
    exact ih

variable {checked placed : Program} {config : Config} {generated : Generated}

theorem lower_of_typed (config : Config) (whole : Written.Whole source program)
    (typed : TypedProgram program checked) :
    exists placed generated, checked.lower config = (placed, .ok generated) := by
  cases typed with
  | intro judgedStructs signatures typedFunctions _ typedBlocks =>
    rcases ready_of_typed judgedStructs signatures typedFunctions with ⟨_, callable⟩
    rcases lowerFunctions_of_typed config callable typedFunctions
      (unplaced_signatures signatures whole.functions) (prologueSize config)
        with ⟨functionCode, functionsLowered⟩
    rcases lowerBlocks_of_typed config callable typedBlocks
      (prologueSize config + functionCode.size) 1 with ⟨blockCode, blocksLowered⟩
    exact ⟨_, _, lower_eq (isPresent_of_typed typedBlocks) (Prod.ext rfl functionsLowered)
      blocksLowered⟩

/-- The code of a well-typed program refers to functions of the program only, because every call in
it stands for a call that has a type. -/
theorem refersBelow_of_typed {functionCode blockCode} (whole : Written.Whole source program)
    (typed : TypedProgram program checked)
    (arranged : Arranged config checked placed generated functionCode blockCode) :
    generated.code.RefersBelow checked.functions.length := by
  intro instruction isInstruction operand isOperand
  cases arranged.items _ (Code.mem_instructions.mp isInstruction) with
  | numbers _ numbers =>
    have isNumber := List.all_eq_true.mp numbers operand isOperand
    cases operand with
    | int value => trivial
    | _ => cases isNumber
  | real _ | bool _ | char _ => exact List.mem_singleton.mp isOperand ▸ trivial
  | call holds =>
    rcases List.mem_cons.mp isOperand with same | later
    · exact same ▸ trivial
    · rcases emitted_of_typed whole typed arranged holds rfl with ⟨ready, hasType, _, _⟩
      rcases hasType.call_inversion with ⟨_, _, _, _, same, binds, _⟩
      cases same
      exact List.mem_singleton.mp later ▸ (binds.holds ready.2).1

/-- Code whose references are below the number of functions can be printed. -/
theorem Arranged.printable {functionCode blockCode}
    (arranged : Arranged config program placed generated functionCode blockCode)
    (refers : generated.code.RefersBelow program.functions.length) : Printable generated := by
  have length : generated.entries.length = program.functions.length := by
    rw [arranged.entries, Program.entries, List.length_map, List.length_range,
      arranged.functions.length_eq]
  have place := arranged.place
  rw [arranged.functions.length_eq] at place
  exact {
    refers := length ▸ refers
    placed := by
      intro entry member
      rw [arranged.entries] at member
      rcases List.mem_map.mp member with ⟨index, inside, rfl⟩
      exact arranged.functions.entry_isSome rfl (List.mem_range.mp inside)
    texts := Code.textsFrom_of_refersBelow place refers 0
    listing := fun style => Code.listingFrom_of_refersBelow place refers style 0 }

theorem generate_of_typed (config : Config)
    (whole : Written.Whole source program) (typed : TypedProgram program checked) :
    exists placed generated, checked.generate config = (placed, .ok (.ok generated))
      ∧ Printable generated := by
  rcases lower_of_typed config whole typed with ⟨placed, generated, lowered⟩
  rcases arranged_of_lower lowered with ⟨_, _, arranged⟩
  have refers := refersBelow_of_typed whole typed arranged
  have phase : checked.phase.reaches .checked = true := by
    cases typed
    exact show Phase.checked.reaches .checked = true by decide
  refine ⟨{ placed with phase := .generated }, generated, ?_, arranged.printable refers⟩
  rw [Program.generate, if_pos phase, lowered]

/-- Compiling a whole program always ends with a compilation, and only the
resolution and the check refuse programs. -/
theorem compile_of_whole (config : Config) (whole : Written.Whole source program) :
    exists compilation, (program.compile config).2 = .ok compilation
      ∧ forall error, compilation.result = .error error -> error.isFailure = true := by
  have answered := Resolution.resolve_of_whole config whole
  -- One case for each phase that may refuse the program, and one for code.
  cases accepted : (Resolution.run config program).2.ok with
  | false =>
    rw [Program.compile, answered]
    dsimp only
    rw [accepted]
    exact ⟨_, rfl, fun error equal => by cases equal; rfl⟩
  | true =>
    have judged := (Resolution.resolve_iff_scoped config whole _).mp
      ⟨(Resolution.run config program).2.diagnostics, by rw [answered, ← accepted]⟩
    rcases Typing.typed_of_check config whole judged
        with ⟨checked, judgement, checkAnswered, typed, _⟩
    rw [Program.compile, answered]
    dsimp only
    rw [accepted, checkAnswered]
    cases passed : judgement.ok with
    | false =>
      dsimp only
      rw [passed]
      exact ⟨_, rfl, fun error equal => by cases equal; rfl⟩
    | true =>
      rcases generate_of_typed config whole (typed passed)
          with ⟨placed, generated, generates, _⟩
      dsimp only
      rw [passed, generates]
      exact ⟨_, rfl, fun error equal => by cases equal⟩

end Lowering
end PCode
