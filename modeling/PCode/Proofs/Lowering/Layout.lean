import PCode.Lowering
import PCode.Proofs.Code
import PCode.Proofs.Results

namespace PCode
namespace Lowering

/-!
Where the code of a program stands.

The prologue comes first, then the functions, each where the one before it ends,
and then the main code.  Lowering notes the entries of functions while it goes
along.  This module says once what has been noted and which code stands where when
lowering ends well, so that nothing else has to follow it step by step.
-/

/-! ## Functions in order -/

/-- The code of functions from an address on, and the functions with their
entries. -/
inductive Laid (config : Config) : Nat -> List Node -> List Node -> Code -> Prop
  | nil {start} : Laid config start [] [] []
  | cons {start note name params result body signature entry nodes placed code rest} :
    lowerFunction config start name note.frameSize body = .ok code ->
    Laid config (start + code.size) nodes placed rest ->
    Laid config start (.funcDecl note name params result body signature entry :: nodes)
      (.funcDecl note name params result body signature (some start) :: placed) (code ++ rest)

variable {start index : Nat} {config : Config} {nodes placed : List Node} {code : Code}
  {program : Program} {generated : Generated}

variable {entry : Option Nat} {address : Nat} {name : String} {params : List Node}
  {signature : Option Signature}

theorem eq_of_place (placed : Stream.place entry start = .ok address) : address = start := by
  cases entry with
  | none =>
    cases placed
    rfl
  | some known =>
    rw [Stream.place] at placed
    split at placed
    · cases placed
      rfl
    · cases placed

theorem laid_of_lowerFunctions (lowered : lowerFunctions config start nodes = (placed, .ok code)) :
    Laid config start nodes placed code := by
  induction nodes generalizing start placed code with
  | nil =>
    cases lowered
    exact .nil
  | cons node nodes ih =>
    match node with
    | .funcDecl note name params result body signature entry =>
      rw [lowerFunctions] at lowered
      split at lowered
      · cases lowered
      · rename_i address given
        cases eq_of_place given
        split at lowered
        · cases lowered
        · rename_i first firstLowered
          rcases Prod.mk.inj lowered with ⟨placedEqual, codeEqual⟩
          rcases Results.of_map codeEqual with ⟨rest, restLowered, joined⟩
          subst placedEqual joined
          exact .cons firstLowered (ih (Prod.ext rfl restLowered))

/-- Every function has an entry behind lowering. -/
theorem Laid.entry_isSome (laid : Laid config start nodes placed code)
    (functions : program.functions = placed) (inside : index < placed.length) :
    (program.entry? index).isSome = true := by
  rw [Program.entry?, functions]
  clear functions
  induction laid generalizing index with
  | nil => cases inside
  | cons _ _ ih =>
    cases index with
    | zero => rfl
    | succ index => exact ih (Nat.lt_of_succ_lt_succ inside)

theorem Laid.length_eq (laid : Laid config start nodes placed code) :
    placed.length = nodes.length := by
  induction laid with
  | nil => rfl
  | cons _ _ ih => exact congrArg (· + 1) ih

/-- Lowering changes nothing in a function but its entry. -/
theorem Laid.placed_eq (laid : Laid config start nodes placed code) {note result body}
    (found : nodes[index]? = some (.funcDecl note name params result body signature entry)) :
    exists address,
      placed[index]? = some (.funcDecl note name params result body signature (some address)) := by
  induction laid generalizing index with
  | nil => cases found
  | cons _ _ ih =>
    cases index with
    | zero =>
      cases found
      exact ⟨_, rfl⟩
    | succ index => exact ih found

/-! ## Programs -/

/-- The parts that the code of a program is made of. -/
structure Arranged (config : Config) (program placed : Program) (generated : Generated)
    (functionCode blockCode : Code) : Prop where
  functions : Laid config (prologueSize config) program.functions placed.functions functionCode
  blocks : lowerBlocks config (prologueSize config + functionCode.size) 1 program.blocks
    = .ok blockCode
  code : generated.code
    = prologue config program.blocks (Code.peak (blockCode ++ Code.emit .stp []))
        (prologueSize config + functionCode.size)
      ++ functionCode ++ (blockCode ++ Code.emit .stp [])
  entries : generated.entries = placed.entries
  kept : placed.blocks = program.blocks

/-- A program has code if its parts have. -/
theorem lower_eq {functions functionCode blockCode}
    (present : program.blocks.all Node.isPresent = true)
    (functionsLowered : lowerFunctions config (prologueSize config) program.functions
      = (functions, .ok functionCode))
    (blocksLowered : lowerBlocks config (prologueSize config + functionCode.size) 1 program.blocks
      = .ok blockCode) :
    program.lower config = ({ program with functions }, .ok
      { code := prologue config program.blocks (Code.peak (blockCode ++ Code.emit .stp []))
            (prologueSize config + functionCode.size)
          ++ functionCode ++ (blockCode ++ Code.emit .stp [])
        entries := Program.entries { program with functions } }) := by
  rw [Program.lower, if_pos present]
  dsimp only
  rw [functionsLowered]
  dsimp only
  rw [Results.ok_bind, blocksLowered]
  rfl

theorem arranged_of_lower {placed} (lowered : program.lower config = (placed, .ok generated)) :
    exists functionCode blockCode,
      Arranged config program placed generated functionCode blockCode := by
  rw [Program.lower] at lowered
  split at lowered
  · rcases Prod.mk.inj lowered with ⟨placedEqual, generatedEqual⟩
    rcases Results.of_binds generatedEqual
      with ⟨functionCode, functionsLowered, blockCode, blocksLowered, equal⟩
    subst placedEqual
    cases equal
    exact ⟨functionCode, blockCode,
      { functions := laid_of_lowerFunctions (Prod.ext rfl functionsLowered)
        blocks := blocksLowered
        code := rfl
        entries := rfl
        kept := rfl }⟩
  · cases lowered

theorem arranged_of_generate {placed}
    (generates : program.generate config = (placed, .ok (.ok generated))) :
    exists functionCode blockCode,
      Arranged config program placed generated functionCode blockCode := by
  rw [Program.generate] at generates
  split at generates
  · split at generates
    · rename_i lowered
      cases generates
      rcases arranged_of_lower lowered with ⟨functionCode, blockCode, arranged⟩
      exact ⟨functionCode, blockCode, { arranged with }⟩
    · cases generates
    · cases generates
  · cases generates

/-- A reference to a function is printed as its entry. -/
theorem Arranged.entry_text {placed functionCode blockCode}
    (arranged : Arranged config program placed generated functionCode blockCode) {note result body}
    (found : placed.functions[index]? = some (.funcDecl note name params result body signature
      (some address))) :
    (Operand.entry name (some index)).text generated.bindings
      = .ok (toString (Int64.ofNat address)) := by
  have inside : index < placed.functions.length := (List.getElem?_eq_some_iff.mp found).1
  have entry : placed.entry? index = some address := by rw [Program.entry?, found]
  have tail : generated.bindings.tails[index]? = some (some (Int64.ofNat address)) := by
    simp [Generated.bindings, arranged.entries, Program.entries, inside, entry]
  rw [Operand.text, tail]
  rfl

/-- In the code of a program all functions are placed. -/
theorem Arranged.place {placed functionCode blockCode}
    (arranged : Arranged config program placed generated functionCode blockCode) :
    generated.bindings.Place placed.functions.length := by
  intro tail inside
  have some := arranged.functions.entry_isSome rfl inside
  rcases Option.isSome_iff_exists.mp some with ⟨address, entry⟩
  refine ⟨Int64.ofNat address, ?_⟩
  simp [Generated.bindings, arranged.entries, Program.entries, inside, entry]

end Lowering
end PCode
