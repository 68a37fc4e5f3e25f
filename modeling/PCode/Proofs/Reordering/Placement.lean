import Mathlib.Algebra.GroupWithZero.Nat
import PCode.Proofs.Lowering.Moving
import PCode.Proofs.Reordering.Signatures

namespace PCode
namespace Reordering

open Static
open Lowering

/-!
Where the code of functions stands in another order.

The code of a function has the same size wherever it stands.  So the sizes tell which
function an address belongs to and how far into its code it lies, and in the new order
the address lies equally far into the code of the same function.  Addresses of the
prologue and of the main code stay, because all functions together keep their size.
-/

/-! ## Pieces one behind another -/

/-- Where a piece starts behind those before it. -/
def startOf (sizes : List Nat) (piece : Nat) : Nat := (sizes.take piece).sum

/-- The piece that an address belongs to, and the distance from the start of that piece. -/
def locate : List Nat -> Nat -> Option (Nat × Nat)
  | [], _ => none
  | size :: sizes, address =>
    if address < size then some (0, address)
    else (locate sizes (address - size)).map fun (piece, offset) => (piece + 1, offset)

section Pieces

variable {sizes : List Nat} {address piece offset size : Nat}

theorem startOf_cons_succ (size : Nat) (sizes : List Nat) (piece : Nat) :
    startOf (size :: sizes) (piece + 1) = size + startOf sizes piece := by
  rw [startOf, List.take_succ_cons, List.sum_cons, startOf]

theorem startOf_succ (found : sizes[piece]? = some size) :
    startOf sizes (piece + 1) = startOf sizes piece + size := by
  rw [startOf, startOf, List.take_add_one, found, Option.toList_some, List.sum_append,
    List.sum_singleton]

theorem locate_startOf (found : sizes[piece]? = some size) (inside : offset < size) :
    locate sizes (startOf sizes piece + offset) = some (piece, offset) := by
  induction sizes generalizing piece with
  | nil => cases found
  | cons first sizes ih =>
    cases piece with
    | zero =>
      cases found
      have here : startOf (size :: sizes) 0 + offset = offset := Nat.zero_add offset
      rw [here, locate, if_pos inside]
    | succ piece =>
      rw [startOf_cons_succ, locate, if_neg (by omega), Nat.add_assoc, Nat.add_sub_cancel_left,
        ih found, Option.map_some]

theorem startOf_of_locate (found : locate sizes address = some (piece, offset)) :
    exists size, sizes[piece]? = some size ∧ offset < size
      ∧ address = startOf sizes piece + offset := by
  induction sizes generalizing address piece with
  | nil => cases found
  | cons first sizes ih =>
    rw [locate] at found
    split at found
    · rename_i inside
      cases found
      exact ⟨first, rfl, inside, (Nat.zero_add _).symm⟩
    · rename_i behind
      rcases Option.map_eq_some_iff.mp found with ⟨⟨later, rest⟩, foundLater, equal⟩
      cases equal
      rcases ih foundLater with ⟨size, there, inside, place⟩
      refine ⟨size, there, inside, ?_⟩
      rw [startOf_cons_succ]
      omega

/-- What lies in a piece lies before the end of all pieces. -/
theorem startOf_add_lt_sum (found : sizes[piece]? = some size) (inside : offset < size) :
    startOf sizes piece + offset < sizes.sum := by
  have whole := congrArg List.sum (List.take_append_drop (piece + 1) sizes)
  have next := startOf_succ found
  rw [List.sum_append] at whole
  rw [startOf] at next
  omega

theorem locate_eq_none_iff : locate sizes address = none <-> sizes.sum <= address := by
  induction sizes generalizing address with
  | nil => exact ⟨fun _ => Nat.zero_le _, fun _ => rfl⟩
  | cons size sizes ih =>
    rw [locate, List.sum_cons]
    split
    · rename_i inside
      constructor
      · intro absent
        cases absent
      · intro beyond
        omega
    · rw [Option.map_eq_none_iff, ih]
      omega

end Pieces

/-! ## Moving addresses -/

/-- The address in the new order of what stands at an address in the old one.  Pieces
stand one behind another from `start` on, and `new` tells the position of each. -/
def moved (start : Nat) (sizes sizes' : List Nat) (new : Nat -> Nat) (address : Nat) : Nat :=
  if address < start then address
  else
    match locate sizes (address - start) with
    | some (piece, offset) => start + startOf sizes' (new piece) + offset
    | none => address

/-- Two orders of pieces: `new` leads to a piece of the same size, and `old` leads back. -/
structure Exchanges (sizes sizes' : List Nat) (new old : Nat -> Nat) : Prop where
  same : forall piece, sizes'[new piece]? = sizes[piece]?
  back : forall piece, old (new piece) = piece
  total : sizes'.sum = sizes.sum

section Moving

variable {start : Nat} {sizes sizes' : List Nat} {new old : Nat -> Nat} {address : Nat}

theorem moved_before (before : address < start) :
    moved start sizes sizes' new address = address := if_pos before

theorem moved_behind (behind : start + sizes.sum <= address) :
    moved start sizes sizes' new address = address := by
  have absent : locate sizes (address - start) = none := locate_eq_none_iff.mpr (by omega)
  rw [moved, if_neg (by omega), absent]

theorem moved_inside {piece size offset} (found : sizes[piece]? = some size)
    (inside : offset < size) :
    moved start sizes sizes' new (start + startOf sizes piece + offset)
      = start + startOf sizes' (new piece) + offset := by
  rw [moved, if_neg (by omega), Nat.add_assoc, Nat.add_sub_cancel_left,
    locate_startOf found inside]

/-- An address stands before all pieces, in one of them, or behind them. -/
theorem place_cases (start : Nat) (sizes : List Nat) (address : Nat) :
    address < start ∨ start + sizes.sum <= address
      ∨ exists piece size offset, sizes[piece]? = some size ∧ offset < size
          ∧ address = start + startOf sizes piece + offset := by
  by_cases before : address < start
  · exact .inl before
  · cases located : locate sizes (address - start) with
    | none =>
      have behind := locate_eq_none_iff.mp located
      exact .inr (.inl (by omega))
    | some place =>
      rcases startOf_of_locate located with ⟨size, found, inside, equal⟩
      exact .inr (.inr ⟨place.1, size, place.2, found, inside, by omega⟩)

/-- Moving an address to the new order and back leads to where it was. -/
theorem moved_moved (exchanges : Exchanges sizes sizes' new old) (address : Nat) :
    moved start sizes' sizes old (moved start sizes sizes' new address) = address := by
  rcases place_cases start sizes address with before | behind | inside
  · rw [moved_before before, moved_before before]
  · rw [moved_behind behind, moved_behind (exchanges.total.symm ▸ behind)]
  · rcases inside with ⟨piece, size, offset, found, inside, rfl⟩
    rw [moved_inside found inside, moved_inside ((exchanges.same piece).trans found) inside,
      exchanges.back]

theorem moved_injective (exchanges : Exchanges sizes sizes' new old) :
    Function.Injective (moved start sizes sizes' new) :=
  Function.LeftInverse.injective (moved_moved exchanges)

/-- Neighbours stay neighbours, unless a piece or what is behind all pieces starts between
them. -/
theorem moved_succ (starts : forall piece, piece < sizes.length ->
      address + 1 ≠ start + startOf sizes piece)
    (other : address + 1 ≠ start + sizes.sum) :
    moved start sizes sizes' new (address + 1) = moved start sizes sizes' new address + 1 := by
  rcases place_cases start sizes address with before | behind | inside
  · have further : address + 1 < start := by
      cases sizes with
      | nil =>
        rw [List.sum_nil] at other
        omega
      | cons size sizes =>
        have first : address + 1 ≠ start := starts 0 (Nat.zero_lt_succ _)
        omega
    rw [moved_before before, moved_before further]
  · rw [moved_behind behind, moved_behind (by omega)]
  · rcases inside with ⟨piece, size, offset, found, inside, rfl⟩
    have further : offset + 1 < size := by
      have next := startOf_succ found
      rcases List.getElem?_eq_some_iff.mp found with ⟨present, _⟩
      by_cases last : piece + 1 < sizes.length
      · have apart := starts (piece + 1) last
        omega
      · rw [startOf, List.take_of_length_le (by omega)] at next
        omega
    rw [moved_inside found inside, Nat.add_assoc _ offset 1, moved_inside found further]
    rfl

end Moving

/-! ## The code of functions -/

/-- The code of a function at an address. -/
def codeAt (config : Config) (start : Nat) : Node -> Lowered Code
  | .funcDecl note name _ _ body _ _ => lowerFunction config start name note.frameSize body
  | _ => .hole

/-- The number of instructions of a function, which is the same at every address. -/
def functionSize (config : Config) (node : Node) : Nat :=
  match codeAt config 0 node with
  | .ok code => code.size
  | .error _ => 0

/-- The sizes of functions in order. -/
def functionSizes (config : Config) (nodes : List Node) : List Nat :=
  nodes.map (functionSize config)

section Functions

variable {config : Config} {start start' : Nat} {node : Node} {code : Code}

theorem carries_codeAt (new move : Nat -> Nat)
    (lowered : codeAt config start node = .ok code)
    (slides : forall offset, offset < code.size -> move (start + offset) = start' + offset) :
    exists later, codeAt config start' (node.reindex new) = .ok later
      ∧ Carries new move code later := by
  cases node with
  | funcDecl note name params result body signature entry =>
    exact carries_function new lowered slides
  | _ => cases lowered

/-- Neither the address nor the positions of called functions matter for the size. -/
theorem codeAt_elsewhere (new : Nat -> Nat) (start' : Nat)
    (lowered : codeAt config start node = .ok code) :
    exists later, codeAt config start' (node.reindex new) = .ok later
      ∧ later.size = code.size := by
  rcases carries_codeAt new (fun address => start' + (address - start)) lowered
      fun offset _ => congrArg (start' + ·) (Nat.add_sub_cancel_left start offset)
    with ⟨later, loweredLater, carries⟩
  exact ⟨later, loweredLater, carries.size_eq⟩

theorem functionSize_eq (lowered : codeAt config start node = .ok code) :
    functionSize config node = code.size := by
  rcases codeAt_elsewhere id 0 lowered with ⟨later, loweredLater, size⟩
  rw [Node.reindex_id] at loweredLater
  rw [functionSize, loweredLater]
  exact size

theorem functionSize_reindex (new : Nat -> Nat)
    (lowered : codeAt config start node = .ok code) :
    functionSize config (node.reindex new) = functionSize config node := by
  rcases codeAt_elsewhere new start lowered with ⟨later, loweredLater, size⟩
  rw [functionSize_eq loweredLater, functionSize_eq lowered, size]

/-- The code of a function is not empty: it sets up a frame. -/
theorem codeAt_nonempty (lowered : codeAt config start node = .ok code) :
    0 < code.size := by
  cases node with
  | funcDecl note name params result body signature entry =>
    rw [codeAt, lowerFunction] at lowered
    rcases Results.of_bind lowered with ⟨bodyCode, _, ⟨⟩⟩
    rw [Code.size_append, Code.size_append, Code.size_append _ (Code.emit .retf []),
      Code.size_emit]
    omega
  | _ => cases lowered

theorem named_of_codeAt (lowered : codeAt config start node = .ok code) :
    exists name, declaredName? node = some name := by
  cases node with
  | funcDecl note name params result body signature entry => exact ⟨name, rfl⟩
  | _ => cases lowered

end Functions

section Laid

variable {config : Config} {start : Nat} {nodes placed : List Node} {code : Code}

variable {name : String} {node : Node}

theorem functionSizes_cons_laid {note params result body signature entry}
    (lowered : lowerFunction config start name note.frameSize body = .ok code) :
    functionSizes config (.funcDecl note name params result body signature entry :: nodes)
      = code.size :: functionSizes config nodes := by
  have own : codeAt config start (.funcDecl note name params result body signature entry)
      = .ok code := lowered
  rw [functionSizes, List.map_cons, functionSize_eq own]
  rfl

theorem missing_of_laid (laid : Laid config start nodes placed code) {index : Nat}
    (missing : nodes[index]? = none) : placed[index]? = none := by
  rw [List.getElem?_eq_none_iff] at missing ⊢
  rw [laid.length_eq]
  exact missing

/-- The code of all functions is as long as their sizes say. -/
theorem size_of_laid (laid : Laid config start nodes placed code) :
    code.size = (functionSizes config nodes).sum := by
  induction laid with
  | nil => rfl
  | cons lowered _ ih =>
    rw [Code.size_append, ih, functionSizes_cons_laid lowered, List.sum_cons]

/-- Each function is entered behind the functions before it, and its code stands there. -/
theorem function_of_laid (laid : Laid config start nodes placed code) {index}
    (found : nodes[index]? = some node) :
    exists own, codeAt config (start + startOf (functionSizes config nodes) index) node
        = .ok own
      ∧ (placed[index]?).bind notedEntry?
        = some (start + startOf (functionSizes config nodes) index)
      ∧ forall offset, offset < own.size ->
          code.instructions[startOf (functionSizes config nodes) index + offset]?
            = own.instructions[offset]? := by
  induction laid generalizing index with
  | nil => cases found
  | @cons start _ _ _ _ _ _ _ nodes _ code rest lowered _ ih =>
    cases index with
    | zero =>
      cases found
      refine ⟨code, lowered, rfl, fun offset inside => ?_⟩
      rw [Code.instructions_append, List.getElem?_append_left]
      · exact congrArg (code.instructions[·]?) (Nat.zero_add offset)
      · exact (Nat.zero_add offset).symm ▸ inside
    | succ index =>
      rcases ih found with ⟨own, ownLowered, entered, stands⟩
      rw [functionSizes_cons_laid lowered, startOf_cons_succ, ← Nat.add_assoc]
      refine ⟨own, ownLowered, entered, fun offset inside => ?_⟩
      have behind : code.size + startOf (functionSizes config nodes) index + offset
          = code.instructions.length + (startOf (functionSizes config nodes) index + offset) :=
        Nat.add_assoc _ _ _
      rw [← stands offset inside, Code.instructions_append, behind,
        List.getElem?_append_right (Nat.le_add_right _ _), Nat.add_sub_cancel_left]

end Laid

/-! ## Functions in another order -/

/-- The same functions in another order, with calls to the positions in the new one. -/
structure Reordered (new : Nat -> Nat) (functions functions' : List Node) : Prop where
  perm : functions'.Perm (functions.map (Node.reindex new))
  distinct : (functions.map declaredName?).Nodup
  positions : new = newPosition (functions.map declaredName?) (functions'.map declaredName?)

@[simp] theorem declaredName?_reindex (new : Nat -> Nat) (node : Node) :
    declaredName? (node.reindex new) = declaredName? node := by
  cases node <;> rfl

namespace Reordered

variable {new : Nat -> Nat} {functions functions' : List Node}

theorem names (reordered : Reordered new functions functions') :
    (functions'.map declaredName?).Perm (functions.map declaredName?) := by
  have names := reordered.perm.map declaredName?
  rw [List.map_map] at names
  simpa only [Function.comp_def, declaredName?_reindex] using names

/-- A function stands at its new position. -/
theorem getElem?_new (reordered : Reordered new functions functions') (index : Nat) :
    functions'[new index]? = (functions[index]?).map (Node.reindex new) := by
  have named := getElem?_newPosition reordered.names index
  rw [← reordered.positions, List.getElem?_map, List.getElem?_map] at named
  cases found : functions[index]? with
  | none =>
    rw [found, Option.map_none, Option.map_eq_none_iff] at named
    exact named
  | some node =>
    have member : node.reindex new ∈ functions' :=
      reordered.perm.mem_iff.mpr (List.mem_map_of_mem (List.mem_of_getElem? found))
    rcases List.mem_iff_getElem?.mp member with ⟨position, there⟩
    have distinct' := reordered.names.nodup_iff.mpr reordered.distinct
    have here : (functions.map declaredName?)[index]? = some (declaredName? node) := by
      rw [List.getElem?_map, found, Option.map_some]
    have moved : (functions'.map declaredName?)[position]? = some (declaredName? node) := by
      rw [List.getElem?_map, there, Option.map_some, declaredName?_reindex]
    have place : new index = position := by
      rw [reordered.positions, newPosition_of_some here, idxOf_of_nodup distinct' moved]
    rw [place, there, Option.map_some]

variable {config : Config} {start : Nat} {placed placed' : List Node} {code code' : Code}

/-- In the new order each function has its old size. -/
theorem exchanges (reordered : Reordered new functions functions')
    (laid : Laid config start functions placed code) :
    Exchanges (functionSizes config functions) (functionSizes config functions') new
      (newPosition (functions'.map declaredName?) (functions.map declaredName?)) := by
  have size {index : Nat} {node : Node} (found : functions[index]? = some node) :
      functionSize config (node.reindex new) = functionSize config node := by
    rcases function_of_laid laid found with ⟨_, lowered, _⟩
    exact functionSize_reindex new lowered
  refine ⟨fun piece => ?_, fun piece => ?_, ?_⟩
  · rw [functionSizes, functionSizes, List.getElem?_map, List.getElem?_map,
      reordered.getElem?_new, Option.map_map]
    cases found : functions[piece]? with
    | none => rfl
    | some node => exact congrArg some (size found)
  · rw [reordered.positions]
    exact newPosition_newPosition reordered.names reordered.distinct piece
  · have sizes := reordered.perm.map (functionSize config)
    rw [List.map_map] at sizes
    have same : functions.map (functionSize config ∘ Node.reindex new)
        = functions.map (functionSize config) := by
      refine List.map_congr_left fun node member => ?_
      rcases List.mem_iff_getElem?.mp member with ⟨_, found⟩
      exact size found
    rw [same] at sizes
    exact sizes.sum_nat

/-- The address in the new order of what stands at an address in the old one. -/
abbrev move (config : Config) (start : Nat) (new : Nat -> Nat) (functions functions' : List Node) :
    Nat -> Nat :=
  moved start (functionSizes config functions) (functionSizes config functions') new

/-- The start of a function moves with it. -/
theorem move_start (functions' : List Node) (new : Nat -> Nat)
    (laid : Laid config start functions placed code) {index}
    (found : functions[index]? = some node) :
    move config start new functions functions'
        (start + startOf (functionSizes config functions) index)
      = start + startOf (functionSizes config functions') (new index) := by
  rcases function_of_laid laid found with ⟨own, lowered, _, _⟩
  have size : (functionSizes config functions)[index]? = some own.size := by
    rw [functionSizes, List.getElem?_map, found, Option.map_some, functionSize_eq lowered]
  exact moved_inside size (codeAt_nonempty lowered)

section Pairs

variable (reordered : Reordered new functions functions')
  (laid : Laid config start functions placed code)
  (laid' : Laid config start functions' placed' code')

include reordered laid laid'

/-- The entry of a function moves with it. -/
theorem entry_moved (index : Nat) :
    (placed'[new index]?).bind notedEntry?
      = ((placed[index]?).bind notedEntry?).map (move config start new functions functions') := by
  have found' := reordered.getElem?_new index
  cases found : functions[index]? with
  | none =>
    rw [found, Option.map_none] at found'
    rw [missing_of_laid laid found, missing_of_laid laid' found']
    rfl
  | some node =>
    rw [found, Option.map_some] at found'
    rcases function_of_laid laid found with ⟨_, _, entered, _⟩
    rcases function_of_laid laid' found' with ⟨_, _, entered', _⟩
    rw [entered, entered', Option.map_some, move_start functions' new laid found]

/-- The code of a function is carried to where it stands in the new order. -/
theorem instruction_carried {piece size offset}
    (found : (functionSizes config functions)[piece]? = some size) (inside : offset < size) :
    code'.instructions[startOf (functionSizes config functions') (new piece) + offset]?
      = (code.instructions[startOf (functionSizes config functions) piece + offset]?).map
          (carry new (move config start new functions functions')) := by
  have known := found
  rw [functionSizes, List.getElem?_map] at known
  rcases Option.map_eq_some_iff.mp known with ⟨node, there, equal⟩
  have there' : functions'[new piece]? = some (node.reindex new) := by
    rw [reordered.getElem?_new, there, Option.map_some]
  rcases function_of_laid laid there with ⟨own, lowered, _, stands⟩
  rcases function_of_laid laid' there' with ⟨own', lowered', _, stands'⟩
  rw [functionSize_eq lowered] at equal
  subst equal
  rcases carries_codeAt new (move config start new functions functions') lowered
      fun offset inside => moved_inside found inside with ⟨later, loweredLater, carries⟩
  cases loweredLater.symm.trans lowered'
  rw [stands offset inside, stands' offset (Carries.size_eq carries ▸ inside),
    Carries.instructions_eq carries, List.getElem?_map]

end Pairs

end Reordered

/-! ## Programs -/

theorem mainFrameSize_reindex (new : Nat -> Nat) (blocks : List Node) :
    mainFrameSize (blocks.map (Node.reindex new)) = mainFrameSize blocks := by
  rw [mainFrameSize, mainFrameSize, List.foldl_map]
  simp only [Node.note_reindex]

section Programs

variable {config : Config} {new : Nat -> Nat} {program program' placed placed' : Program}
  {generated generated' : Generated} {functionCode functionCode' blockCode blockCode' : Code}

/-- The address in the code of a program with its functions in another order. -/
abbrev programMove (config : Config) (new : Nat -> Nat) (program program' : Program) :
    Nat -> Nat :=
  Reordered.move config (prologueSize config) new program.functions program'.functions

section Linked

variable (arranged : Arranged config program placed generated functionCode blockCode)

include arranged

/-- The entries of the functions at their new positions are the old ones moved. -/
theorem relinks_of_arranged
    (arranged' : Arranged config program' placed' generated' functionCode' blockCode')
    (reordered : Reordered new program.functions program'.functions) :
    Relinks new (programMove config new program program') generated.entries generated'.entries := by
  have join (nodes : List Node) (index : Nat) :
      ((nodes.map notedEntry?)[index]?).join = (nodes[index]?).bind notedEntry? := by
    rw [List.getElem?_map]
    cases nodes[index]? <;> rfl
  rw [arranged.entries, arranged'.entries, entries_eq, entries_eq]
  refine ⟨fun function => ?_, fun function missing => ?_⟩
  · rw [join, join]
    exact reordered.entry_moved arranged.functions arranged'.functions function
  · rw [join] at missing
    rw [reordered.positions]
    refine newPosition_of_none ?_
    rw [List.getElem?_map, Option.map_eq_none_iff, Option.eq_none_iff_forall_not_mem]
    intro node found
    rcases function_of_laid arranged.functions found with ⟨_, _, entered, _⟩
    rw [missing] at entered
    cases entered

/-- The instructions of a program: prologue, functions and main code. -/
theorem instructions_of_arranged :
    generated.code.instructions
      = (prologue config program.blocks (Code.peak (blockCode ++ Code.emit .stp []))
            (prologueSize config + functionCode.size)).instructions
        ++ (functionCode.instructions ++ (blockCode ++ Code.emit .stp []).instructions) := by
  rw [arranged.code, List.append_assoc, Code.instructions_append, Code.instructions_append]

/-- All functions together take as many addresses as before. -/
theorem functions_size_eq
    (arranged' : Arranged config program' placed' generated' functionCode' blockCode')
    (reordered : Reordered new program.functions program'.functions) :
    functionCode'.size = functionCode.size := by
  rw [size_of_laid arranged.functions, size_of_laid arranged'.functions]
  exact (reordered.exchanges arranged.functions).total

end Linked

/-- Addresses from the main code on stay. -/
theorem programMove_main (new : Nat -> Nat) (program' : Program)
    (arranged : Arranged config program placed generated functionCode blockCode) {address}
    (behind : prologueSize config + functionCode.size <= address) :
    programMove config new program program' address = address := by
  rw [size_of_laid arranged.functions] at behind
  exact moved_behind behind

section Carried

variable (arranged : Arranged config program placed generated functionCode blockCode)
  (arranged' : Arranged config program' placed' generated' functionCode' blockCode')
  (reordered : Reordered new program.functions program'.functions)
  (blocks : program'.blocks = program.blocks.map (Node.reindex new))

include arranged arranged' reordered blocks

/-- The main code is carried to the same addresses. -/
theorem main_carried :
    Carries new (programMove config new program program') (blockCode ++ Code.emit .stp [])
      (blockCode' ++ Code.emit .stp []) := by
  rcases carries_blocks new arranged.blocks
      (fun offset _ => programMove_main new program' arranged (Nat.le_add_right _ offset))
    with ⟨later, lowered, carries⟩
  rw [← functions_size_eq arranged arranged' reordered, ← blocks] at lowered
  cases lowered.symm.trans arranged'.blocks
  exact carries.append (.same rfl rfl)

/-- The prologue stays, because the main code and the blocks do. -/
theorem prologue_carried :
    Carries new (programMove config new program program')
      (prologue config program.blocks (Code.peak (blockCode ++ Code.emit .stp []))
        (prologueSize config + functionCode.size))
      (prologue config program'.blocks (Code.peak (blockCode' ++ Code.emit .stp []))
        (prologueSize config + functionCode'.size)) := by
  have main := programMove_main new program' arranged (Nat.le_refl _)
  rw [prologue, prologue, blocks, mainFrameSize_reindex,
    (main_carried arranged arranged' reordered blocks).peak_eq,
    functions_size_eq arranged arranged' reordered]
  exact ((Turns.comment _ _).append (turns_frameCode displacement_suits _ _)).append
    (.jump rfl main rfl rfl)

/-- The code of a program is carried to where it stands with the functions in another
order. -/
theorem instructions_carried (address : Nat) :
    generated'.code.instructions[programMove config new program program' address]?
      = (generated.code.instructions[address]?).map
          (carry new (programMove config new program program')) := by
  have size : functionCode.instructions.length
      = (functionSizes config program.functions).sum := size_of_laid arranged.functions
  have size' : functionCode'.instructions.length = functionCode.instructions.length :=
    functions_size_eq arranged arranged' reordered
  have main := Carries.instructions_eq (main_carried arranged arranged' reordered blocks)
  have opening := Carries.instructions_eq (prologue_carried arranged arranged' reordered blocks)
  have first := size_prologue config program.blocks (Code.peak (blockCode ++ Code.emit .stp []))
    (prologueSize config + functionCode.size)
  have first' := size_prologue config program'.blocks
    (Code.peak (blockCode' ++ Code.emit .stp [])) (prologueSize config + functionCode'.size)
  rw [instructions_of_arranged arranged, instructions_of_arranged arranged']
  rcases place_cases (prologueSize config) (functionSizes config program.functions) address
    with before | behind | inside
  · have stays : programMove config new program program' address = address := moved_before before
    rw [stays, List.getElem?_append_left (first'.symm ▸ before),
      List.getElem?_append_left (first.symm ▸ before), opening, List.getElem?_map]
  · have stays : programMove config new program program' address = address := moved_behind behind
    rw [stays, List.getElem?_append_right (by omega), List.getElem?_append_right (by omega),
      List.getElem?_append_right (by omega), List.getElem?_append_right (by omega), main,
      List.getElem?_map, first, first', size']
  · rcases inside with ⟨piece, extent, offset, found, inside, rfl⟩
    have moves : programMove config new program program'
        (prologueSize config + startOf (functionSizes config program.functions) piece + offset)
          = prologueSize config + startOf (functionSizes config program'.functions) (new piece)
            + offset := moved_inside found inside
    have found' := ((reordered.exchanges arranged.functions).same piece).trans found
    have within := startOf_add_lt_sum found inside
    have within' := startOf_add_lt_sum found' inside
    rw [(reordered.exchanges arranged.functions).total] at within'
    rw [moves, Nat.add_assoc, Nat.add_assoc, List.getElem?_append_right (by omega), first',
      Nat.add_sub_cancel_left, List.getElem?_append_left (by omega),
      List.getElem?_append_right (by omega), first, Nat.add_sub_cancel_left,
      List.getElem?_append_left (by omega)]
    exact reordered.instruction_carried arranged.functions arranged'.functions found inside

end Carried

/-- The address at which the function of a name is entered. -/
def entryNamed? (program : Program) (name : String) : Option Nat :=
  (program.functions.find? fun node => declaredName? node == some name).bind notedEntry?

theorem find?_of_distinct {nodes : List Node} (distinct : (nodes.map declaredName?).Nodup)
    (member : node ∈ nodes) (named : declaredName? node = some name) :
    (nodes.find? fun other => declaredName? other == some name) = some node := by
  cases found : nodes.find? fun other => declaredName? other == some name with
  | none => exact absurd (beq_iff_eq.mpr named) (List.find?_eq_none.mp found node member)
  | some other =>
    have alike := List.find?_some found
    exact congrArg some (List.inj_on_of_nodup_map distinct (List.mem_of_find?_eq_some found)
      member ((beq_iff_eq.mp alike).trans named.symm))

/-- A function is entered where its code stands. -/
theorem entryNamed_of_arranged
    (arranged : Arranged config program placed generated functionCode blockCode)
    (distinct : (program.functions.map declaredName?).Nodup) {index}
    (found : (program.functions.map declaredName?)[index]? = some (some name)) :
    entryNamed? placed name = some (prologueSize config
      + startOf (functionSizes config program.functions) index) := by
  have names := arranged.functions.names_eq
  have found' := found
  rw [← names, List.getElem?_map] at found'
  rw [List.getElem?_map] at found
  rcases Option.map_eq_some_iff.mp found with ⟨node, there, _⟩
  rcases Option.map_eq_some_iff.mp found' with ⟨own, standing, named⟩
  rcases function_of_laid arranged.functions there with ⟨_, _, entered, _⟩
  rw [standing, Option.bind_some] at entered
  rw [← names] at distinct
  rw [entryNamed?, find?_of_distinct distinct (List.mem_of_getElem? standing) named,
    Option.bind_some, entered]

/-- The prologue ends with a jump to the main code. -/
theorem jump_of_arranged
    (arranged : Arranged config program placed generated functionCode blockCode) :
    (linked generated)[prologueSize config - 1]?
      = some ⟨.ujp, [.int (prologueSize config + functionCode.size : Nat)]⟩ := by
  have opening := arranged.prologue_eq
  have frame := size_frameCode config (mainFrameSize program.blocks)
    (Code.peak (blockCode ++ Code.emit .stp []))
  have last : (generated.code.instructions.take (prologueSize config))[prologueSize config - 1]?
      = some ⟨.ujp, [.int (prologueSize config + functionCode.size : Nat)]⟩ := by
    rw [opening, prologueSize, Nat.add_sub_cancel, ← frame, Code.size]
    exact List.getElem?_concat_length
  have inside : prologueSize config - 1 < prologueSize config :=
    Nat.sub_one_lt (Nat.succ_ne_zero _)
  rw [List.getElem?_take_of_lt inside] at last
  rw [linked, List.getElem?_map, last]
  rfl

end Programs

end Reordering
end PCode
