import PCode.Proofs.Lowering.Turning

namespace PCode
namespace Lowering

open Static

/-!
Code with and without its checks.

Two kinds of instructions are there only if they are asked for: index checks, and the
announcements of stack extents.  The code without them is the code with them after
they have been deleted, and after every address has been moved down by the number of
deleted instructions before it.
-/

/-! ## Deleting instructions -/

/-- Whether settings leave an instruction out. -/
def omits (config : Config) (instruction : Instruction) : Bool :=
  match instruction.opcode with
  | .chk => !config.features .boundsCheck
  | .sep => !config.features .stackExtent
  | _ => false

/-- The address behind the deletion: less by the number of deleted instructions before. -/
def renumber (config : Config) (code : List Instruction) (address : Nat) : Nat :=
  address - (code.take address).countP (omits config)

/-- Instructions without those that settings leave out, with addresses moved. -/
def shrink (config : Config) (move : Nat -> Nat) (code : List Instruction) : List Instruction :=
  (code.filter fun instruction => !omits config instruction).map (relocate move)

/-- The code that is left under settings. -/
def erase (config : Config) (code : List Instruction) : List Instruction :=
  shrink config (renumber config code) code

section Shrinking

variable {config : Config} {move : Nat -> Nat}

/-- Deletion leaves the positions of functions as they are. -/
def deletion (config : Config) (move : Nat -> Nat) : Turn where
  checks := !config.features .boundsCheck
  extents := !config.features .stackExtent
  move := move

theorem apply_deletion (code : List Instruction) :
    (deletion config move).apply code = shrink config move code := by
  have same : carry id move = relocate move := by
    funext instruction
    unfold carry redirect
    split <;> rfl
  rw [Turn.apply, Turn.image_of_keep rfl, shrink, ← same]
  rfl

theorem deletion_suits {full} (bounds : full.features .boundsCheck = true)
    (extents : full.features .stackExtent = true) : (deletion config move).Suits full config where
  checks := by rw [bounds, deletion, Bool.not_not, Bool.true_and]
  extents := by rw [extents, deletion, Bool.not_not, Bool.true_and]

/-- What is left of the instructions before an address is what the address becomes. -/
theorem renumber_eq {code address} (inside : address <= code.length) :
    renumber config code address = (shrink config move (code.take address)).length := by
  have parts := List.length_eq_countP_add_countP (omits config) (l := code.take address)
  rw [List.length_take_of_le inside] at parts
  rw [renumber, shrink, List.length_map, ← List.countP_eq_length_filter]
  simp only [Bool.not_eq_true, Bool.decide_eq_false] at parts
  omega

theorem follows_renumber (config : Config) (code : Code) :
    Follows (deletion config (renumber config code.instructions)) 0 0 code := by
  intro offset inside
  rw [apply_deletion, Nat.zero_add, Nat.zero_add]
  exact renumber_eq inside

end Shrinking

/-! ## Functions -/

/-- The entry that is noted in a function. -/
def notedEntry? : Node -> Option Nat
  | .funcDecl _ _ _ _ _ _ entry => entry
  | _ => none

theorem entries_eq (program : Program) : program.entries = program.functions.map notedEntry? := by
  apply List.ext_getElem?
  intro index
  rw [Program.entries, List.getElem?_map, List.getElem?_map]
  by_cases inside : index < program.functions.length
  · rw [List.getElem?_range inside, Option.map_some, Program.entry?,
      List.getElem?_eq_getElem inside]
    cases program.functions[index] <;> rfl
  · rw [List.getElem?_eq_none (by simpa using inside), List.getElem?_eq_none (by omega)]
    rfl

theorem turns_laid {full config turn} (suits : turn.Suits full config)
    (fixed : (turn.new, turn.names) = (id, .keep)) {start start' nodes placed placedLeft code left}
    (laid : Laid full start nodes placed code) (follows : Follows turn start start' code)
    (laidLeft : Laid config start' nodes placedLeft left) :
    Turns turn code left
      ∧ placedLeft.map notedEntry? = (placed.map notedEntry?).map (Option.map turn.move) := by
  induction laid generalizing start' placedLeft left with
  | nil =>
    cases laidLeft
    exact ⟨.nil, rfl⟩
  | cons lowered _ ih =>
    cases laidLeft with
    | cons loweredLeft restLeft =>
      have entered := follows 0 (Nat.zero_le _)
      have inside := follows.left
      rcases turns_function suits lowered fun offset within => inside offset (Nat.le_of_lt within)
          with ⟨firstLeft, loweredFirst, turnsFirst⟩
      rw [Turn.tree_of_fixed fixed, (Prod.mk.inj fixed).2] at loweredFirst
      cases loweredFirst.symm.trans loweredLeft
      rcases ih (follows.right turnsFirst) restLeft with ⟨turnsRest, entries⟩
      refine ⟨turnsFirst.append turnsRest, ?_⟩
      rw [List.map_cons, entries]
      exact congrArg (some · :: _) entered.symm

/-! ## Linked code -/

/-- An instruction with the entry of the function that it calls in place. -/
def link (entries : List (Option Nat)) (instruction : Instruction) : Instruction :=
  match instruction with
  | ⟨.cup, [count, .entry name (some function)]⟩ =>
    match (entries[function]?).join with
    | some address => ⟨.cup, [count, .int address]⟩
    | none => ⟨.cup, [count, .entry name (some function)]⟩
  | other => other

/-- The instructions of a program with all entries in place. -/
def linked (generated : Generated) : List Instruction :=
  generated.code.instructions.map (link generated.entries)

section Linking

variable {config : Config} {move : Nat -> Nat}

theorem omits_link (entries : List (Option Nat)) (instruction : Instruction) :
    omits config (link entries instruction) = omits config instruction := by
  unfold link
  split
  · split <;> rfl
  · rfl

theorem relocate_link (entries : List (Option Nat)) (instruction : Instruction) :
    relocate move (link entries instruction)
      = link (entries.map (Option.map move)) (relocate move instruction) := by
  unfold link
  split
  · rename_i count name function
    have entry : ((entries.map (Option.map move))[function]?).join
        = (entries[function]?).join.map move := by
      rw [List.getElem?_map]
      cases entries[function]? <;> rfl
    have same : relocate move ⟨.cup, [count, .entry name (some function)]⟩
        = ⟨.cup, [count, .entry name (some function)]⟩ := rfl
    rw [same]
    dsimp only
    rw [entry]
    cases (entries[function]?).join <;> rfl
  · rename_i plain
    unfold relocate
    split
    · rfl
    · rfl
    · rfl
    · split
      · exact absurd rfl (plain _ _ _)
      · rfl

theorem renumber_linked (code : List Instruction) (entries : List (Option Nat)) :
    renumber config (code.map (link entries)) = renumber config code := by
  funext address
  rw [renumber, renumber, ← List.map_take, List.countP_map]
  congr 2
  funext instruction
  exact omits_link entries instruction

theorem shrink_linked (code : List Instruction) (entries : List (Option Nat)) :
    shrink config move (code.map (link entries))
      = (shrink config move code).map (link (entries.map (Option.map move))) := by
  rw [shrink, shrink, List.filter_map, List.map_map, List.map_map]
  congr 1
  · funext instruction
    exact relocate_link entries instruction
  · congr 1
    funext instruction
    exact congrArg (! ·) (omits_link entries instruction)

end Linking

/-! ## Programs -/

/-- Of two lowerings of one program, the one under fewer features is what is left of the
one with all of them. -/
theorem Arranged.turns {full config program placed placedLeft enabled reduced functionCode blockCode
    functionLeft blockLeft} (arranged : Arranged full program placed enabled functionCode blockCode)
    (arrangedLeft : Arranged config program placedLeft reduced functionLeft blockLeft) {turn}
    (suits : turn.Suits full config) (fixed : (turn.new, turn.names) = (id, .keep))
    (follows : Follows turn 0 0 enabled.code) :
    Turns turn enabled.code reduced.code
      ∧ reduced.entries = enabled.entries.map (Option.map turn.move) := by
  rw [arranged.code] at follows ⊢
  rw [arrangedLeft.code, arranged.entries, arrangedLeft.entries, entries_eq, entries_eq]
  have opening (extent : Int) (main main' : Nat) (moved : turn.move main = main') :
      Turns turn (prologue full program.blocks extent main)
        (prologue config program.blocks extent main') :=
    ((Turns.comment _ _).append (turns_frameCode suits _ extent)).append (.jump rfl moved rfl rfl)
  have size (config : Config) (extent : Int) (main : Nat) :
      (prologue config program.blocks extent main).size = prologueSize config :=
    size_prologue config program.blocks extent main
  -- The functions start behind the prologue.
  have followsFunctions := follows.left.right (opening _ _ _ rfl)
  rw [size, size, Nat.zero_add, Nat.zero_add] at followsFunctions
  rcases turns_laid suits fixed arranged.functions followsFunctions arrangedLeft.functions
      with ⟨turnsFunctions, entries⟩
  -- The main code starts behind the functions, and the prologue jumps there.
  have main := followsFunctions.whole turnsFunctions
  have followsBlocks := (follows.right ((opening _ _ _ rfl).append turnsFunctions)).left
  rw [Code.size_append, Code.size_append, size, size, Nat.zero_add, Nat.zero_add] at followsBlocks
  rcases turns_blocks suits arranged.blocks followsBlocks
      with ⟨blocksLeft, loweredBlocks, turnsBlocks⟩
  rw [Turn.tree_of_fixed fixed, List.map_id] at loweredBlocks
  cases loweredBlocks.symm.trans arrangedLeft.blocks
  have ending : Turns turn (blockCode ++ Code.emit .stp []) (blockLeft ++ Code.emit .stp []) :=
    turnsBlocks.append (.same rfl rfl)
  rw [ending.peak_eq]
  exact ⟨((opening _ _ _ main).append turnsFunctions).append ending, entries⟩

/-- The linked code is erased along with the code. -/
theorem linked_of_turns {config enabled reduced}
    (turns : Turns (deletion config (renumber config enabled.code.instructions)) enabled.code
      reduced.code) (entries : reduced.entries
      = enabled.entries.map (Option.map (renumber config enabled.code.instructions))) :
    linked reduced = erase config (linked enabled) := by
  rw [erase, linked, linked, renumber_linked, shrink_linked, turns, apply_deletion, entries]

/-- The compilation of an accepted program ends with the code of the checked program,
whatever the settings. -/
theorem compile_of_typed (config : Config) {source program resolved checked}
    (whole : Written.Whole source program) (judged : ScopedProgram program resolved)
    (typed : TypedProgram program checked) :
    exists placed generated compilation, checked.generate config = (placed, .ok (.ok generated))
      ∧ program.compile config = (placed, .ok compilation)
      ∧ compilation.result = .ok generated := by
  rcases (Resolution.resolve_iff_scoped config whole resolved).mpr judged
      with ⟨diagnostics, accepted⟩
  rcases (Typing.check_iff_typed config whole judged checked).mpr typed with ⟨findings, passed⟩
  rcases generate_of_typed config whole typed with ⟨placed, generated, generates, _⟩
  refine ⟨placed, generated, Compilation.finish (diagnostics ++ findings) (.ok generated),
    generates, ?_, rfl⟩
  simp [Program.compile, accepted, passed, generates]

/-- Features are erased from code.  The code of an accepted program under any settings is
the code with all features, less the instructions that are not asked for, with every
address moved down by the number of deleted instructions before it. -/
theorem compiled_code_erased {bytes : List UInt8} {source : Int64}
    {program resolved checked : Program} {resolving checking : Config}
    {diagnostics findings : List Diagnostic}
    (decoded : Program.decode bytes source = .ok program)
    (accepted : program.resolve resolving = (resolved, .ok ⟨true, diagnostics⟩))
    (passed : resolved.check checking = (checked, .ok ⟨true, findings⟩)) {full : Config}
    (bounds : full.features .boundsCheck = true) (extents : full.features .stackExtent = true)
    (config : Config) :
    exists enabled reduced compiled erased,
      (program.compile full).2 = .ok compiled ∧ compiled.result = .ok enabled
        ∧ (program.compile config).2 = .ok erased ∧ erased.result = .ok reduced
        ∧ linked reduced = erase config (linked enabled) := by
  have whole := Written.whole_of_decode decoded
  have judged := (Resolution.resolve_iff_scoped resolving whole resolved).mp ⟨diagnostics, accepted⟩
  have typed := (Typing.check_iff_typed checking whole judged checked).mp ⟨findings, passed⟩
  rcases compile_of_typed full whole judged typed
      with ⟨_, enabled, compiled, generates, compiles, isEnabled⟩
  rcases compile_of_typed config whole judged typed
      with ⟨_, reduced, erased, generatesLeft, compilesLeft, isReduced⟩
  rcases arranged_of_generate generates with ⟨_, _, arranged⟩
  rcases arranged_of_generate generatesLeft with ⟨_, _, arrangedLeft⟩
  rcases arranged.turns arrangedLeft (deletion_suits bounds extents) rfl
    (follows_renumber config enabled.code) with ⟨turns, entries⟩
  exact ⟨enabled, reduced, compiled, erased, congrArg Prod.snd compiles, isEnabled,
    congrArg Prod.snd compilesLeft, isReduced, linked_of_turns turns entries⟩

/-- All features are erased from the code of the document with an array. -/
theorem compiled_code_erased_grid :
    Program.decode Written.gridText 0 = .ok Written.grid
      ∧ exists enabled reduced compiled erased,
          (Written.grid.compile {}).2 = .ok compiled ∧ compiled.result = .ok enabled
            ∧ (Written.grid.compile { features := fun _ => false }).2 = .ok erased
            ∧ erased.result = .ok reduced
            ∧ linked reduced = erase { features := fun _ => false } (linked enabled) := by
  rcases Resolution.resolve_grid with ⟨diagnostics, accepted⟩
  rcases Typing.check_grid with ⟨findings, passed⟩
  exact ⟨Written.decode_gridText,
    compiled_code_erased Written.decode_gridText accepted passed rfl rfl _⟩

end Lowering
end PCode
