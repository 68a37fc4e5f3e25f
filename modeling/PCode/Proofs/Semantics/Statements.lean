import PCode.Proofs.Lowering.Depth
import PCode.Proofs.Lowering.Parts
import PCode.Proofs.Semantics.Control
import PCode.Proofs.Semantics.Expressions

namespace PCode
namespace Semantics

open Static
open Lowering

/-!
The code of statements.

Lowering gives statements without calls the code that control flow relies on.  The code
of a test pushes its value.  A store into a scalar takes one cell; a composite is copied
as a whole, and source and target have the same parts at the same distances because both
have the same type.
-/

/-! ## Straight code -/

/-- Instructions that land nowhere have no jump among them. -/
theorem straight_of_runs {depth last piece} (runs : Stack.Runs (fun _ => False) depth piece last) :
    Straight piece := by
  induction runs with
  | nil =>
    intro instruction member
    cases member
  | cons steady _ ih =>
    intro other member
    rcases List.mem_cons.mp member with rfl | later
    · apply Bool.eq_false_iff.mpr
      intro jumps
      rcases steady.lands jumps with ⟨_, _, nowhere⟩
      exact nowhere
    · exact ih other later

/-- The code of an expression is straight. -/
theorem straight_of_lowers {config form node code} (lowers : Lowers config form node code) :
    Straight code.instructions :=
  straight_of_runs (lowers.pushes _ 0 (Int.le_refl 0))

theorem straight_of_stores {config target code type value} (straight : Straight target.instructions)
    (stores : Stores config target type value code) : Straight code.instructions := by
  cases stores with
  | scalar _ lowers | composite _ lowers =>
    rw [Code.instructions_append, Code.instructions_append]
    refine straight_append (straight_append straight (straight_of_lowers lowers)) ?_
    intro instruction member
    cases List.mem_singleton.mp member
    rfl

section Statements

variable {Value : Type} {machine : Machine Value} {config : Config} {slots : List Slot}
  {env : Env} {scope : Scope}

/-! ## Stores -/

theorem effect_store {value target stack} {cells : Int -> Value}
    (inside : machine.Inside target 1) :
    machine.effect ⟨.sto, []⟩ ⟨value :: machine.int target :: stack, cells⟩
      = some ⟨stack, overwrite cells target 1 fun _ => value⟩ := by
  have known := machine.int?_int target
  show (machine.int? (machine.int target)).bind _ = _
  rw [known, Option.bind_some, if_pos inside]

theorem effect_copy {source target count stack} {cells : Int -> Value}
    (readable : machine.Inside source count) (writable : machine.Inside target count) :
    machine.effect ⟨.movs, [.int count]⟩
        ⟨machine.int source :: machine.int target :: stack, cells⟩
      = some ⟨stack, overwrite cells target count fun offset => cells (source + offset)⟩ := by
  have knownSource := machine.int?_int source
  have knownTarget := machine.int?_int target
  show (machine.int? (machine.int source)).bind _ = _
  rw [knownSource, Option.bind_some, knownTarget, Option.bind_some, if_pos ⟨readable, writable⟩]

variable {type found : Ty} {code : Code}

/-- A part of a variable is changed in the store and in the frame. -/
theorem transfers_write {memory store size number slot path offset} {contents : Int -> Value}
    {data : List Selector -> Value} (represents : Represents slots memory.cells store)
    (inFrame : InFrame slots size) (isSlot : slots[number]? = some slot)
    (place : PartAt slot.type path type offset)
    (same : forall rest leaf before, PartAt type rest leaf before -> leaf.isComposite = false ->
      contents before = data rest) :
    Transfers slots memory (some (store.write number path data))
      (some ⟨memory.stack, overwrite memory.cells (slot.first + offset) type.cells contents⟩) :=
  .inr ⟨_, _, rfl, rfl, represents.write inFrame isSlot place same, .write inFrame isSlot place⟩

/-- Code behind the address of a part of a variable that gives the part the contents of an
expression. -/
theorem transfers_of_stores (setting : Setting machine config slots env scope)
    {target value value' memory store number slot path offset}
    (represents : Represents slots memory.cells store) (isSlot : slots[number]? = some slot)
    (place : PartAt slot.type path type offset) (ran : machine.run target.instructions memory
      = some ⟨machine.int (slot.first + offset) :: memory.stack, memory.cells⟩)
    (stores : Stores config target type value' code) (typed : HasType env value found value')
    (accepts : Accepts type found value) (settled : Settled scope.structs type)
    (callFree : value.holdsKind .funcCall = false) :
    Transfers slots memory
      (writeFrom? machine.toInterpretation scope store number path value)
      (machine.run code.instructions memory) := by
  have sized := (place.inside (setting.inFrame.sized slot (List.mem_of_getElem? isSlot))).1
  have inside : machine.Inside (slot.first + offset) type.cells :=
    setting.inFrame.inside isSlot place
  rw [writeFrom?]
  cases stores with
  | scalar scalar lowers =>
    have single := sized.cells_eq_one scalar
    rw [single] at inside
    have computed := computes_of_lowers setting lowers typed callFree
      ⟨machine.int (slot.first + offset) :: memory.stack, memory.cells⟩ store represents
    rw [List.append_assoc, Machine.run_code _ ran, Code.instructions_append, Machine.run_append,
      computed, value?]
    cases meaning machine.toInterpretation scope store value with
    | none => exact .inl ⟨rfl, rfl⟩
    | some known =>
      have same : forall rest leaf before, PartAt type rest leaf before ->
          leaf.isComposite = false -> known.load store = known.contents store rest := by
        intro rest leaf before part _
        rw [part.eq_nil_of_scalar scalar, Meaning.contents_nil]
      have done := transfers_write represents setting.inFrame isSlot place same
      rw [single] at done
      rw [Option.map_some, Option.map_some, Option.map_some, Option.bind_some,
        Machine.run_emit, effect_store inside]
      exact done
  | composite _ lowers =>
    cases eq_of_same accepts.same settled (settled_of_hasType setting.agrees.settled typed)
    have located := computes_of_lowers setting lowers typed callFree
      ⟨machine.int (slot.first + offset) :: memory.stack, memory.cells⟩ store represents
    rw [List.append_assoc, Machine.run_code _ ran, Code.instructions_append, Machine.run_append]
    rcases located with ⟨nothing, failed⟩ | ⟨number', slot', path', offset', known, isSlot',
      place', ran'⟩
    · rw [nothing, failed]
      exact .inl ⟨rfl, rfl⟩
    · have inside' : machine.Inside (slot'.first + offset') type.cells :=
        setting.inFrame.inside isSlot' place'
      have same : forall rest leaf before, PartAt type rest leaf before ->
          leaf.isComposite = false ->
          memory.cells (slot'.first + offset' + before) = store number' (path' ++ rest) := by
        intro rest leaf before part scalar
        rw [Int.add_assoc]
        exact represents number' slot' (path' ++ rest) leaf (offset' + before) isSlot'
          (place'.append part) scalar
      rw [known, ran', Option.map_some, Option.bind_some, Machine.run_emit, sized.size_toInt,
        effect_copy inside' inside]
      exact transfers_write represents setting.inFrame isSlot place same

/-! ## Statements -/

theorem Setting.enter (setting : Setting machine config slots env scope) :
    Setting machine config slots ([] :: env) scope :=
  { setting with finished := setting.finished.enter, agrees := setting.agrees.enter }

/-- What holds before a statement holds behind it. -/
theorem Setting.behind {around context behind node node'}
    (setting : Setting machine config slots context.env scope)
    (typed : TypedStmt around context node node' behind)
    (room : Room slots scope.next node'.slots) :
    Setting machine config slots behind.env (scope.behind node) :=
  { setting with
    finished := typed.grows.finished setting.finished
    agrees := agrees_behind typed setting.agrees room }

theorem tests_of_lowers (setting : Setting machine config slots env scope) {test test'}
    (lowers : Lowers config .value test' code) (typed : HasType env test type test')
    (callFree : test.holdsKind .funcCall = false) :
    Tests machine slots scope test code.instructions where
  straight := straight_of_lowers lowers
  run := computes_of_lowers setting lowers typed callFree

theorem writes_of_assign (setting : Setting machine config slots env scope)
    {target target' value value' wanted targetCode}
    (typedTarget : HasType env target wanted target') (typedValue : HasType env value found value')
    (accepts : Accepts wanted found value) (lowers : Lowers config .address target' targetCode)
    (stores : Stores config targetCode target'.type value' code)
    (freeTarget : target.holdsKind .funcCall = false)
    (freeValue : value.holdsKind .funcCall = false) :
    Writes machine slots (fun store => assign? machine.toInterpretation scope store target value)
      code.instructions where
  straight := straight_of_stores (straight_of_lowers lowers) stores
  run := by
    intro memory store represents
    rw [typedTarget.type_eq] at stores
    have settled := settled_of_hasType setting.agrees.settled typedTarget
    rw [assign?]
    rcases computes_of_lowers setting lowers typedTarget freeTarget memory store represents
        with ⟨nothing, failed⟩ | ⟨number, slot, path, offset, known, isSlot, place, ran⟩
    · rw [nothing]
      refine .inl ⟨rfl, ?_⟩
      cases stores with
      | scalar _ _ | composite _ _ =>
        rw [List.append_assoc]
        exact Machine.run_failed _ _ failed
    · rw [known]
      exact transfers_of_stores setting represents isSlot place ran stores typedValue accepts
        settled freeValue

theorem writes_of_init {context : Context} {name declared init init' note}
    (setting : Setting machine config slots context.env scope) (room : Room slots scope.next
      (Node.varDecl (placeNote (typeNote note type) context.used false) name declared init').slots)
    (typedInit : HasType context.env init found init') (denotes : Denotes context.env declared type)
    (accepts : Accepts type found init) (stores : Stores config
      (Code.emit .lda [.int (0 : Nat), .int (Int64.ofInt context.used).toInt]) type init' code)
    (callFree : init.holdsKind .funcCall = false) :
    Writes machine slots
      (fun store => writeFrom? machine.toInterpretation scope store scope.next [] init)
      code.instructions where
  straight := by
    refine straight_of_stores ?_ stores
    intro instruction member
    cases List.mem_singleton.mp member
    rfl
  run := by
    intro memory store represents
    refine transfers_of_stores setting represents room.getElem?_eq .whole ?_ stores typedInit
      accepts (settled_of_denotes denotes setting.agrees.settled) callFree
    rw [Int.add_zero]
    rfl

mutual

/-- Lowering gives a statement without calls the code that control flow relies on. -/
theorem compiled_of_typed {context behind node node'} :
    TypedStmt none context node node' behind ->
    forall {scope address code},
      Setting machine config slots context.env scope -> Room slots scope.next node'.slots ->
      node.holdsKind .funcCall = false -> LowersStmt config false address node' code ->
      Compiled machine slots scope node address code.instructions
  | .block stmts, _, _, _, setting, room, callFree, lowered => by
    cases lowered with
    | block lowersAll =>
      rw [Node.slots] at room
      exact .block (compiledAll_of_typed stmts setting.enter room callFree lowersAll)
  | .varDecl _ _, _, _, _, _, _, _, lowered => by
    cases lowered with
    | varDecl => exact .declare
    | varDeclInit present _ => cases present
  | .varDeclInit typedInit denotes _ accepts, _, _, _, setting, room, callFree, lowered => by
    cases lowered with
    | varDecl => cases typedInit
    | varDeclInit _ stores =>
      exact .declareInit (by cases typedInit <;> rfl)
        (writes_of_init setting room typedInit denotes accepts stores callFree)
  | .assign typedTarget _ typedValue accepts, _, _, _, setting, _, callFree, lowered => by
    cases lowered with
    | assign lowers stores =>
      have parts := Bool.or_eq_false_iff.mp callFree
      exact .assign (writes_of_assign setting typedTarget typedValue accepts lowers stores
        parts.1 parts.2)
  | .branch typedTest thenBody, _, _, _, setting, room, callFree, lowered => by
    have parts := Bool.or_eq_false_iff.mp callFree
    have earlier := Bool.or_eq_false_iff.mp parts.1
    rw [Node.slots, Node.slots_absent, List.append_nil] at room
    cases lowered with
    | branch lowersTest lowersThen =>
      have tests := tests_of_lowers setting lowersTest typedTest earlier.1
      have compiled := compiled_of_typed thenBody setting room earlier.2 lowersThen
      rw [branchCode, Code.instructions_append, Code.instructions_append]
      exact .branch tests compiled
    | branchElse present _ _ _ => cases present
  | .branchElse typedTest thenBody elseBody, scope, _, _, setting, room, callFree, lowered => by
    have parts := Bool.or_eq_false_iff.mp callFree
    have earlier := Bool.or_eq_false_iff.mp parts.1
    rw [Node.slots] at room
    have later := room.right
    rw [← next_behind thenBody scope] at later
    cases lowered with
    | branch _ _ => cases elseBody
    | branchElse _ lowersTest lowersThen lowersElse =>
      have tests := tests_of_lowers setting lowersTest typedTest earlier.1
      have compiledThen := compiled_of_typed thenBody setting room.left earlier.2 lowersThen
      have compiledElse := compiled_of_typed elseBody (setting.behind thenBody room.left) later
        parts.2 lowersElse
      rw [branchCode, Code.instructions_append, Code.instructions_append,
        Code.instructions_append, Code.instructions_append]
      exact .branchElse tests compiledThen compiledElse
  | .loop typedTest body, _, _, _, setting, room, callFree, lowered => by
    have parts := Bool.or_eq_false_iff.mp callFree
    rw [Node.slots] at room
    cases lowered with
    | loop lowersTest lowersBody =>
      have tests := tests_of_lowers setting lowersTest typedTest parts.1
      have compiled := compiled_of_typed body setting room parts.2 lowersBody
      rw [loopCode, Code.instructions_append, Code.instructions_append,
        Code.instructions_append]
      exact .loop tests compiled
  | .ret inside _ _, _, _, _, _, _, _, _ => by cases inside

theorem compiledAll_of_typed {context behind nodes nodes'} :
    TypedStmts none context nodes nodes' behind ->
    forall {scope address code},
      Setting machine config slots context.env scope ->
      Room slots scope.next (Node.slotsIn nodes') ->
      Node.anyHoldsKind .funcCall nodes = false -> LowersStmts config false address nodes' code ->
      CompiledAll machine slots scope nodes address code.instructions
  | .nil, _, _, _, _, _, _, lowered => by
    cases lowered
    exact .nil
  | .cons first rest, scope, _, _, setting, room, callFree, lowered => by
    have parts := Bool.or_eq_false_iff.mp callFree
    rw [Node.slotsIn] at room
    have later := room.right
    rw [← next_behind first scope] at later
    cases lowered with
    | cons lowersFirst lowersRest =>
      rw [Code.instructions_append]
      exact .cons (compiled_of_typed first setting room.left parts.1 lowersFirst)
        (compiledAll_of_typed rest (setting.behind first room.left) later parts.2 lowersRest)

end

end Statements

end Semantics
end PCode
