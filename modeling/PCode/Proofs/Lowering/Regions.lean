import PCode.Proofs.Lowering.Depth
import PCode.Proofs.Lowering.Programs

namespace PCode
namespace Lowering

open Stack

/-!
Regions of code and their stack extents.

The code of a program falls into regions that control flow does not cross: one for
each function, and one for the main code.  A region is entered with an empty
expression stack, and the extent that its frame announces is the greatest depth in
it.  Since every region is level, one running sum over the whole code gives the
depths of all regions.
-/

/-! ## Regions -/

/-- A region: where control flow enters it, where it is over, where its frame is set
up, what it ends with, and the statements that it is made of. -/
structure Region where
  entry : Nat
  stop : Nat
  frame : Nat
  last : Opcode
  inFunction : Bool
  start : Nat
  stmts : List Node

namespace Region

/-- The addresses of a region. -/
def Has (region : Region) (address : Nat) : Prop := region.entry <= address ∧ address < region.stop

/-- The statements of a region, inner ones included, with the addresses where their
code starts. -/
def Contains (config : Config) (region : Region) (address : Nat) (part : Node) : Prop :=
  exists first node, Listed config region.inFunction region.start region.stmts first node
    ∧ Occurs config region.inFunction first node address part

end Region

/-- An instruction at an address of a region, in order: there is what it takes,
whatever comes next is in the region and expects the depth that is left, jumps lead
to depth zero, and depth zero is where a region ends. -/
structure Orderly (region : Region) (depth : Nat -> Int) (address : Nat)
    (instruction : Instruction) : Prop where
  covered : instruction.takes <= depth address
  flows : forall next, Leads instruction address next ->
    region.Has next ∧ depth next = depth address + instruction.effect
  jumps : instruction.opcode.jumps = true ->
    exists target : Nat, instruction.operands = [.int target] ∧ depth target = 0
  ends : instruction.opcode.ends = true -> depth address = 0

/-- A statement whose code stands in a region, with depth zero where it starts and
where it ends. -/
structure Bounded (config : Config) (code : List Instruction) (region : Region)
    (depth : Nat -> Int) (address : Nat) (part : Node) (partCode : Code) : Prop where
  lowered : lowerStmt config region.inFunction address part = .ok partCode
  stands : (code.drop address).take partCode.size = partCode.instructions
  start : region.Has address ∧ depth address = 0
  stop : region.Has (address + partCode.size) ∧ depth (address + partCode.size) = 0

/-- A region with one depth for each of its addresses.  Control flow reaches every
address at its depth and no other, depths are never negative, they are zero at the
boundaries of statements, and the greatest of them is the extent. -/
structure Disciplined (config : Config) (code : List Instruction) (region : Region)
    (depth : Nat -> Int) (extent : Int) : Prop where
  orderly : forall address, region.Has address ->
    exists instruction, code[address]? = some instruction ∧ Orderly region depth address instruction
  reached : forall address found, Reaches code region.entry address found ->
    region.Has address ∧ found = depth address
  nonneg : forall address, region.Has address -> 0 <= depth address
  statements : forall address part, region.Contains config address part ->
    exists partCode, Bounded config code region depth address part partCode
  attained : exists address, region.Has address ∧ depth address = extent
  bounded : forall address, region.Has address -> depth address <= extent

/-! ## Regions in order -/

/-- The instructions of a region: what opens it, the code of its statements, and the
instruction that ends it. -/
def Region.instructions (region : Region) (opening : List Instruction) (code : Code) :
    List Instruction :=
  opening ++ code.instructions ++ [⟨region.last, []⟩]

/-- A region in code, behind instructions that are level. -/
structure Region.Stands (config : Config) (full : List Instruction) (region : Region)
    (before opening : List Instruction) (code : Code) (after : List Instruction) : Prop where
  joined : full = before ++ region.instructions opening code ++ after
  flat : netEffect before = 0
  opens : forall lands, Runs lands 0 opening 0
  lowered : lowerStmts config region.inFunction region.start region.stmts = .ok code
  ends : region.last.ends = true
  entry : region.entry = before.length
  start : region.start = before.length + opening.length
  stop : region.stop = before.length + (region.instructions opening code).length

namespace Region.Stands

variable {config : Config} {full : List Instruction} {region : Region}
variable {before opening after : List Instruction} {code : Code}
variable (stands : region.Stands config full before opening code after)
include stands

theorem offset {address} (has : region.Has address) :
    exists offset, address = before.length + offset
      ∧ offset < (region.instructions opening code).length := by
  rcases has with ⟨low, high⟩
  rw [stands.entry] at low
  rw [stands.stop] at high
  exact ⟨address - before.length, by omega, by omega⟩

variable {offset : Nat}

theorem has (inside : offset < (region.instructions opening code).length) :
    region.Has (before.length + offset) := by
  constructor
  · rw [stands.entry]
    omega
  · rw [stands.stop]
    omega

theorem getElem?_eq (offset : Nat) (inside : offset < (region.instructions opening code).length) :
    full[before.length + offset]? = (region.instructions opening code)[offset]? := by
  rw [stands.joined, List.append_assoc, List.getElem?_append_right (Nat.le_add_right _ _),
    Nat.add_sub_cancel_left, List.getElem?_append_left inside]

theorem depthAt_eq (inside : offset <= (region.instructions opening code).length) :
    depthAt full (before.length + offset) = depthAt (region.instructions opening code) offset := by
  rw [stands.joined, List.append_assoc, depthAt_append, stands.flat, Int.zero_add,
    depthAt_append_left _ after inside]

/-- Control flow goes on inside a region, except at its end. -/
theorem inside_succ {instruction}
    (found : (region.instructions opening code)[offset]? = some instruction)
    (continues : instruction.opcode.continues = true) :
    offset + 1 < (region.instructions opening code).length := by
  have bound := (List.getElem?_eq_some_iff.mp found).1
  have short : offset ≠ (opening ++ code.instructions).length := by
    rintro rfl
    rw [instructions, List.getElem?_append_right (Nat.le_refl _), Nat.sub_self] at found
    cases found
    rw [(Opcode.continues_of_ends stands.ends).1] at continues
    cases continues
  rw [instructions, List.length_append, List.length_singleton] at bound ⊢
  omega

/-- Depth zero is to be expected behind the first instructions of a region, if these
are level. -/
theorem level {front rest} (parts : region.instructions opening code = front ++ rest)
    (more : rest ≠ []) (flat : netEffect front = 0) :
    region.Has (before.length + front.length)
      ∧ depthAt full (before.length + front.length) = 0 := by
  have inside : front.length < (region.instructions opening code).length := by
    rw [parts, List.length_append]
    exact Nat.lt_add_of_pos_right (List.length_pos_of_ne_nil more)
  refine ⟨stands.has inside, ?_⟩
  rw [stands.depthAt_eq (Nat.le_of_lt inside), parts, depthAt_append_left _ _ (Nat.le_refl _),
    depthAt_length, flat]

/-- What stands before a statement is level, and so is the statement. -/
theorem statement {address part} (contains : region.Contains config address part) :
    exists partCode, Bounded config full region (depthAt full) address part partCode := by
  rcases contains with ⟨first, node, listed, occurs⟩
  rcases listed.inside stands.lowered with ⟨nodeCode, nodeLowered, outer⟩
  rcases occurs.inside nodeLowered with ⟨partCode, partLowered, inner⟩
  rcases outer.trans inner with ⟨pre, post, split, rfl, flat⟩
  -- The region falls into what stands before the statement, its code, and the rest.
  generalize front : opening ++ pre.instructions = leading
  have flatFront : netEffect leading = 0 := by
    rw [← front, netEffect_append, (stands.opens fun _ => True).netEffect_eq_zero, flat]
    rfl
  have flatThrough : netEffect (leading ++ partCode.instructions) = 0 := by
    rw [netEffect_append, flatFront, netEffect_lowerStmt partLowered]
    rfl
  have parts : region.instructions opening code
      = leading ++ partCode.instructions ++ (post.instructions ++ [⟨region.last, []⟩]) := by
    rw [instructions, split, Code.instructions_append, Code.instructions_append, ← front]
    simp only [List.append_assoc]
  have place : region.start + pre.size = before.length + leading.length := by
    rw [stands.start, ← front, List.length_append, Nat.add_assoc]
    rfl
  have stop := stands.level parts (by simp) flatThrough
  rw [List.append_assoc] at parts
  have start := stands.level parts (by simp) flatFront
  rw [List.length_append, ← Nat.add_assoc, ← place] at stop
  rw [← place] at start
  refine ⟨partCode, partLowered, ?_, start, stop⟩
  rw [place, ← List.length_append, stands.joined, parts]
  simp only [List.append_assoc]
  rw [← List.append_assoc, List.drop_left, List.take_left']
  rfl

theorem boundary {first address node}
    (listed : Listed config region.inFunction region.start region.stmts first node)
    (boundary : Boundary config region.inFunction first node address) :
    region.Has address ∧ depthAt full address = 0 := by
  rcases boundary with ⟨inner, part, occurs, place⟩
  rcases stands.statement ⟨first, node, listed, occurs⟩ with ⟨partCode, bounded⟩
  rcases place with rfl | ⟨code', lowered, rfl⟩
  · exact bounded.start
  · rw [bounded.lowered] at lowered
    cases lowered
    exact bounded.stop

/-- All instructions of a region may stand where they do, and its jumps stay inside. -/
theorem runs : Runs (fun target => region.Has target ∧ depthAt full target = 0) 0
    (region.instructions opening code) 0 := by
  have body := (lowers_of_lowerStmts stands.lowered).runs
    (fun target => region.Has target ∧ depthAt full target = 0)
    fun first node listed _ boundary => stands.boundary listed boundary
  have level : Instruction.takes ⟨region.last, []⟩ = 0
      ∧ Instruction.effect ⟨region.last, []⟩ = 0 := by
    have ends := stands.ends
    cases last : region.last <;> rw [last] at ends <;> cases ends <;> exact ⟨rfl, rfl⟩
  refine ((stands.opens _).append body).append (.single (.plain ?_ ?_ fun _ => rfl) ?_)
  · exact Int.le_of_eq level.1
  · exact (Opcode.continues_of_ends stands.ends).2
  · rw [level.2]
    rfl

theorem orderly {address} (has : region.Has address) :
    exists instruction, full[address]? = some instruction
      ∧ Orderly region (depthAt full) address instruction := by
  rcases stands.offset has with ⟨offset, rfl, inside⟩
  have present :
      exists instruction, (region.instructions opening code)[offset]? = some instruction :=
    ⟨_, List.getElem?_eq_getElem inside⟩
  rcases present with ⟨instruction, found⟩
  have foundHere := (stands.getElem?_eq offset inside).trans found
  have steady := stands.runs.steady found
  rw [Int.zero_add, ← stands.depthAt_eq (Nat.le_of_lt inside)] at steady
  refine ⟨instruction, foundHere, steady.covered, ?_, ?_, steady.ended⟩
  · intro next leads
    cases leads with
    | next continues =>
      exact ⟨stands.has (stands.inside_succ found continues), depthAt_succ foundHere⟩
    | jump jumps operands =>
      rcases steady.lands jumps with ⟨target, sameOperands, lands, level⟩
      rw [operands] at sameOperands
      cases sameOperands
      exact ⟨lands, level.trans (steady.jumped jumps).symm⟩
  · intro jumps
    rcases steady.lands jumps with ⟨target, operands, _, level⟩
    exact ⟨target, operands, level⟩

theorem entered : region.Has region.entry ∧ depthAt full region.entry = 0 := by
  have nonempty : 0 < (region.instructions opening code).length := by
    rw [instructions, List.length_append, List.length_singleton]
    omega
  rw [stands.entry]
  exact ⟨stands.has nonempty, stands.depthAt_eq (Nat.zero_le _)⟩

/-- One step of control flow stays in the region and keeps to the expected depths, so
all of control flow does. -/
theorem reached {address depth} (reaches : Reaches full region.entry address depth) :
    region.Has address ∧ depth = depthAt full address := by
  induction reaches with
  | enter => exact ⟨stands.entered.1, stands.entered.2.symm⟩
  | step _ found leads ih =>
    rcases ih with ⟨has, equal⟩
    rcases stands.orderly has with ⟨instruction, foundHere, orderly⟩
    rw [found] at foundHere
    cases foundHere
    rcases orderly.flows _ leads with ⟨hasNext, next⟩
    exact ⟨hasNext, by rw [equal, next]⟩

theorem attained : exists address, region.Has address
    ∧ depthAt full address = Code.peakOf (region.instructions opening code) := by
  rcases exists_depthAt_eq_peakOf (region.instructions opening code) with ⟨offset, inside, peak⟩
  -- Right behind the region the sum is zero again, as it is at the entry.
  rcases Nat.lt_or_eq_of_le inside with before | rfl
  · exact ⟨_, stands.has before, by rw [stands.depthAt_eq inside, peak]⟩
  · rw [depthAt_length, stands.runs.netEffect_eq_zero] at peak
    exact ⟨region.entry, stands.entered.1, by rw [stands.entered.2, peak]⟩

/-- The running sum over all code orders the region. -/
theorem disciplined : Disciplined config full region (depthAt full)
    (Code.peakOf (region.instructions opening code)) where
  orderly := fun _ has => stands.orderly has
  reached := fun _ _ reaches => stands.reached reaches
  nonneg := by
    intro address has
    rcases stands.offset has with ⟨offset, rfl, inside⟩
    have nonneg := stands.runs.nonneg (Int.le_refl 0) offset
    rw [Int.zero_add] at nonneg
    exact (stands.depthAt_eq (Nat.le_of_lt inside)).symm ▸ nonneg
  statements := fun _ _ contains => stands.statement contains
  attained := stands.attained
  bounded := by
    intro address has
    rcases stands.offset has with ⟨offset, rfl, inside⟩
    rw [stands.depthAt_eq (Nat.le_of_lt inside)]
    exact depthAt_le_peakOf _ offset

end Region.Stands

/-! ## Frames -/

theorem size_frameCode (config : Config) (size : Int64) (extent : Int) :
    (frameCode config size extent).size = frameCodeSize config := by
  rw [frameCode, frameCodeSize, Code.size_append, Code.size_emit]
  split <;> rfl

theorem runs_frameCode (config : Config) (size : Int64) (extent : Int) (lands : Nat -> Prop) :
    Runs lands 0 (frameCode config size extent).instructions 0 := by
  have setup : Pushes 0 (Code.emit .ssp [.int size.toInt]) :=
    Pushes.nil.step _ _ 0 ⟨rfl, rfl⟩ (Int.le_refl 0) rfl
  have announced : Pushes 0 (if config.features .stackExtent then Code.emit .sep [.int extent]
      else []) := by
    split
    · exact Pushes.nil.step _ _ 0 ⟨rfl, rfl⟩ (Int.le_refl 0) rfl
    · exact .nil
  exact (setup.append announced).level lands

variable {config : Config} {full before after : List Instruction} {code : Code} {start : Nat}
  {name : String} {size : Int64} {body : Node} {nodes : List Node}

/-- With extents announced, a frame is set up by two instructions. -/
theorem instructions_frameCode (extents : config.features .stackExtent = true) (size : Int64)
    (extent : Int) :
    (frameCode config size extent).instructions
      = [⟨.ssp, [.int size.toInt]⟩, ⟨.sep, [.int extent]⟩] := by
  rw [frameCode, if_pos extents]
  rfl

theorem peakOf_frameCode (config : Config) (size : Int64) (extent : Int) (rest : List Instruction) :
    Code.peakOf ((frameCode config size extent).instructions ++ rest) = Code.peakOf rest := by
  have nonneg := peakOf_nonneg rest
  rw [frameCode]
  split
  · exact show max 0 (0 + max 0 (0 + Code.peakOf rest)) = Code.peakOf rest by omega
  · exact show max 0 (0 + Code.peakOf rest) = Code.peakOf rest by omega

/-- A region whose frame announces its extent, from the instruction that sets up the
frame to the one that ends the region. -/
structure Framed (config : Config) (code : List Instruction) (region : Region) (extent : Int) :
    Prop where
  opened : exists size, code[region.frame]? = some ⟨.ssp, [.int size]⟩
  announced : code[region.frame + 1]? = some ⟨.sep, [.int extent]⟩
  closed : code[region.stop - 1]? = some ⟨region.last, []⟩
  disciplined : Disciplined config code region (depthAt code) extent

theorem Region.Stands.closed {region : Region} {opening}
    (stands : region.Stands config full before opening code after) :
    full[region.stop - 1]? = some ⟨region.last, []⟩ := by
  have length : (region.instructions opening code).length
      = (opening ++ code.instructions).length + 1 := List.length_append
  have place : region.stop - 1 = before.length + (opening ++ code.instructions).length := by
    rw [stands.stop, length]
    omega
  rw [place, stands.getElem?_eq _ (by omega), Region.instructions,
    List.getElem?_append_right (Nat.le_refl _), Nat.sub_self]
  rfl

/-! ## Functions -/

/-- The region of a function. -/
def Region.ofFunction (config : Config) (entry size : Nat) (body : Node) : Region where
  entry
  stop := entry + size
  frame := entry
  last := .retf
  inFunction := true
  start := entry + frameCodeSize config
  stmts := [body]

/-- The regions of functions, from an address to another, without gaps. -/
inductive Regions (config : Config) : Nat -> List Node -> List Region -> Nat -> Prop
  | nil {start : Nat} : Regions config start [] [] start
  | cons {start stop note name params result body signature nodes regions code} :
    lowerFunction config start name note.frameSize body = .ok code ->
    Regions config (start + code.size) nodes regions stop ->
    Regions config start (.funcDecl note name params result body signature (some start) :: nodes)
      (.ofFunction config start code.size body :: regions) stop

/-- The instructions of a function: its frame, its body, and a return. -/
theorem instructions_lowerFunction
    (lowered : lowerFunction config start name size body = .ok code) :
    exists bodyCode, lowerStmts config true (start + frameCodeSize config) [body] = .ok bodyCode
      ∧ code.instructions
        = (frameCode config size (Code.peak (bodyCode ++ Code.emit .retf []))).instructions
          ++ bodyCode.instructions ++ [⟨.retf, []⟩] := by
  rw [lowerFunction] at lowered
  rcases Results.of_bind lowered with ⟨bodyCode, bodyLowered, ⟨⟩⟩
  refine ⟨bodyCode, ?_, ?_⟩
  · rw [lowerStmts, bodyLowered, Results.ok_bind, lowerStmts, Results.ok_bind, List.append_nil]
  · simp only [Code.instructions_append, Code.instructions_comment, Code.instructions_emit,
      List.nil_append, List.append_nil, List.append_assoc]

theorem netEffect_lowerFunction (lowered : lowerFunction config start name size body = .ok code) :
    netEffect code.instructions = 0 := by
  rcases instructions_lowerFunction lowered with ⟨bodyCode, bodyLowered, parts⟩
  have frame :=
    runs_frameCode config size (Code.peak (bodyCode ++ Code.emit .retf [])) fun _ => True
  have body := (lowers_of_lowerStmts bodyLowered).runs (fun _ => True) fun _ _ _ _ _ => trivial
  rw [parts, netEffect_append, netEffect_append, frame.netEffect_eq_zero, body.netEffect_eq_zero]
  rfl

/-- The code of a function is a region, wherever it stands behind level code. -/
theorem stands_of_lowerFunction (flat : netEffect before = 0)
    (lowered : lowerFunction config before.length name size body = .ok code)
    (joined : full = before ++ code.instructions ++ after) :
    exists bodyCode, (Region.ofFunction config before.length code.size body).Stands config full
      before (frameCode config size (Code.peak (bodyCode ++ Code.emit .retf []))).instructions
      bodyCode after := by
  rcases instructions_lowerFunction lowered with ⟨bodyCode, bodyLowered, parts⟩
  refine ⟨bodyCode, ?_⟩
  exact {
    joined := by rw [joined, parts]; rfl
    flat
    opens := runs_frameCode config size _
    lowered := bodyLowered
    ends := rfl
    entry := rfl
    start := congrArg (before.length + ·) (size_frameCode config size _).symm
    stop := congrArg (before.length + ·) (congrArg List.length parts) }

theorem framed_of_lowerFunction (extents : config.features .stackExtent = true)
    (flat : netEffect before = 0)
    (lowered : lowerFunction config before.length name size body = .ok code)
    (joined : full = before ++ code.instructions ++ after) :
    exists extent, Framed config full (.ofFunction config before.length code.size body) extent := by
  rcases stands_of_lowerFunction flat lowered joined with ⟨bodyCode, stands⟩
  generalize extent : Code.peak (bodyCode ++ Code.emit .retf []) = depth at stands
  have opened := stands.getElem?_eq 0
  have announced := stands.getElem?_eq 1
  rw [Region.instructions, instructions_frameCode extents] at opened announced
  have peak : Code.peakOf (Region.instructions (.ofFunction config before.length code.size body)
      (frameCode config size depth).instructions bodyCode) = depth := by
    rw [Region.instructions, List.append_assoc, peakOf_frameCode, ← extent, Code.peak,
      Code.instructions_append]
    rfl
  exact ⟨depth, ⟨_, opened (Nat.zero_lt_succ _)⟩, announced (Nat.succ_lt_succ (Nat.zero_lt_succ _)),
    stands.closed, peak ▸ stands.disciplined⟩

/-- Functions in order have their regions in order.  What holds of the code of a function
wherever it stands holds of all of them. -/
theorem regions_of_laid (Good : Region -> Prop)
    (good : forall {before after name size body code}, netEffect before = 0 ->
      lowerFunction config before.length name size body = .ok code ->
      full = before ++ code.instructions ++ after ->
      Good (.ofFunction config before.length code.size body)) {placed}
    (laid : Laid config start nodes placed code) (flat : netEffect before = 0)
    (place : before.length = start) (joined : full = before ++ code.instructions ++ after) :
    exists regions, Regions config start placed regions (start + code.size)
      ∧ forall region, region ∈ regions -> Good region := by
  induction laid generalizing before with
  | nil => exact ⟨[], .nil, fun _ member => by cases member⟩
  | @cons _ _ _ _ _ _ _ _ _ _ code rest lowered _ ih =>
    subst place
    rw [Code.instructions_append] at joined
    -- The function is level, so what stands before the next one is level too.
    have level : netEffect (before ++ code.instructions) = 0 := by
      rw [netEffect_append, flat, netEffect_lowerFunction lowered]
      rfl
    have here : full = before ++ code.instructions ++ (rest.instructions ++ after) := by
      rw [joined]
      simp only [List.append_assoc]
    have first := good flat lowered here
    rcases ih level List.length_append
      (by rw [here, ← List.append_assoc]) with ⟨regions, behind, others⟩
    rw [Nat.add_assoc, ← Code.size_append] at behind
    refine ⟨_ :: regions, .cons lowered behind, ?_⟩
    intro region member
    rcases List.mem_cons.mp member with rfl | later
    · exact first
    · exact others region later

/-! ## The main code -/

/-- The region of the main code.  Its frame is set up by the prologue. -/
def Region.ofMain (main stop : Nat) (blocks : List Node) : Region where
  entry := main
  stop
  frame := 0
  last := .stp
  inFunction := false
  start := main
  stmts := blocks

/-- Numbering the blocks of the main program adds no instructions. -/
theorem instructions_lowerBlocks {number}
    (lowered : lowerBlocks config start number nodes = .ok code) :
    exists stmts, lowerStmts config false start nodes = .ok stmts
      ∧ stmts.instructions = code.instructions := by
  induction nodes generalizing start number code with
  | nil =>
    cases lowered
    exact ⟨[], rfl, rfl⟩
  | cons node nodes ih =>
    rw [lowerBlocks] at lowered
    rcases Results.of_binds lowered with ⟨firstCode, firstLowered, restCode, restLowered, ⟨⟩⟩
    rcases ih restLowered with ⟨stmts, stmtsLowered, same⟩
    refine ⟨firstCode ++ stmts, ?_, ?_⟩
    · rw [lowerStmts, firstLowered, Results.ok_bind, stmtsLowered]
      rfl
    · simp only [Code.instructions_append, Code.instructions_comment, List.nil_append, same]

theorem Laid.netEffect_eq_zero {placed} (laid : Laid config start nodes placed code) :
    netEffect code.instructions = 0 := by
  induction laid with
  | nil => rfl
  | cons lowered _ ih =>
    rw [Code.instructions_append, netEffect_append, netEffect_lowerFunction lowered,
      ih]
    rfl

theorem instructions_prologue (config : Config) (blocks : List Node) (extent : Int) (main : Nat) :
    (prologue config blocks extent main).instructions
      = (frameCode config (mainFrameSize blocks) extent).instructions ++ [⟨.ujp, [.int main]⟩] := by
  rw [prologue, Code.instructions_append, Code.instructions_append]
  rfl

theorem size_prologue (config : Config) (blocks : List Node) (extent : Int) (main : Nat) :
    (prologue config blocks extent main).instructions.length = prologueSize config := by
  rw [instructions_prologue, List.length_append]
  exact congrArg (· + 1) (size_frameCode config (mainFrameSize blocks) extent)

theorem netEffect_prologue (config : Config) (blocks : List Node) (extent : Int) (main : Nat) :
    netEffect (prologue config blocks extent main).instructions = 0 := by
  have frame := runs_frameCode config (mainFrameSize blocks) extent fun _ => True
  rw [instructions_prologue, netEffect_append, frame.netEffect_eq_zero]
  rfl

section Arrangement

variable {config : Config} {program placed : Program} {generated : Generated}
variable {functionCode blockCode : Code}
variable (arranged : Arranged config program placed generated functionCode blockCode)
include arranged

/-- The main code is the last region. -/
theorem Arranged.stands_main : exists before stmts,
    stmts.instructions = blockCode.instructions
      ∧ (Region.ofMain (prologueSize config + functionCode.size) generated.code.size
          program.blocks).Stands config generated.code.instructions before [] stmts [] := by
  rcases instructions_lowerBlocks arranged.blocks with ⟨stmts, stmtsLowered, same⟩
  have joined := congrArg Code.instructions arranged.code
  generalize Code.peak (blockCode ++ Code.emit .stp []) = depth at joined
  generalize place : prologueSize config + functionCode.size = main at joined stmtsLowered ⊢
  rw [Code.instructions_append, Code.instructions_append] at joined
  have parts : (blockCode ++ Code.emit .stp []).instructions
      = Region.instructions (.ofMain main generated.code.size program.blocks) [] stmts := by
    rw [Code.instructions_append, ← same]
    rfl
  have length : main = ((prologue config program.blocks depth main).instructions
      ++ functionCode.instructions).length := by
    rw [List.length_append, size_prologue, ← place]
    rfl
  refine ⟨(prologue config program.blocks depth main).instructions ++ functionCode.instructions,
    stmts, same, ?_⟩
  exact {
    joined := by rw [joined, parts, List.append_nil]
    flat := by
      rw [netEffect_append, netEffect_prologue, arranged.functions.netEffect_eq_zero]
      rfl
    opens := fun _ => .nil
    lowered := stmtsLowered
    ends := rfl
    entry := length
    start := length
    stop := by rw [← parts, ← List.length_append, ← joined]; rfl }

theorem Arranged.framed_main (extents : config.features .stackExtent = true) :
    exists extent, Framed config generated.code.instructions
      (.ofMain (prologueSize config + functionCode.size) generated.code.size program.blocks)
      extent := by
  rcases arranged.stands_main with ⟨before, stmts, same, stands⟩
  have peak : Code.peakOf (Region.instructions (.ofMain (prologueSize config + functionCode.size)
      generated.code.size program.blocks) [] stmts)
        = Code.peak (blockCode ++ Code.emit .stp []) := by
    rw [Code.peak, Code.instructions_append, ← same]
    rfl
  have joined := congrArg Code.instructions arranged.code
  rw [Code.instructions_append, Code.instructions_append, instructions_prologue,
    instructions_frameCode extents] at joined
  exact ⟨_, ⟨(mainFrameSize program.blocks).toInt, by rw [joined]; rfl⟩, by rw [joined]; rfl,
    stands.closed, peak ▸ stands.disciplined⟩

/-- The functions stand between the prologue and the main code, each in its region. -/
theorem Arranged.regions (Good : Region -> Prop)
    (good : forall {before after name size body code}, netEffect before = 0 ->
      lowerFunction config before.length name size body = .ok code ->
      generated.code.instructions = before ++ code.instructions ++ after ->
      Good (.ofFunction config before.length code.size body)) :
    exists regions, Regions config (prologueSize config) placed.functions regions
        (prologueSize config + functionCode.size)
      ∧ forall region, region ∈ regions -> Good region := by
  have joined := congrArg Code.instructions arranged.code
  rw [Code.instructions_append, Code.instructions_append] at joined
  exact regions_of_laid Good good arranged.functions (netEffect_prologue _ _ _ _)
    (size_prologue _ _ _ _) joined

end Arrangement

/-! ## Programs -/

/-- Code in which the expression stack is in order.  The prologue jumps to the main
code, the functions have their regions between the two, and every region has one
depth for each address, the greatest of which is the extent that its frame
announces and that is printed. -/
def StackOrdered (config : Config) (placed : Program) (generated : Generated) : Prop :=
  exists texts regions, exists main : Nat, generated.code.texts generated.bindings = .ok texts
    ∧ generated.code.instructions[2]? = some ⟨.ujp, [.int main]⟩
    ∧ Regions config 3 placed.functions regions main
    ∧ forall region, region ∈ .ofMain main generated.code.size placed.blocks :: regions ->
        exists extent, Framed config generated.code.instructions region extent
          ∧ texts[region.frame + 1]? = some ("sep " ++ toString extent)

theorem text_sep (bindings : Bindings) (extent : Int) :
    Instruction.text bindings ⟨.sep, [.int extent]⟩ = .ok ("sep " ++ toString extent) := by
  refine congrArg Except.ok ?_
  show "sep" ++ (" " ++ toString extent ++ "") = "sep " ++ toString extent
  rw [String.append_empty, ← String.append_assoc]
  rfl

theorem Arranged.stackOrdered {program placed generated functionCode blockCode}
    (arranged : Arranged config program placed generated functionCode blockCode)
    (extents : config.features .stackExtent = true) (printable : Printable generated) :
    StackOrdered config placed generated := by
  rcases printable.texts with ⟨texts, listed⟩
  rcases arranged.regions
    (fun region => exists extent, Framed config generated.code.instructions region extent)
    (framed_of_lowerFunction extents) with ⟨regions, ordered, framedFunctions⟩
  rcases arranged.framed_main extents with ⟨mainExtent, framedMain⟩
  have size : prologueSize config = 3 := by rw [prologueSize, frameCodeSize, if_pos extents]
  have jump : generated.code.instructions[2]?
      = some ⟨.ujp, [.int (prologueSize config + functionCode.size : Nat)]⟩ := by
    rw [arranged.code, Code.instructions_append, Code.instructions_append, instructions_prologue,
      instructions_frameCode extents]
    rfl
  rw [← arranged.kept] at framedMain
  refine ⟨texts, regions, _, listed, jump, size ▸ ordered, ?_⟩
  intro region member
  have framed : exists extent, Framed config generated.code.instructions region extent := by
    rcases List.mem_cons.mp member with rfl | later
    · exact ⟨mainExtent, framedMain⟩
    · exact framedFunctions region later
  rcases framed with ⟨extent, framed⟩
  rcases Code.text_of_textsFrom listed framed.announced with ⟨text, rendered, found⟩
  rw [text_sep] at rendered
  cases rendered
  exact ⟨extent, framed, found⟩

end Lowering
end PCode
