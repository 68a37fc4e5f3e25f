import Mathlib.Algebra.Ring.Int.Defs
import PCode.Proofs.Static.Scoping

namespace PCode

/-!
Frames.

All variables of a function, or of a block of the main program, share one frame.  A
scope that is left gives its cells back to nobody, so the variables of a frame lie one
behind another in the order of their declarations, behind the header.  That is one
relation between a list of variables and two cell numbers.  It composes like the
statements do, and everything else about a frame follows from it: variables do not
overlap, none lies outside, and no cell is left over.
-/

/-! ## Variables of a frame -/

/-- The place of a variable in its frame, as the phases note it. -/
structure Slot where
  type : Ty
  offset : Int64
  byRef : Bool

namespace Slot

/-- Number of cells, as a machine integer: one for an address, and otherwise those of
the type. -/
def size (slot : Slot) : Int64 := if slot.byRef then 1 else slot.type.size

/-- The first cell. -/
def first (slot : Slot) : Int := slot.offset.toInt

/-- The first cell behind the variable. -/
def stop (slot : Slot) : Int := slot.offset.toInt + slot.size.toInt

/-- Two variables have no cell in common. -/
def Apart (slot other : Slot) : Prop := slot.stop <= other.first ∨ other.stop <= slot.first

end Slot

namespace Node

mutual

/-- The variables that a node declares, inner scopes included, in source order. -/
def slots : Node -> List Slot
  | .varDecl note _ _ _ => [⟨note.type, note.address.offset, note.address.byRef⟩]
  | .branch _ _ thenBody elseBody => slots thenBody ++ slots elseBody
  | .loop _ _ body => slots body
  | .block _ stmts => slotsIn stmts
  | .funcDecl _ _ params _ body _ _ => slotsIn params ++ slots body
  | _ => []

/-- The variables that nodes declare. -/
def slotsIn : List Node -> List Slot
  | [] => []
  | node :: nodes => slots node ++ slotsIn nodes

end

theorem slots_absent : slots .absent = [] := rfl

end Node

namespace Static

/-! ## Variables one behind another -/

/-- Variables with finished types that lie one behind another, from a cell on up to
another one. -/
inductive Tiles : Int -> List Slot -> Int -> Prop
  | nil {first} : Tiles first [] first
  | cons {first stop slot slots} :
    Sized slot.type -> slot.first = first ->
    Tiles (first + Context.cellsOf slot.type slot.byRef) slots stop ->
    Tiles first (slot :: slots) stop

theorem Sized.slot_stop {slot : Slot} (sized : Sized slot.type) :
    slot.stop = slot.first + Context.cellsOf slot.type slot.byRef :=
  congrArg (slot.first + ·) (sized.cellsOf_eq slot.byRef)

namespace Tiles

variable {first middle stop : Int} {slots more : List Slot} {slot : Slot}

theorem append (front : Tiles first slots middle) (back : Tiles middle more stop) :
    Tiles first (slots ++ more) stop := by
  induction front with
  | nil => exact back
  | cons sized place _ ih => exact .cons sized place (ih back)

theorem first_le_stop (tiles : Tiles first slots stop) : first <= stop := by
  induction tiles with
  | nil => exact Int.le_refl _
  | @cons _ _ slot _ sized _ _ ih =>
    have nonneg := sized.cellsOf_nonneg slot.byRef
    omega

theorem sized (tiles : Tiles first slots stop) (member : slot ∈ slots) : Sized slot.type := by
  induction tiles with
  | nil => cases member
  | cons sized _ _ ih =>
    rcases List.mem_cons.mp member with same | later
    · exact same ▸ sized
    · exact ih later

/-- Every variable lies between the two ends. -/
theorem inside (tiles : Tiles first slots stop) (member : slot ∈ slots) :
    first <= slot.first ∧ slot.stop <= stop := by
  induction tiles with
  | nil => cases member
  | @cons _ _ head _ sized place rest ih =>
    have nonneg := sized.cellsOf_nonneg head.byRef
    have room := rest.first_le_stop
    rcases List.mem_cons.mp member with same | later
    · subst same
      have behind := sized.slot_stop
      exact ⟨by omega, by omega⟩
    · rcases ih later with ⟨low, high⟩
      exact ⟨by omega, high⟩

/-- A variable ends before every later one starts. -/
theorem ordered (tiles : Tiles first slots stop) :
    slots.Pairwise fun slot later => slot.stop <= later.first := by
  induction tiles with
  | nil => exact .nil
  | cons sized place rest ih =>
    refine .cons ?_ ih
    intro later member
    have low := (rest.inside member).1
    have behind := sized.slot_stop
    omega

theorem pairwise_apart (tiles : Tiles first slots stop) : slots.Pairwise Slot.Apart :=
  tiles.ordered.imp Or.inl

/-- No cell between the two ends is left over. -/
theorem sum_eq (tiles : Tiles first slots stop) :
    first + (slots.map fun slot => slot.size.toInt).sum = stop := by
  induction tiles with
  | nil => simp only [List.map_nil, List.sum_nil, Int.add_zero]
  | @cons _ _ slot _ sized _ _ ih =>
    have exactCells : slot.size.toInt = Context.cellsOf slot.type slot.byRef :=
      sized.cellsOf_eq slot.byRef
    rw [List.map_cons, List.sum_cons, exactCells, ← Int.add_assoc]
    exact ih

end Tiles

/-! ## Frames of the scoping judgement -/

/-- A declaration puts its variable behind those before it. -/
theorem tiles_declare {context : Context} {name type byRef} (sized : Sized type)
    (low : 0 <= context.used) (high : (context.declare name type byRef).used <= Ty.cellLimit) :
    Tiles context.used [⟨type, Int64.ofInt context.used, byRef⟩]
      (context.declare name type byRef).used := by
  have grows : context.used <= (context.declare name type byRef).used :=
    Context.used_le_declare sized
  refine .cons sized ?_ .nil
  exact Ty.toInt_ofInt_cells low (Int.le_trans grows high)

/-- Variables one behind another of which none is an address. -/
structure Row (first : Int) (slots : List Slot) (stop : Int) : Prop where
  tiles : Tiles first slots stop
  direct : forall slot, slot ∈ slots -> slot.byRef = false

theorem Row.nil {first} : Row first [] first := ⟨.nil, nofun⟩

theorem Row.append {first middle stop slots more} (front : Row first slots middle)
    (back : Row middle more stop) : Row first (slots ++ more) stop :=
  ⟨front.tiles.append back.tiles, List.forall_mem_append.mpr ⟨front.direct, back.direct⟩⟩

theorem row_declare {context : Context} {name type} (sized : Sized type) (low : 0 <= context.used)
    (high : (context.declare name type false).used <= Ty.cellLimit) :
    Row context.used [⟨type, Int64.ofInt context.used, false⟩]
      (context.declare name type false).used :=
  ⟨tiles_declare sized low high, List.forall_mem_singleton.mpr rfl⟩

mutual

/-- A statement puts its variables behind those before it, inner scopes included. -/
theorem ScopedStmt.row {context behind node node'} :
    ScopedStmt context node node' behind -> context.env.Finished -> 0 <= context.used ->
    behind.used <= Ty.cellLimit -> Row context.used node'.slots behind.used
  | .block stmts, finished, low, high => by
    rw [Node.slots]
    exact stmts.row (Context.enter_finished finished) low high
  | .varDecl denotes _, finished, low, high => row_declare (denotes.sized finished) low high
  | .varDeclInit _ denotes _, finished, low, high =>
    row_declare (denotes.sized finished) low high
  | .assign _ _, _, _, _ => .nil
  | .branch _ thenBody, finished, low, high => by
    rw [Node.slots, Node.slots_absent, List.append_nil]
    exact thenBody.row finished low high
  | .branchElse _ thenBody elseBody, finished, low, high => by
    have finishedBetween := thenBody.grows.finished finished
    have grows := thenBody.grows.used_le finished
    have growsMore := elseBody.grows.used_le finishedBetween
    rw [Node.slots]
    exact (thenBody.row finished low (by omega)).append
      (elseBody.row finishedBetween (by omega) high)
  | .loop _ body, finished, low, high => by
    rw [Node.slots]
    exact body.row finished low high
  | .ret, _, _, _ => .nil
  | .retValue _, _, _, _ => .nil

theorem ScopedStmts.row {context behind nodes nodes'} :
    ScopedStmts context nodes nodes' behind -> context.env.Finished -> 0 <= context.used ->
    behind.used <= Ty.cellLimit -> Row context.used (Node.slotsIn nodes') behind.used
  | .nil, _, _, _ => .nil
  | .cons first rest, finished, low, high => by
    have finishedBetween := first.grows.finished finished
    have grows := first.grows.used_le finished
    have growsMore := rest.grows.used_le finishedBetween
    rw [Node.slotsIn]
    exact (first.row finished low (by omega)).append
      (rest.row finishedBetween (by omega) high)

end

end Static
end PCode
