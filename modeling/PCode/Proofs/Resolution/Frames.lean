import PCode.Proofs.Resolution.Programs
import PCode.Proofs.Static.Frames
import PCode.Proofs.Static.Noted
import PCode.Proofs.Static.Typing
import PCode.Proofs.Tree

namespace PCode
namespace Resolution

open Static

/-!
Frames of resolved programs.

Resolution lays out a frame while it walks over a body, with machine integers and with
a limit that is tested at each declaration.  For a program that it accepts the layout
is the one of the scoping judgement: the variables of each frame lie one behind another
behind the header, and every count of cells on the way is the exact one.
-/

/-! ## Sound frames -/

/-- A frame in order.  Its variables do not overlap, they lie behind the header and
inside the frame, they fill it, and the first free cell never wraps while they are
placed. -/
structure SoundFrame (owner : Node) : Prop where
  disjoint : owner.slots.Pairwise Slot.Apart
  inside : forall slot, slot ∈ owner.slots ->
    5 <= slot.first ∧ slot.stop <= owner.note.frameSize.toInt
  filled : 5 + (owner.slots.map fun slot => slot.size.toInt).sum = owner.note.frameSize.toInt
  bounded : owner.note.frameSize.toInt <= 2147483647
  unwrapped : forall slot, slot ∈ owner.slots ->
    (slot.offset + slot.size).toInt = slot.offset.toInt + slot.size.toInt

/-- Adding cells to an offset does not wrap below the limit. -/
theorem toInt_add_size {slot : Slot} (low : 0 <= slot.first) (nonneg : 0 <= slot.size.toInt)
    (high : slot.stop <= Ty.cellLimit) :
    (slot.offset + slot.size).toInt = slot.offset.toInt + slot.size.toInt := by
  have limit : Ty.cellLimit = 2147483647 := rfl
  simp only [Slot.first, Slot.stop] at low high
  rw [Int64.toInt_add]
  apply Int.bmod_eq_of_le <;> omega

/-- A frame whose variables lie one behind another up to its size is in order. -/
theorem soundFrame_of_tiles {owner used} (bounded : used <= Ty.cellLimit)
    (size : owner.note.frameSize = Int64.ofInt used)
    (tiles : Tiles Context.headerCells owner.slots used) : SoundFrame owner := by
  have header : Context.headerCells = 5 := rfl
  have grows := tiles.first_le_stop
  have exactSize : owner.note.frameSize.toInt = used := by
    rw [size]
    exact Ty.toInt_ofInt_cells (by omega) bounded
  refine ⟨tiles.pairwise_apart, ?_, ?_, ?_, ?_⟩
  · intro slot member
    rw [exactSize]
    exact tiles.inside member
  · rw [exactSize]
    exact tiles.sum_eq
  · rw [exactSize]
    exact bounded
  · intro slot member
    rcases tiles.inside member with ⟨low, high⟩
    have sized := tiles.sized member
    have exactCells : slot.size.toInt = Context.cellsOf slot.type slot.byRef :=
      sized.cellsOf_eq slot.byRef
    have nonneg := sized.cellsOf_nonneg slot.byRef
    exact toInt_add_size (by omega) (by omega) (Int.le_trans high bounded)

variable {nodes nodes' : List Node} {source : Int64} {env : Env} {node node' : Node}

/-- Parameters are the first variables of a frame. -/
theorem formals_tiles {context behind} (judged : ScopedFormals context nodes nodes' behind)
    (typed : forall node, node ∈ nodes -> TypedParam node) (low : 0 <= context.used)
    (high : behind.used <= Ty.cellLimit) :
    Tiles context.used (Node.slotsIn nodes') behind.used := by
  induction judged with
  | nil => exact .nil
  | @cons context behind note name _ _ _ _ _ rest ih =>
    have typedLater := (List.forall_mem_cons.mp typed).2
    rcases typed _ List.mem_cons_self with ⟨sized⟩
    have growsMore := formals_used_le rest typedLater
    have grows : context.used
        <= (context.declare name note.type note.type.isComposite).used :=
      Context.used_le_declare sized
    have here := tiles_declare sized low (Int.le_trans growsMore high)
    rw [Node.slotsIn]
    exact here.append (ih typedLater (by omega) high)

theorem soundFrame_function (finished : env.Finished) (signed : Signed source node)
    (judged : ScopedFunction env node node') : SoundFrame node' := by
  cases judged with
  | @funcDecl formals behind _ _ _ _ params' _ stmts' _ _ _ params stmts bounded =>
    rcases signed with ⟨typed, _⟩
    have low : 0 <= (Context.start env).used := Int.zero_le_ofNat 5
    have finishedInside := (formals_grows params typed).finished (Context.start_finished finished)
    have growsFirst := formals_used_le params typed
    have growsMore := stmts.grows.used_le (Context.enter_finished finishedInside)
    have inner : formals.enter.used = formals.used := rfl
    have front := formals_tiles params typed low (by omega)
    have back := (stmts.row (Context.enter_finished finishedInside) (by omega) bounded).tiles
    apply soundFrame_of_tiles bounded rfl
    rw [Node.slots, Node.slots]
    exact front.append back

theorem soundFrame_top (finished : env.Finished) (judged : ScopedTop env node node') :
    SoundFrame node' := by
  cases judged with
  | block stmts bounded =>
    have low : 0 <= (Context.start env).used := Int.zero_le_ofNat 5
    apply soundFrame_of_tiles bounded rfl
    rw [Node.slots]
    exact (stmts.row (Context.start_finished finished) low bounded).tiles

/-! ## Exact counts -/

/-- What finished bindings bring into a program is counted without wrapping. -/
theorem passes_finished : Passes Binding.Finished Ty.CountsExactly where
  unknown := trivial
  integer := trivial
  boolean := trivial
  real := trivial
  char := trivial
  types := by
    intro binding finished
    cases binding with
    | «variable» _ _ _ => exact admits_cons.mpr ⟨Sized.countsExactly finished, admits_nil⟩
    | function callee =>
      exact admits_cons.mpr
        ⟨Sized.countsExactly finished.2, fun _ member => (finished.1 _ member).countsExactly⟩
    | struct _ => exact admits_cons.mpr ⟨Sized.countsExactly finished, admits_nil⟩
  declared := fun finished denotes _ _ => denotes.sized finished
  announced := fun finished params denotes _ => ⟨params.sized finished, denotes.sized finished⟩

theorem admits_structs {layer behind} (judged : ScopedStructs layer nodes nodes' behind)
    (finished : Env.Finished [layer]) : Admits Ty.CountsExactly (Node.notedIn nodes') := by
  induction judged with
  | nil => exact admits_nil
  | cons fields nonempty _ bounded _ _ ih =>
    have sized := fields.sized finished nonempty bounded
    have members := (admits_fields passes_finished finished fields).1
    simp only [Node.notedIn, Node.noted, admits_append, admits_cons]
    exact ⟨⟨sized.countsExactly, members⟩, ih (finished.push sized)⟩

/-! ## Programs -/

/-- What holds of the right side of every related pair holds of the right list. -/
theorem forall_right {Left Right : Type} {Related : Left -> Right -> Prop} {Holds : Right -> Prop}
    {left : List Left} {right} (related : List.Forall₂ Related left right)
    (each : forall first second, first ∈ left -> Related first second -> Holds second) :
    forall second, second ∈ right -> Holds second := by
  induction related with
  | nil =>
    intro second member
    cases member
  | cons here _ ih =>
    intro second member
    rcases List.mem_cons.mp member with rfl | later
    · exact each _ _ List.mem_cons_self here
    · exact ih
        (fun first second member => each first second (List.mem_cons_of_mem _ member)) second
        later

section Programs

variable {source : Int64} {program resolved : Program}

/-- Every frame of a well-scoped program is in order. -/
theorem soundFrame_of_scoped (whole : Written.Whole source program)
    (judged : ScopedProgram program resolved) :
    forall owner, owner ∈ resolved.functions ++ resolved.blocks -> SoundFrame owner := by
  cases judged with
  | intro structs signatures functions _ blocks =>
    have finishedStructs := signatures_finished structs
    have finished := signatures.finished finishedStructs
    have signed := signed_of_scoped signatures finishedStructs whole.functions
    intro owner member
    rcases List.mem_append.mp member with isFunction | isBlock
    · exact forall_right functions
        (fun first _ listed judged => soundFrame_function finished (signed first listed) judged)
        owner isFunction
    · exact forall_right blocks (fun _ _ _ judged => soundFrame_top finished judged) owner isBlock

/-- Every type in a well-scoped program is counted exactly. -/
theorem counted_of_scoped (whole : Written.Whole source program)
    (judged : ScopedProgram program resolved) :
    forall node, resolved.Holds node -> node.type.CountsExactly := by
  cases judged with
  | intro structs signatures functions _ blocks =>
    rcases admits_bodies passes_finished whole signatures functions blocks
      (signatures_finished structs) with ⟨inFunctions, inBlocks⟩
    have inStructs := admits_structs structs Env.All.nil.enter
    rintro node ⟨root, member, within⟩
    apply holds_within trivial within
    rcases List.mem_append.mp member with declares | isBlock
    · rcases List.mem_append.mp declares with isStruct | isFunction
      · exact admits_notedIn.mp inStructs root isStruct
      · exact admits_notedIn.mp inFunctions root isFunction
    · exact admits_notedIn.mp inBlocks root isBlock

end Programs

end Resolution
end PCode
