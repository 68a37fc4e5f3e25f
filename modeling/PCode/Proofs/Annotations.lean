import PCode.Proofs.Extension
import PCode.Proofs.Lowering.Calls
import PCode.Proofs.Resolution.Frames

set_option linter.unusedSectionVars false

namespace PCode
namespace Annotations

open Node (Extends ExtendsEach ExtendsFunction Placed Within)
open Static
open Lowering (SignedAs)
open Resolution (TypedParam Signed)

/-!
What the phases have written into a tree.

Resolution gives every literal its type, every declaration its type and its cells, every use of a
variable what its declaration has, and every call the function of its name.  The check adds the
types of fields and elements and the offsets of fields.  What is noted at a node is said here
without any of the phases, by the nodes around it: the owner of the frame, the functions of the
program, and the parts of the node itself.
-/

/-! ## Behind resolution -/

/-- A function of the list has the name and the signature that a call is bound to. -/
def Reaches (functions : List Node) (name : String) (callee : Callee) : Prop :=
  exists function, functions[callee.function]? = some function ∧ SignedAs name callee function

/-- A tree declares a variable of this name, with this type and at this place. -/
def DeclaredIn (owner : Node) (name : String) (type : Ty) (address : Address) : Prop :=
  exists note declared init, (Node.varDecl note name declared init).Within owner
    ∧ note.type = type ∧ note.address = address

/-- A variable has a type, and its cells lie in the frame of its owner behind the header. -/
structure Housed (owner : Node) (slot : Slot) : Prop where
  known : slot.type.isKnown = true
  behind : 5 <= slot.first
  inside : slot.stop <= owner.note.frameSize.toInt

/-- What resolution notes at a node in a function or in a block of the main program. -/
def Carries (functions : List Node) (owner : Node) : Node -> Prop
  | .number note _ => note.type = .integer
  | .real note _ => note.type = .real
  | .bool note _ => note.type = .boolean
  | .char note _ => note.type = .char
  | .ident note name => DeclaredIn owner name note.type note.address
  | .varDecl note _ _ _ => Housed owner ⟨note.type, note.address.offset, note.address.byRef⟩
  | .call note name _ callee => exists known, callee = some known
    ∧ note.type = known.signature.result ∧ Reaches functions name known
  | _ => True

/-- A program with everything that resolution notes. -/
structure Resolved (program : Program) : Prop where
  structs : forall root, root ∈ program.structs ->
    forall part : Node, part.Within root -> part.type.isKnown = true
  bodies : forall owner, owner ∈ program.functions ++ program.blocks ->
    forall part : Node, part.Within owner -> Carries program.functions owner part

/-! ### The scoping judgement -/

/-- Where a statement stands, all names are backed by the tree: variables by declarations of the
owner, and functions by those of the list.  The header of the frame is taken. -/
structure Backed (functions : List Node) (owner : Node) (context : Context) : Prop where
  finished : context.env.Finished
  declared : forall {name : String} {out : Nat} {type : Ty} {offset : Int} {byRef : Bool},
    Binds context.env name out (.variable type offset byRef) ->
    DeclaredIn owner name type { offset := Int64.ofInt offset, byRef }
  called : forall {name : String} {out : Nat} {callee : Callee},
    Binds context.env name out (.function callee) -> Reaches functions name callee
  header : 5 <= context.used

section Scoping

variable {functions : List Node} {owner : Node} {context : Context}

theorem Backed.enter (backed : Backed functions owner context) :
    Backed functions owner context.enter where
  finished := backed.finished.enter
  declared binds := by
    rcases binds.of_enter with ⟨_, outside⟩
    exact backed.declared outside
  called binds := by
    rcases binds.of_enter with ⟨_, outside⟩
    exact backed.called outside
  header := backed.header

theorem Backed.resume {inside} (backed : Backed functions owner context)
    (grows : context.used <= inside.used) : Backed functions owner (context.resume inside) :=
  { backed with header := Int.le_trans backed.header grows }

theorem Backed.declare {name type byRef} (backed : Backed functions owner context)
    (sized : Sized type)
    (here : DeclaredIn owner name type { offset := Int64.ofInt context.used, byRef }) :
    Backed functions owner (context.declare name type byRef) where
  finished := backed.finished.push sized
  declared binds := by
    rcases binds.of_declare with ⟨rfl, same⟩ | before
    · cases same
      exact here
    · exact backed.declared before
  called binds := by
    rcases binds.of_declare with ⟨_, impossible⟩ | before
    · cases impossible
    · exact backed.called before
  header := Int.le_trans backed.header (Context.used_le_declare sized)

variable {name : String} {type : Ty} {thenBody elseBody body owner : Node} {callee : Callee}
  {address : Address}

section Names

variable (backed : Backed functions owner context)

include backed

/-- A declaration puts its variable into the frame. -/
theorem housed_of_declare {byRef} (sized : Sized type)
    (fits : (context.declare name type byRef).used <= owner.note.frameSize.toInt)
    (bounded : owner.note.frameSize.toInt <= Ty.cellLimit) :
    Housed owner ⟨type, Int64.ofInt context.used, byRef⟩ := by
  have header := backed.header
  have tiles := tiles_declare sized (by omega) (Int.le_trans fits bounded)
  rcases tiles.inside List.mem_cons_self with ⟨first, stop⟩
  exact ⟨sized.known, Int.le_trans header first, Int.le_trans stop fits⟩

mutual

theorem carries_expr {node node'} :
    ScopedExpr context.env node node' -> node'.Throughout (Carries functions owner)
  | .number => .leaf rfl rfl
  | .real => .leaf rfl rfl
  | .bool => .leaf rfl rfl
  | .char => .leaf rfl rfl
  | .ident binds => .leaf (backed.declared binds) rfl
  | .member base => .one trivial rfl (carries_expr base)
  | .subscript array index =>
    .two trivial rfl (carries_expr array) (carries_expr index)
  | .unary _ operand => .one trivial rfl (carries_expr operand)
  | .binary _ left right => .two trivial rfl (carries_expr left) (carries_expr right)
  | .call binds args => by
    refine .of_children ⟨_, rfl, rfl, backed.called binds⟩ ?_
    intro child member
    exact carries_exprs args child (List.mem_filter.mp member).1

theorem carries_exprs {nodes nodes'} :
    ScopedExprs context.env nodes nodes' ->
    forall node, node ∈ nodes' -> node.Throughout (Carries functions owner)
  | .nil, _, member => by cases member
  | .cons first rest, node, member => by
    rcases List.mem_cons.mp member with rfl | later
    · exact carries_expr first
    · exact carries_exprs rest node later

end

end Names

variable {behind : Context} {note : Note} {test source : Node}

theorem isPresent_of_scoped {node node'} (judged : ScopedStmt context node node' behind) :
    node'.isPresent = true := by
  cases judged <;> rfl

theorem within_then (judged : ScopedStmt context source thenBody behind)
    (inside : (Node.branch note test thenBody elseBody).Within owner) : thenBody.Within owner :=
  inside.part (List.mem_filter.mpr
    ⟨List.mem_cons_of_mem _ List.mem_cons_self, isPresent_of_scoped judged⟩)

theorem within_else (judged : ScopedStmt context source elseBody behind)
    (inside : (Node.branch note test thenBody elseBody).Within owner) : elseBody.Within owner :=
  inside.part (List.mem_filter.mpr
    ⟨List.mem_cons_of_mem _ (List.mem_pair.mpr (.inr rfl)), isPresent_of_scoped judged⟩)

theorem within_body (judged : ScopedStmt context source body behind)
    (inside : (Node.loop note test body).Within owner) : body.Within owner :=
  inside.part (List.mem_filter.mpr ⟨List.mem_pair.mpr (.inr rfl), isPresent_of_scoped judged⟩)

variable (bounded : owner.note.frameSize.toInt <= Ty.cellLimit)

include bounded

mutual

/-- A statement of the owner notes what it should, and behind it all names are backed again. -/
theorem carries_stmt {context behind node node'} :
    ScopedStmt context node node' behind -> node'.Within owner -> Backed functions owner context ->
    behind.used <= owner.note.frameSize.toInt ->
    node'.Throughout (Carries functions owner) ∧ Backed functions owner behind
  | .block stmts, inside, backed, fits =>
    ⟨.of_children trivial
        (carries_stmts stmts (fun _ listed => inside.part listed) backed.enter fits).1,
      backed.resume (stmts.grows.used_le backed.finished.enter)⟩
  | .varDecl denotes _, inside, backed, fits => by
    have sized := denotes.sized backed.finished
    exact ⟨.leaf (housed_of_declare backed sized fits bounded) rfl,
      backed.declare sized ⟨_, _, _, inside, rfl, rfl⟩⟩
  | .varDeclInit init denotes _, inside, backed, fits => by
    have sized := denotes.sized backed.finished
    exact ⟨.one (housed_of_declare backed sized fits bounded) rfl (carries_expr backed init),
      backed.declare sized ⟨_, _, _, inside, rfl, rfl⟩⟩
  | .assign target value, _, backed, _ =>
    ⟨.two trivial rfl (carries_expr backed target) (carries_expr backed value), backed⟩
  | .branch test thenBody, inside, backed, fits => by
    have inner := carries_stmt thenBody (within_then thenBody inside) backed fits
    exact ⟨.three trivial rfl (carries_expr backed test) inner.1 nofun, inner.2⟩
  | .branchElse test thenBody elseBody, inside, backed, fits => by
    have grows := elseBody.grows.used_le (thenBody.grows.finished backed.finished)
    have first := carries_stmt thenBody (within_then thenBody inside) backed
      (Int.le_trans grows fits)
    have second := carries_stmt elseBody (within_else elseBody inside) first.2 fits
    exact ⟨.three trivial rfl (carries_expr backed test) first.1 fun _ => second.1, second.2⟩
  | .loop test body, inside, backed, fits => by
    have inner := carries_stmt body (within_body body inside) backed fits
    exact ⟨.two trivial rfl (carries_expr backed test) inner.1, inner.2⟩
  | .ret, _, backed, _ => ⟨.leaf trivial rfl, backed⟩
  | .retValue value, _, backed, _ => ⟨.one trivial rfl (carries_expr backed value), backed⟩

theorem carries_stmts {context behind nodes nodes'} :
    ScopedStmts context nodes nodes' behind ->
    (forall node, node ∈ nodes'.filter Node.isPresent -> node.Within owner) ->
    Backed functions owner context -> behind.used <= owner.note.frameSize.toInt ->
    (forall node, node ∈ nodes'.filter Node.isPresent -> node.Throughout (Carries functions owner))
      ∧ Backed functions owner behind
  | .nil, _, backed, _ => ⟨List.forall_mem_nil _, backed⟩
  | .cons first rest, inside, backed, fits => by
    rw [List.filter_cons_of_pos (isPresent_of_scoped first)] at inside ⊢
    rcases List.forall_mem_cons.mp inside with ⟨insideFirst, insideRest⟩
    have grows := rest.grows.used_le (first.grows.finished backed.finished)
    have here := carries_stmt first insideFirst backed (Int.le_trans grows fits)
    have later := carries_stmts rest insideRest here.2 fits
    exact ⟨List.forall_mem_cons.mpr ⟨here.1, later.1⟩, later.2⟩

end

/-- Parameters are declared by the function, in its frame. -/
theorem carries_formals {nodes nodes'} (judged : ScopedFormals context nodes nodes' behind)
    (typed : forall node, node ∈ nodes -> TypedParam node)
    (inside : forall node, node ∈ nodes' -> node.isPresent = true -> node.Within owner)
    (backed : Backed functions owner context) (fits : behind.used <= owner.note.frameSize.toInt) :
    (forall node, node ∈ nodes' -> node.Throughout (Carries functions owner))
      ∧ Backed functions owner behind := by
  induction judged with
  | nil => exact ⟨List.forall_mem_nil _, backed⟩
  | cons _ rest ih =>
    have typedLater := (List.forall_mem_cons.mp typed).2
    rcases typed _ List.mem_cons_self with ⟨sized⟩
    have insideFirst := inside _ List.mem_cons_self rfl
    have backedBehind := backed.declare sized ⟨_, _, _, insideFirst, rfl, rfl⟩
    have grows := Resolution.formals_used_le rest typedLater
    rcases ih typedLater (List.forall_mem_cons.mp inside).2 backedBehind fits
        with ⟨carriesLater, backedLater⟩
    have housed := housed_of_declare backed sized (Int.le_trans grows fits) bounded
    exact ⟨List.forall_mem_cons.mpr ⟨.leaf housed rfl, carriesLater⟩, backedLater⟩

end Scoping

/-! ### Programs -/

section Programs

variable {functions : List Node} {env : Env}

/-- The frame of a function holds its parameters and the variables of its body. -/
theorem carries_frame {formals behind bodyNote params params' stmts stmts'}
    (backed : Backed functions owner (Context.start env))
    (judged : ScopedFormals (Context.start env) params params' formals)
    (typed : forall param, param ∈ params -> TypedParam param)
    (judgedStmts : ScopedStmts formals.enter stmts stmts' behind)
    (frame : owner.note.frameSize.toInt = behind.used) (bounded : behind.used <= Ty.cellLimit)
    (inside : forall child, child ∈ (params' ++ [Node.block bodyNote stmts']).filter
      Node.isPresent -> child.Within owner) :
    forall child, child ∈ params' ++ [Node.block bodyNote stmts'] ->
      child.Throughout (Carries functions owner) := by
  have finished := (Resolution.formals_grows judged typed).finished backed.finished
  have grows : formals.used <= behind.used := judgedStmts.grows.used_le finished.enter
  have limit : owner.note.frameSize.toInt <= Ty.cellLimit := frame ▸ bounded
  rcases carries_formals limit judged typed
    (fun node member present =>
      inside node (List.mem_filter.mpr ⟨List.mem_append_left _ member, present⟩))
    backed (by omega) with ⟨carriesParams, backedInside⟩
  have insideBody : (Node.block bodyNote stmts').Within owner :=
    inside _ (List.mem_filter.mpr ⟨List.mem_append_right _ List.mem_cons_self, rfl⟩)
  intro child member
  rcases List.mem_append.mp member with inParams | inBody
  · exact carriesParams child inParams
  · cases List.mem_singleton.mp inBody
    refine .of_children trivial ?_
    exact (carries_stmts limit judgedStmts (fun _ listed => insideBody.part listed)
      backedInside.enter (Int.le_of_eq frame.symm)).1

variable {node node' : Node} {layer behind : Layer} {nodes nodes' : List Node}

theorem carries_function {source}
    (backed : forall owner, Backed functions owner (Context.start env))
    (signed : Signed source node) (judged : ScopedFunction env node node') :
    node'.Throughout (Carries functions node') := by
  cases judged with
  | @funcDecl formals behind _ _ _ _ _ _ _ _ _ _ params stmts bounded =>
    rcases signed with ⟨typed, _⟩
    have finished := (Resolution.formals_grows params typed).finished (backed .absent).finished
    have growsFirst := Resolution.formals_used_le params typed
    have growsMore : formals.used <= behind.used := stmts.grows.used_le finished.enter
    have header := (backed .absent).header
    have frame : (Int64.ofInt behind.used).toInt = behind.used :=
      Ty.toInt_ofInt_cells (by omega) bounded
    refine .of_children trivial ?_
    intro child member
    refine carries_frame (backed _) params typed stmts ?_ bounded ?_ child
      (List.mem_filter.mp member).1
    · exact frame
    · exact fun _ listed => .inside listed .root

theorem carries_top (backed : forall owner, Backed functions owner (Context.start env))
    (judged : ScopedTop env node node') :
    node'.Throughout (Carries functions node') := by
  cases judged with
  | @block behind _ _ _ stmts bounded =>
    have header := (backed .absent).header
    have grows := stmts.grows.used_le (backed .absent).finished
    have frame : (Int64.ofInt behind.used).toInt = behind.used :=
      Ty.toInt_ofInt_cells (by omega) bounded
    refine .of_children trivial ?_
    refine (carries_stmts ?_ stmts (fun _ listed => .inside listed .root) (backed _) ?_).1
    · exact Int.le_trans (Int.le_of_eq frame) bounded
    · exact Int.le_of_eq frame.symm

/-- Whether a binding is no variable. -/
def Lasting : Binding -> Prop
  | .variable _ _ _ => False
  | _ => True

/-- Of two lists whose entries are related, the second one has an entry wherever the first has. -/
theorem exists_related {Related : Node -> Node -> Prop} {left right : List Node}
    (related : List.Forall₂ Related left right) {index : Nat} {first}
    (found : left[index]? = some first) :
    exists second, right[index]? = some second ∧ Related first second := by
  induction related generalizing index with
  | nil => cases found
  | cons here _ ih =>
    cases index with
    | zero =>
      cases found
      exact ⟨_, rfl, here⟩
    | succ index => exact ih found

theorem formals_types {context behind} (judged : ScopedFormals context nodes nodes' behind) :
    nodes'.map Node.type = nodes.map Node.type := by
  induction judged with
  | nil => rfl
  | cons _ _ ih =>
    rw [List.map_cons, List.map_cons, ih]
    rfl

theorem signedAs_of_function
    (judged : ScopedFunction env node node') (signedAs : SignedAs name callee node) :
    SignedAs name callee node' := by
  cases judged with
  | funcDecl params _ _ =>
    rcases signedAs with ⟨types⟩
    exact .funcDecl ((formals_types params).trans types)

/-- Outside of all functions and blocks, names are backed by the functions alone. -/
theorem backed_start {structNodes structs declared structLayer functionLayer}
    (judged : ScopedStructs [] structNodes structs structLayer)
    (signatures : ScopedSignatures structLayer [] 0 nodes declared functionLayer)
    (bodies : List.Forall₂ (ScopedFunction env) declared functions) (owner : Node) :
    Backed functions owner (Context.start [functionLayer, structLayer]) where
  finished := Context.start_finished
    (signatures.finished (Resolution.signatures_finished judged))
  declared binds := by
    rcases binds.of_enter with ⟨_, outside⟩
    have lasting : Env.All Lasting [structLayer] := judged.keeps (fun _ => trivial) (.enter .nil)
    exact (outside.holds (signatures.keeps (fun _ => trivial) lasting.enter)).elim
  called := by
    intro name out callee binds
    rcases binds.of_enter with ⟨_, outside⟩
    have noFunction := Lowering.no_function_structs judged
    cases outside with
    | outward _ rest => exact absurd rfl (rest.holds noFunction callee)
    | here found =>
      rcases Lowering.signedAs_of_scoped signatures found
          with impossible | ⟨position, node, number, isNode, signedAs⟩
      · cases impossible
      · rw [Nat.zero_add] at number
        rcases exists_related bodies isNode with ⟨function, isFunction, here⟩
        exact ⟨function, number ▸ isFunction, signedAs_of_function here signedAs⟩
  header := Int.le_refl _

theorem known_fields {fields} (judged : ScopedFields env nodes nodes' fields)
    (finished : env.Finished) :
    forall node, node ∈ nodes' -> node.Throughout fun part => part.type.isKnown = true := by
  induction judged with
  | nil => exact List.forall_mem_nil _
  | cons denotes _ ih =>
    exact List.forall_mem_cons.mpr ⟨.leaf (denotes.sized finished).known rfl, ih⟩

theorem known_structs (judged : ScopedStructs layer nodes nodes' behind)
    (finished : Env.Finished [layer]) :
    forall node, node ∈ nodes' -> node.Throughout fun part => part.type.isKnown = true := by
  induction judged with
  | nil => exact List.forall_mem_nil _
  | cons fields nonempty _ bounded _ _ ih =>
    have sized := fields.sized finished nonempty bounded
    refine List.forall_mem_cons.mpr ⟨.of_children rfl ?_, ih (finished.push sized)⟩
    intro child listed
    exact known_fields fields finished child (List.mem_filter.mp listed).1

/-- A well-scoped program has everything that resolution notes. -/
theorem resolved_of_scoped {source program resolved} (whole : Written.Whole source program)
    (judged : ScopedProgram program resolved) : Resolved resolved := by
  cases judged with
  | intro structs signatures functions _ blocks =>
    have signed := Resolution.signed_of_scoped signatures
      (Resolution.signatures_finished structs) whole.functions
    have backed := backed_start structs signatures functions
    refine ⟨known_structs structs Env.All.nil.enter, ?_⟩
    intro owner member
    rcases List.mem_append.mp member with isFunction | isBlock
    · exact Resolution.forall_right functions
        (fun first _ listed judged => carries_function backed (signed first listed) judged)
        owner isFunction
    · exact Resolution.forall_right blocks (fun _ _ _ judged => carries_top backed judged)
        owner isBlock

end Programs

/-! ### Later phases -/

section Later

variable {node later part : Node}

theorem extendsEach_filter : forall {nodes laters}, ExtendsEach nodes laters ->
    ExtendsEach (nodes.filter Node.isPresent) (laters.filter Node.isPresent)
  | _, _, .nil => .nil
  | _, _, .cons first rest => by
    rw [List.filter_cons, List.filter_cons, first.isPresent_eq]
    split
    · exact .cons first (extendsEach_filter rest)
    · exact extendsEach_filter rest

theorem extendsEach_children (extended : Extends node later) :
    ExtendsEach node.children later.children := by
  cases extended with
  | leaf _ => exact .refl _
  | member base => exact extendsEach_filter (.cons base .nil)
  | subscript array index => exact extendsEach_filter (.cons array (.cons index .nil))
  | unary operand => exact extendsEach_filter (.cons operand .nil)
  | binary left right => exact extendsEach_filter (.cons left (.cons right .nil))
  | call args => exact extendsEach_filter args
  | varDecl init => exact extendsEach_filter (.cons init .nil)
  | assign target value => exact extendsEach_filter (.cons target (.cons value .nil))
  | branch test thenBody elseBody =>
    exact extendsEach_filter (.cons test (.cons thenBody (.cons elseBody .nil)))
  | loop test body => exact extendsEach_filter (.cons test (.cons body .nil))
  | ret value => exact extendsEach_filter (.cons value .nil)
  | block stmts => exact extendsEach_filter stmts

theorem extendsEach_snoc {body'} (extended : Extends body body') (params : List Node) :
    ExtendsEach (params ++ [body]) (params ++ [body']) := by
  induction params with
  | nil => exact .cons extended .nil
  | cons param params ih => exact .cons (.refl param) ih

theorem exists_earlier : forall {nodes laters}, ExtendsEach nodes laters ->
    later ∈ laters -> exists node, node ∈ nodes ∧ Extends node later
  | _, _, .cons first rest, member => by
    rcases List.mem_cons.mp member with rfl | behind
    · exact ⟨_, List.mem_cons_self, first⟩
    · rcases exists_earlier rest behind with ⟨node, listed, extended⟩
      exact ⟨node, List.mem_cons_of_mem _ listed, extended⟩

theorem exists_later : forall {nodes laters}, ExtendsEach nodes laters ->
    node ∈ nodes -> exists later, later ∈ laters ∧ Extends node later
  | _, _, .cons first rest, member => by
    rcases List.mem_cons.mp member with rfl | behind
    · exact ⟨_, List.mem_cons_self, first⟩
    · rcases exists_later rest behind with ⟨later, listed, extended⟩
      exact ⟨later, List.mem_cons_of_mem _ listed, extended⟩

/-- A part of the later tree extends a part of the earlier one. -/
theorem within_earlier (within : part.Within later) : forall {node}, Extends node later ->
    exists earlier : Node, earlier.Within node ∧ Extends earlier part := by
  induction within with
  | root => exact fun extended => ⟨_, .root, extended⟩
  | inside member _ ih =>
    intro node extended
    rcases exists_earlier (extendsEach_children extended) member with ⟨child, listed, inner⟩
    rcases ih inner with ⟨earlier, within, extends_⟩
    exact ⟨earlier, .inside listed within, extends_⟩

/-- A part of the earlier tree is extended by a part of the later one. -/
theorem within_later (within : part.Within node) : forall {later}, Extends node later ->
    exists other : Node, other.Within later ∧ Extends part other := by
  induction within with
  | root => exact fun extended => ⟨_, .root, extended⟩
  | inside member _ ih =>
    intro later extended
    rcases exists_later (extendsEach_children extended) member with ⟨child, listed, inner⟩
    rcases ih inner with ⟨other, within, extends_⟩
    exact ⟨other, .inside listed within, extends_⟩

/-- What resolution notes at a node depends on its owner only by the frame and by what is declared
there. -/
theorem Carries.mono {functions functions' owner'}
    (reaches : forall name callee, Reaches functions name callee -> Reaches functions' name callee)
    (declares : forall name type address,
      DeclaredIn owner name type address -> DeclaredIn owner' name type address)
    (frame : owner'.note.frameSize = owner.note.frameSize) (extended : Extends node later)
    (carries : Carries functions owner node) : Carries functions' owner' later := by
  cases extended with
  | leaf isLeaf =>
    cases node with
    | number _ _ | real _ _ | bool _ _ | char _ _ => exact carries
    | ident _ _ => exact declares _ _ _ carries
    | varDecl _ _ _ _ | call _ _ _ _ => cases isLeaf
    | _ => trivial
  | varDecl _ => exact ⟨carries.known, carries.behind, frame ▸ carries.inside⟩
  | call _ =>
    rcases carries with ⟨known, cached, result, reached⟩
    exact ⟨known, cached, result, reaches _ _ reached⟩
  | _ => trivial

variable {name : String}

theorem declaredIn_extends (extended : Extends node later)
    (declares : DeclaredIn node name type address) :
    DeclaredIn later name type address := by
  rcases declares with ⟨note, declared, init, within, sameType, sameAddress⟩
  rcases within_later within extended with ⟨_, withinLater, inner⟩
  rcases inner.of_varDecl with ⟨init', rfl, _⟩
  exact ⟨note, declared, init', withinLater, sameType, sameAddress⟩

theorem declaredIn_function (extended : ExtendsFunction node later)
    (declares : DeclaredIn node name type address) :
    DeclaredIn later name type address := by
  rcases extended with ⟨body⟩
  rcases declares with ⟨note, declared, init, within, sameType, sameAddress⟩
  cases within with
  | inside member within =>
    rcases exists_later (extendsEach_filter (extendsEach_snoc body _)) member
        with ⟨child, listed, inner⟩
    rcases declaredIn_extends inner ⟨note, declared, init, within, sameType, sameAddress⟩
        with ⟨note', declared', init', withinLater, sameType', sameAddress'⟩
    exact ⟨note', declared', init', .inside listed withinLater, sameType', sameAddress'⟩

theorem signedAs_extends (extended : ExtendsFunction node later)
    (signedAs : SignedAs name callee node) : SignedAs name callee later := by
  rcases extended with ⟨_⟩
  rcases signedAs with ⟨types⟩
  exact .funcDecl types

section Owners

variable {functions functions' : List Node}

theorem carries_extends
    (reaches : forall name callee, Reaches functions name callee -> Reaches functions' name callee)
    (extended : Extends node later)
    (carries : node.Throughout (Carries functions node)) :
    later.Throughout (Carries functions' later) := by
  intro part within
  have frame : later.note.frameSize = node.note.frameSize := by cases extended <;> rfl
  rcases within_earlier within extended with ⟨earlier, withinNode, inner⟩
  exact Carries.mono reaches (fun _ _ _ => declaredIn_extends extended) frame inner
    (carries earlier withinNode)

theorem carries_extendsFunction
    (reaches : forall name callee, Reaches functions name callee -> Reaches functions' name callee)
    (extended : ExtendsFunction node later)
    (carries : node.Throughout (Carries functions node)) :
    later.Throughout (Carries functions' later) := by
  have declares : forall name type address,
      DeclaredIn node name type address -> DeclaredIn later name type address :=
    fun _ _ _ => declaredIn_function extended
  rcases extended with ⟨body⟩
  refine .of_children trivial ?_
  intro child member part within
  rcases exists_earlier (extendsEach_filter (extendsEach_snoc body _)) member
      with ⟨childBefore, listed, between⟩
  rcases within_earlier within between with ⟨earlier, withinChild, inner⟩
  exact Carries.mono reaches declares rfl inner (carries earlier (.inside listed withinChild))

end Owners

/-- Later phases keep everything that resolution has noted. -/
theorem Resolved.of_extends {program later} (notes : Resolved program)
    (extended : program.Extends later) : Resolved later := by
  have reaches : forall name callee, Reaches program.functions name callee ->
      Reaches later.functions name callee := by
    rintro name callee ⟨function, found, signedAs⟩
    rcases exists_related extended.functions found with ⟨function', found', related⟩
    exact ⟨function', found', signedAs_extends related signedAs⟩
  refine ⟨extended.structs ▸ notes.structs, ?_⟩
  intro owner member
  rcases List.mem_append.mp member with isFunction | isBlock
  · exact Resolution.forall_right extended.functions
      (fun first _ listed related => carries_extendsFunction reaches related
        (notes.bodies first (List.mem_append_left _ listed))) owner isFunction
  · exact Resolution.forall_right extended.blocks
      (fun first _ listed related => carries_extends reaches related
        (notes.bodies first (List.mem_append_right _ listed))) owner isBlock

end Later

/-! ## Behind the check -/

/-- What the check notes at a node: the type and the offset of a field are those that the structure
gives it, and the type of an element is that of the array. -/
def Measured : Node -> Prop
  | .member note base field offset => base.type.field? field = some (note.type, offset)
  | .subscript note array _ => exists length, array.type = .array length note.type
  | _ => True

/-- A program with everything that the check notes. -/
def Checked (program : Program) : Prop := forall part, program.Holds part -> Measured part

/-- A well-typed program has everything that the check notes. -/
theorem checked_of_typed {source program checked} (whole : Written.Whole source program)
    (typed : TypedProgram program checked) : Checked checked := by
  rcases Lowering.generate_of_typed {} whole typed with ⟨_, _, generates, _⟩
  rcases Lowering.arranged_of_generate generates with ⟨_, _, arranged⟩
  intro part holds
  -- Every expression has a type, whatever its code may be.
  have emitted := Lowering.emitted_of_typed whole typed arranged holds
  cases part with
  | member note base field offset =>
    rcases emitted rfl with ⟨_, typedPart, _, _⟩
    rcases typedPart.member_inversion with ⟨_, _, _, _, _, _, _, typedBase, found, rfl⟩
    have same : note.type = _ := typedPart.type_eq
    rw [Measured, typedBase.type_eq, same]
    exact findField_of_fieldAt found
  | subscript note array index =>
    rcases emitted rfl with ⟨_, typedPart, _, _⟩
    rcases typedPart.subscript_inversion with ⟨_, _, _, length, _, typedArray, _⟩
    have same : note.type = _ := typedPart.type_eq
    exact ⟨length, same ▸ typedArray.type_eq⟩
  | _ => trivial

theorem measured_of_placed {node later} (placed : Placed node later)
    (measured : node.Throughout Measured) : later.Throughout Measured := by
  cases placed with
  | same => exact measured
  | funcDecl =>
    refine .of_children trivial ?_
    intro child member part within
    exact measured part (.inside member within)

/-- Placing functions keeps everything that the check has noted. -/
theorem Checked.of_placed {program later} (notes : Checked program)
    (placed : program.Placed later) : Checked later := by
  rintro part ⟨root, member, within⟩
  rcases List.mem_append.mp member with declares | isBlock
  · rcases List.mem_append.mp declares with isStruct | isFunction
    · rw [placed.structs] at isStruct
      exact notes part ⟨root, by simp [isStruct], within⟩
    · exact Resolution.forall_right placed.functions
        (fun first _ listed related => measured_of_placed related
          (fun other inside => notes other ⟨first, by simp [listed], inside⟩))
        root isFunction part within
  · rw [placed.blocks] at isBlock
    exact notes part ⟨root, by simp [isBlock], within⟩

end Annotations
end PCode
