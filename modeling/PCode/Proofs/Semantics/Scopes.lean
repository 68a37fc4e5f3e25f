import PCode.Proofs.Semantics.Source
import PCode.Proofs.Static.Frames

namespace PCode
namespace Semantics

open Static

/-!
Scopes and environments.

The judgements find out what a name stands for in layers of bindings, and the reference
semantics does so in one list of names.  Both agree wherever a statement stands: a
variable of an environment has a number, and the list of all variables of the frame has
it at that number with its place.

Structures of one name are one structure.  Where a program asks for the same type by
name, both types are therefore equal, with all their fields.
-/

/-! ## Types of one program -/

mutual

/-- A type all of whose structures are those that go by their names. -/
def Settled (structs : List (String × Ty)) : Ty -> Prop
  | .struct name fields =>
    structs.lookup name = some (.struct name fields) ∧ SettledFields structs fields
  | .array _ elem => Settled structs elem
  | _ => True

/-- Fields whose types are settled. -/
def SettledFields (structs : List (String × Ty)) : List (String × Ty) -> Prop
  | [] => True
  | (_, type) :: fields => Settled structs type ∧ SettledFields structs fields

end

section Settled

variable {structs : List (String × Ty)}

/-- Settled types that a program may exchange for each other are equal. -/
theorem eq_of_same {left right} (same : Same left right) (settled : Settled structs left)
    (settled' : Settled structs right) : left = right := by
  induction same with
  | integer | boolean | real | char => rfl
  | struct => exact Option.some.inj (settled.1.symm.trans settled'.1)
  | array _ ih => exact congrArg _ (ih settled settled')

variable {fields : List (String × Ty)} {type : Ty} {binding : Binding}

theorem SettledFields.at {field before} (settled : SettledFields structs fields)
    (found : FieldAt field fields type before) : Settled structs type := by
  induction found with
  | here => exact settled.1
  | behind _ _ ih => exact ih settled.2

theorem Settled.elem {length elem} (settled : Settled structs (.array length elem)) :
    Settled structs elem :=
  settled

mutual

/-- More structures change nothing for those that are there. -/
theorem Settled.append (more : List (String × Ty)) : forall {type},
    Settled structs type -> Settled (structs ++ more) type
  | .struct _ _, settled => by
    refine ⟨?_, SettledFields.append more settled.2⟩
    rw [List.lookup_append, settled.1]
    rfl
  | .array _ _, settled => settled.elem.append more
  | .unknown, _ | .integer, _ | .boolean, _ | .real, _ | .char, _ | .other _, _ => trivial

theorem SettledFields.append (more : List (String × Ty)) : forall {fields},
    SettledFields structs fields -> SettledFields (structs ++ more) fields
  | [], _ => trivial
  | (_, _) :: _, settled => ⟨Settled.append more settled.1, SettledFields.append more settled.2⟩

end

end Settled

/-- Whether the types in a binding are settled. -/
def BindingSettled (structs : List (String × Ty)) : Binding -> Prop
  | .variable type _ _ => Settled structs type
  | .function callee => Settled structs callee.signature.result
  | .struct type => Settled structs type

/-! ## Declared types -/

/-- The structures of an environment are those that go by their names. -/
def Named (structs : List (String × Ty)) (env : Env) : Prop :=
  forall name out type, Binds env name out (.struct type) -> structs.lookup name = some type

section Declared

variable {structs : List (String × Ty)} {env : Env}

/-- What a declared type stands for is the same for the judgements and the semantics. -/
theorem expand_of_denotes {declared} (denotes : Denotes env declared type)
    (named : Named structs env) : expand structs declared = type := by
  induction denotes with
  | integer | boolean | real | char => rfl
  | struct binds => rw [expand, named _ _ _ binds, Option.getD_some]
  | array _ _ _ ih => rw [expand, ih]

theorem settled_of_denotes {declared} (denotes : Denotes env declared type)
    (settled : env.All (BindingSettled structs)) : Settled structs type := by
  induction denotes with
  | integer | boolean | real | char => trivial
  | struct binds => exact binds.holds settled
  | array _ _ _ ih => exact ih

/-- Every expression has a settled type. -/
theorem settled_of_hasType (settled : env.All (BindingSettled structs)) {node node' type} :
    HasType env node type node' -> Settled structs type
  | .number | .real | .bool | .char => trivial
  | .ident binds => binds.holds settled
  | .member base found => (settled_of_hasType settled base).2.at found
  | .subscript array _ => (settled_of_hasType settled array).elem
  | .unary rule _ => by cases rule <;> trivial
  | .binary rule _ _ => by cases rule <;> trivial
  | .call binds _ => binds.holds settled

end Declared

/-! ## Structures -/

/-- The layer of structures. -/
def structLayer (structs : List (String × Ty)) : Layer :=
  structs.map fun entry => (entry.1, .struct entry.2)

theorem lookup_structLayer (structs : List (String × Ty)) (name : String) :
    (structLayer structs).lookup name = (structs.lookup name).map .struct := by
  induction structs with
  | nil => rfl
  | cons entry structs ih =>
    rw [structLayer, List.map_cons, List.lookup_cons, List.lookup_cons]
    cases name == entry.1 with
    | true => rfl
    | false => exact ih

variable {structs : List (String × Ty)} {name : String} {nodes nodes' : List Node}
  {layer behind : Layer}

theorem struct_of_lookup (found : (structLayer structs).lookup name = some binding) :
    exists type, binding = .struct type ∧ structs.lookup name = some type := by
  rw [lookup_structLayer] at found
  rcases Option.map_eq_some_iff.mp found with ⟨type, known, rfl⟩
  exact ⟨type, rfl, known⟩

theorem named_structLayer (structs : List (String × Ty)) : Named structs [structLayer structs] := by
  intro name out type binds
  cases binds with
  | here found =>
    rcases struct_of_lookup found with ⟨_, same, known⟩
    cases same
    exact known
  | outward _ rest => cases rest

theorem all_structLayer {known} (settled : forall entry, entry ∈ known -> Settled structs entry.2) :
    Env.All (BindingSettled structs) [structLayer known] := by
  refine .cons ?_ .nil
  intro entry member
  rcases List.mem_map.mp member with ⟨source, listed, rfl⟩
  exact settled source listed

theorem fieldTypes_of_scoped (judged : ScopedFields [structLayer structs] nodes nodes' fields) :
    fieldTypes structs nodes = fields := by
  induction judged with
  | nil => rfl
  | cons denotes _ ih =>
    rw [fieldTypes, expand_of_denotes denotes (named_structLayer structs), ih]

theorem settledFields_of_scoped {env} (judged : ScopedFields env nodes nodes' fields)
    (settled : env.All (BindingSettled structs)) : SettledFields structs fields := by
  induction judged with
  | nil => trivial
  | cons denotes _ ih =>
    exact ⟨settled_of_denotes denotes settled, ih⟩

/-- Scoping and the semantics collect the same structures, and all of them are settled. -/
theorem structLayer_of_scoped (judged : ScopedStructs layer nodes nodes' behind)
    (same : layer = structLayer structs)
    (settled : forall entry, entry ∈ structs -> Settled structs entry.2) :
    behind = structLayer (structTypes structs nodes)
      ∧ forall entry, entry ∈ structTypes structs nodes ->
          Settled (structTypes structs nodes) entry.2 := by
  induction judged generalizing structs with
  | nil => exact ⟨same, settled⟩
  | @cons _ _ _ name members _ fields _ _ judgedFields _ _ _ fresh _ ih =>
    subst same
    have types := fieldTypes_of_scoped judgedFields
    have each := settledFields_of_scoped judgedFields (all_structLayer settled)
    rw [structTypes, types]
    apply ih
    · rw [structLayer, structLayer, List.map_append]
      rfl
    · intro entry member
      rcases List.mem_append.mp member with before | last
      · exact (settled entry before).append _
      · cases List.mem_singleton.mp last
        refine ⟨?_, each.append _⟩
        rw [lookup_structLayer] at fresh
        rw [List.lookup_append, Option.map_eq_none_iff.mp fresh, Option.none_or,
          List.lookup_cons, beq_self_eq_true]

/-! ## The environment of the blocks -/

/-- Whether a binding is a function. -/
def IsFunction (binding : Binding) : Prop := exists callee, binding = .function callee

/-- What is no function around the blocks is a structure. -/
theorem struct_of_binds {functions out}
    (binds : Binds [functions, structLayer structs] name out binding)
    (functionsOnly : Env.All IsFunction [functions]) (other : ¬ IsFunction binding) :
    exists type, binding = .struct type ∧ structs.lookup name = some type := by
  cases binds with
  | here found => exact absurd ((Binds.here found).holds functionsOnly) other
  | outward _ outside =>
    cases outside with
    | here found => exact struct_of_lookup found
    | outward _ rest => cases rest

theorem settled_of_signatures {structs' index}
    (judged : ScopedSignatures structs' layer index nodes nodes' behind)
    (settled : Env.All (BindingSettled structs) [layer, structs']) :
    Env.All (BindingSettled structs) [behind, structs'] := by
  induction judged with
  | nil => exact settled
  | cons _ result _ _ ih =>
    have function := settled_of_denotes result settled
    exact ih (Env.All.push settled function)

/-! ## Variables and their numbers -/

/-- The variables of a frame from a number on start with given ones. -/
def Room (slots : List Slot) (next : Nat) (taken : List Slot) : Prop :=
  exists later, slots.drop next = taken ++ later

namespace Room

variable {slots first second taken : List Slot} {next : Nat} {slot : Slot}

theorem whole : Room slots 0 slots := ⟨[], (List.append_nil slots).symm⟩

theorem left (room : Room slots next (first ++ second)) : Room slots next first := by
  rcases room with ⟨later, found⟩
  exact ⟨second ++ later, by rw [found, List.append_assoc]⟩

theorem right (room : Room slots next (first ++ second)) :
    Room slots (next + first.length) second := by
  rcases room with ⟨later, found⟩
  refine ⟨later, ?_⟩
  rw [← List.drop_drop, found, List.append_assoc, List.drop_left]

theorem getElem?_eq (room : Room slots next (slot :: taken)) : slots[next]? = some slot := by
  rcases room with ⟨later, found⟩
  have head := congrArg List.head? found
  rw [List.head?_drop] at head
  exact head

end Room

mutual

/-- Every declaration in a statement takes a number. -/
theorem next_behind {around context behind node node'} :
    TypedStmt around context node node' behind -> forall scope : Scope,
      (scope.behind node).next = scope.next + node'.slots.length
  | .block stmts, scope => by
    rw [Scope.behind, Node.slots]
    exact next_behindAll stmts scope
  | .varDecl _ _, _ | .varDeclInit _ _ _ _, _ => rfl
  | .assign _ _ _ _, _ | .ret _ _ _, _ => rfl
  | .branch _ thenBody, scope => by
    rw [Scope.behind, Node.slots, Node.slots_absent, List.append_nil]
    exact next_behind thenBody scope
  | .branchElse _ thenBody elseBody, scope => by
    rw [Scope.behind, Node.slots, List.length_append, ← Nat.add_assoc,
      ← next_behind thenBody scope]
    exact next_behind elseBody _
  | .loop _ body, scope => by
    rw [Scope.behind, Node.slots]
    exact next_behind body scope

theorem next_behindAll {around context behind nodes nodes'} :
    TypedStmts around context nodes nodes' behind -> forall scope : Scope,
      (scope.behindAll nodes).next = scope.next + (Node.slotsIn nodes').length
  | .nil, _ => rfl
  | .cons first rest, scope => by
    rw [Scope.behindAll, Node.slotsIn, List.length_append, ← Nat.add_assoc,
      ← next_behind first scope]
    exact next_behindAll rest _

end

/-! ## Agreement -/

/-- An environment and a scope agree: names stand for the same things, and the variables
of the frame are numbered. -/
structure Agrees (slots : List Slot) (env : Env) (scope : Scope) : Prop where
  named : Named scope.structs env
  settled : env.All (BindingSettled scope.structs)
  numbered : forall name out type offset byRef,
    Binds env name out (.variable type offset byRef) -> byRef = false
      ∧ exists number, scope.names.lookup name = some ⟨number, type⟩
        ∧ slots[number]? = some ⟨type, Int64.ofInt offset, false⟩

/-- A declaration binds its name. -/
theorem binds_declare {context : Context} {byRef} (fresh : context.inner.lookup name = none) :
    Binds (context.declare name type byRef).env name 0 (.variable type context.used byRef) := by
  apply Binds.here
  rw [Context.declare, lookup_snoc, fresh, Option.none_or, if_pos rfl]

namespace Agrees

variable {slots : List Slot} {env : Env} {scope : Scope}

theorem enter (agrees : Agrees slots env scope) : Agrees slots ([] :: env) scope where
  named := by
    intro name out type binds
    rcases binds.of_enter with ⟨further, outside⟩
    exact agrees.named name further type outside
  settled := agrees.settled.enter
  numbered := by
    intro name out type offset byRef binds
    rcases binds.of_enter with ⟨further, outside⟩
    exact agrees.numbered name further type offset byRef outside

/-- Numbers that are taken matter to later declarations only. -/
theorem withNext (agrees : Agrees slots env scope) (next : Nat) :
    Agrees slots env { scope with next } :=
  ⟨agrees.named, agrees.settled, agrees.numbered⟩

theorem declare {context : Context} {name declared type} (agrees : Agrees slots context.env scope)
    (denotes : Denotes context.env declared type) (fresh : context.inner.lookup name = none)
    (place : slots[scope.next]? = some ⟨type, Int64.ofInt context.used, false⟩) :
    Agrees slots (context.declare name type false).env (scope.declare name declared) where
  named := by
    intro other out found binds
    rcases binds.of_declare with ⟨_, isVariable⟩ | before
    · cases isVariable
    · exact agrees.named other out found before
  settled := Env.All.push agrees.settled (settled_of_denotes denotes agrees.settled)
  numbered := by
    intro other out found offset byRef binds
    rw [Scope.declare, List.lookup_cons, expand_of_denotes denotes agrees.named]
    by_cases same : other = name
    · subst same
      cases (binds.unique (binds_declare fresh)).2
      rw [beq_self_eq_true]
      exact ⟨rfl, scope.next, rfl, place⟩
    · rw [beq_false_of_ne same]
      rcases binds.of_declare with ⟨isName, _⟩ | before
      · exact absurd isName same
      · exact agrees.numbered other out found offset byRef before

end Agrees

mutual

/-- Environment and scope agree behind a statement if they do before it. -/
theorem agrees_behind {slots around context behind node node'} :
    TypedStmt around context node node' behind -> forall {scope},
      Agrees slots context.env scope -> Room slots scope.next node'.slots ->
      Agrees slots behind.env (scope.behind node)
  | .block _, _, agrees, _ => agrees.withNext _
  | .varDecl denotes fresh, _, agrees, room => agrees.declare denotes fresh room.getElem?_eq
  | .varDeclInit _ denotes fresh _, _, agrees, room =>
    agrees.declare denotes fresh room.getElem?_eq
  | .assign _ _ _ _, _, agrees, _ | .ret _ _ _, _, agrees, _ => agrees
  | .branch _ thenBody, _, agrees, room => by
    rw [Node.slots, Node.slots_absent, List.append_nil] at room
    exact agrees_behind thenBody agrees room
  | .branchElse _ thenBody elseBody, scope, agrees, room => by
    rw [Node.slots] at room
    have later := room.right
    rw [← next_behind thenBody scope] at later
    exact agrees_behind elseBody (agrees_behind thenBody agrees room.left) later
  | .loop _ body, _, agrees, room => by
    rw [Node.slots] at room
    exact agrees_behind body agrees room

end

/-- Around the blocks of a program there are structures and functions, but no variables. -/
theorem agrees_start {program structs declared known functions} (slots : List Slot)
    (judged : ScopedStructs [] program.structs structs known)
    (signatures : ScopedSignatures known [] 0 nodes declared functions) :
    Agrees slots [functions, known] (Scope.start program) := by
  have collected := structLayer_of_scoped judged (show [] = structLayer [] from rfl) nofun
  rcases collected with ⟨rfl, settled⟩
  have functionsOnly : Env.All IsFunction [functions] :=
    signatures.keeps (fun callee => ⟨callee, rfl⟩) (.enter .nil)
  refine ⟨?_, settled_of_signatures signatures (all_structLayer settled).enter, ?_⟩
  · intro name out type binds
    rcases struct_of_binds binds functionsOnly nofun with ⟨found, same, known⟩
    cases same
    exact known
  · intro name out type offset byRef binds
    rcases struct_of_binds binds functionsOnly nofun with ⟨_, same, _⟩
    cases same

end Semantics
end PCode
