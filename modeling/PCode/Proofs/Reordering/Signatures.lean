import Mathlib.Data.List.Nodup
import Mathlib.Data.List.Perm.Basic
import PCode.Proofs.Lowering.Integrity
import PCode.Proofs.Static.Reindexing

namespace PCode

/-!
Functions in another order.

The signatures of a program are judged one after another, each in a scope that has
the earlier functions.  Functions are no types, so an earlier function can do only
one thing to a signature: hide a structure of its own name.  In an order in which
that does not happen, a signature is judged as if it were alone, and the whole
judgement is the same up to the positions of the functions.
-/

/-- The structure that a declared type mentions. -/
def Ty.structName? : Ty -> Option String
  | .struct name _ => some name
  | .array _ elem => elem.structName?
  | _ => none

namespace Reordering

open Static
open Lowering

/-! ## Positions -/

section Positions

variable {Key : Type} [BEq Key]

/-- The position in the new order of what stands at a position in the old one. -/
def newPosition (old new : List Key) (position : Nat) : Nat :=
  match old[position]? with
  | some key => new.idxOf key
  | none => position

variable {old new : List Key} {position : Nat} {key : Key}

theorem newPosition_of_some (found : old[position]? = some key) :
    newPosition old new position = new.idxOf key := by
  rw [newPosition, found]

theorem newPosition_of_none (missing : old[position]? = none) :
    newPosition old new position = position := by
  rw [newPosition, missing]

variable [LawfulBEq Key]

theorem idxOf_of_nodup (nodup : old.Nodup) (found : old[position]? = some key) :
    old.idxOf key = position := by
  rcases List.getElem?_eq_some_iff.mp found with ⟨inside, rfl⟩
  exact nodup.idxOf_getElem position inside

theorem getElem?_newPosition (perm : new.Perm old) (position : Nat) :
    new[newPosition old new position]? = old[position]? := by
  cases found : old[position]? with
  | some key =>
    rw [newPosition_of_some found]
    exact List.getElem?_idxOf (perm.mem_iff.mpr (List.mem_of_getElem? found))
  | none =>
    rw [newPosition_of_none found]
    rw [List.getElem?_eq_none_iff] at found ⊢
    rw [perm.length_eq]
    exact found

/-- Going to the new order and back leads to where one was. -/
theorem newPosition_newPosition (perm : new.Perm old) (nodup : old.Nodup) (position : Nat) :
    newPosition new old (newPosition old new position) = position := by
  have there := getElem?_newPosition perm position
  cases found : old[position]? with
  | some key =>
    rw [found] at there
    rw [newPosition_of_some there]
    exact idxOf_of_nodup nodup found
  | none =>
    rw [found] at there
    rw [newPosition_of_none there]
    exact newPosition_of_none found

end Positions

/-! ## Names in signatures -/

/-- The structure that the type of a parameter mentions. -/
def paramStruct? : Node -> Option String
  | .varDecl _ _ type _ => type.structName?
  | _ => none

/-- The structures that the signature of a function mentions. -/
def signatureStructs : Node -> List String
  | .funcDecl _ _ params result _ _ _ =>
    params.filterMap paramStruct? ++ result.structName?.toList
  | _ => []

/-- No signature mentions a structure that has the name of an earlier function. -/
def Clear (functions : List Node) : Prop :=
  functions.Pairwise fun earlier later =>
    forall name, name ∈ declaredName? earlier -> name ∉ signatureStructs later

instance (functions : List Node) : Decidable (Clear functions) :=
  inferInstanceAs (Decidable (functions.Pairwise fun earlier later =>
    forall name, name ∈ declaredName? earlier -> name ∉ signatureStructs later))

/-- A scope that has functions only. -/
def FunctionsOnly (layer : Layer) : Prop :=
  forall name binding, layer.lookup name = some binding -> exists callee, binding = .function callee

variable {layer : Layer} {name : String} {binding : Binding} {node : Node} {nodes : List Node}

theorem FunctionsOnly.push (only : FunctionsOnly layer) (name : String) (callee : Callee) :
    FunctionsOnly (layer ++ [(name, .function callee)]) := by
  intro other binding found
  rw [lookup_snoc] at found
  cases known : layer.lookup other with
  | some earlier =>
    rw [known, Option.some_or] at found
    exact only other binding (known.trans found)
  | none =>
    rw [known, Option.none_or] at found
    split at found
    · exact ⟨callee, (Option.some.inj found).symm⟩
    · cases found

section Types

variable {layer structs : Layer}

/-- Functions hide structures of their names and do nothing else to a type. -/
theorem denotes_iff_alone (only : FunctionsOnly layer) {declared type} :
    Denotes [layer, structs] declared type
      <-> Denotes [[], structs] declared type
        ∧ forall name, name ∈ declared.structName? -> layer.lookup name = none := by
  constructor
  · intro denotes
    induction denotes with
    | integer => exact ⟨.integer, fun _ mentioned => by cases mentioned⟩
    | boolean => exact ⟨.boolean, fun _ mentioned => by cases mentioned⟩
    | real => exact ⟨.real, fun _ mentioned => by cases mentioned⟩
    | char => exact ⟨.char, fun _ mentioned => by cases mentioned⟩
    | struct binds =>
      cases binds with
      | here found =>
        rcases only _ _ found with ⟨_, equal⟩
        cases equal
      | outward missing rest =>
        refine ⟨.struct (.outward rfl rest), fun name mentioned => ?_⟩
        cases mentioned
        exact missing
    | array positive _ bounded ih =>
      exact ⟨.array positive ih.1 bounded, ih.2⟩
  · rintro ⟨denotes, free⟩
    induction denotes with
    | integer => exact .integer
    | boolean => exact .boolean
    | real => exact .real
    | char => exact .char
    | struct binds =>
      cases binds with
      | here found => cases found
      | outward _ rest => exact .struct (.outward (free _ rfl) rest)
    | array positive _ bounded ih =>
      exact .array positive (ih free) bounded

variable {params params' nodes' : List Node} {types : List Ty} {layer behind : Layer} {index : Nat}
  {signature : Signature} {program resolved checked : Program}

theorem params_iff_alone (only : FunctionsOnly layer) :
    ScopedParams [layer, structs] params params' types
      <-> ScopedParams [[], structs] params params' types
        ∧ forall param, param ∈ params ->
            forall name, name ∈ paramStruct? param -> layer.lookup name = none := by
  constructor
  · intro judged
    induction judged with
    | nil => exact ⟨.nil, fun _ member => by cases member⟩
    | cons denotes _ ih =>
      rcases (denotes_iff_alone only).mp denotes with ⟨alone, free⟩
      exact ⟨.cons alone ih.1,
        List.forall_mem_cons.mpr ⟨free, ih.2⟩⟩
  · rintro ⟨judged, free⟩
    induction judged with
    | nil => exact .nil
    | cons denotes _ ih =>
      rcases List.forall_mem_cons.mp free with ⟨first, rest⟩
      exact .cons ((denotes_iff_alone only).mpr ⟨denotes, first⟩) (ih rest)

end Types

/-! ## Signatures one by one -/

/-- The signature of a function that stands alone behind the structures. -/
inductive Signs (structs : Layer) : Node -> Node -> Prop
  | funcDecl {note name params params' types declared result body previous entry} :
    ScopedParams [[], structs] params params' types -> Denotes [[], structs] declared result ->
    Signs structs (.funcDecl note name params declared body previous entry)
      (.funcDecl (typeNote note result) name params' declared body (some ⟨types, result⟩) entry)

/-- The name and the signature that a function was given. -/
def signed? : Node -> Option (String × Signature)
  | .funcDecl _ name _ _ _ (some signature) _ => some (name, signature)
  | _ => none

/-- The scope of functions, the first of them at position `index`. -/
def functionLayer (index : Nat) : List Node -> Layer
  | [] => []
  | node :: nodes =>
    ((signed? node).map fun (name, signature) =>
      (name, Binding.function ⟨signature, index⟩)).toList ++ functionLayer (index + 1) nodes

/-- Whether a scope leaves a function alone: it has neither its name nor the name of a
structure in its signature. -/
structure Free (layer : Layer) (node : Node) : Prop where
  name : forall name, name ∈ declaredName? node -> layer.lookup name = none
  structs : forall name, name ∈ signatureStructs node -> layer.lookup name = none

/-- Functions with names of their own that neither a scope nor one another hide
structures from. -/
structure Orderly (layer : Layer) (functions : List Node) : Prop where
  free : forall node, node ∈ functions -> Free layer node
  clear : Clear functions
  distinct : (functions.map declaredName?).Nodup

theorem lookup_snoc_eq_none_iff {other} :
    (layer ++ [(other, binding)]).lookup name = none
      <-> layer.lookup name = none ∧ name ≠ other := by
  rw [lookup_snoc, Option.or_eq_none_iff]
  by_cases same : name = other
  · simp [same]
  · simp [same]

theorem free_snoc_iff :
    Free (layer ++ [(name, binding)]) node
      <-> Free layer node ∧ declaredName? node ≠ some name ∧ name ∉ signatureStructs node := by
  constructor
  · rintro ⟨freeName, freeStructs⟩
    refine ⟨⟨fun other own => ?_, fun other mentioned => ?_⟩, fun own => ?_, fun mentioned => ?_⟩
    · exact (lookup_snoc_eq_none_iff.mp (freeName other own)).1
    · exact (lookup_snoc_eq_none_iff.mp (freeStructs other mentioned)).1
    · exact (lookup_snoc_eq_none_iff.mp (freeName name own)).2 rfl
    · exact (lookup_snoc_eq_none_iff.mp (freeStructs name mentioned)).2 rfl
  · rintro ⟨⟨freeName, freeStructs⟩, otherName, unmentioned⟩
    refine ⟨fun other own => lookup_snoc_eq_none_iff.mpr ⟨freeName other own, fun same => ?_⟩,
      fun other mentioned =>
        lookup_snoc_eq_none_iff.mpr ⟨freeStructs other mentioned, fun same => ?_⟩⟩
    · exact otherName (same ▸ own)
    · exact unmentioned (same ▸ mentioned)

/-- Functions are orderly when the first is free and the others are orderly behind it. -/
theorem orderly_cons_iff (own : declaredName? node = some name) :
    Orderly layer (node :: nodes)
      <-> Free layer node ∧ Orderly (layer ++ [(name, binding)]) nodes := by
  constructor
  · rintro ⟨free, clear, distinct⟩
    rcases List.forall_mem_cons.mp free with ⟨first, rest⟩
    rcases List.pairwise_cons.mp clear with ⟨clearFirst, clearRest⟩
    rcases List.nodup_cons.mp distinct with ⟨distinctFirst, distinctRest⟩
    refine ⟨first, fun other member => ?_, clearRest, distinctRest⟩
    refine free_snoc_iff.mpr ⟨rest other member, fun same => ?_, clearFirst other member name own⟩
    rw [own, ← same] at distinctFirst
    exact distinctFirst (List.mem_map_of_mem member)
  · rintro ⟨first, free, clear, distinct⟩
    have apart := fun other member => (free_snoc_iff.mp (free other member)).2
    refine ⟨List.forall_mem_cons.mpr
        ⟨first, fun other member => (free_snoc_iff.mp (free other member)).1⟩,
      List.pairwise_cons.mpr ⟨fun other member known same => ?_, clear⟩,
      List.nodup_cons.mpr ⟨fun member => ?_, distinct⟩⟩
    · rw [own] at same
      cases same
      exact (apart other member).2
    · rcases List.mem_map.mp member with ⟨other, inside, same⟩
      exact (apart other inside).1 (same.trans own)

section Signatures

variable {structs : Layer}

/-- A signature is judged behind functions as it is alone, if they leave it alone. -/
theorem signature_iff_alone (only : FunctionsOnly layer)
    {note name declared result body previous entry} :
    (ScopedParams [layer, structs] params params' types
        ∧ Denotes [layer, structs] declared result ∧ layer.lookup name = none)
      <-> ScopedParams [[], structs] params params' types ∧ Denotes [[], structs] declared result
        ∧ Free layer (.funcDecl note name params declared body previous entry) := by
  rw [params_iff_alone only, denotes_iff_alone only]
  constructor
  · rintro ⟨⟨alone, freeParams⟩, ⟨denotes, freeResult⟩, missing⟩
    refine ⟨alone, denotes, fun other own => ?_, fun other mentioned => ?_⟩
    · cases own
      exact missing
    · rcases List.mem_append.mp mentioned with inParams | inResult
      · rcases List.mem_filterMap.mp inParams with ⟨param, member, known⟩
        exact freeParams param member other known
      · exact freeResult other (Option.mem_toList.mp inResult)
  · rintro ⟨alone, denotes, freeName, freeStructs⟩
    refine ⟨⟨alone, fun param member other known => ?_⟩, ⟨denotes, fun other known => ?_⟩,
      freeName name rfl⟩
    · exact freeStructs other
        (List.mem_append_left _ (List.mem_filterMap.mpr ⟨param, member, known⟩))
    · exact freeStructs other (List.mem_append_right _ (Option.mem_toList.mpr known))

/-- Signatures in order are signatures one by one, if the functions are orderly. -/
theorem signatures_iff_orderly {nodes declared} (only : FunctionsOnly layer) :
    ScopedSignatures structs layer index nodes declared behind
      <-> List.Forall₂ (Signs structs) nodes declared ∧ Orderly layer nodes
        ∧ behind = layer ++ functionLayer index declared := by
  constructor
  · intro judged
    induction judged with
    | nil =>
      exact ⟨.nil, ⟨fun _ member => (by cases member), .nil, .nil⟩, (List.append_nil _).symm⟩
    | cons params denotes missing _ ih =>
      rcases ih (only.push _ _) with ⟨signs, orderly, equal⟩
      rcases (signature_iff_alone only).mp ⟨params, denotes, missing⟩ with ⟨params, denotes, free⟩
      refine ⟨.cons (.funcDecl params denotes) signs, (orderly_cons_iff rfl).mpr ⟨free, orderly⟩,
        ?_⟩
      rw [equal, List.append_assoc]
      rfl
  · rintro ⟨signs, orderly, rfl⟩
    induction signs generalizing layer index with
    | nil => exact (List.append_nil layer).symm ▸ .nil
    | @cons node node' nodes declared first rest ih =>
      cases first with
      | funcDecl params denotes =>
        rcases (signature_iff_alone only).mpr
            ⟨params, denotes, orderly.free _ List.mem_cons_self⟩ with ⟨params, denotes, missing⟩
        refine .cons params denotes missing ?_
        rw [functionLayer, ← List.append_assoc]
        exact ih (only.push _ _) ((orderly_cons_iff rfl).mp orderly).2

end Signatures

/-! ## The scope of all functions -/

theorem declaredName?_of_signed
    (signed : signed? node = some (name, signature)) : declaredName? node = some name := by
  unfold signed? at signed
  split at signed
  · cases signed
    rfl
  · cases signed

/-- A name in the scope of functions belongs to one of them, at its position. -/
theorem signed_of_lookup (found : (functionLayer index nodes).lookup name = some binding) :
    exists position node signature, nodes[position]? = some node
      ∧ signed? node = some (name, signature)
      ∧ binding = .function ⟨signature, index + position⟩ := by
  induction nodes generalizing index with
  | nil => cases found
  | cons first nodes ih =>
    have later (found : (functionLayer (index + 1) nodes).lookup name = some binding) :
        exists position node signature, (first :: nodes)[position]? = some node
          ∧ signed? node = some (name, signature)
          ∧ binding = .function ⟨signature, index + position⟩ := by
      rcases ih found with ⟨position, node, signature, there, signed, equal⟩
      exact ⟨position + 1, node, signature, there, signed, by rw [equal]; congr 2; omega⟩
    cases signed : signed? first with
    | none =>
      rw [functionLayer, signed] at found
      exact later found
    | some own =>
      rw [functionLayer, signed, Option.map_some, Option.toList_some, List.singleton_append,
        List.lookup_cons] at found
      split at found
      · rename_i same
        cases beq_iff_eq.mp same
        exact ⟨0, first, own.2, rfl, signed, (Option.some.inj found).symm⟩
      · exact later found

/-- The name of a function stands for it, if no other function has the name. -/
theorem lookup_of_signed (nodup : (nodes.map declaredName?).Nodup) {position}
    (there : nodes[position]? = some node) (signed : signed? node = some (name, signature)) :
    (functionLayer index nodes).lookup name
      = some (.function ⟨signature, index + position⟩) := by
  induction nodes generalizing index position with
  | nil => cases there
  | cons first nodes ih =>
    cases position with
    | zero =>
      cases there
      rw [functionLayer, signed]
      exact List.lookup_cons_self
    | succ position =>
      rcases List.nodup_cons.mp nodup with ⟨fresh, nodup⟩
      have later : (functionLayer (index + 1) nodes).lookup name
          = some (.function ⟨signature, index + 1 + position⟩) :=
        ih nodup there
      rw [Nat.add_right_comm] at later
      cases other : signed? first with
      | none =>
        rw [functionLayer, other]
        exact later
      | some own =>
        have apart : name ≠ own.1 := by
          intro same
          rw [declaredName?_of_signed other, ← same,
            ← declaredName?_of_signed signed] at fresh
          exact fresh (List.mem_map_of_mem (List.mem_of_getElem? there))
        rw [functionLayer, other, Option.map_some, Option.toList_some, List.singleton_append,
          List.lookup_cons, beq_false_of_ne apart]
        exact later

/-- Two orders of the same functions give scopes that agree up to positions. -/
theorem agrees_of_perm (perm : nodes'.Perm nodes) (nodup : (nodes.map declaredName?).Nodup) :
    Layer.Agrees (newPosition (nodes.map declaredName?) (nodes'.map declaredName?))
      (functionLayer 0 nodes) (functionLayer 0 nodes') := by
  have names : (nodes'.map declaredName?).Perm (nodes.map declaredName?) := perm.map declaredName?
  have nodup' := names.nodup_iff.mpr nodup
  intro name
  cases found : (functionLayer 0 nodes).lookup name with
  | some binding =>
    rcases signed_of_lookup found with ⟨position, node, signature, there, signed, rfl⟩
    rcases List.mem_iff_getElem?.mp (perm.mem_iff.mpr (List.mem_of_getElem? there))
      with ⟨position', there'⟩
    have named : (nodes.map declaredName?)[position]? = some (declaredName? node) := by
      rw [List.getElem?_map, there, Option.map_some]
    have named' : (nodes'.map declaredName?)[position']? = some (declaredName? node) := by
      rw [List.getElem?_map, there', Option.map_some]
    rw [lookup_of_signed nodup' there' signed, Nat.zero_add, Nat.zero_add,
      ← idxOf_of_nodup nodup' named', ← newPosition_of_some named]
    rfl
  | none =>
    rw [Option.map_none, Option.eq_none_iff_forall_not_mem]
    intro binding found'
    rcases signed_of_lookup found' with ⟨position', node, signature, there', signed, _⟩
    rcases List.mem_iff_getElem?.mp (perm.mem_iff.mp (List.mem_of_getElem? there'))
      with ⟨position, there⟩
    rw [lookup_of_signed nodup there signed] at found
    cases found

/-- Structures have no position. -/
theorem structs_agree (judged : ScopedStructs layer nodes nodes' behind) {new : Nat -> Nat}
    (agrees : Layer.Agrees new layer layer) : Layer.Agrees new behind behind := by
  induction judged with
  | nil => exact agrees
  | cons _ _ _ _ _ _ ih => exact ih (agrees.push _ _)

/-! ## Programs -/

section Programs

/-- Signatures in another order that is clear. -/
theorem signatures_reordered {structs nodes declared}
    (judged : ScopedSignatures structs [] 0 nodes declared behind) (perm : nodes'.Perm nodes)
    (clear : Clear nodes') :
    exists declared' behind', ScopedSignatures structs [] 0 nodes' declared' behind'
      ∧ declared'.Perm declared
      ∧ Layer.Agrees (newPosition (nodes.map declaredName?) (nodes'.map declaredName?))
          behind behind' := by
  have only : FunctionsOnly [] := fun _ _ found => by cases found
  rcases (signatures_iff_orderly only).mp judged with ⟨signs, orderly, rfl⟩
  rcases List.perm_comp_forall₂ perm signs with ⟨declared', signs', perm'⟩
  have orderly' : Orderly [] nodes' :=
    { free := fun node member => orderly.free node (perm.mem_iff.mp member)
      clear := clear
      distinct := (perm.map declaredName?).nodup_iff.mpr orderly.distinct }
  have judged' : ScopedSignatures structs [] 0 nodes' declared' (functionLayer 0 declared') :=
    (signatures_iff_orderly only).mpr ⟨signs', orderly', rfl⟩
  refine ⟨declared', _, judged', perm', ?_⟩
  rw [← names_of_signatures judged, ← names_of_signatures judged']
  refine agrees_of_perm perm' ?_
  rw [names_of_signatures judged]
  exact orderly.distinct

/-- A program that is well scoped has its functions in a clear order. -/
theorem clear_of_scoped (judged : ScopedProgram program resolved) :
    Clear program.functions := by
  cases judged with
  | intro _ signatures _ _ _ =>
    exact ((signatures_iff_orderly fun _ _ found => by cases found).mp signatures).2.1.clear

/-- The functions of a well-typed program keep their names, and these are distinct. -/
theorem names_of_typedProgram (typed : TypedProgram program checked) :
    checked.functions.map declaredName? = program.functions.map declaredName?
      ∧ (program.functions.map declaredName?).Nodup := by
  cases typed with
  | intro _ signatures bodies _ _ =>
    have orderly := (signatures_iff_orderly fun _ _ found => by cases found).mp signatures
    exact ⟨(names_of_typed bodies).trans (names_of_signatures signatures), orderly.2.1.distinct⟩

/-- Judgements on each function and on each block carry over to another order. -/
theorem bodies_reordered {JudgedFunction JudgedTop : Env -> Node -> Node -> Prop}
    (functionMoves : forall {new env env' node node'}, JudgedFunction env node node' ->
      Env.Agrees new env env' -> JudgedFunction env' node (node'.reindex new))
    (topMoves : forall {new env env' node node'}, JudgedTop env node node' ->
      Env.Agrees new env env' -> JudgedTop env' node (node'.reindex new)) {new : Nat -> Nat}
    {env env'} (agrees : Env.Agrees new env env') {declared declared' functions written blocks}
    (perm : declared'.Perm declared)
    (judgedFunctions : List.Forall₂ (JudgedFunction env) declared functions)
    (judgedBlocks : List.Forall₂ (JudgedTop env) written blocks) :
    (exists functions', List.Forall₂ (JudgedFunction env') declared' functions'
        ∧ functions'.Perm (functions.map (Node.reindex new)))
      ∧ List.Forall₂ (JudgedTop env') written (blocks.map (Node.reindex new)) := by
  have moved : List.Forall₂ (JudgedFunction env') declared (functions.map (Node.reindex new)) :=
    List.forall₂_map_right_iff.mpr
      (judgedFunctions.imp fun _ _ judged => functionMoves judged agrees)
  rcases List.perm_comp_forall₂ perm moved with ⟨functions', judged', perm'⟩
  exact ⟨⟨functions', judged', perm'⟩,
    List.forall₂_map_right_iff.mpr (judgedBlocks.imp fun _ _ judged => topMoves judged agrees)⟩

variable {program : Program} {functions : List Node}

/-- A program stays well scoped when its functions are put in another clear order. -/
theorem scoped_reordered (judged : ScopedProgram program resolved)
    (perm : functions.Perm program.functions) (clear : Clear functions) :
    exists resolved', ScopedProgram { program with functions } resolved' := by
  cases judged with
  | intro structs signatures bodies nonempty blocks =>
    rcases signatures_reordered signatures perm clear
      with ⟨declared', behind', signatures', perm', agrees⟩
    have agrees' := List.Forall₂.cons agrees (.cons (structs_agree structs .nil) .nil)
    rcases bodies_reordered ScopedFunction.reindex ScopedTop.reindex agrees' perm' bodies blocks
      with ⟨⟨functions', bodies', _⟩, blocks'⟩
    exact ⟨_, .intro structs signatures' bodies' nonempty blocks'⟩

/-- A program stays well typed when its functions are put in another clear order, and
its parts stay the same up to the positions of the functions. -/
theorem typed_reordered (typed : TypedProgram program checked)
    (perm : functions.Perm program.functions) (clear : Clear functions) {new : Nat -> Nat}
    (positions : new
      = newPosition (program.functions.map declaredName?) (functions.map declaredName?)) :
    exists checked', TypedProgram { program with functions } checked'
      ∧ checked'.functions.Perm (checked.functions.map (Node.reindex new))
      ∧ checked'.blocks = checked.blocks.map (Node.reindex new) := by
  cases typed with
  | intro structs signatures bodies nonempty blocks =>
    rcases signatures_reordered signatures perm clear
      with ⟨declared', behind', signatures', perm', agrees⟩
    rw [← positions] at agrees
    have agrees' := List.Forall₂.cons agrees (.cons (structs_agree structs .nil) .nil)
    rcases bodies_reordered TypedFunction.reindex TypedTop.reindex agrees' perm' bodies blocks
      with ⟨⟨functions', bodies', permFunctions⟩, blocks'⟩
    exact ⟨_, .intro structs signatures' bodies' nonempty blocks', permFunctions, rfl⟩

end Programs

end Reordering
end PCode
