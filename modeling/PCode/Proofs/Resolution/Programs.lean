import PCode.Proofs.Resolution.Bodies

namespace PCode
namespace Resolution

open Static

/-!
Programs: resolution against the scoping judgement.

Outside of bodies the table rests: no frame is open, and it shows the structures
and, once they are declared, the functions.  Structures and signatures extend
what it shows; a body leaves it as it was.  As for bodies, what is well scoped is
resolved to the tree of the judgement, and what is resolved is well scoped.
-/

/-- An outcome outside of bodies follows a judgement. -/
structure Settles {Part : Type} (outcome : Outcome Part) (part : Part) (env : Env) : Prop where
  ok : outcome.ok = true
  part : outcome.part = part
  rests : Rests outcome.table env

theorem Rests.insert {table layer} {env : Env} {name} (entity : Entity) (binding : Binding)
    (rests : Rests table (layer :: env)) (free : layer.lookup name = none)
    (stands : Stands table.depth { entity with name := name, depth := table.depth }
      (name, binding)) :
    exists inserted, table.insert name entity
        = .ok (.added { entity with name := name, depth := table.depth } inserted)
      ∧ Rests inserted ((layer ++ [(name, binding)]) :: env) := by
  rcases insert_of_free entity binding rests.shows free stands with ⟨inserted, added, shows, frames⟩
  refine ⟨inserted, added, shows, ?_⟩
  rw [owners_of_frames frames]
  exact rests.unowned

/-- A name is free if it can be declared. -/
theorem Rests.free {table inserted layer} {env : Env} {name fresh entity}
    (rests : Rests table (layer :: env))
    (added : table.insert name fresh = .ok (.added entity inserted)) :
    layer.lookup name = none := by
  cases bound : layer.lookup name with
  | none => rfl
  | some binding =>
    rcases insert_of_bound rests.shows bound fresh with ⟨existing, taken⟩
    rw [added] at taken
    cases taken

/-! ## Structures -/

section Structures

variable {table : Table} {env : Env} {nodes nodes' : List Node} {fields : List (String × Ty)}
  {source : Int64} {order : List String} {index : Nat}

theorem resolveFields_of_scoped (owner : Owner) {seen} (shows : Shows table.scopes env)
    (finished : env.Finished) (judged : ScopedFields env nodes nodes' fields)
    (distinct : (fields.map Prod.fst).Nodup)
    (fresh : forall name, name ∈ fields.map Prod.fst -> name ∉ seen) :
    resolveFields table owner seen nodes = { nodes := nodes', fields, findings := [] } := by
  induction judged generalizing seen with
  | nil => rfl
  | @cons note name declared type nodes nodes' fields denotes _ ih =>
    rcases List.nodup_cons.mp distinct with ⟨unrepeated, distinct⟩
    have freshHere : seen.contains name = false := by
      rw [List.contains_eq_mem, decide_eq_false_iff_not]
      exact fresh name List.mem_cons_self
    have freshLater : forall other, other ∈ fields.map Prod.fst -> other ∉ name :: seen := by
      intro other member before
      rcases List.mem_cons.mp before with same | earlier
      · exact unrepeated (same ▸ member)
      · exact fresh other (List.mem_cons_of_mem _ member) earlier
    rw [resolveFields, resolveType_of_denotes _ shows finished denotes,
      ih distinct freshLater, freshHere]
    rfl

theorem scoped_of_resolveFields {source env owner seen} (shows : Shows table.scopes env) :
    forall {nodes},
    (forall node, node ∈ nodes -> Written.Plain source node) ->
    (resolveFields table owner seen nodes).findings = [] ->
    exists nodes' fields, ScopedFields env nodes nodes' fields ∧ (fields.map Prod.fst).Nodup
      ∧ forall name, name ∈ fields.map Prod.fst -> name ∉ seen
  | [], _, _ => ⟨[], [], .nil, List.nodup_nil, fun _ member => by cases member⟩
  | node :: nodes, written, clean => by
    have writtenLater := (List.forall_mem_cons.mp written).2
    rcases written node List.mem_cons_self with ⟨_, _, declared⟩
    rename_i note name type _ _
    rw [resolveFields] at clean
    split at clean
    · rename_i resolved typed
      rcases List.append_eq_nil_iff.mp clean with ⟨clean, restClean⟩
      rcases List.append_eq_nil_iff.mp clean with ⟨unrepeated, _⟩
      have unseen : name ∉ seen := by
        intro before
        rw [if_pos (List.contains_iff_mem.mpr before)] at unrepeated
        cases unrepeated
      rcases scoped_of_resolveFields shows writtenLater restClean
          with ⟨nodes', fields, rest, distinct, fresh⟩
      refine ⟨_, (name, resolved) :: fields,
        .cons (denotes_of_resolveType shows declared typed) rest, ?_, ?_⟩
      · refine List.nodup_cons.mpr ⟨?_, distinct⟩
        intro member
        exact fresh name member List.mem_cons_self
      · intro other member
        rcases List.mem_cons.mp member with same | later
        · exact same ▸ unseen
        · exact fun before => fresh other later (List.mem_cons_of_mem _ before)
    · rcases List.append_eq_nil_iff.mp clean with ⟨impossible, _⟩
      cases (List.append_eq_nil_iff.mp impossible).2

variable {layer : Layer} {name : String} {members : List Node}

theorem resolveStruct_of_scoped {members'} (note : Note) (order : List String) (index : Nat)
    (rests : Rests table [layer]) (finished : Env.Finished [layer])
    (judged : ScopedFields [layer] members members' fields) (nonempty : members ≠ [])
    (distinct : (fields.map Prod.fst).Nodup)
    (bounded : (Ty.struct name fields).cells <= Ty.cellLimit) (free : layer.lookup name = none) :
    Settles (resolveStruct table order index (.structDecl note name members))
      (.structDecl (typeNote note (.struct name fields)) name members')
      [layer ++ [(name, .struct (.struct name fields))]] := by
  have resolved := resolveFields_of_scoped ⟨name, index, order⟩ rests.shows finished judged distinct
    (fun _ _ => List.not_mem_nil)
  have sized := judged.sized finished nonempty bounded
  have present : members'.isEmpty = false := by
    cases judged with
    | nil => exact absurd rfl nonempty
    | cons _ _ => rfl
  rcases rests.insert
    { kind := .struct, type := .struct name fields, site := some { span := note.span } }
    (.struct (.struct name fields)) free ⟨rfl, rfl, rfl, rfl⟩ with ⟨inserted, added, rests⟩
  rw [resolveStruct, resolved, declareStruct]
  simp only [present, sized.fits, added, List.nil_append, List.isEmpty_nil, Bool.not_true,
    Bool.false_eq_true, if_false]
  exact ⟨rfl, rfl, rests⟩

/-- A structure is declared only if nothing was found in its fields, there are
some, they are not too many cells, and the name is free. -/
theorem declareStruct_inversion {note outcome}
    (ok : (declareStruct table note name outcome).ok = true) :
    outcome.findings = [] ∧ outcome.nodes ≠ [] ∧ (Ty.struct name outcome.fields).fitsIn Ty.maxCells
      ∧ exists entity inserted,
          table.insert name
              { kind := .struct, type := .struct name outcome.fields,
                site := some { span := note.span } }
            = .ok (.added entity inserted) := by
  rw [declareStruct] at ok
  by_cases empty : outcome.nodes.isEmpty = true
  · simp [empty] at ok
  by_cases clean : outcome.findings = []
  case neg => simp [empty, clean] at ok
  have present : outcome.nodes ≠ [] := fun equal => empty (List.isEmpty_iff.mpr equal)
  simp only [empty, clean, if_false, List.append_nil, List.isEmpty_nil, Bool.not_true,
    Bool.false_eq_true] at ok
  split at ok
  · cases ok
  rename_i fits
  split at ok
  · rename_i entity inserted added
    exact ⟨clean, present, by simpa using fits, entity, inserted, added⟩
  · cases ok

theorem scoped_of_resolveStruct {note}
    (written : forall member, member ∈ members -> Written.Plain source member)
    (rests : Rests table [layer]) (finished : Env.Finished [layer])
    (ok : (resolveStruct table order index (.structDecl note name members)).ok = true) :
    exists members' fields, ScopedFields [layer] members members' fields ∧ members ≠ []
      ∧ (fields.map Prod.fst).Nodup ∧ (Ty.struct name fields).cells <= Ty.cellLimit
      ∧ layer.lookup name = none := by
  rw [resolveStruct] at ok
  rcases declareStruct_inversion ok with ⟨clean, present, fits, entity, inserted, added⟩
  rcases scoped_of_resolveFields rests.shows written clean
      with ⟨members', fields, judged, distinct, _⟩
  rw [resolveFields_of_scoped _ rests.shows finished judged distinct
    (fun _ _ => List.not_mem_nil)] at present fits added
  refine ⟨members', fields, judged, ?_, distinct, (Ty.cells_of_fitsIn _ (by decide) fits).2.1,
    rests.free added⟩
  rintro rfl
  cases judged
  exact present rfl

theorem resolveStructs_of_scoped {behind} (order : List String) (index : Nat)
    (judged : ScopedStructs layer nodes nodes' behind) (rests : Rests table [layer])
    (finished : Env.Finished [layer]) :
    Settles (resolveStructs table order index nodes) nodes' [behind] := by
  induction judged generalizing table index with
  | nil => exact ⟨rfl, rfl, rests⟩
  | @cons _ _ note _ _ _ _ _ _ fields nonempty distinct bounded free _ ih =>
    have first := resolveStruct_of_scoped note order index rests finished fields nonempty distinct
      bounded free
    have rest := ih (index + 1) first.rests
      (finished.push (fields.sized finished nonempty bounded))
    rw [resolveStructs]
    exact ⟨by rw [first.ok, rest.ok]; rfl, by rw [first.part, rest.part], rest.rests⟩

theorem scoped_of_resolveStructs (written : forall node, node ∈ nodes -> Written.Struct source node)
    (rests : Rests table [layer]) (finished : Env.Finished [layer])
    (ok : (resolveStructs table order index nodes).ok = true) :
    exists nodes' behind, ScopedStructs layer nodes nodes' behind
      ∧ Settles (resolveStructs table order index nodes) nodes' [behind] := by
  suffices found : exists nodes' behind, ScopedStructs layer nodes nodes' behind by
    rcases found with ⟨nodes', behind, judged⟩
    exact ⟨nodes', behind, judged, resolveStructs_of_scoped order index judged rests finished⟩
  induction nodes generalizing table layer index with
  | nil => exact ⟨[], layer, .nil⟩
  | cons node nodes ih =>
    rw [resolveStructs] at ok
    rcases Bool.and_eq_true_iff.mp ok with ⟨firstOk, restOk⟩
    cases written node List.mem_cons_self with
    | @structDecl note _ _ _ members =>
      rcases scoped_of_resolveStruct members rests finished firstOk
          with ⟨_, _, fields, nonempty, distinct, bounded, free⟩
      have first := resolveStruct_of_scoped note order index rests finished fields nonempty
        distinct bounded free
      rcases ih (List.forall_mem_cons.mp written).2 first.rests
        (finished.push (fields.sized finished nonempty bounded)) restOk with ⟨_, behind, rest⟩
      exact ⟨_, behind, .cons fields nonempty distinct bounded free rest⟩

end Structures

/-! ## Signatures -/

section Signatures

variable {table : Table} {env : Env} {nodes nodes' : List Node} {types : List Ty} {source : Int64}

theorem resolveParams_of_scoped (shows : Shows table.scopes env) (finished : env.Finished)
    (judged : ScopedParams env nodes nodes' types) :
    resolveParams table nodes = (nodes', types, []) := by
  induction judged with
  | nil => rfl
  | cons denotes _ ih =>
    rw [resolveParams, ih, resolveType_of_denotes none shows finished denotes]
    rfl

theorem scoped_of_resolveParams {source env} (shows : Shows table.scopes env) :
    forall {nodes}, (forall node, node ∈ nodes -> Written.Plain source node) ->
    (resolveParams table nodes).2.2 = [] ->
    exists nodes' types, ScopedParams env nodes nodes' types
  | [], _, _ => ⟨[], [], .nil⟩
  | node :: nodes, written, clean => by
    have writtenLater := (List.forall_mem_cons.mp written).2
    rcases written node List.mem_cons_self with ⟨_, _, declared⟩
    rw [resolveParams] at clean
    dsimp only at clean
    split at clean
    · rename_i type typed
      rcases scoped_of_resolveParams shows writtenLater clean with ⟨_, types, rest⟩
      exact ⟨_, type :: types, .cons (denotes_of_resolveType shows declared typed) rest⟩
    · cases clean

variable {structs layer : Layer} {name : String} {params : List Node} {declared : Ty} {index : Nat}

theorem declareFunction_of_scoped {params' result} (index : Nat) (note : Note) (body : Node)
    (previous : Option Signature) (entry : Option Nat) (rests : Rests table [layer, structs])
    (finished : Env.Finished [layer, structs])
    (judged : ScopedParams [layer, structs] params params' types)
    (denotes : Denotes [layer, structs] declared result) (free : layer.lookup name = none) :
    Settles (declareFunction table index (.funcDecl note name params declared body previous entry))
      (.funcDecl (typeNote note result) name params' declared body (some ⟨types, result⟩) entry)
      [layer ++ [(name, .function ⟨⟨types, result⟩, index⟩)], structs] := by
  rcases rests.insert
    { kind := .function, type := result, site := some { span := note.span },
      callee := some ⟨⟨types, result⟩, index⟩ }
    (.function ⟨⟨types, result⟩, index⟩) free ⟨rfl, rfl, rfl, rfl, rfl⟩
      with ⟨inserted, added, rested⟩
  rw [declareFunction, resolveParams_of_scoped rests.shows finished judged,
    resolveType_of_denotes none rests.shows finished denotes]
  dsimp only
  rw [added]
  exact ⟨rfl, rfl, rested⟩

theorem scoped_of_declareFunction {note body previous entry}
    (written : forall param, param ∈ params -> Written.Plain source param)
    (writtenResult : Written.Declared declared) (rests : Rests table [layer, structs])
    (ok : (declareFunction table index
      (.funcDecl note name params declared body previous entry)).ok = true) :
    exists params' types result, ScopedParams [layer, structs] params params' types
      ∧ Denotes [layer, structs] declared result ∧ layer.lookup name = none := by
  rw [declareFunction] at ok
  dsimp only at ok
  split at ok
  · rename_i entity inserted added
    rcases List.append_eq_nil_iff.mp (List.isEmpty_iff.mp ok) with ⟨paramsClean, resultClean⟩
    rcases scoped_of_resolveParams rests.shows written paramsClean with ⟨params', types, judged⟩
    split at resultClean
    · rename_i result typed
      exact ⟨params', types, result, judged,
        denotes_of_resolveType rests.shows writtenResult typed, rests.free added⟩
    · cases resultClean
  · cases ok

theorem declareFunctions_of_scoped {behind}
    (judged : ScopedSignatures structs layer index nodes nodes' behind)
    (rests : Rests table [layer, structs]) (finished : Env.Finished [layer, structs]) :
    Settles (declareFunctions table index nodes) nodes' [behind, structs] := by
  induction judged generalizing table with
  | nil => exact ⟨rfl, rfl, rests⟩
  | @cons _ _ index note _ _ _ _ _ _ body previous entry _ _ params result free _
    ih =>
    have first := declareFunction_of_scoped index note body previous entry rests finished params
      result free
    have rest := ih first.rests
      (finished.push ⟨params.sized finished, result.sized finished⟩)
    rw [declareFunctions]
    exact ⟨by rw [first.ok, rest.ok]; rfl, by rw [first.part, rest.part], rest.rests⟩

theorem scoped_of_declareFunctions
    (written : forall node, node ∈ nodes -> Written.Function source node)
    (rests : Rests table [layer, structs]) (finished : Env.Finished [layer, structs])
    (ok : (declareFunctions table index nodes).ok = true) :
    exists nodes' behind, ScopedSignatures structs layer index nodes nodes' behind
      ∧ Settles (declareFunctions table index nodes) nodes' [behind, structs] := by
  suffices found : exists nodes' behind,
      ScopedSignatures structs layer index nodes nodes' behind by
    rcases found with ⟨nodes', behind, judged⟩
    exact ⟨nodes', behind, judged, declareFunctions_of_scoped judged rests finished⟩
  induction nodes generalizing table layer index with
  | nil => exact ⟨[], layer, .nil⟩
  | cons node nodes ih =>
    rw [declareFunctions] at ok
    rcases Bool.and_eq_true_iff.mp ok with ⟨firstOk, restOk⟩
    cases written node List.mem_cons_self with
    | @funcDecl note bodyNote _ _ stmts _ _ params result _ _ =>
      rcases scoped_of_declareFunction params result rests firstOk
          with ⟨_, _, _, params, result, free⟩
      have first := declareFunction_of_scoped index note (.block bodyNote stmts) none none rests
        finished params result free
      rcases ih (List.forall_mem_cons.mp written).2 first.rests
        (finished.push ⟨params.sized finished, result.sized finished⟩) restOk
          with ⟨_, behind, rest⟩
      exact ⟨_, behind, .cons params result free rest⟩

end Signatures

/-! ## Functions -/

/-- A parameter with a finished type. -/
inductive TypedParam : Node -> Prop
  | varDecl {note name declared} :
    Sized note.type -> TypedParam (.varDecl note name declared .absent)

/-- A whole function with its signature. -/
inductive Signed (source : Int64) : Node -> Prop
  | funcDecl {note bodyNote name params stmts declared signature entry} :
    (forall param, param ∈ params -> TypedParam param) -> Written.Stmts source stmts ->
    Signed source
      (.funcDecl note name params declared (.block bodyNote stmts) (some signature) entry)

section Signed

variable {source : Int64} {env : Env} {nodes nodes' : List Node} {types : List Ty} {index : Nat}

theorem typedParam_of_scoped (judged : ScopedParams env nodes nodes' types)
    (finished : env.Finished) (written : forall node, node ∈ nodes -> Written.Plain source node) :
    forall node, node ∈ nodes' -> TypedParam node := by
  induction judged with
  | nil => exact List.forall_mem_nil _
  | cons denotes _ ih =>
    rcases List.forall_mem_cons.mp written with ⟨⟨_, _, _⟩, writtenLater⟩
    exact List.forall_mem_cons.mpr ⟨.varDecl (denotes.sized finished), ih writtenLater⟩

theorem signed_of_scoped {structs layer behind}
    (judged : ScopedSignatures structs layer index nodes nodes' behind)
    (finished : Env.Finished [layer, structs])
    (written : forall node, node ∈ nodes -> Written.Function source node) :
    forall node, node ∈ nodes' -> Signed source node := by
  induction judged with
  | nil => exact List.forall_mem_nil _
  | cons params result _ _ ih =>
    rcases List.forall_mem_cons.mp written with ⟨⟨_, plain, _, _, stmts⟩, writtenLater⟩
    exact List.forall_mem_cons.mpr ⟨.funcDecl (typedParam_of_scoped params finished plain) stmts,
      ih (finished.push ⟨params.sized finished, result.sized finished⟩) writtenLater⟩

end Signed

section Formals

variable {context behind : Context} {nodes nodes' : List Node}

theorem formals_grows (judged : ScopedFormals context nodes nodes' behind)
    (typed : forall node, node ∈ nodes -> TypedParam node) : Grows context behind := by
  induction judged with
  | nil => exact .refl
  | cons _ _ ih =>
    rcases typed _ List.mem_cons_self with ⟨sized⟩
    exact .trans (.declare fun _ => sized) (ih (List.forall_mem_cons.mp typed).2)

theorem formals_used_le (judged : ScopedFormals context nodes nodes' behind)
    (typed : forall node, node ∈ nodes -> TypedParam node) : context.used <= behind.used := by
  induction judged with
  | nil => exact Int.le_refl _
  | cons _ _ ih =>
    rcases typed _ List.mem_cons_self with ⟨sized⟩
    exact Int.le_trans (Context.used_le_declare sized)
      (ih (List.forall_mem_cons.mp typed).2)

theorem bindParams_of_scoped {table} (owner : String)
    (judged : ScopedFormals context nodes nodes' behind)
    (typed : forall node, node ∈ nodes -> TypedParam node) (mirrors : Mirrors table context)
    (bounded : behind.used <= Ty.cellLimit) :
    Follows table (bindParams table owner nodes) nodes' behind := by
  induction judged generalizing table with
  | nil => exact ⟨rfl, rfl, mirrors, rfl⟩
  | @cons _ _ note _ _ _ _ _ free judged ih =>
    have typedLater := (List.forall_mem_cons.mp typed).2
    rcases typed _ List.mem_cons_self with ⟨sized⟩
    rcases mirrors.insertVariable sized free note.type.isComposite
        (some { span := note.span, belowFunction := true })
        with ⟨entity, inserted, added, place, owned, fits, mirrored⟩
    have inFrame := Int.le_trans (formals_used_le judged typedLater) bounded
    have rest := ih typedLater (mirrored inFrame) bounded
    rw [bindParams]
    simp only [sized.known, added, Bool.not_true, Bool.false_eq_true, if_false]
    exact {
      ok := by rw [fits.mpr inFrame, rest.ok]; rfl
      part := by rw [place, rest.part]; rfl
      mirrors := rest.mirrors
      owned := rest.owned.trans owned }

theorem scoped_of_bindParams {table owner} (typed : forall node, node ∈ nodes -> TypedParam node)
    (mirrors : Mirrors table context) (ok : (bindParams table owner nodes).ok = true) :
    exists nodes' behind, ScopedFormals context nodes nodes' behind
      ∧ behind.used <= Ty.cellLimit := by
  induction nodes generalizing table context with
  | nil => exact ⟨[], context, .nil, mirrors.high⟩
  | cons node nodes ih =>
    have typedLater := (List.forall_mem_cons.mp typed).2
    cases typed node List.mem_cons_self with
    | @varDecl note name declared sized =>
      rw [bindParams] at ok
      simp only [sized.known, Bool.not_true, Bool.false_eq_true, if_false] at ok
      cases bound : context.inner.lookup name with
      | some binding =>
        rcases mirrors.insertVariable_of_bound bound note.type
          note.type.isComposite (some { span := note.span, belowFunction := true })
            with ⟨existing, taken⟩
        rw [taken] at ok
        cases ok
      | none =>
        rcases mirrors.insertVariable sized bound note.type.isComposite
            (some { span := note.span, belowFunction := true })
            with ⟨entity, inserted, added, _, _, fits, mirrored⟩
        rw [added] at ok
        rcases Bool.and_eq_true_iff.mp ok with ⟨inFrame, restOk⟩
        rcases ih typedLater (mirrored (fits.mp inFrame)) restOk
            with ⟨_, behind, rest, bounded⟩
        exact ⟨_, behind, .cons bound rest, bounded⟩

end Formals

section Frames

variable {env : Env}

theorem resolveFunctionBody_of_scoped {table context behind stmts stmts'} (config : Config)
    (owner : String) (span : Span) (bodyNote : Note) (mirrors : Mirrors table context)
    (finished : context.env.Finished) (judged : ScopedStmts context.enter stmts stmts' behind)
    (bounded : behind.used <= Ty.cellLimit) :
    Follows table (resolveFunctionBody config table owner span (.block bodyNote stmts))
      (.block bodyNote stmts') (context.resume behind) := by
  have inner := resolveStmts_of_scoped config judged mirrors.openBlock
    (Context.enter_finished finished) bounded
  rcases inner.mirrors.leave inner.owned judged.grows.outer_eq config with ⟨left, owned⟩
  exact ⟨inner.ok, congrArg (Node.block bodyNote) inner.part, left, owned⟩

variable {source : Int64} {config : Config}

theorem resolveFunction_of_scoped (config : Config) (finished : env.Finished) (table : Table)
    (node node' : Node) (signed : Signed source node) (rests : Rests table env)
    (judged : ScopedFunction env node node') :
    Settles (resolveFunction config table node) node' env := by
  cases judged with
  | @funcDecl context behind note bodyNote name _ _ _ _ _ _ _ formals stmts bounded =>
    rcases signed with ⟨typed, _⟩
    have finishedInside := (formals_grows formals typed).finished (Context.start_finished finished)
    have boundedInside : context.used <= Ty.cellLimit :=
      Int.le_trans (stmts.grows.used_le (Context.enter_finished finishedInside)) bounded
    have params := bindParams_of_scoped name formals typed rests.openFrame boundedInside
    have body := resolveFunctionBody_of_scoped config name note.span bodyNote params.mirrors
      finishedInside stmts bounded
    rw [resolveFunction]
    exact {
      ok := by rw [params.ok, body.ok]; rfl
      part := by rw [params.part, body.part, body.mirrors.frameSize]; rfl
      rests := rests.leave body.mirrors (body.owned.trans params.owned)
        (formals_grows formals typed).outer_eq config }

theorem scoped_of_resolveFunction (finished : env.Finished) (table : Table) (node : Node)
    (signed : Signed source node) (rests : Rests table env)
    (ok : (resolveFunction config table node).ok = true) :
    exists node', ScopedFunction env node node' := by
  cases signed with
  | @funcDecl note bodyNote name params stmts declared signature entry typed written =>
    rw [resolveFunction] at ok
    rcases Bool.and_eq_true_iff.mp ok with ⟨paramsOk, bodyOk⟩
    rcases scoped_of_bindParams typed rests.openFrame paramsOk
        with ⟨_, context, formals, boundedInside⟩
    have bound := bindParams_of_scoped name formals typed rests.openFrame boundedInside
    have finishedInside := (formals_grows formals typed).finished (Context.start_finished finished)
    rcases scoped_of_resolveStmts written bound.mirrors.openBlock
      (Context.enter_finished finishedInside) bodyOk with ⟨_, behind, stmts, bounded⟩
    exact ⟨_, .funcDecl formals stmts bounded⟩

theorem resolveTopBlock_of_scoped (config : Config) (finished : env.Finished) (table : Table)
    (node node' : Node) (_ : Written.Top source node) (rests : Rests table env)
    (judged : ScopedTop env node node') :
    Settles (resolveTopBlock config table node) node' env := by
  cases judged with
  | block stmts bounded =>
    have inner := resolveStmts_of_scoped config stmts rests.openFrame
      (Context.start_finished finished) bounded
    rw [resolveTopBlock, resolveBody]
    exact {
      ok := inner.ok
      part := by rw [inner.mirrors.frameSize, inner.part]; rfl
      rests := rests.leave inner.mirrors inner.owned stmts.grows.outer_eq config }

theorem scoped_of_resolveTopBlock (finished : env.Finished) (table : Table) (node : Node)
    (written : Written.Top source node) (rests : Rests table env)
    (ok : (resolveTopBlock config table node).ok = true) :
    exists node', ScopedTop env node node' := by
  cases written with
  | block _ written =>
    rw [resolveTopBlock, resolveBody] at ok
    rcases scoped_of_resolveStmts written rests.openFrame
      (Context.start_finished finished) ok with ⟨_, behind, stmts, bounded⟩
    exact ⟨_, .block stmts bounded⟩

end Frames

/-! ## Lists of parts -/

section Parts

variable {resolve : Table -> Node -> Outcome Node} {Part : Node -> Prop}
  {Judged : Node -> Node -> Prop} {env : Env} {table : Table} {nodes nodes' : List Node}
  (each : forall table node node', Part node -> Rests table env -> Judged node node' ->
    Settles (resolve table node) node' env)
  (parts : forall node, node ∈ nodes -> Part node) (rests : Rests table env)

include each parts rests

theorem resolveEach_of_judged (judged : List.Forall₂ Judged nodes nodes') :
    Settles (resolveEach resolve table nodes) nodes' env := by
  induction judged generalizing table with
  | nil => exact ⟨rfl, rfl, rests⟩
  | cons here _ ih =>
    have first := each _ _ _ (parts _ List.mem_cons_self) rests here
    have rest := ih (List.forall_mem_cons.mp parts).2 first.rests
    rw [resolveEach]
    exact ⟨by rw [first.ok, rest.ok]; rfl, by rw [first.part, rest.part], rest.rests⟩

theorem judged_of_resolveEach
    (back : forall table node, Part node -> Rests table env -> (resolve table node).ok = true ->
      exists node', Judged node node')
    (ok : (resolveEach resolve table nodes).ok = true) :
    exists nodes', List.Forall₂ Judged nodes nodes'
      ∧ Settles (resolveEach resolve table nodes) nodes' env := by
  suffices found : exists nodes', List.Forall₂ Judged nodes nodes' by
    rcases found with ⟨nodes', judged⟩
    exact ⟨nodes', judged, resolveEach_of_judged each parts rests judged⟩
  induction nodes generalizing table with
  | nil => exact ⟨[], .nil⟩
  | cons node nodes ih =>
    rw [resolveEach] at ok
    rcases Bool.and_eq_true_iff.mp ok with ⟨firstOk, restOk⟩
    have part := parts node List.mem_cons_self
    rcases back _ _ part rests firstOk with ⟨node', here⟩
    rcases ih (List.forall_mem_cons.mp parts).2
      (each _ _ _ part rests here).rests restOk with ⟨nodes', rest⟩
    exact ⟨node' :: nodes', .cons here rest⟩

end Parts

/-! ## Whole programs -/

section Whole

variable {source : Int64} {program : Program} {config : Config}

private theorem structs_rest : Rests Table.empty.openBlock [[]] := Rests.empty.openBlock

private theorem empty_finished : Env.Finished [[]] :=
  Env.All.nil.enter

theorem signatures_finished {structs structs' layer}
    (judged : ScopedStructs [] structs structs' layer) : Env.Finished [[], layer] :=
  (judged.finished empty_finished).enter

theorem run_of_scoped (config : Config) (whole : Written.Whole source program) {resolved}
    (judged : ScopedProgram program resolved) :
    exists diagnostics, run config program = (resolved, ⟨true, diagnostics⟩) := by
  cases judged with
  | @intro structs declared functions blocks structLayer functionLayer judgedStructs signatures
    judgedFunctions nonempty judgedBlocks =>
    have first := resolveStructs_of_scoped (program.structs.map structName) 0 judgedStructs
      structs_rest empty_finished
    have finishedStructs := signatures_finished judgedStructs
    have second := declareFunctions_of_scoped signatures first.rests.openBlock finishedStructs
    have finished := signatures.finished finishedStructs
    have third := resolveEach_of_judged (resolveFunction_of_scoped config finished)
      (signed_of_scoped signatures finishedStructs whole.functions) second.rests judgedFunctions
    have fourth := resolveEach_of_judged (resolveTopBlock_of_scoped config finished) whole.blocks
      third.rests judgedBlocks
    have present : program.blocks.isEmpty = false := List.isEmpty_eq_false_iff.mpr nonempty
    simp only [run, first.ok, first.part, second.ok, second.part, third.ok, third.part, fourth.ok,
      fourth.part, present, Bool.not_false, Bool.and_self, if_true]
    exact ⟨_, rfl⟩

theorem scoped_of_run (whole : Written.Whole source program)
    (ok : (run config program).2.ok = true) : exists resolved, ScopedProgram program resolved := by
  rw [run] at ok
  rcases Bool.and_eq_true_iff.mp ok with ⟨ok, blocksOk⟩
  rcases Bool.and_eq_true_iff.mp ok with ⟨ok, present⟩
  rcases Bool.and_eq_true_iff.mp ok with ⟨ok, functionsOk⟩
  rcases Bool.and_eq_true_iff.mp ok with ⟨structsOk, declaredOk⟩
  rcases scoped_of_resolveStructs whole.structs structs_rest
    empty_finished structsOk with ⟨_, structLayer, structs, first⟩
  have finishedStructs := signatures_finished structs
  rcases scoped_of_declareFunctions whole.functions
    first.rests.openBlock finishedStructs declaredOk with ⟨_, functionLayer, signatures, second⟩
  have finished := signatures.finished finishedStructs
  have signed := signed_of_scoped signatures finishedStructs whole.functions
  rw [second.part] at functionsOk blocksOk
  rcases judged_of_resolveEach (resolveFunction_of_scoped config finished) signed second.rests
      (scoped_of_resolveFunction finished) functionsOk with ⟨functions, judgedFunctions, third⟩
  rcases judged_of_resolveEach (resolveTopBlock_of_scoped config finished) whole.blocks
      third.rests (scoped_of_resolveTopBlock finished) blocksOk with ⟨blocks, judgedBlocks, _⟩
  have nonempty : program.blocks ≠ [] := by
    intro empty
    rw [empty] at present
    cases present
  exact ⟨_, .intro structs signatures judgedFunctions nonempty judgedBlocks⟩

theorem isComplete_of_whole (whole : Written.Whole source program) : isComplete program = true := by
  have plain {node : Node} (written : Written.Plain source node) : isVarDecl node = true := by
    cases written
    rfl
  have structs : program.structs.all isStruct = true := by
    refine List.all_eq_true.mpr ?_
    intro node member
    rcases whole.structs node member with ⟨_, fields⟩
    exact List.all_eq_true.mpr fun field member => plain (fields field member)
  have functions : program.functions.all isFunction = true := by
    refine List.all_eq_true.mpr ?_
    intro node member
    rcases whole.functions node member with ⟨_, params, _, _, _⟩
    exact Bool.and_eq_true_iff.mpr
      ⟨List.all_eq_true.mpr fun param member => plain (params param member), rfl⟩
  have blocks : program.blocks.all isTopBlock = true := by
    refine List.all_eq_true.mpr ?_
    intro node member
    cases whole.blocks node member
    rfl
  rw [isComplete, structs, functions, blocks]
  rfl

/-- Resolving a whole program always gives a judgement. -/
theorem resolve_of_whole (config : Config) (whole : Written.Whole source program) :
    program.resolve config = ((run config program).1, .ok (run config program).2) := by
  rw [Program.resolve, if_pos (isComplete_of_whole whole)]

theorem resolve_iff_scoped (config : Config) (whole : Written.Whole source program)
    (resolved : Program) :
    (exists diagnostics, program.resolve config = (resolved, .ok ⟨true, diagnostics⟩))
      <-> ScopedProgram program resolved := by
  rw [resolve_of_whole config whole]
  constructor
  · rintro ⟨diagnostics, accepted⟩
    rcases Prod.mk.inj accepted with ⟨same, judgement⟩
    have ok : (run config program).2.ok = true := by rw [Except.ok.inj judgement]
    rcases scoped_of_run whole ok with ⟨other, judged⟩
    rcases run_of_scoped config whole judged with ⟨_, again⟩
    rw [again] at same
    exact same ▸ judged
  · intro judged
    rcases run_of_scoped config whole judged with ⟨diagnostics, accepted⟩
    exact ⟨diagnostics, by rw [accepted]⟩

/-- A program has one well-scoped form. -/
theorem scoped_unique (whole : Written.Whole source program) {left right}
    (first : ScopedProgram program left) (second : ScopedProgram program right) : left = right := by
  rcases run_of_scoped {} whole first with ⟨_, once⟩
  rcases run_of_scoped {} whole second with ⟨_, again⟩
  exact (Prod.mk.inj (once.symm.trans again)).1

end Whole

/-- Resolution accepts exactly the well-scoped programs, and the notes that it
leaves are those of the scoping judgement. -/
theorem resolve_accepts_wellScoped {bytes : List UInt8} {source : Int64} {program : Program}
    (decoded : Program.decode bytes source = .ok program) (config : Config) :
    (exists judgement, (program.resolve config).2 = .ok judgement)
      ∧ forall resolved,
          (exists diagnostics, program.resolve config = (resolved, .ok ⟨true, diagnostics⟩))
            <-> ScopedProgram program resolved := by
  have whole := Written.whole_of_decode decoded
  exact ⟨⟨_, congrArg Prod.snd (resolve_of_whole config whole)⟩, resolve_iff_scoped config whole⟩

/-- The small document resolves. -/
theorem resolve_sample : exists diagnostics,
    Written.sample.resolve {} = ((Written.sample.resolve {}).1, .ok ⟨true, diagnostics⟩) :=
  Results.accepted_of_ok (by decide +kernel)

/-- The document with an array of structures resolves. -/
theorem resolve_grid : exists diagnostics,
    Written.grid.resolve {} = ((Written.grid.resolve {}).1, .ok ⟨true, diagnostics⟩) :=
  Results.accepted_of_ok (by decide +kernel)

/-- The program of the small document is well scoped. -/
theorem resolve_accepts_wellScoped_sample :
    Program.decode Written.sampleText 0 = .ok Written.sample
      ∧ ScopedProgram Written.sample (Written.sample.resolve {}).1 := by
  rcases resolve_accepts_wellScoped Written.decode_sampleText {} with ⟨_, exactly⟩
  exact ⟨Written.decode_sampleText, (exactly _).mp resolve_sample⟩

end Resolution
end PCode
