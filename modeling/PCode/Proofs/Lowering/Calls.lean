import PCode.Proofs.Lowering.Depth
import PCode.Proofs.Lowering.Programs

namespace PCode
namespace Lowering

open Static
open Stack (depthAt netEffect)
open Resolution (Signed TypedParam)

/-!
Callers and callees.

The caller counts cells of the expression stack, the callee counts cells of its frame, and
neither looks at the other.  They meet in the cells of a call: the mark stands where the
header of the frame will be, and each argument stands where its parameter is read.  The
form of an argument comes from the signature that the caller sees, and the form of a
parameter from the declaration.
-/

/-! ## Declarations that callers reach -/

/-- Parameters with their types, from a position on: each has the cell of its position
behind the header, and composite ones are passed by reference. -/
inductive Formals : Nat -> List Ty -> List Node -> Prop
  | nil {index} : Formals index [] []
  | cons {index : Nat} {type types} {param : Node} {params} :
    param.note.address.offset.toInt = 5 + index ->
    param.note.address.byRef = type.isComposite -> Formals (index + 1) types params ->
    Formals index (type :: types) (param :: params)

/-- A function of the list, under the name and with the parameters that callers see. -/
def Declares (functions : List Node) (name : String) (callee : Callee) : Prop :=
  exists note params result body signature entry,
    functions[callee.function]? = some (.funcDecl note name params result body signature entry)
      ∧ Formals 0 callee.signature.params params

variable {type result : Ty} {types : List Ty} {declared args : List Node} {callee : Callee}
  {source : Int64} {node body : Node} {signature : Option Signature} {entry : Option Nat}
  {judgement : Judgement}

/-- A parameter takes one cell. -/
theorem cellsOf_param (sized : Sized type) :
    Context.cellsOf type type.isComposite = 1 := by
  rw [Context.cellsOf]
  split
  · rfl
  · rename_i scalar
    exact sized.cells_eq_one (Bool.eq_false_iff.mpr scalar)

variable {nodes nodes' : List Node} {index : Nat} {env : Env} {name : String} {config : Config}
  {note : Note}

theorem formals_of_scoped {context behind} (judged : ScopedFormals context nodes nodes' behind)
    (typed : forall node, node ∈ nodes -> TypedParam node) (used : context.used = 5 + index)
    (bounded : behind.used <= Ty.cellLimit) : Formals index (nodes.map Node.type) nodes' := by
  induction judged generalizing index with
  | nil => exact .nil
  | @cons context behind note name _ _ _ _ _ rest ih =>
    have typedLater := (List.forall_mem_cons.mp typed).2
    rcases typed _ List.mem_cons_self with ⟨sized⟩
    have grows := Resolution.formals_used_le rest typedLater
    have next : (context.declare name note.type note.type.isComposite).used
        = 5 + (index + 1 : Nat) := by
      simp only [Context.declare, cellsOf_param sized, used]
      omega
    refine .cons ?_ rfl (ih typedLater next bounded)
    have exactOffset : (Int64.ofInt context.used).toInt = context.used :=
      Ty.toInt_ofInt_cells (by omega) (by omega)
    exact exactOffset.trans used

/-- A node that declares a function under a name with the signature that callers see. -/
inductive SignedAs (name : String) (callee : Callee) : Node -> Prop
  | funcDecl {note : Note} {params declared body entry} :
    params.map Node.type = callee.signature.params ->
    SignedAs name callee (.funcDecl note name params declared body (some callee.signature) entry)

theorem types_of_params (judged : ScopedParams env nodes nodes' types) :
    nodes'.map Node.type = types := by
  induction judged with
  | nil => rfl
  | cons _ _ ih => rw [List.map_cons, ih]; rfl

/-- The functions that signatures bind are those at their positions. -/
theorem signedAs_of_scoped {structs layer behind}
    (judged : ScopedSignatures structs layer index nodes declared behind)
    (found : behind.lookup name = some (.function callee)) :
    layer.lookup name = some (.function callee)
      ∨ exists position node, callee.function = index + position
          ∧ declared[position]? = some node ∧ SignedAs name callee node := by
  induction judged with
  | nil => exact .inl found
  | @cons layer _ index _ other _ _ _ _ _ _ _ _ _ _ params _ _ _ ih =>
    rcases ih found with earlier | ⟨position, node, number, isNode, signedAs⟩
    · rw [lookup_snoc] at earlier
      cases known : layer.lookup name with
      | some _ =>
        rw [known, Option.some_or] at earlier
        exact .inl earlier
      | none =>
        rw [known, Option.none_or] at earlier
        split at earlier
        · rename_i same
          cases same
          cases earlier
          exact .inr ⟨0, _, rfl, rfl, .funcDecl (types_of_params params)⟩
        · cases earlier
    · exact .inr ⟨position + 1, node, by omega, isNode, signedAs⟩

/-- Structures bind nothing that can be called. -/
theorem no_function_structs {layer} (judged : ScopedStructs [] nodes nodes' layer) :
    Env.All (fun binding => forall callee, binding ≠ .function callee) [layer] :=
  judged.keeps (fun _ _ => nofun) (.enter .nil)

/-- Whatever an environment binds to a function is declared in the list. -/
def Calls (functions : List Node) (env : Env) : Prop :=
  forall name out callee, Binds env name out (.function callee) -> Declares functions name callee

theorem stable_calls (functions : List Node) :
    Stable (fun env => Ready functions.length env ∧ Calls functions env) where
  finished good := good.1.1
  enter good := by
    refine ⟨(stable_ready _).enter good.1, ?_⟩
    intro name out callee binds
    rcases binds.of_enter with ⟨further, outside⟩
    exact good.2 name further callee outside
  declare good sized := by
    refine ⟨(stable_ready _).declare good.1 sized, ?_⟩
    intro name out callee binds
    rcases binds.of_declare with ⟨_, impossible⟩ | before
    · cases impossible
    · exact good.2 name out callee before

/-- A well-typed function has its parameters where callers expect them. -/
theorem formals_of_typed {node'} (finished : env.Finished) (signed : Signed source node)
    (signedAs : SignedAs name callee node) (typed : TypedFunction env node node') :
    exists note params result body signature entry,
      node' = .funcDecl note name params result body signature entry
        ∧ Formals 0 callee.signature.params params := by
  cases typed with
  | @funcDecl formals behind _ _ _ _ _ _ _ _ signature _ params _ stmts bounded =>
    rcases signed with ⟨typedParams, _⟩
    rcases signedAs with ⟨types⟩
    have finishedInside :=
      (Resolution.formals_grows params typedParams).finished (Context.start_finished finished)
    have grows : formals.used <= behind.used :=
      stmts.grows.used_le (Context.enter_finished finishedInside)
    refine ⟨_, _, _, _, _, _, rfl, ?_⟩
    rw [← types]
    exact formals_of_scoped params typedParams rfl (Int.le_trans grows bounded)

theorem calls_of_typed {structNodes structs functions structLayer functionLayer}
    (judged : ScopedStructs [] structNodes structs structLayer)
    (signatures : ScopedSignatures structLayer [] 0 nodes declared functionLayer)
    (signed : forall node, node ∈ declared -> Signed source node) (finished : env.Finished)
    (typed : List.Forall₂ (TypedFunction env) declared functions) :
    Calls functions [functionLayer, structLayer] := by
  intro name out callee binds
  have noFunction := no_function_structs judged
  cases binds with
  | outward _ rest => exact absurd rfl (rest.holds noFunction callee)
  | here found =>
    rcases signedAs_of_scoped signatures found
        with impossible | ⟨position, node, number, isNode, signedAs⟩
    · cases impossible
    · rw [Nat.zero_add] at number
      rcases List.getElem?_eq_some_iff.mp isNode with ⟨inside, equal⟩
      have insideFunctions : position < functions.length := typed.length_eq ▸ inside
      have here := typed.get inside insideFunctions
      rw [List.get_eq_getElem, equal] at here
      rcases formals_of_typed finished (signed node (List.mem_of_getElem? isNode)) signedAs here
          with ⟨note, params, result, body, signature, entry, equalFunction, formals⟩
      refine ⟨note, params, result, body, signature, entry, ?_, formals⟩
      rw [number, List.getElem?_eq_some_iff]
      exact ⟨insideFunctions, equalFunction⟩

/-! ## The code of a call -/

/-- The instructions of a call around those of its arguments. -/
def callInstructions (delta : Nat) (name : String) (callee : Callee) (codes : List Code) :
    List Instruction :=
  ⟨.mst, [.int delta]⟩ :: Code.instructions codes.flatten
    ++ [⟨.cup, [.int codes.length, .entry name (some callee.function)]⟩]

/-- Depths in the code of a call that starts at an address: each argument starts behind
the mark and the arguments before it, which leave one cell each, and one cell is left
behind the call. -/
structure Balanced (full : List Instruction) (start : Nat) (codes : List Code) : Prop where
  argument : forall index, index <= codes.length ->
    depthAt full (start + 1 + Code.size (codes.take index).flatten)
      = depthAt full start + 5 + index
  result : depthAt full (start + 1 + Code.size codes.flatten + 1) = depthAt full start + 1

/-- An argument and its parameter agree: the parameter is read from the cell of the
argument, and it is read in the form in which the argument is passed. -/
structure Passed (config : Config) (index : Nat) (param arg : Node) (code : Code) : Prop where
  offset : param.note.address.offset.toInt = 5 + index
  byAddress : param.note.address.byRef = true <-> lowerExpr config .address arg = .ok code
  byValue : param.note.address.byRef = false <-> lowerExpr config .value arg = .ok code

section Code

variable {config : Config}

variable {code : Code}

theorem netEffect_lowers {form} (lowers : Lowers config form node code) :
    netEffect code.instructions = 1 := by
  have pushes := lowers.pushes
  have total := (pushes (fun _ => True) 0 (Int.le_refl 0)).last_eq
  rw [Int.zero_add, Int.zero_add] at total
  exact total.symm

/-- Each argument leaves one cell. -/
theorem netEffect_take {params args codes index} :
    LowersArgs config params args codes -> index <= codes.length ->
    netEffect (Code.instructions (codes.take index).flatten) = index
  | .nil, inside => by
    cases Nat.le_zero.mp inside
    rfl
  | .cons first rest, inside => by
    cases index with
    | zero => rfl
    | succ index =>
      rw [List.take_succ_cons, List.flatten_cons, Code.instructions_append,
        Stack.netEffect_append, netEffect_lowers first,
        netEffect_take rest (Nat.le_of_succ_le_succ inside)]
      omega

theorem balanced_of_lowers {params codes delta name} (lowers : LowersArgs config params args codes)
    (before after : List Instruction) :
    Balanced (before ++ callInstructions delta name callee codes ++ after) before.length codes := by
  have split : forall index : Nat, Code.instructions codes.flatten
      = Code.instructions (codes.take index).flatten
        ++ Code.instructions (codes.drop index).flatten := by
    intro index
    rw [← Code.instructions_append, ← List.flatten_append, List.take_append_drop]
  have start : depthAt (before ++ callInstructions delta name callee codes ++ after) before.length
      = netEffect before := by
    rw [List.append_assoc, Stack.depthAt_append_left before _ (Nat.le_refl _), Stack.depthAt_length]
  constructor
  · intro index inside
    rw [start, List.append_assoc, Nat.add_assoc, Stack.depthAt_append, callInstructions,
      split index, Int.add_assoc]
    congr 1
    have length : 1 + Code.size (codes.take index).flatten
        = (⟨.mst, [.int delta]⟩ :: Code.instructions (codes.take index).flatten).length := by
      rw [List.length_cons, Nat.add_comm]
      rfl
    rw [length, ← List.cons_append, List.append_assoc, List.append_assoc,
      Stack.depthAt_append_left _ _ (Nat.le_refl _), Stack.depthAt_length, Stack.netEffect_cons,
      netEffect_take lowers inside]
    rfl
  · rw [start, List.append_assoc, Nat.add_assoc, Nat.add_assoc, Stack.depthAt_append]
    congr 1
    have length : 1 + (Code.size codes.flatten + 1)
        = (callInstructions delta name callee codes).length := by
      rw [callInstructions, List.length_append, List.length_cons, Code.size]
      simp only [List.length_cons, List.length_nil]
      omega
    have total := netEffect_take lowers (Nat.le_refl codes.length)
    rw [List.take_length] at total
    rw [length, Stack.depthAt_append_left _ _ (Nat.le_refl _), Stack.depthAt_length,
      callInstructions, Stack.netEffect_append, Stack.netEffect_cons, total]
    simp only [Stack.netEffect_cons, Stack.netEffect_nil, Instruction.effect, Opcode.effect,
      Opcode.markSize]
    omega

/-- The code of an address is not the code of a value. -/
theorem value_ne_address (address : lowerExpr config .address node = .ok code) :
    lowerExpr config .value node ≠ .ok code := by
  intro value
  cases lowers_of_lowerExpr value with
  | load _ place =>
    rw [lowerExpr_of_lowers place] at address
    have lengths := congrArg List.length (Except.ok.inj address)
    rw [List.length_append] at lengths
    exact absurd lengths (by simp [Code.emit])
  | _ =>
    rw [lowerExpr] at address
    cases address

theorem passed_of_form {index : Nat} {param arg : Node}
    (offset : param.note.address.offset.toInt = 5 + index)
    (byRef : param.note.address.byRef = type.isComposite)
    (lowers : Lowers config (Form.ofParam type) arg code) : Passed config index param arg code := by
  have lowered := lowerExpr_of_lowers lowers
  rw [Form.ofParam] at lowered
  cases composite : type.isComposite with
  | true =>
    rw [composite] at byRef lowered
    refine ⟨offset, ⟨fun _ => lowered, fun _ => byRef⟩, ?_⟩
    constructor
    · intro notByRef
      rw [byRef] at notByRef
      cases notByRef
    · intro value
      exact absurd value (value_ne_address lowered)
  | false =>
    rw [composite] at byRef lowered
    refine ⟨offset, ?_, ⟨fun _ => lowered, fun _ => byRef⟩⟩
    constructor
    · intro isByRef
      rw [byRef] at isByRef
      cases isByRef
    · intro address
      exact absurd lowered (value_ne_address address)

/-- Arguments meet the parameters of a declaration one by one. -/
theorem passed_of_lowers {types args params codes first index param arg code} :
    LowersArgs config types args codes -> Formals first types params ->
    params[index]? = some param -> args[index]? = some arg -> codes[index]? = some code ->
    Passed config (first + index) param arg code
  | .cons here later, .cons offset byRef rest, isParam, isArg, isCode => by
    cases index with
    | zero =>
      cases isParam
      cases isArg
      cases isCode
      exact passed_of_form offset byRef here
    | succ index =>
      have passed := passed_of_lowers later rest isParam isArg isCode
      rw [Nat.add_assoc, Nat.add_comm 1 index] at passed
      exact passed

theorem Formals.length_eq {first params} (formals : Formals first types params) :
    params.length = types.length := by
  induction formals with
  | nil => rfl
  | cons _ _ _ ih => exact congrArg (· + 1) ih

theorem instructions_callCode (delta : Nat) (name : String) (callee : Callee) (codes : List Code) :
    (callCode delta name callee codes.length codes.flatten).instructions
      = callInstructions delta name callee codes := by
  simp only [callCode, callInstructions, Code.instructions_append, Code.instructions_comment,
    Code.instructions_emit, List.nil_append, List.append_nil]
  rfl

end Code

/-! ## Programs -/

/-- The check changes nothing in a function but its body. -/
theorem declaration_of_checkEach {verified params}
    (passed : Typing.checkEach (Typing.checkFunction config) nodes = .ok verified)
    (found : verified.part[index]? = some (.funcDecl note name params result body signature
      entry)) :
    exists before,
      nodes[index]? = some (.funcDecl note name params result before signature entry) := by
  induction nodes generalizing verified index with
  | nil =>
    cases passed
    cases found
  | cons node nodes ih =>
    rw [Typing.checkEach] at passed
    rcases Results.of_binds passed with ⟨first, firstPassed, rest, restPassed, ⟨⟩⟩
    cases index with
    | succ index => exact ih restPassed found
    | zero =>
      unfold Typing.checkFunction at firstPassed
      split at firstPassed
      · rcases Results.of_bind firstPassed with ⟨inner, _, ⟨⟩⟩
        cases found
        exact ⟨_, rfl⟩
      · cases firstPassed

theorem declaration_of_check {program resolved checked params}
    (judged : ScopedProgram program resolved)
    (passed : resolved.check config = (checked, .ok judgement))
    (found : checked.functions[index]? = some (.funcDecl note name params result body signature
      entry)) :
    exists before, resolved.functions[index]?
      = some (.funcDecl note name params result before signature entry) := by
  cases judged with
  | intro _ _ _ _ _ =>
    rw [Program.check, if_pos (show Phase.resolved.reaches .resolved = true by decide)] at passed
    split at passed
    · rename_i run
      cases passed
      rcases Results.of_binds run with ⟨functions, functionsPassed, _, _, ⟨⟩⟩
      exact declaration_of_checkEach functionsPassed found
    · cases passed

/-- A call and the function it reaches agree.  The call has the code of the calling
convention, in the code of the program and at the depths of the convention, it names the
entry of the function, and its arguments meet the parameters of the function. -/
structure CallAgrees (config : Config) (resolved placed : Program) (generated : Generated)
    (note : Note) (name : String) (args : List Node) (callee : Callee) (params : List Node)
    (codes : List Code) : Prop where
  declared : exists note result body signature entry,
    resolved.functions[callee.function]?
      = some (.funcDecl note name params result body signature entry)
  entry : exists note result body signature address,
    placed.functions[callee.function]?
        = some (.funcDecl note name params result body signature (some address))
      ∧ (Operand.entry name (some callee.function)).text generated.bindings
          = .ok (toString (Int64.ofNat address))
  lowered : exists code, lowerExpr config .value (.call note name args (some callee)) = .ok code
    ∧ code.instructions = callInstructions note.delta name callee codes
  stands : exists before after, generated.code.instructions
    = before ++ callInstructions note.delta name callee codes ++ after
  balanced : forall before after, generated.code.instructions
      = before ++ callInstructions note.delta name callee codes ++ after ->
    Balanced generated.code.instructions before.length codes
  counts : params.length = args.length ∧ codes.length = args.length
  passed : forall index param arg code, params[index]? = some param -> args[index]? = some arg ->
    codes[index]? = some code -> Passed config index param arg code

theorem callAgrees_of_emitted
    {program resolved checked placed checking generated functionCode blockCode}
    (arranged : Arranged config checked placed generated functionCode blockCode)
    (judged : ScopedProgram program resolved)
    (passed : resolved.check checking = (checked, .ok judgement)) {previous}
    (emitted : Emitted config (fun env => Ready checked.functions.length env
      ∧ Calls checked.functions env) (.call note name args previous) generated.code) :
    exists callee params codes, previous = some callee
      ∧ CallAgrees config resolved placed generated note name args callee params codes := by
  rcases emitted with ⟨good, typed, lowers, before, after, equal⟩
  cases lowers with
  | load _ place => cases place
  | @call _ _ _ callee codes lowersArgs =>
    rcases typed.call_inversion with ⟨_, _, _, _, _, binds, _⟩
    rcases good.2 _ _ _ binds
        with ⟨declNote, params, result, body, signature, entry, found, formals⟩
    rcases arranged.functions.placed_eq found with ⟨address, isPlaced⟩
    rcases declaration_of_check judged passed found with ⟨resolvedBody, isResolved⟩
    have count := lowersArgs.count_eq
    have code := instructions_callCode note.delta name callee codes
    rw [count] at code
    have stands := congrArg Code.instructions equal
    rw [Code.instructions_append, Code.instructions_append, code] at stands
    refine ⟨callee, params, codes, rfl, ?_⟩
    exact {
      declared := ⟨_, _, _, _, _, isResolved⟩
      entry := ⟨_, _, _, _, address, isPlaced, arranged.entry_text isPlaced⟩
      lowered := ⟨_, lowerExpr_of_lowers (.call lowersArgs), code⟩
      stands := ⟨_, _, stands.symm⟩
      balanced := by
        intro before after equal
        rw [equal]
        exact balanced_of_lowers lowersArgs before after
      counts := ⟨formals.length_eq.trans lowersArgs.length_eq, count⟩
      passed := by
        intro index param arg code isParam isArg isCode
        have passed := passed_of_lowers lowersArgs formals isParam isArg isCode
        rw [Nat.zero_add] at passed
        exact passed }

/-- Callers and callees agree.  In the code of an accepted program every call, wherever it
stands, follows the calling convention and reaches a function whose parameters lie where
the arguments are left, in the form in which they are left. -/
theorem accepted_program_callsAgree {bytes : List UInt8} {source : Int64}
    {program resolved checked : Program} {resolving checking : Config}
    {diagnostics findings : List Diagnostic}
    (decoded : Program.decode bytes source = .ok program)
    (accepted : program.resolve resolving = (resolved, .ok ⟨true, diagnostics⟩))
    (passed : resolved.check checking = (checked, .ok ⟨true, findings⟩)) (config : Config) :
    exists placed generated, checked.generate config = (placed, .ok (.ok generated))
      ∧ forall note name args previous, checked.Holds (.call note name args previous) ->
          exists callee params codes, previous = some callee
            ∧ CallAgrees config resolved placed generated note name args callee params codes := by
  have whole := Written.whole_of_decode decoded
  have judged := (Resolution.resolve_iff_scoped resolving whole resolved).mp ⟨diagnostics, accepted⟩
  have typed := (Typing.check_iff_typed checking whole judged checked).mp ⟨findings, passed⟩
  rcases generate_of_typed config whole typed with ⟨placed, generated, generates, _⟩
  rcases arranged_of_generate generates with ⟨_, _, arranged⟩
  refine ⟨placed, generated, generates, ?_⟩
  intro note name args previous holds
  apply callAgrees_of_emitted arranged judged passed
  cases typed with
  | intro structs signatures typedFunctions _ typedBlocks =>
    have finishedStructs := Resolution.signatures_finished structs
    have finished := signatures.finished finishedStructs
    have signed := Resolution.signed_of_scoped signatures finishedStructs whole.functions
    have ready := ready_of_typed structs signatures typedFunctions
    have calls := calls_of_typed structs signatures signed finished typedFunctions
    exact arranged.emitted (stable_calls _) ⟨ready, calls⟩ structs signed typedFunctions
      typedBlocks holds rfl

/-- The call in the small document agrees with its function. -/
theorem accepted_program_callsAgree_sample :
    exists placed generated, ((Written.sample.resolve {}).1.check {}).1.generate {}
        = (placed, .ok (.ok generated))
      ∧ exists note name args callee params codes,
          ((Written.sample.resolve {}).1.check {}).1.Holds (.call note name args (some callee))
            ∧ CallAgrees {} (Written.sample.resolve {}).1 placed generated note name args callee
                params codes := by
  rcases Resolution.resolve_sample with ⟨diagnostics, resolved⟩
  rcases Typing.check_sample with ⟨findings, checked⟩
  rcases accepted_program_callsAgree Written.decode_sampleText resolved checked {}
      with ⟨placed, generated, generates, agree⟩
  have picked : (((Written.sample.resolve {}).1.check {}).1.operands[3]?.map fun node =>
      (node.kind, node.isExpr)) = some (.funcCall, true) := by
    decide +kernel
  rcases Option.map_eq_some_iff.mp picked with ⟨node, isNode, isCall⟩
  have holds := Program.holds_of_operands (List.mem_of_getElem? isNode)
  cases node with
  | call note name args previous =>
    rcases agree note name args previous holds with ⟨callee, params, codes, rfl, agrees⟩
    exact ⟨placed, generated, generates, note, name, args, callee, params, codes, holds, agrees⟩
  | blank => cases (Prod.mk.inj isCall).2
  | _ => cases (Prod.mk.inj isCall).1

end Lowering
end PCode
