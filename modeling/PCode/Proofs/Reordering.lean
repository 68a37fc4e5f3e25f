import PCode.Proofs.Reordering.Placement

namespace PCode
namespace Reordering

open Static
open Lowering

/-!
The order of functions.

Signatures come before bodies, so a function may call any other, also a later one.
The order of the functions does not matter for a program as far as no function hides
a structure from the signatures behind it.  Then every order is accepted if one of
them is, and the code is the same in another place: a function keeps its instructions,
the prologue and the main code stay where they are, and jumps and calls go to where
their targets have moved.
-/

/-! ## Code in another place -/

/-- The code of a program with its functions in one order and in another.  Addresses
move without falling together; those of the prologue and of the main code stay, each
function is entered at its own entry moved, and neighbours stay neighbours unless a
function or the main code starts between them.  At its new address stands the same
instruction with its target moved. -/
structure Rearranged (config : Config) (program placed placed' : Program)
    (generated generated' : Generated) (move : Nat -> Nat) (main : Nat) : Prop where
  instructions : forall address,
    (linked generated')[move address]? = ((linked generated)[address]?).map (relocate move)
  injective : Function.Injective move
  prologue : forall address, address < prologueSize config -> move address = address
  jump : (linked generated)[prologueSize config - 1]? = some ⟨.ujp, [.int main]⟩
  mainCode : forall address, main <= address -> move address = address
  entries : forall name, some name ∈ program.functions.map declaredName? ->
    exists entry, entryNamed? placed name = some entry
      ∧ entryNamed? placed' name = some (move entry)
  neighbours : forall address, address + 1 ≠ main ->
    (forall name, entryNamed? placed name ≠ some (address + 1)) ->
    move (address + 1) = move address + 1

theorem rearranged_of_arranged {config} {new : Nat -> Nat} {program checked checked' placed placed'
    generated generated' functionCode functionCode' blockCode blockCode'}
    (arranged : Arranged config checked placed generated functionCode blockCode)
    (arranged' : Arranged config checked' placed' generated' functionCode' blockCode')
    (reordered : Reordered new checked.functions checked'.functions)
    (blocks : checked'.blocks = checked.blocks.map (Node.reindex new))
    (names : checked.functions.map declaredName? = program.functions.map declaredName?) :
    Rearranged config program placed placed' generated generated'
      (programMove config new checked checked') (prologueSize config + functionCode.size) := by
  have exchanges := reordered.exchanges arranged.functions
  have relinks := relinks_of_arranged arranged arranged' reordered
  refine ⟨fun address => ?_, moved_injective exchanges, fun address before => moved_before before,
    jump_of_arranged arranged, fun address behind => programMove_main new checked' arranged behind,
    fun name member => ?_, fun address apart unentered => ?_⟩
  · rw [linked, linked, List.getElem?_map, List.getElem?_map,
      instructions_carried arranged arranged' reordered blocks, Option.map_map, Option.map_map]
    congr 1
    funext instruction
    exact link_carry relinks instruction
  · rw [← names] at member
    rcases List.mem_iff_getElem?.mp member with ⟨index, found⟩
    have found' := getElem?_newPosition reordered.names index
    rw [← reordered.positions, found] at found'
    have distinct' := reordered.names.nodup_iff.mpr reordered.distinct
    refine ⟨_, entryNamed_of_arranged arranged reordered.distinct found, ?_⟩
    rw [entryNamed_of_arranged arranged' distinct' found']
    rw [List.getElem?_map] at found
    rcases Option.map_eq_some_iff.mp found with ⟨node, there, _⟩
    exact congrArg some (Reordered.move_start checked'.functions new arranged.functions there).symm
  · refine moved_succ (fun piece inside => ?_) ?_
    · rw [functionSizes, List.length_map] at inside
      have there := List.getElem?_eq_getElem inside
      rcases function_of_laid arranged.functions there with ⟨_, lowered, _, _⟩
      rcases named_of_codeAt lowered with ⟨name, named⟩
      have found : (checked.functions.map declaredName?)[piece]? = some (some name) := by
        rw [List.getElem?_map, there, Option.map_some, named]
      intro same
      refine unentered name ?_
      rw [same]
      exact entryNamed_of_arranged arranged reordered.distinct found
    · rw [← size_of_laid arranged.functions]
      exact apart

/-! ## Accepted programs -/

/-- Resolution accepts a program. -/
def Resolves (config : Config) (program : Program) : Prop :=
  exists resolved diagnostics, program.resolve config = (resolved, .ok ⟨true, diagnostics⟩)

/-- Resolution accepts a program, and the check accepts what it gives. -/
def Checks (config : Config) (program : Program) : Prop :=
  exists resolved checked diagnostics findings,
    program.resolve config = (resolved, .ok ⟨true, diagnostics⟩)
      ∧ resolved.check config = (checked, .ok ⟨true, findings⟩)

/-- A program has code, and `placed` is the program with the entries of its functions. -/
def Compiles (config : Config) (program placed : Program) (generated : Generated) : Prop :=
  exists compilation, program.compile config = (placed, .ok compilation)
    ∧ compilation.result = .ok generated

/-- Two orders of the functions of a program that make no difference: both are accepted or
none is, and the code of an accepted program is the same in another place. -/
structure Indifferent (config : Config) (program reordered : Program) : Prop where
  resolves : Resolves config program <-> Resolves config reordered
  checks : Checks config program <-> Checks config reordered
  code : Checks config program -> exists placed placed' generated generated' move main,
    Compiles config program placed generated ∧ Compiles config reordered placed' generated'
      ∧ Rearranged config program placed placed' generated generated' move main

section Whole

variable {source : Int64} {program : Program} (config : Config)

theorem resolves_iff_scoped (whole : Written.Whole source program) :
    Resolves config program <-> exists resolved, ScopedProgram program resolved :=
  exists_congr fun resolved => Resolution.resolve_iff_scoped config whole resolved

theorem checks_iff_typed (whole : Written.Whole source program) :
    Checks config program
      <-> exists resolved checked,
        ScopedProgram program resolved ∧ TypedProgram program checked := by
  constructor
  · rintro ⟨resolved, checked, diagnostics, findings, accepted, passed⟩
    have judged := (Resolution.resolve_iff_scoped config whole resolved).mp ⟨diagnostics, accepted⟩
    exact ⟨resolved, checked, judged,
      (Typing.check_iff_typed config whole judged checked).mp ⟨findings, passed⟩⟩
  · rintro ⟨resolved, checked, judged, typed⟩
    rcases (Resolution.resolve_iff_scoped config whole resolved).mpr judged
      with ⟨diagnostics, accepted⟩
    rcases (Typing.check_iff_typed config whole judged checked).mpr typed with ⟨findings, passed⟩
    exact ⟨resolved, checked, diagnostics, findings, accepted, passed⟩

theorem Resolves.clear (whole : Written.Whole source program) (resolves : Resolves config program) :
    Clear program.functions := by
  rcases (resolves_iff_scoped config whole).mp resolves with ⟨resolved, judged⟩
  exact clear_of_scoped judged

variable {functions : List Node}

theorem whole_reordered (whole : Written.Whole source program)
    (perm : functions.Perm program.functions) : Written.Whole source { program with functions } :=
  { whole with functions := fun node member => whole.functions node (perm.mem_iff.mp member) }

theorem Resolves.reordered (whole : Written.Whole source program)
    (perm : functions.Perm program.functions) (clear : Clear functions)
    (resolves : Resolves config program) : Resolves config { program with functions } := by
  rcases (resolves_iff_scoped config whole).mp resolves with ⟨resolved, judged⟩
  exact (resolves_iff_scoped config (whole_reordered whole perm)).mpr
    (scoped_reordered judged perm clear)

theorem Checks.resolves (checks : Checks config program) : Resolves config program := by
  rcases checks with ⟨resolved, _, diagnostics, _, accepted, _⟩
  exact ⟨resolved, diagnostics, accepted⟩

theorem Checks.reordered (whole : Written.Whole source program)
    (perm : functions.Perm program.functions) (clear : Clear functions)
    (checks : Checks config program) : Checks config { program with functions } := by
  rcases (checks_iff_typed config whole).mp checks with ⟨resolved, checked, judged, typed⟩
  rcases scoped_reordered judged perm clear with ⟨resolved', judged'⟩
  rcases typed_reordered typed perm clear rfl with ⟨checked', typed', _⟩
  exact (checks_iff_typed config (whole_reordered whole perm)).mpr
    ⟨resolved', checked', judged', typed'⟩

/-- An accepted program has the same code in another place when its functions are put in
another clear order. -/
theorem Checks.rearranged (whole : Written.Whole source program)
    (perm : functions.Perm program.functions) (clear : Clear functions)
    (checks : Checks config program) :
    exists placed placed' generated generated' move main,
      Compiles config program placed generated
        ∧ Compiles config { program with functions } placed' generated'
        ∧ Rearranged config program placed placed' generated generated' move main := by
  rcases (checks_iff_typed config whole).mp checks with ⟨resolved, checked, judged, typed⟩
  rcases scoped_reordered judged perm clear with ⟨resolved', judged'⟩
  rcases typed_reordered typed perm clear rfl with ⟨checked', typed', permFunctions, blocks⟩
  rcases names_of_typedProgram typed with ⟨names, distinct⟩
  rcases names_of_typedProgram typed' with ⟨names', _⟩
  rcases compile_of_typed config whole judged typed
    with ⟨placed, generated, compilation, generates, compiles, isGenerated⟩
  rcases compile_of_typed config (whole_reordered whole perm) judged' typed'
    with ⟨placed', generated', compilation', generates', compiles', isGenerated'⟩
  rcases arranged_of_generate generates with ⟨_, _, arranged⟩
  rcases arranged_of_generate generates' with ⟨_, _, arranged'⟩
  have reordered : Reordered (newPosition (program.functions.map declaredName?)
      (functions.map declaredName?)) checked.functions checked'.functions :=
    { perm := permFunctions
      distinct := by rw [names]; exact distinct
      positions := by rw [names, names'] }
  exact ⟨placed, placed', generated, generated', _, _, ⟨compilation, compiles, isGenerated⟩,
    ⟨compilation', compiles', isGenerated'⟩,
    rearranged_of_arranged arranged arranged' reordered blocks names⟩

end Whole

/-- The order of functions matters only through structures that functions hide.  Another
order of the functions of a decoded program makes no difference exactly if, whenever one
of the two orders is accepted by resolution, no signature in the other one mentions a
structure that has the name of an earlier function. -/
theorem order_indifferent_iff_clear {bytes : List UInt8} {source : Int64} {program : Program}
    (decoded : Program.decode bytes source = .ok program) {functions : List Node}
    (perm : functions.Perm program.functions) (config : Config) :
    Indifferent config program { program with functions }
      <-> (Resolves config program -> Clear functions)
        ∧ (Resolves config { program with functions } -> Clear program.functions) := by
  have whole := Written.whole_of_decode decoded
  have whole' := whole_reordered whole perm
  constructor
  · intro indifferent
    exact ⟨fun resolves => (indifferent.resolves.mp resolves).clear config whole',
      fun resolves => (indifferent.resolves.mpr resolves).clear config whole⟩
  · rintro ⟨clear, clearBack⟩
    refine ⟨⟨fun resolves => ?_, fun resolves => ?_⟩, ⟨fun checks => ?_, fun checks => ?_⟩,
      fun checks => ?_⟩
    · exact resolves.reordered config whole perm (clear resolves)
    · have back := resolves.reordered config whole' perm.symm (clearBack resolves)
      exact back
    · exact checks.reordered config whole perm (clear (checks.resolves config))
    · have back := checks.reordered config whole' perm.symm (clearBack (checks.resolves config))
      exact back
    · exact checks.rearranged config whole perm (clear (checks.resolves config))

/-- A structure `P`, a function with a parameter of that type, and behind it a function
that is called `P` too. -/
def shadowText : List UInt8 :=
  List.flatMap (fun line => line.toUTF8.data.toList)
    ["\x7b\"structs\":[\x7b\"kind\":\"struct\",\"name\":\"P\",\"fields\":[",
     "\x7b\"kind\":\"var\",\"name\":\"x\",\"type\":\x7b\"kind\":\"Integer\"\x7d\x7d]\x7d],",
     "\"functions\":[\x7b\"kind\":\"func\",\"name\":\"g\",\"params\":[",
     "\x7b\"kind\":\"var\",\"name\":\"p\",",
     "\"type\":\x7b\"kind\":\"Struct\",\"name\":\"P\"\x7d\x7d],",
     "\"returns\":\x7b\"kind\":\"Integer\"\x7d,\"body\":\x7b\"kind\":\"block\",\"stmts\":[",
     "\x7b\"kind\":\"return\",\"expr\":\x7b\"kind\":\"int\",\"value\":1\x7d\x7d]\x7d\x7d,",
     "\x7b\"kind\":\"func\",\"name\":\"P\",\"returns\":\x7b\"kind\":\"Integer\"\x7d,",
     "\"body\":\x7b\"kind\":\"block\",\"stmts\":[",
     "\x7b\"kind\":\"return\",\"expr\":\x7b\"kind\":\"int\",\"value\":1\x7d\x7d]\x7d\x7d],",
     "\"blocks\":[\x7b\"kind\":\"block\"\x7d]\x7d"]

/-- The program of that document. -/
def shadow : Program := (Program.decode shadowText 0).toOption.getD default

theorem decode_shadowText : Program.decode shadowText 0 = .ok shadow :=
  Written.eq_ok_of_isSome (by decide +kernel)

/-- The document is accepted, and refused with its two functions the other way round. -/
theorem order_indifferent_iff_clear_shadow :
    Program.decode shadowText 0 = .ok shadow
      ∧ shadow.functions.reverse.Perm shadow.functions ∧ Resolves {} shadow
      ∧ ¬ Indifferent {} shadow { shadow with functions := shadow.functions.reverse } := by
  have perm : shadow.functions.reverse.Perm shadow.functions := List.reverse_perm _
  have resolves : Resolves {} shadow := ⟨_, Results.accepted_of_ok (by decide +kernel)⟩
  refine ⟨decode_shadowText, perm, resolves, fun indifferent => ?_⟩
  have clear := ((order_indifferent_iff_clear decode_shadowText perm {}).mp indifferent).1 resolves
  exact absurd clear (by decide +kernel)

end Reordering
end PCode
