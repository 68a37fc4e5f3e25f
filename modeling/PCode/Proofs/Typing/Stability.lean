import PCode.Proofs.Extension
import PCode.Proofs.Static.Noted
import PCode.Proofs.Typing.Verdicts

namespace PCode
namespace Typing

open Diagnostics
open Node (Extends ExtendsEach ExtendsFunction Placed)
open Static

/-!
What the check writes, and checking a program again.

The check writes types and offsets into fields and elements, and never reads them.  A checked tree
extends the tree from before, and checking it again gives the same answer and the same tree.  It
does not matter either whether functions have been placed in between.

The types that it writes are types that were noted before, and parts of such types.
-/

/-! ## Types -/

section Types

variable {Holds : Ty -> Prop} {before type : Ty} {found : Option Ty}

/-- The check hands properties of types on: from the type that was noted before and the one that it
has found to the one that it notes and the one that it gives. -/
def HandsOn (before : Ty) (found : Option Ty) (noted : Ty) (given : Option Ty) : Prop :=
  forall Holds : Ty -> Prop, Lawful Holds -> Holds before ->
    (forall type, found = some type -> Holds type) ->
    Holds noted ∧ forall type, given = some type -> Holds type

theorem HandsOn.kept : HandsOn before found before none := fun _ _ holds _ => ⟨holds, nofun⟩

theorem HandsOn.taken (part : forall Holds : Ty -> Prop, Lawful Holds ->
    (forall type, found = some type -> Holds type) -> Holds type) :
    HandsOn before found type (some type) := by
  intro Holds lawful _ each
  have holds := part Holds lawful each
  exact ⟨holds, fun _ same => Option.some.inj same ▸ holds⟩

theorem holds_of_findField {field offset} (fields : List (String × Ty))
    (each : forall entry, entry ∈ fields -> Holds entry.2)
    (found : Ty.findField field fields = some (type, offset)) : Holds type := by
  induction fields generalizing offset with
  | nil => cases found
  | cons entry fields ih =>
    rw [Ty.findField] at found
    split at found
    · cases found
      exact each _ List.mem_cons_self
    · rcases Option.map_eq_some_iff.mp found with ⟨⟨inner, offset'⟩, foundInside, same⟩
      cases same
      exact ih (List.forall_mem_cons.mp each).2 foundInside

/-- The check gives a type only under a condition. -/
theorem holds_of_guard {condition : Prop} [Decidable condition] (holds : Holds before) :
    forall type, (if condition then some before else none) = some type -> Holds type := by
  intro type typed
  split at typed
  · cases typed
    exact holds
  · cases typed

theorem holds_unary (lawful : Lawful Holds) (operator : Operator) :
    Holds (signatureOf operator.unary?).result := by
  cases known : operator.unary? with
  | none => exact lawful.unknown
  | some signature => exact holds_unaryRule lawful.passes (unary_iff.mp known)

theorem holds_binary (lawful : Lawful Holds) (operator : Operator) :
    Holds (signatureOf operator.binary?).result := by
  cases known : operator.binary? with
  | none => exact lawful.unknown
  | some signature => exact holds_binaryRule lawful.passes (binary_iff.mp known)

end Types

/-! ## Expressions -/

/-- A checked expression: what is noted in it has a property, and so has its type. -/
structure AdmitsTyped (Holds : Ty -> Prop) (typed : Typed) : Prop where
  part : Admits Holds typed.part.noted
  type : forall type, typed.type = some type -> Holds type

/-- A checked expression extends the one from before, its check has the same answer, and its types
come from those noted before. -/
structure Fixed (node : Node) (typed : Typed) : Prop where
  extended : Extends node typed.part
  again : checkExpr typed.part = .ok typed
  admits {Holds : Ty -> Prop} : Lawful Holds -> Admits Holds node.noted -> AdmitsTyped Holds typed

variable {note : Note} {verified : Verified Node} {node : Node}

theorem checkMember_again {base typed field offset}
    (passed : checkMember note base field offset = .ok typed) :
    exists type offset', typed.part = .member { note with type } base.part field offset'
      ∧ checkMember { note with type } base field offset' = .ok typed
      ∧ HandsOn note.type base.type type typed.type := by
  have whole := passed
  unfold checkMember at passed
  dsimp only at passed
  split at passed
  · cases passed
    exact ⟨note.type, offset, rfl, whole, .kept⟩
  · cases passed
  · rename_i name fields found
    split at passed
    · rename_i type place isField
      cases passed
      refine ⟨type, place, rfl, ?_, .taken ?_⟩
      · simp only [checkMember, found, isField]
      · intro Holds lawful each
        exact holds_of_findField fields (lawful.field (each _ found)) isField
    · cases passed
      exact ⟨note.type, offset, rfl, whole, .kept⟩
  · cases passed
    exact ⟨note.type, offset, rfl, whole, .kept⟩

theorem checkSubscript_again {array index typed}
    (passed : checkSubscript note array index = .ok typed) :
    exists type, typed.part = .subscript { note with type } array.part index.part
      ∧ checkSubscript { note with type } array index = .ok typed
      ∧ HandsOn note.type array.type type typed.type := by
  have whole := passed
  unfold checkSubscript at passed
  dsimp only at passed
  split at passed
  · cases passed
    exact ⟨note.type, rfl, whole, .kept⟩
  · cases passed
  · rename_i length elem found
    split at passed
    · rename_i indexed
      cases passed
      refine ⟨elem, rfl, ?_, .taken fun _ lawful each => lawful.array.mp (each _ found)⟩
      simp only [checkSubscript, found, indexed, if_true]
    · cases passed
      exact ⟨note.type, rfl, whole, .kept⟩
  · cases passed
    exact ⟨note.type, rfl, whole, .kept⟩

mutual

theorem fixed_checkExpr (node : Node) {typed} (passed : checkExpr node = .ok typed) :
    Fixed node typed := by
  cases node with
  | member note base field offset =>
    rw [checkExpr] at passed
    rcases Results.of_bind passed with ⟨typedBase, passedBase, passed⟩
    have inner := fixed_checkExpr base passedBase
    rcases checkMember_again passed with ⟨type, offset', part, again, hands⟩
    refine ⟨?_, ?_, ?_⟩
    · rw [part]
      exact .member inner.extended
    · rw [part, checkExpr, inner.again]
      exact again
    · intro Holds lawful before
      rcases admits_cons.mp before with ⟨noted, before⟩
      have inside := inner.admits lawful before
      have handed := hands Holds lawful noted inside.type
      exact ⟨part ▸ admits_cons.mpr ⟨handed.1, inside.part⟩, handed.2⟩
  | subscript note array index =>
    rw [checkExpr] at passed
    rcases Results.of_binds passed with ⟨typedArray, passedArray, typedIndex, passedIndex, passed⟩
    have inArray := fixed_checkExpr array passedArray
    have inIndex := fixed_checkExpr index passedIndex
    rcases checkSubscript_again passed with ⟨type, part, again, hands⟩
    refine ⟨?_, ?_, ?_⟩
    · rw [part]
      exact .subscript inArray.extended inIndex.extended
    · rw [part, checkExpr, inArray.again, inIndex.again]
      exact again
    · intro Holds lawful before
      simp only [Node.noted, admits_cons, admits_append] at before
      have insideArray := inArray.admits lawful before.2.1
      have insideIndex := inIndex.admits lawful before.2.2
      have handed := hands Holds lawful before.1 insideArray.type
      exact ⟨part ▸ admits_cons.mpr ⟨handed.1, admits_append.mpr
        ⟨insideArray.part, insideIndex.part⟩⟩, handed.2⟩
  | unary note operator operand =>
    rw [checkExpr] at passed
    rcases Results.of_bind passed with ⟨typedOperand, passedOperand, result⟩
    have inner := fixed_checkExpr operand passedOperand
    cases result
    refine ⟨.unary inner.extended, by rw [checkExpr, inner.again]; rfl, ?_⟩
    intro Holds lawful before
    rcases admits_cons.mp before with ⟨noted, before⟩
    exact ⟨admits_cons.mpr ⟨noted, (inner.admits lawful before).part⟩,
      holds_of_guard (holds_unary lawful operator)⟩
  | binary note operator left right =>
    rw [checkExpr] at passed
    rcases Results.of_binds passed with ⟨typedLeft, passedLeft, typedRight, passedRight, result⟩
    have inLeft := fixed_checkExpr left passedLeft
    have inRight := fixed_checkExpr right passedRight
    cases result
    refine ⟨.binary inLeft.extended inRight.extended,
      by rw [checkExpr, inLeft.again, inRight.again]; rfl, ?_⟩
    intro Holds lawful before
    simp only [Node.noted, admits_cons, admits_append] at before
    exact ⟨admits_cons.mpr ⟨before.1, admits_append.mpr ⟨(inLeft.admits lawful before.2.1).part,
      (inRight.admits lawful before.2.2).part⟩⟩, holds_of_guard (holds_binary lawful operator)⟩
  | call note name args callee =>
    rw [checkExpr] at passed
    rcases Results.of_bind passed with ⟨typedArgs, passedArgs, result⟩
    rcases fixed_checkExprs args passedArgs with ⟨extended, again, admits⟩
    cases result
    refine ⟨.call extended, by rw [checkCall, checkExpr, again]; rfl, ?_⟩
    intro Holds lawful before
    simp only [Node.noted, admits_cons, admits_append] at before
    refine ⟨admits_cons.mpr ⟨before.1, admits_append.mpr
      ⟨before.2.1, admits lawful before.2.2⟩⟩, holds_of_guard ?_⟩
    cases callee with
    | none => exact lawful.unknown
    | some callee => exact (admits_cons.mp before.2.1).1
  | absent => cases passed
  | number | real | bool | char | ident =>
    cases passed
    exact ⟨.leaf rfl, rfl, fun _ before => ⟨before, holds_of_guard (admits_cons.mp before).1⟩⟩
  | _ =>
    cases passed
    exact ⟨.refl _, rfl, fun _ before => ⟨before, nofun⟩⟩

theorem fixed_checkExprs : forall (nodes : List Node) {args},
    checkExprs nodes = .ok args ->
    ExtendsEach nodes (args.map Typed.part) ∧ checkExprs (args.map Typed.part) = .ok args
      ∧ forall {Holds : Ty -> Prop}, Lawful Holds -> Admits Holds (Node.notedIn nodes) ->
        Admits Holds (Node.notedIn (args.map Typed.part))
  | [], _, passed => by
    cases passed
    exact ⟨.nil, rfl, fun _ _ => admits_nil⟩
  | node :: nodes, _, passed => by
    rw [checkExprs] at passed
    rcases Results.of_binds passed with ⟨typed, passedFirst, rest, passedRest, result⟩
    have first := fixed_checkExpr node passedFirst
    rcases fixed_checkExprs nodes passedRest with ⟨extended, again, admits⟩
    cases result
    refine ⟨.cons first.extended extended,
      by rw [List.map_cons, checkExprs, first.again, again]; rfl, ?_⟩
    intro Holds lawful before
    rcases admits_append.mp before with ⟨here, later⟩
    exact admits_append.mpr ⟨(first.admits lawful here).part, admits lawful later⟩

end

/-! ## Statements -/

/-- A checked statement extends the one from before, its check has the same answer, and its types
come from those noted before. -/
structure FixedStmt (around : Option Around) (node : Node) (verified : Verified Node) : Prop where
  extended : Extends node verified.part
  again : checkStmt around verified.part = .ok verified
  admits {Holds : Ty -> Prop} : Lawful Holds -> Admits Holds node.noted ->
    Admits Holds verified.part.noted

theorem fixed_checkCondition {stmt test} (passed : checkCondition stmt test = .ok verified) :
    Extends test verified.part ∧ checkCondition stmt verified.part = .ok verified
      ∧ forall {Holds : Ty -> Prop}, Lawful Holds -> Admits Holds test.noted ->
        Admits Holds verified.part.noted := by
  rw [checkCondition] at passed
  rcases Results.of_bind passed with ⟨typed, passedTest, result⟩
  have inner := fixed_checkExpr test passedTest
  cases result
  exact ⟨inner.extended, by rw [checkCondition, inner.again]; rfl,
    fun lawful before => (inner.admits lawful before).part⟩

theorem fixed_checkVarDecl (around : Option Around) {name type init}
    (passed : checkVarDecl note name type init = .ok verified) :
    FixedStmt around (.varDecl note name type init) verified := by
  have whole := passed
  unfold checkVarDecl at passed
  split at passed
  · rename_i present
    rcases Results.of_bind passed with ⟨typed, passedInit, result⟩
    have inner := fixed_checkExpr init passedInit
    cases result
    refine ⟨.varDecl inner.extended, ?_, ?_⟩
    · rw [checkStmt, checkVarDecl, if_pos (inner.extended.isPresent_eq.trans present), inner.again]
      rfl
    · intro Holds lawful before
      rcases admits_cons.mp before with ⟨noted, before⟩
      exact admits_cons.mpr ⟨noted, (inner.admits lawful before).part⟩
  · cases passed
    exact ⟨.refl _, by rw [checkStmt]; exact whole, fun _ before => before⟩

theorem fixed_checkAssign (around : Option Around) {target value}
    (passed : checkAssign note target value = .ok verified) :
    FixedStmt around (.assign note target value) verified := by
  rw [checkAssign] at passed
  rcases Results.of_binds passed with ⟨typedTarget, passedTarget, typedValue, passedValue, result⟩
  have inTarget := fixed_checkExpr target passedTarget
  have inValue := fixed_checkExpr value passedValue
  have part : verified.part = .assign note typedTarget.part typedValue.part := by
    dsimp only at result
    split at result
    · cases result
      rfl
    · split at result
      · cases result
        rfl
      · cases result
        rfl
  refine ⟨?_, ?_, ?_⟩
  · rw [part]
    exact .assign inTarget.extended inValue.extended
  · rw [part, checkStmt, checkAssign, inTarget.again, inValue.again]
    exact result
  · intro Holds lawful before
    simp only [part, Node.noted, admits_cons, admits_append] at before ⊢
    exact ⟨before.1, (inTarget.admits lawful before.2.1).part,
      (inValue.admits lawful before.2.2).part⟩

theorem fixed_checkReturn {around value} (passed : checkReturn around note value = .ok verified) :
    FixedStmt around (.ret note value) verified := by
  have whole := passed
  rcases around with _ | around
  all_goals
    simp only [checkReturn] at passed
    split at passed
    · rename_i present
      rcases Results.of_bind passed with ⟨typed, passedValue, result⟩
      have inner := fixed_checkExpr value passedValue
      cases result
      refine ⟨.ret inner.extended, ?_, ?_⟩
      · simp only [checkStmt, checkReturn, inner.extended.isPresent_eq, present, if_true,
          inner.again]
        rfl
      · intro Holds lawful before
        rcases admits_cons.mp before with ⟨noted, before⟩
        exact admits_cons.mpr ⟨noted, (inner.admits lawful before).part⟩
    · cases passed
      exact ⟨.refl _, by rw [checkStmt]; exact whole, fun _ before => before⟩

mutual

theorem fixed_checkStmt (around : Option Around) (node : Node) {verified}
    (passed : checkStmt around node = .ok verified) : FixedStmt around node verified := by
  cases node with
  | block note stmts =>
    rw [checkStmt] at passed
    rcases Results.of_bind passed with ⟨inner, passedInner, result⟩
    rcases fixed_checkStmts around stmts passedInner with ⟨extended, again, admits⟩
    cases result
    refine ⟨.block extended, by rw [checkStmt, again]; rfl, ?_⟩
    intro Holds lawful before
    rcases admits_cons.mp before with ⟨noted, before⟩
    exact admits_cons.mpr ⟨noted, admits lawful before⟩
  | varDecl note name type init =>
    rw [checkStmt] at passed
    exact fixed_checkVarDecl around passed
  | assign note target value =>
    rw [checkStmt] at passed
    exact fixed_checkAssign around passed
  | branch note test thenBody elseBody =>
    rw [checkStmt] at passed
    rcases Results.of_binds passed
      with ⟨verifiedTest, passedTest, verifiedThen, passedThen, passed⟩
    rcases Results.of_bind passed with ⟨verifiedElse, passedElse, result⟩
    rcases fixed_checkCondition passedTest with ⟨extendedTest, testAgain, admitsTest⟩
    have inThen := fixed_checkStmt around thenBody passedThen
    have inElse := fixed_checkStmt around elseBody passedElse
    cases result
    refine ⟨.branch extendedTest inThen.extended inElse.extended,
      by rw [checkStmt, testAgain, inThen.again, inElse.again]; rfl, ?_⟩
    intro Holds lawful before
    simp only [Node.noted, admits_cons, admits_append] at before ⊢
    exact ⟨before.1, ⟨admitsTest lawful before.2.1.1, inThen.admits lawful before.2.1.2⟩,
      inElse.admits lawful before.2.2⟩
  | loop note test body =>
    rw [checkStmt] at passed
    rcases Results.of_binds passed
      with ⟨verifiedTest, passedTest, verifiedBody, passedBody, result⟩
    rcases fixed_checkCondition passedTest with ⟨extendedTest, testAgain, admitsTest⟩
    have inBody := fixed_checkStmt around body passedBody
    cases result
    refine ⟨.loop extendedTest inBody.extended,
      by rw [checkStmt, testAgain, inBody.again]; rfl, ?_⟩
    intro Holds lawful before
    simp only [Node.noted, admits_cons, admits_append] at before ⊢
    exact ⟨before.1, admitsTest lawful before.2.1, inBody.admits lawful before.2.2⟩
  | ret note value =>
    rw [checkStmt] at passed
    exact fixed_checkReturn passed
  | _ =>
    cases passed
    exact ⟨.refl _, rfl, fun _ before => before⟩

theorem fixed_checkStmts (around : Option Around) : forall (nodes : List Node)
    {verified}, checkStmts around nodes = .ok verified ->
    ExtendsEach nodes verified.part ∧ checkStmts around verified.part = .ok verified
      ∧ forall {Holds : Ty -> Prop}, Lawful Holds -> Admits Holds (Node.notedIn nodes) ->
        Admits Holds (Node.notedIn verified.part)
  | [], _, passed => by
    cases passed
    exact ⟨.nil, rfl, fun _ _ => admits_nil⟩
  | node :: nodes, _, passed => by
    rw [checkStmts] at passed
    rcases Results.of_binds passed with ⟨first, passedFirst, rest, passedRest, result⟩
    have here := fixed_checkStmt around node passedFirst
    rcases fixed_checkStmts around nodes passedRest with ⟨extended, again, admits⟩
    cases result
    refine ⟨.cons here.extended extended, by rw [checkStmts, here.again, again]; rfl, ?_⟩
    intro Holds lawful before
    rcases admits_append.mp before with ⟨first, later⟩
    exact admits_append.mpr ⟨here.admits lawful first, admits lawful later⟩

end

/-! ## Programs -/

theorem extends_checkFunction {config later} (passed : checkFunction config node = .ok verified)
    (placed : Placed verified.part later) :
    ExtendsFunction node later
      ∧ checkFunction config later = .ok { verified with part := later } := by
  unfold checkFunction at passed
  split at passed
  · rename_i note name params result body signature entry
    rcases Results.of_bind passed with ⟨inner, passedBody, result⟩
    have fixed := fixed_checkStmt _ body passedBody
    cases result
    cases placed
    all_goals
      refine ⟨.funcDecl fixed.extended, ?_⟩
      rw [checkFunction, fixed.again]
      rfl
  · cases passed

theorem extends_checkTop {later} (passed : checkStmt none node = .ok verified)
    (same : verified.part = later) :
    Extends node later ∧ checkStmt none later = .ok { verified with part := later } := by
  have fixed := fixed_checkStmt none node passed
  subst same
  exact ⟨fixed.extended, fixed.again⟩

/-- Parts that are checked again in order, as soon as each of them can be. -/
theorem checkEach_again {check : Node -> Checked (Verified Node)}
    {Later Extended : Node -> Node -> Prop}
    (each : forall node verified later, check node = .ok verified -> Later verified.part later ->
      Extended node later ∧ check later = .ok { verified with part := later })
    {nodes later verified} (passed : checkEach check nodes = .ok verified)
    (behind : List.Forall₂ Later verified.part later) :
    List.Forall₂ Extended nodes later
      ∧ checkEach check later = .ok { verified with part := later } := by
  induction nodes generalizing verified later with
  | nil =>
    cases passed
    cases behind
    exact ⟨.nil, rfl⟩
  | cons node nodes ih =>
    rw [checkEach] at passed
    rcases Results.of_binds passed with ⟨first, passedFirst, rest, passedRest, ⟨⟩⟩
    cases behind with
    | cons here behindRest =>
      rcases each node first _ passedFirst here with ⟨extended, again⟩
      rcases ih passedRest behindRest with ⟨extendedRest, againRest⟩
      exact ⟨.cons extended extendedRest, by rw [checkEach, again, againRest]; rfl⟩

/-- A checked program extends the one from before, and checking it again gives the same answer,
also if its functions have been placed. -/
theorem run_again {config program checked later judgement}
    (ran : run config program = .ok (checked, judgement)) (placed : checked.Placed later) :
    program.Extends later
      ∧ run config later = .ok ({ later with phase := checked.phase }, judgement) := by
  rcases Results.of_binds ran with ⟨functions, passedFunctions, blocks, passedBlocks, ⟨⟩⟩
  have sameBlocks : List.Forall₂ Eq blocks.part later.blocks := by
    rw [placed.blocks]
    exact List.forall₂_same.mpr fun _ _ => rfl
  rcases checkEach_again (fun _ _ _ => extends_checkFunction) passedFunctions placed.functions
      with ⟨extendedFunctions, functionsAgain⟩
  rcases checkEach_again (fun _ _ _ => extends_checkTop) passedBlocks sameBlocks
      with ⟨extendedBlocks, blocksAgain⟩
  refine ⟨⟨placed.structs, extendedFunctions, extendedBlocks⟩, ?_⟩
  rw [run, functionsAgain, blocksAgain]
  rfl

/-! ## Requests -/

section Requests

variable {config : Config} {program checked : Program} {judgement : Judgement}

/-- Past its gate, a check that gives an answer is a run. -/
theorem run_of_check (ready : program.phase.reaches .resolved = true)
    (answered : program.check config = (checked, .ok judgement)) :
    run config program = .ok (checked, judgement) := by
  rw [Program.check, if_pos ready] at answered
  split at answered
  · rename_i ran
    cases answered
    exact ran
  · cases answered

theorem check_of_run (ready : program.phase.reaches .resolved = true)
    (ran : run config program = .ok (checked, judgement)) :
    program.check config = (checked, .ok judgement) := by
  rw [Program.check, if_pos ready, ran]

theorem phase_of_check (ready : program.phase.reaches .resolved = true)
    (answered : program.check config = (checked, .ok judgement)) :
    checked.phase = if judgement.ok then .checked else .resolved := by
  rcases Results.of_bind (run_of_check ready answered) with ⟨_, _, ran⟩
  rcases Results.of_bind ran with ⟨_, _, ⟨⟩⟩
  rfl

/-- The same answer for a program that was checked and perhaps placed, whatever its phase. -/
theorem check_again (ready : program.phase.reaches .resolved = true)
    (answered : program.check config = (checked, .ok judgement)) {later}
    (placed : checked.Placed later) (readyLater : later.phase.reaches .resolved = true) :
    later.check config = ({ later with phase := checked.phase }, .ok judgement) :=
  check_of_run readyLater (run_again (run_of_check ready answered) placed).2

end Requests

end Typing
end PCode
