import PCode.Proofs.Static.Premises
import PCode.Proofs.Typing.Bodies

namespace PCode
namespace Typing

open Diagnostics Static

/-!
What the check answers.

The check of a resolved tree always gives an answer.  If a part passes, there is a derivation for
it.  There is one error for each premise of the typing rules that is violated, in the order of the
premises, and a part passes exactly if nothing is found in it or in the parts below it.  It may fail
without a finding of its own, but only because a part below it has one.
-/

/-! ## Verdicts of parts -/

/-- A verdict that says whether there are findings, which are those for the premises. -/
structure Clear (premises : List Premise) (ok : Bool) (findings : List Diagnostic) : Prop where
  violations : Violations premises findings
  ok_eq : ok = findings.isEmpty

namespace Clear

variable {premises later : List Premise} {ok ok' : Bool} {first second : List Diagnostic}

theorem passes : Clear [] true [] := ⟨.nil, rfl⟩

theorem and (left : Clear premises ok first) (right : Clear later ok' second) :
    Clear (premises ++ later) (ok && ok') (first ++ second) where
  violations := left.violations.append right.violations
  ok_eq := by
    rw [left.ok_eq, right.ok_eq]
    cases first <;> rfl

/-- Premises that are asked besides. -/
theorem own (clear : Clear premises ok first) (violations : Violations later second) :
    Clear (premises ++ later) (ok && second.isEmpty) (first ++ second) :=
  clear.and ⟨violations, rfl⟩

theorem kept (clear : Clear premises ok first) (violations : Violations later []) :
    Clear (premises ++ later) ok first := by
  have both := clear.own violations
  rwa [List.append_nil, List.isEmpty_nil, Bool.and_true] at both

theorem fails {finding} (clear : Clear premises ok first)
    (violations : Violations later (finding :: second)) :
    Clear (premises ++ later) false (first ++ finding :: second) := by
  have both := clear.own violations
  rwa [List.isEmpty_cons, Bool.and_false] at both

theorem as_errors (clear : Clear premises ok first) : Clear premises ok (errors first) := by
  rwa [clear.violations.severe.errors_eq]

end Clear

/-! ## Operands and arguments -/

variable {wanted found : Ty} {issue : Ty -> TypeIssue} {span : Span} {node : Node}
  {nodes : List Node} {args : List Typed} {env : Env} {typed : Typed}

theorem same_of_operandFindings (sized : Sized found)
    (clean : operandFindings wanted (some found) issue span = []) :
    Same found wanted := by
  rw [operandFindings] at clean
  split at clean
  · rename_i equal
    exact same_of_equal sized.proper equal
  · cases clean

/-- A scalar operand without findings has the type that was asked for. -/
theorem eq_of_operandFindings (sized : Sized found) (scalar : wanted.isComposite = false)
    (clean : operandFindings wanted (some found) issue span = []) : found = wanted :=
  (same_of_operandFindings sized clean).eq_of_scalar scalar

/-- A checked expression has, if it passed, the type that the check found. -/
def Right (env : Env) (node : Node) (typed : Typed) : Prop :=
  forall type, typed.type = some type -> HasType env node type typed.part

theorem right_of_failed (failed : typed.type = none) : Right env node typed := by
  intro type passed
  rw [failed] at passed
  cases passed

/-- An operand that passed and about which nothing was found. -/
theorem Right.operand (right : Right env node typed) (finished : env.Finished)
    (scalar : wanted.isComposite = false) (ok : typed.ok = true)
    (clean : operandFindings wanted typed.type issue span = []) :
    HasType env node wanted typed.part := by
  rcases Option.isSome_iff_exists.mp ok with ⟨found, passed⟩
  have judged := right found passed
  rw [passed] at clean
  exact eq_of_operandFindings (judged.sized finished) scalar clean ▸ judged

/-! ## Premises about an expression -/

/-- The check finds the type that an expression has by the rules, and no other one. -/
structure Knows (env : Env) (node : Node) (typed : Typed) : Prop where
  right : Right env node typed
  complete : forall {type}, Types env node type -> typed.type = some type

theorem Right.knows (right : Right env node typed) (finished : env.Finished) {resolved}
    (judged : ScopedExpr env node resolved) (passed : checkExpr resolved = .ok typed) :
    Knows env node typed where
  right
  complete := by
    rintro type ⟨node', hasType⟩
    rcases checkExpr_of_hasType finished hasType with ⟨_, judgedAgain, answered⟩
    rw [← judged.unique judgedAgain] at answered
    cases passed.symm.trans answered
    rfl

namespace Knows

variable {env : Env} {node : Node} {typed : Typed} {found wanted : Ty} {Holds : Ty -> Prop}
  {issue : Ty -> TypeIssue} {span : Span}

variable (knows : Knows env node typed)

include knows

theorem skipped (failed : typed.type = none) :
    Violations [.about env node Holds issue span] [] := by
  refine .kept ?_ .nil
  rintro _ _ ⟨type, types, _⟩
  cases failed.symm.trans (knows.complete types)

theorem kept (passed : typed.type = some found) (holds : Holds found) :
    Violations [.about env node Holds issue span] [] := by
  refine .kept ?_ .nil
  rintro _ _ ⟨type, types, fails, _⟩
  cases passed.symm.trans (knows.complete types)
  exact fails holds

theorem types (passed : typed.type = some found) :
    Types env node found :=
  ⟨typed.part, knows.right found passed⟩

theorem violated (passed : typed.type = some found) (fails : ¬ Holds found) :
    Violations [.about env node Holds issue span] [(issue found).foundAt span] :=
  .violated ⟨found, knows.types passed, fails, rfl, rfl⟩ .nil

theorem span_eq (passed : typed.type = some found) :
    typed.part.span = node.span :=
  (knows.right found passed).same_form.2

theorem isAddressable_iff (passed : typed.type = some found) :
    typed.part.isAddressable = true <-> IsPlace node :=
  (knows.right found passed).isAddressable_iff

theorem equal_iff (finished : env.Finished) (passed : typed.type = some found) :
    found.equal wanted = true <-> Same found wanted :=
  ⟨same_of_equal ((knows.right found passed).sized finished).proper, equal_of_same⟩

/-- An operand is of the type that is wanted, or it is reported somewhere. -/
theorem operand (finished : env.Finished) {place}
    (same : forall found, typed.type = some found -> place = span) :
    Violations [.about env node (Same · wanted) issue span]
      (operandFindings wanted typed.type issue place) := by
  cases passed : typed.type with
  | none => exact knows.skipped passed
  | some found =>
    rw [operandFindings, same found passed]
    split
    · rename_i equal
      exact knows.kept passed ((knows.equal_iff finished passed).mp equal)
    · rename_i different
      exact knows.violated passed (mt (knows.equal_iff finished passed).mpr different)

/-- An operand that is reported where it stands. -/
theorem operand_here (finished : env.Finished) :
    Violations [.about env node (Same · wanted) issue node.span]
      (operandFindings wanted typed.type issue typed.part.span) :=
  knows.operand finished fun _ passed => knows.span_eq passed

/-- A value has to suit, and if it does and is composite, to be a place. -/
theorem suited (passed : typed.type = some found) (Holds : Ty -> Prop) {suits}
    (suits_iff : suits = true <-> Holds found) (composite : Bool) (misplaced : TypeIssue) :
    Violations [.about env node Holds issue span,
        .about env node (fun found => Holds found -> composite = true -> IsPlace node)
          (fun _ => misplaced) node.span]
      (if !suits then [(issue found).foundAt span]
        else if composite && !typed.part.isAddressable then
          [misplaced.foundAt typed.part.span]
        else []) := by
  rw [knows.span_eq passed]
  have placed : Holds found -> Violations
      [.about env node (fun found => Holds found -> composite = true -> IsPlace node)
        (fun _ => misplaced) node.span]
      (if composite && !typed.part.isAddressable then [misplaced.foundAt node.span] else []) := by
    intro holds
    split
    · rename_i wrong
      rcases Bool.and_eq_true_iff.mp wrong with ⟨isComposite, notPlace⟩
      refine knows.violated passed fun place => ?_
      rw [(knows.isAddressable_iff passed).mpr (place holds isComposite)] at notPlace
      cases notPlace
    · rename_i placed
      refine knows.kept passed fun _ isComposite => ?_
      exact (knows.isAddressable_iff passed).mp (by simpa [isComposite] using placed)
  cases suits with
  | false =>
    have fails : ¬ Holds found := fun holds => Bool.noConfusion (suits_iff.mpr holds)
    exact (knows.violated passed fails).append (knows.kept passed fun holds => absurd holds fails)
  | true =>
    have holds := suits_iff.mp rfl
    exact (knows.kept passed holds).append (placed holds)

end Knows

/-! ## Expressions -/

theorem ok_ite (condition : Bool) (part : Node) (type : Ty) (findings : List Diagnostic) :
    Typed.ok { part, type := if condition then some type else none, findings } = condition := by
  cases condition <;> rfl

section Forms

variable {premises later : List Premise}

variable (finished : env.Finished)

include finished

theorem answers_checkMember {base} (knows : Knows env node base)
    (clear : Clear premises base.ok base.findings) (note : Note) (field : String) (offset : Int64) :
    exists typed, checkMember note base field offset = .ok typed
      ∧ Right env (.member note node field offset) typed
      ∧ Clear (premises ++ memberPremises env node field note.span) typed.ok typed.findings := by
  unfold checkMember
  dsimp only
  split
  · rename_i failed
    rw [Typed.ok, failed] at clear
    exact ⟨_, rfl, right_of_failed rfl,
      clear.kept ((knows.skipped failed).append (knows.skipped failed))⟩
  · rename_i unknown
    exact ((knows.right _ unknown).sized finished).proper.elim
  · rename_i name fields found
    rw [Typed.ok, found] at clear
    split
    · rename_i type place fieldFound
      rcases fieldAt_of_findField fieldFound with ⟨before, fieldAt, offsetEq⟩
      refine ⟨_, rfl, ?_, clear.kept
        (.append (knows.kept found ⟨name, fields, rfl⟩) (knows.kept found ?_))⟩
      · intro type result
        cases result
        rw [offsetEq]
        exact .member (knows.right _ found) fieldAt
      · intro _ _ same
        cases same
        exact ⟨type, before, fieldAt⟩
    · rename_i missing
      refine ⟨_, rfl, right_of_failed rfl, clear.fails
        (.append (knows.kept found ⟨name, fields, rfl⟩) (knows.violated found ?_))⟩
      intro holds
      rcases holds name fields rfl with ⟨type, before, fieldAt⟩
      cases missing.symm.trans (findField_of_fieldAt fieldAt)
  · rename_i found _ notStruct known
    refine ⟨_, rfl, right_of_failed rfl, clear.fails
      (.append (knows.violated known ?_) (knows.kept known ?_))⟩
    · rintro ⟨name, fields, same⟩
      exact notStruct name fields same
    · intro name fields same
      exact absurd same (notStruct name fields)

theorem answers_checkSubscript {arrayNode indexNode array index}
    (knowsArray : Knows env arrayNode array) (knowsIndex : Knows env indexNode index)
    (clearArray : Clear premises array.ok array.findings)
    (clearIndex : Clear later index.ok index.findings) (note : Note) :
    exists typed, checkSubscript note array index = .ok typed
      ∧ Right env (.subscript note arrayNode indexNode) typed
      ∧ Clear (premises ++ later ++ subscriptPremises env arrayNode indexNode note.span)
        typed.ok typed.findings := by
  have indexed : Violations [.about env indexNode (Same · .integer) .index indexNode.span]
      (operandFindings .integer index.type .index index.part.span) :=
    knowsIndex.operand_here finished
  have outcome : forall found, Violations [.about env arrayNode
        (fun type => exists length elem, type = .array length elem) .notArray note.span] found ->
      Clear (premises ++ later ++ subscriptPremises env arrayNode indexNode note.span)
        (array.ok && index.ok
          && (found ++ operandFindings .integer index.type .index index.part.span).isEmpty)
        (array.findings ++ index.findings ++ found
          ++ operandFindings .integer index.type .index index.part.span) := by
    intro found asked
    rw [List.append_assoc (array.findings ++ index.findings)]
    exact (clearArray.and clearIndex).own (asked.append indexed)
  unfold checkSubscript
  dsimp only
  split
  · rename_i failed
    have clear := outcome [] (knowsArray.skipped failed)
    rw [Typed.ok, failed] at clear
    exact ⟨_, rfl, right_of_failed rfl, clear⟩
  · rename_i unknown
    exact ((knowsArray.right _ unknown).sized finished).proper.elim
  · rename_i length elem found
    have clear := outcome [] (knowsArray.kept found ⟨length, elem, rfl⟩)
    rw [Typed.ok, found, Option.isSome_some, Bool.true_and, List.nil_append] at clear
    split
    · rename_i suits
      rw [suits] at clear
      rcases Bool.and_eq_true_iff.mp suits with ⟨ok, clean⟩
      refine ⟨_, rfl, ?_, clear⟩
      intro type result
      cases result
      exact .subscript (knowsArray.right _ found)
        (knowsIndex.right.operand finished rfl ok (List.isEmpty_iff.mp clean))
    · rename_i suits
      rw [Bool.eq_false_iff.mpr suits] at clear
      exact ⟨_, rfl, right_of_failed rfl, clear⟩
  · rename_i found _ notArray known
    have clear := outcome _ (knowsArray.violated known fun ⟨length, elem, same⟩ =>
      notArray length elem same)
    rw [List.cons_append, List.isEmpty_cons, Bool.and_false] at clear
    exact ⟨_, rfl, right_of_failed rfl, clear⟩

/-- The findings about arguments are those for what is asked of them. -/
theorem violations_argumentFindings (knows : List.Forall₂ (Knows env) nodes args) (name : String)
    (span : Span) (position : Nat) (params : List Ty) :
    Violations (argumentPremises env name span position params nodes)
      (argumentFindings name span position params args) := by
  induction knows generalizing position params with
  | nil => cases params <;> exact .nil
  | @cons node arg nodes args knows _ ih =>
    cases params with
    | nil => exact .nil
    | cons param params =>
      rw [argumentFindings]
      cases passed : arg.type with
      | none =>
        exact ((knows.skipped passed).append (knows.skipped passed)).append (ih _ params)
      | some found =>
        exact (knows.suited passed (Same · param) (knows.equal_iff finished passed) _ _).append
          (ih _ params)

theorem takesArgs_of_knows {name position params} (knows : List.Forall₂ (Knows env) nodes args)
    (ok : args.all Typed.ok = true) (length : args.length = params.length)
    (clean : argumentFindings name span position params args = []) :
    TakesArgs env params nodes (args.map Typed.part) := by
  induction knows generalizing params position with
  | nil =>
    cases params with
    | nil => exact .nil
    | cons _ _ => cases length
  | @cons node arg nodes args here _ ih =>
    cases params with
    | nil => cases length
    | cons param params =>
      rcases Bool.and_eq_true_iff.mp ok with ⟨okHere, okRest⟩
      rcases Option.isSome_iff_exists.mp okHere with ⟨found, passed⟩
      have judged := here.right found passed
      rw [argumentFindings, passed] at clean
      rcases List.append_eq_nil_iff.mp clean with ⟨cleanHere, cleanRest⟩
      have rest := ih okRest (Nat.succ.inj length) cleanRest
      dsimp only at cleanHere
      split at cleanHere
      · cases cleanHere
      rename_i equal
      split at cleanHere
      · cases cleanHere
      rename_i placed
      refine .cons judged ⟨?_, ?_⟩ rest
      · exact (same_of_equal (judged.sized finished).proper (by simpa using equal)).symm
      · intro composite
        exact judged.isAddressable_iff.mp (by simpa [composite] using placed)

theorem right_checkCall {note name callee out} (binds : Binds env name out (.function callee))
    (knows : List.Forall₂ (Knows env) nodes args) (previous : Option Callee) :
    Right env (.call note name nodes previous)
      (checkCall (callNote note out callee.signature.result) name args (some callee)) := by
  intro type passed
  rcases Option.ite_none_right_eq_some.mp passed with ⟨suited, result⟩
  cases result
  rcases Bool.and_eq_true_iff.mp suited with ⟨ok, clean⟩
  simp only [Option.map_some, Option.getD_some] at clean
  split at clean
  · cases clean
  rename_i sameLength
  exact .call binds (takesArgs_of_knows finished knows ok (by simpa using sameLength)
    (List.isEmpty_iff.mp clean))

theorem clear_checkCall {name callee note} (knows : List.Forall₂ (Knows env) nodes args)
    (clear : Clear premises (args.all Typed.ok) (args.flatMap Typed.findings)) :
    Clear (premises ++ callPremises env name note.span callee.signature.params nodes)
      (checkCall note name args (some callee)).ok
      (checkCall note name args (some callee)).findings := by
  dsimp only [checkCall, Option.map_some, Option.getD_some]
  rw [ok_ite]
  refine clear.own ?_
  rw [callPremises, knows.length_eq]
  by_cases lengths : args.length = callee.signature.params.length
  · rw [if_pos lengths, if_neg (by simpa using lengths)]
    exact violations_argumentFindings finished knows _ _ _ _
  · rw [if_neg lengths, if_pos (by simpa using lengths)]
    exact .violated ⟨not_false, rfl, rfl⟩ .nil

end Forms

mutual

/-- Checking the resolved form of an expression gives the right answer, with a finding for each
premise that is violated. -/
theorem answers_checkExpr {env} (finished : env.Finished) {node resolved} :
    ScopedExpr env node resolved ->
    exists typed, checkExpr resolved = .ok typed ∧ Right env node typed
      ∧ exists premises, ExprPremises env node premises ∧ Clear premises typed.ok typed.findings
  | .number => ⟨_, rfl, fun _ passed => by cases passed; exact .number, [], .number, .passes⟩
  | .real => ⟨_, rfl, fun _ passed => by cases passed; exact .real, [], .real, .passes⟩
  | .bool => ⟨_, rfl, fun _ passed => by cases passed; exact .bool, [], .bool, .passes⟩
  | .char => ⟨_, rfl, fun _ passed => by cases passed; exact .char, [], .char, .passes⟩
  | .ident binds => by
    have sized : Sized _ := binds.holds finished
    refine ⟨_, congrArg Except.ok (notedType_of_known sized.known), ?_, [], .ident, .passes⟩
    intro type passed
    cases passed
    exact .ident binds
  | .member base => by
    rcases answers_checkExpr finished base with ⟨_, passed, right, _, asked, clear⟩
    have knows := right.knows finished base passed
    rw [checkExpr, passed]
    rcases answers_checkMember finished knows clear _ _ _ with ⟨typed, answered, right, clear⟩
    exact ⟨typed, answered, right, _, .member asked, clear⟩
  | .subscript array index => by
    rcases answers_checkExpr finished array with ⟨_, passed, right, _, asked, clear⟩
    rcases answers_checkExpr finished index with ⟨_, passed', right', _, asked', clear'⟩
    have knows := right.knows finished array passed
    have knows' := right'.knows finished index passed'
    rw [checkExpr, passed, passed']
    rcases answers_checkSubscript finished knows knows' clear clear' _
      with ⟨typed, answered, right, clear⟩
    exact ⟨typed, answered, right, _, .subscript asked asked', clear⟩
  | .unary rule operand => by
    rcases answers_checkExpr finished operand with ⟨_, passed, right, _, asked, clear⟩
    have knows := right.knows finished operand passed
    rw [checkExpr, passed, unary_iff.mpr rule]
    refine ⟨_, rfl, ?_, _, .unary rule asked, ?_⟩
    · intro type result
      rcases Option.ite_none_right_eq_some.mp result with ⟨suited, ⟨⟩⟩
      rcases Bool.and_eq_true_iff.mp suited with ⟨ok, clean⟩
      exact .unary rule (right.operand finished rule.scalar.1 ok (List.isEmpty_iff.mp clean))
    · rw [ok_ite]
      exact clear.own (knows.operand finished fun _ _ => rfl)
  | .binary rule left right => by
    rcases answers_checkExpr finished left with ⟨_, passedLeft, rightLeft, _, askedLeft, clearLeft⟩
    rcases answers_checkExpr finished right
      with ⟨_, passedRight, rightRight, _, askedRight, clearRight⟩
    have knowsLeft := rightLeft.knows finished left passedLeft
    have knowsRight := rightRight.knows finished right passedRight
    rw [checkExpr, passedLeft, passedRight, binary_iff.mpr rule]
    refine ⟨_, rfl, ?_, _, .binary rule askedLeft askedRight, ?_⟩
    · intro type result
      rcases Option.ite_none_right_eq_some.mp result with ⟨suited, ⟨⟩⟩
      rcases Bool.and_eq_true_iff.mp suited with ⟨ok, clean⟩
      rcases Bool.and_eq_true_iff.mp ok with ⟨okLeft, okRight⟩
      rcases List.append_eq_nil_iff.mp (List.isEmpty_iff.mp clean) with ⟨cleanLeft, cleanRight⟩
      exact .binary rule (rightLeft.operand finished rule.scalar.1 okLeft cleanLeft)
        (rightRight.operand finished rule.scalar.1 okRight cleanRight)
    · rw [ok_ite]
      exact (clearLeft.and clearRight).own
        ((knowsLeft.operand_here finished).append (knowsRight.operand_here finished))
  | .call binds args => by
    rcases answers_checkExprs finished args with ⟨_, passed, knows, _, asked, clear⟩
    rw [checkExpr, passed]
    exact ⟨_, rfl, right_checkCall finished binds knows _, _, .call binds asked,
      clear_checkCall finished knows clear⟩

theorem answers_checkExprs {env} (finished : env.Finished) {nodes resolved} :
    ScopedExprs env nodes resolved ->
    exists args, checkExprs resolved = .ok args ∧ List.Forall₂ (Knows env) nodes args
      ∧ exists premises, ExprsPremises env nodes premises
        ∧ Clear premises (args.all Typed.ok) (args.flatMap Typed.findings)
  | .nil => ⟨[], rfl, .nil, [], .nil, .passes⟩
  | .cons first rest => by
    rcases answers_checkExpr finished first with ⟨_, passed, right, _, asked, clear⟩
    rcases answers_checkExprs finished rest with ⟨_, passedRest, knowsRest, _, askedRest, clearRest⟩
    have knows := right.knows finished first passed
    rw [checkExprs, passed, passedRest]
    exact ⟨_, rfl, .cons knows knowsRest, _, .cons asked askedRest, clear.and clearRest⟩

end

/-- What is known of an expression by itself. -/
theorem answers_expr (finished : env.Finished) {resolved} (judged : ScopedExpr env node resolved) :
    exists typed, checkExpr resolved = .ok typed ∧ Knows env node typed
      ∧ exists premises, ExprPremises env node premises
        ∧ Clear premises typed.ok typed.findings := by
  rcases answers_checkExpr finished judged with ⟨typed, passed, right, answer⟩
  exact ⟨typed, passed, right.knows finished judged passed, answer⟩

/-! ## Statements -/

section Stores

variable {Place : Ty -> Prop} {value : Node} {premises : List Premise}

/-- What is found about a store into a place of one type. -/
theorem violations_checkStore (knows : Knows env value typed) (proper : Proper wanted)
    (unique : forall type, Place type <-> type = wanted) (storage : Storage) (span : Span) :
    Violations (storePremises .staged env storage span Place value)
      (checkStore storage span wanted typed).2 := by
  unfold storePremises Premise.stored
  simp only [unique, exists_eq_left, forall_const]
  cases passed : typed.type with
  | none =>
    rw [checkStore, passed]
    exact (knows.skipped passed).append (knows.skipped passed)
  | some found =>
    have equal_iff : wanted.equal found = true <-> Same wanted found :=
      ⟨same_of_equal proper, equal_of_same⟩
    simp only [checkStore, passed, apply_ite Prod.snd]
    exact knows.suited passed (Same wanted) equal_iff _ _

/-- Without a place nothing is asked of the value. -/
theorem violations_storePremises (missing : forall type, ¬ Place type) (storage : Storage)
    (span : Span) : Violations (storePremises .staged env storage span Place value) [] :=
  .kept (fun _ _ ⟨type, place, _⟩ => missing type place)
    (.kept (fun _ _ ⟨type, place, _⟩ => missing type place) .nil)

/-- A value to store is in order if it passes and suits its place. -/
theorem clear_checkStore (knows : Knows env value typed)
    (clear : Clear premises typed.ok typed.findings) (proper : Proper wanted)
    (unique : forall type, Place type <-> type = wanted) (storage : Storage) (span : Span) :
    Clear (premises ++ storePremises .staged env storage span Place value)
      (checkStore storage span wanted typed).1
      (typed.findings ++ (checkStore storage span wanted typed).2) := by
  have ok_eq : (checkStore storage span wanted typed).1
      = (typed.ok && (checkStore storage span wanted typed).2.isEmpty) := by
    unfold checkStore Typed.ok
    cases typed.type with
    | none => rfl
    | some found =>
      dsimp only
      split
      · rfl
      · split <;> rfl
  rw [ok_eq]
  exact clear.own (violations_checkStore knows proper unique storage span)

theorem accepts_of_checkStore {storage} (right : Right env value typed) (sized : Sized wanted)
    (ok : (checkStore storage span wanted typed).1 = true) :
    exists found, HasType env value found typed.part ∧ Accepts wanted found value := by
  rw [checkStore] at ok
  cases passed : typed.type with
  | none =>
    rw [passed] at ok
    cases ok
  | some found =>
    have judged := right found passed
    rw [passed] at ok
    dsimp only at ok
    split at ok
    · cases ok
    rename_i equal
    split at ok
    · cases ok
    rename_i placed
    refine ⟨found, judged, same_of_equal sized.proper (by simpa using equal), ?_⟩
    intro composite
    exact judged.isAddressable_iff.mp (by simpa [composite] using placed)

end Stores

section Parts

variable {context : Context} {target value : Node}

theorem answers_checkCondition (finished : env.Finished) {test resolved}
    (judged : ScopedExpr env test resolved) (stmt : Conditional) :
    exists verified, checkCondition stmt resolved = .ok verified
      ∧ (verified.ok = true -> HasType env test .boolean verified.part)
      ∧ exists premises, ExprPremises env test premises
        ∧ Clear (premises ++ conditionPremises env stmt test) verified.ok verified.findings := by
  rcases answers_expr finished judged with ⟨_, passed, knows, _, asked, clear⟩
  rw [checkCondition, passed]
  refine ⟨_, rfl, ?_, _, asked, clear.own (knows.operand_here finished)⟩
  intro suited
  rcases Bool.and_eq_true_iff.mp suited with ⟨ok, clean⟩
  exact knows.right.operand finished rfl ok (List.isEmpty_iff.mp clean)

theorem answers_checkAssign (finished : context.env.Finished) (around : Option Around)
    {target' value'} (judgedTarget : ScopedExpr context.env target target')
    (judgedValue : ScopedExpr context.env value value') (note : Note) :
    exists verified, checkAssign note target' value' = .ok verified
      ∧ (verified.ok = true -> TypedStmt (around.map Around.result) context
          (.assign note target value) verified.part context)
      ∧ exists premises,
          StmtPremises .staged around context (.assign note target value) premises context
            ∧ Clear premises verified.ok verified.findings := by
  rcases answers_expr finished judgedTarget with ⟨typedTarget, passed, knows, _, asked, clear⟩
  rcases answers_expr finished judgedValue
    with ⟨_, passedValue, knowsValue, _, askedValue, clearValue⟩
  rw [checkAssign, passed, passedValue, Results.ok_bind, Results.ok_bind]
  dsimp only
  split
  · rename_i failed
    rw [Typed.ok, failed] at clear
    refine ⟨_, rfl, (absurd · Bool.false_ne_true), _, .assign asked askedValue,
      (clear.kept (knows.skipped failed)).and (clearValue.kept (violations_storePremises ?_ _ _))⟩
    rintro type ⟨types, _⟩
    cases failed.symm.trans (knows.complete types)
  · rename_i wanted found
    have judged := knows.right wanted found
    have place_iff := judged.isAddressable_iff
    split
    · rename_i addressable
      have place := place_iff.mp addressable
      have assignable : Violations [.about context.env target (fun _ => IsPlace target)
          (fun _ => .notAssignable target.kind) target.span] [] :=
        knows.kept found place
      rw [Typed.ok, found] at clear
      rw [List.append_assoc typedTarget.findings]
      refine ⟨_, rfl, ?_, _, .assign asked askedValue, (clear.kept assignable).and
        (clear_checkStore knowsValue clearValue (judged.sized finished).proper ?_ _ _)⟩
      · intro ok
        rcases accepts_of_checkStore knowsValue.right (judged.sized finished) ok
          with ⟨_, judgedValue, accepts⟩
        exact .assign judged place judgedValue accepts
      · intro type
        constructor
        · rintro ⟨types, _⟩
          cases found.symm.trans (knows.complete types)
          rfl
        · intro same
          cases same
          exact ⟨knows.types found, fun _ => place⟩
    · rename_i notAddressable
      have notPlace := mt place_iff.mpr notAddressable
      rw [judged.same_form.1, judged.same_form.2]
      exact ⟨_, rfl, (absurd · Bool.false_ne_true), _, .assign asked askedValue,
        (clear.fails (knows.violated found notPlace)).and
          (clearValue.kept (violations_storePremises (fun _ place => notPlace (place.2 rfl)) _ _))⟩

theorem answers_checkReturn (finished : context.env.Finished) (around : Option Around) {resolved}
    (judged : ScopedExpr context.env value resolved) (note : Note) :
    exists verified, checkReturn around note resolved = .ok verified
      ∧ (verified.ok = true -> TypedStmt (around.map Around.result) context (.ret note value)
          verified.part context)
      ∧ exists premises, StmtPremises .staged around context (.ret note value) premises context
        ∧ Clear premises verified.ok verified.findings := by
  rcases answers_expr finished judged with ⟨_, passed, knows, _, asked, clear⟩
  cases around with
  | none =>
    rw [checkReturn, if_pos (present_of_scoped judged), passed]
    have stray : Clear (strayPremises none note.span) false
        [TypeIssue.strayReturn.foundAt note.span] :=
      ⟨.plain_violated nofun, rfl⟩
    exact ⟨_, rfl, nofun, _, .retValue asked, stray.and (clear.kept .nil)⟩
  | some around =>
    rw [checkReturn, if_pos (present_of_scoped judged), passed]
    have inside : Clear (strayPremises (some around) note.span) true [] :=
      ⟨.plain_kept rfl, rfl⟩
    refine ⟨_, rfl, ?_, _, .retValue asked, inside.and (clear.own (knows.operand_here finished))⟩
    intro suited
    rcases Bool.and_eq_true_iff.mp suited with ⟨ok, clean⟩
    rcases Option.isSome_iff_exists.mp ok with ⟨found, foundEq⟩
    have judged := knows.right found foundEq
    rw [foundEq] at clean
    exact .ret rfl judged
      (same_of_operandFindings (judged.sized finished) (List.isEmpty_iff.mp clean))

end Parts

mutual

/-- Checking the resolved form of a statement gives an answer: if it passes the statement is well
typed, and there is a finding for each of its premises that is violated. -/
theorem answers_checkStmt (around : Option Around) {context behind node resolved} :
    ScopedStmt context node resolved behind -> context.env.Finished ->
    exists verified, checkStmt around resolved = .ok verified
      ∧ (verified.ok = true ->
          TypedStmt (around.map Around.result) context node verified.part behind)
      ∧ exists premises, StmtPremises .staged around context node premises behind
        ∧ Clear premises verified.ok verified.findings
  | .block stmts, finished => by
    rcases answers_checkStmts around stmts (Context.enter_finished finished)
      with ⟨_, passed, typed, _, asked, clear⟩
    rw [checkStmt, passed]
    exact ⟨_, rfl, fun ok => .block (typed ok), _, .block asked, clear⟩
  | .varDecl denotes free, _ =>
    ⟨_, rfl, fun _ => .varDecl denotes free, [], .varDecl denotes, .passes⟩
  | .varDeclInit init denotes free, finished => by
    rcases answers_expr finished init with ⟨_, passed, knows, _, asked, clear⟩
    have sized := denotes.sized finished
    rw [checkStmt, checkVarDecl, if_pos (present_of_scoped init), passed]
    refine ⟨_, rfl, ?_, _, .varDeclInit asked denotes,
      clear_checkStore knows clear sized.proper (fun _ => .rfl) _ _⟩
    intro ok
    rcases accepts_of_checkStore knows.right sized ok with ⟨_, judged, accepts⟩
    exact .varDeclInit judged denotes free accepts
  | .assign target value, finished => by
    rw [checkStmt]
    exact answers_checkAssign finished around target value _
  | .branch test thenBody, finished => by
    rcases answers_checkCondition finished test .branch
      with ⟨_, passedTest, typedTest, _, askedTest, clearTest⟩
    rcases answers_checkStmt around thenBody finished
      with ⟨_, passedThen, typedThen, _, askedThen, clearThen⟩
    rw [checkStmt, passedTest, passedThen]
    refine ⟨_, rfl, ?_, _, .branch askedTest askedThen .absent,
      (clearTest.and clearThen).and .passes⟩
    intro ok
    rcases Bool.and_eq_true_iff.mp ok with ⟨ok, _⟩
    rcases Bool.and_eq_true_iff.mp ok with ⟨testOk, thenOk⟩
    exact .branch (typedTest testOk) (typedThen thenOk)
  | .branchElse test thenBody elseBody, finished => by
    rcases answers_checkCondition finished test .branch
      with ⟨_, passedTest, typedTest, _, askedTest, clearTest⟩
    rcases answers_checkStmt around thenBody finished
      with ⟨_, passedThen, typedThen, _, askedThen, clearThen⟩
    rcases answers_checkStmt around elseBody (thenBody.grows.finished finished)
      with ⟨_, passedElse, typedElse, _, askedElse, clearElse⟩
    rw [checkStmt, passedTest, passedThen, passedElse]
    refine ⟨_, rfl, ?_, _, .branch askedTest askedThen askedElse,
      (clearTest.and clearThen).and clearElse⟩
    intro ok
    rcases Bool.and_eq_true_iff.mp ok with ⟨ok, elseOk⟩
    rcases Bool.and_eq_true_iff.mp ok with ⟨testOk, thenOk⟩
    exact .branchElse (typedTest testOk) (typedThen thenOk) (typedElse elseOk)
  | .loop test body, finished => by
    rcases answers_checkCondition finished test .loop
      with ⟨_, passedTest, typedTest, _, askedTest, clearTest⟩
    rcases answers_checkStmt around body finished
      with ⟨_, passedBody, typedBody, _, askedBody, clearBody⟩
    rw [checkStmt, passedTest, passedBody]
    refine ⟨_, rfl, ?_, _, .loop askedTest askedBody, clearTest.and clearBody⟩
    intro ok
    rcases Bool.and_eq_true_iff.mp ok with ⟨testOk, bodyOk⟩
    exact .loop (typedTest testOk) (typedBody bodyOk)
  | .ret, _ => by
    rw [checkStmt]
    cases around with
    | none => exact ⟨_, rfl, nofun, _, .ret, .append (.plain_violated nofun) .nil, rfl⟩
    | some around =>
      exact ⟨_, rfl, nofun, _, .ret, .append (.plain_kept rfl) (.plain_violated not_false), rfl⟩
  | .retValue value, finished => by
    rw [checkStmt]
    exact answers_checkReturn finished around value _

theorem answers_checkStmts (around : Option Around) {context behind nodes resolved} :
    ScopedStmts context nodes resolved behind ->
    context.env.Finished ->
    exists verified, checkStmts around resolved = .ok verified
      ∧ (verified.ok = true ->
          TypedStmts (around.map Around.result) context nodes verified.part behind)
      ∧ exists premises, StmtsPremises .staged around context nodes premises behind
        ∧ Clear premises verified.ok verified.findings
  | .nil, _ => ⟨_, rfl, fun _ => .nil, [], .nil, .passes⟩
  | .cons first rest, finished => by
    rcases answers_checkStmt around first finished with ⟨_, passed, typed, _, asked, clear⟩
    rcases answers_checkStmts around rest (first.grows.finished finished)
      with ⟨_, passedRest, typedRest, _, askedRest, clearRest⟩
    rw [checkStmts, passed, passedRest]
    refine ⟨_, rfl, ?_, _, .cons asked askedRest, clear.and clearRest⟩
    intro ok
    rcases Bool.and_eq_true_iff.mp ok with ⟨firstOk, restOk⟩
    exact .cons (typed firstOk) (typedRest restOk)

end

end Typing
end PCode
