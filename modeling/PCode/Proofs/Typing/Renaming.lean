import Mathlib.Data.List.Forall2
import PCode.Proofs.Findings
import PCode.Proofs.Renaming
import PCode.Proofs.Results
import PCode.Typing

namespace PCode

open Diagnostics (Matches Rephrases errors)
open Results (Alike)

/-!
Type checking under new names and other settings.

The check compares types, and looks for fields in structures.  Both come out the same under new
names, so the check of a renamed tree goes the way of the check of the tree itself, and writes the
same notes under new names.  Settings decide which warnings are reported and nothing else.  On the
way it is seen that types are reported against each other only if they are not equal.
-/

/-- The types that an issue holds against each other, in the order of the comparison. -/
def TypeIssue.compared? : TypeIssue -> Option (Ty × Ty)
  | .stored _ found wanted => some (wanted, found)
  | .argument _ _ found wanted => some (found, wanted)
  | .wrongResult _ found wanted => some (found, wanted)
  | .operand _ wanted found => some (found, wanted)
  | .leftOperand _ wanted found => some (found, wanted)
  | .rightOperand _ wanted found => some (found, wanted)
  | .condition _ found => some (found, .boolean)
  | .index found => some (found, .integer)
  | _ => none

namespace Typing

/-- If a finding is an error, it is one in types and does not hold equal types against each
other. -/
def Telling (finding : Diagnostic) : Prop :=
  finding.isError = true -> exists issue span, finding = TypeIssue.foundAt issue span
    ∧ forall left right, issue.compared? = some (left, right) -> left.equal right = false

variable (new : Renaming) {same : Prop}

/-- What the check of a part reports under new names. -/
abbrev Retells (findings later : List Diagnostic) : Prop :=
  Matches Telling True (new = .keep) findings later

variable {new} in
theorem retold {issue later : TypeIssue} (span : Span)
    (rephrased : later.category = issue.category := by rfl)
    (equal : new = .keep -> later = issue := by rintro rfl; simp [Ty.renameFields_keep])
    (apart : forall left right, issue.compared? = some (left, right) ->
      left.equal right = false := by rintro _ _ ⟨⟩) :
    Retells new [issue.foundAt span] [later.foundAt span] :=
  .error span rephrased (fun kept => by rw [equal kept]) fun _ => ⟨issue, span, rfl, apart⟩

/-! ## Expressions -/

/-- A checked expression is another one under new names. -/
structure TypesAlike (first later : Typed) : Prop where
  part : later.part = first.part.rename new
  type : later.type = first.type.map (Ty.rename new)
  findings : Retells new first.findings later.findings

theorem TypesAlike.ok {first later} (alike : TypesAlike new first later) : later.ok = first.ok := by
  rw [Typed.ok, Typed.ok, alike.type, Option.isSome_map]

theorem TypesAlike.span {first later} (alike : TypesAlike new first later) :
    later.part.span = first.part.span := by
  rw [alike.part, Node.span_rename]

theorem notedType_rename (node : Node) :
    TypesAlike new (notedType node) (notedType (node.rename new)) := by
  refine ⟨rfl, ?_, .nil⟩
  simp only [notedType, Node.type_rename, Ty.isKnown_rename]
  split <;> rfl

theorem operandFindings_rename (wanted : Ty) {operand operand'}
    (alike : TypesAlike new operand operand') (issue issue' : Ty -> TypeIssue) {span span'}
    (located : span' = span) (rephrased : forall type : Ty,
      (issue' (type.rename new)).category = (issue type).category := by exact fun _ => rfl)
    (equal : new = .keep -> issue' = issue := by exact fun _ => rfl) (compared : forall type : Ty,
      (issue type).compared? = some (type, wanted) := by exact fun _ => rfl) :
    Retells new (operandFindings wanted operand.type issue span)
      (operandFindings (wanted.rename new) operand'.type issue' span') := by
  rw [alike.type, located]
  cases operand.type with
  | none => exact .nil
  | some type =>
    simp only [Option.map_some, operandFindings, Ty.equal_rename]
    split
    · exact .nil
    · rename_i differ
      refine retold span (rephrased type) ?_ ?_
      · rintro rfl
        rw [equal rfl, Ty.rename_keep]
      · rintro _ _ pair
        cases (compared type).symm.trans pair
        exact Bool.eq_false_iff.mpr differ

theorem checkMember_rename (note : Note) {base base'} (alike : TypesAlike new base base')
    (field : String) (offset : Int64) :
    Alike (TypesAlike new) (checkMember note base field offset)
      (checkMember (note.rename new) base' (new.fields field) offset) := by
  unfold checkMember
  rw [alike.part, alike.type]
  cases base.type with
  | none => exact .ok ⟨rfl, rfl, alike.findings⟩
  | some type =>
    cases type with
    | unknown => exact .error _ _
    | struct name fields =>
      have found := Ty.field?_rename new field (.struct name fields)
      simp only [Ty.rename] at found
      simp only [Option.map_some, Ty.rename, found]
      cases (Ty.struct name fields).field? field with
      | none => exact .ok ⟨rfl, rfl, alike.findings.append (retold note.span)⟩
      | some place => exact .ok ⟨rfl, rfl, alike.findings⟩
    | _ => exact .ok ⟨rfl, rfl, alike.findings.append (retold note.span)⟩

theorem checkSubscript_rename (note : Note) {array array' index index'}
    (alikeArray : TypesAlike new array array') (alikeIndex : TypesAlike new index index') :
    Alike (TypesAlike new) (checkSubscript note array index)
      (checkSubscript (note.rename new) array' index') := by
  have indexFindings : Retells new
      (operandFindings .integer index.type .index index.part.span)
      (operandFindings .integer index'.type .index index'.part.span) :=
    operandFindings_rename new .integer alikeIndex .index .index alikeIndex.span
  have located : forall findings later : List Diagnostic, Retells new findings later ->
      Retells new (array.findings ++ index.findings ++ findings
          ++ operandFindings .integer index.type .index index.part.span)
        (array'.findings ++ index'.findings ++ later
          ++ operandFindings .integer index'.type .index index'.part.span) :=
    fun _ _ here =>
      ((alikeArray.findings.append alikeIndex.findings).append here).append indexFindings
  unfold checkSubscript
  dsimp only
  rw [indexFindings.isEmpty_eq, alikeIndex.ok, alikeArray.type, alikeArray.part, alikeIndex.part]
  rw [alikeIndex.part] at located
  cases array.type with
  | none => exact .ok ⟨rfl, rfl, located _ _ .nil⟩
  | some type =>
    cases type with
    | unknown => exact .error _ _
    | array length elem =>
      simp only [Option.map_some, Ty.rename]
      split
      · exact .ok ⟨rfl, rfl, located _ _ .nil⟩
      · exact .ok ⟨rfl, rfl, located _ _ .nil⟩
    | _ => exact .ok ⟨rfl, rfl, located _ _ (retold note.span)⟩

variable {args args' : List Typed}

theorem argumentFindings_rename (function : String) (span : Span) (position : Nat)
    (params : List Ty) (alike : List.Forall₂ (TypesAlike new) args args') :
    Retells new (argumentFindings function span position params args)
      (argumentFindings (new.names function) span position (params.map (Ty.rename new)) args') := by
  induction alike generalizing position params with
  | nil => cases params <;> exact .nil
  | @cons arg arg' args args' here _ ih =>
    cases params with
    | nil => exact .nil
    | cons param params =>
      rw [List.map_cons, argumentFindings, argumentFindings]
      refine .append ?_ (ih (position + 1) params)
      rw [here.type, here.part]
      cases arg.type with
      | none => exact .nil
      | some found =>
        simp only [Option.map_some, Ty.equal_rename, Ty.isComposite_rename,
          Node.isAddressable_rename, Node.span_rename]
        split
        · rename_i differ
          refine retold span rfl (by rintro rfl; simp) ?_
          rintro _ _ ⟨⟩
          exact Bool.not_eq_true' _ ▸ differ
        · split
          · exact retold _
          · exact .nil

theorem map_part_rename (alike : List.Forall₂ (TypesAlike new) args args') :
    args'.map Typed.part = Node.renameEach new (args.map Typed.part) := by
  induction alike with
  | nil => rfl
  | cons here _ ih =>
    rw [List.map_cons, List.map_cons, Node.renameEach, here.part, ih]

theorem all_ok_rename (alike : List.Forall₂ (TypesAlike new) args args') :
    args'.all Typed.ok = args.all Typed.ok := by
  induction alike with
  | nil => rfl
  | cons here _ ih =>
    rw [List.all_cons, List.all_cons, here.ok, ih]

theorem flatMap_findings_rename (alike : List.Forall₂ (TypesAlike new) args args') :
    Retells new (args.flatMap Typed.findings) (args'.flatMap Typed.findings) := by
  induction alike with
  | nil => exact .nil
  | cons here _ ih => exact here.findings.append ih

theorem checkCall_rename (note : Note) (name : String)
    (alike : List.Forall₂ (TypesAlike new) args args') (callee : Option Callee) :
    TypesAlike new (checkCall note name args callee)
      (checkCall (note.rename new) (new.names name) args' (callee.map (Callee.rename new))) := by
  have signature : (callee.map (Callee.rename new)).map Callee.signature
      = (callee.map Callee.signature).map (Signature.rename new) := by
    cases callee <;> rfl
  have unknown : (((callee.map Callee.signature).map (Signature.rename new)).getD
        { params := [], result := .unknown })
      = ((callee.map Callee.signature).getD { params := [], result := .unknown }).rename new := by
    cases callee <;> rfl
  unfold checkCall
  dsimp only
  rw [signature, unknown]
  generalize (callee.map Callee.signature).getD { params := [], result := .unknown } = known
  have found : Retells new
      (if args.length != known.params.length then
        [(TypeIssue.arity name known.params.length args.length).foundAt note.span]
      else argumentFindings name note.span 1 known.params args)
      (if args'.length != (known.rename new).params.length then
        [(TypeIssue.arity (new.names name) (known.rename new).params.length args'.length).foundAt
          (note.rename new).span]
      else argumentFindings (new.names name) (note.rename new).span 1 (known.rename new).params
        args') := by
    simp only [Signature.rename, List.length_map, alike.length_eq, Note.span_rename]
    split
    · exact retold note.span
    · exact argumentFindings_rename new name note.span 1 known.params alike
  revert found
  generalize (if args.length != known.params.length then _ else _) = findings
  generalize (if args'.length != (known.rename new).params.length then _ else _) = findings'
  intro found
  refine ⟨?_, ?_, (flatMap_findings_rename new alike).append found⟩
  · rw [map_part_rename new alike]
    rfl
  · rw [all_ok_rename new alike, found.isEmpty_eq]
    split <;> rfl

theorem signatureOf_unary_rename (operator : Operator) :
    (signatureOf operator.unary?).operand.rename new = (signatureOf operator.unary?).operand
      ∧ (signatureOf operator.unary?).result.rename new
          = (signatureOf operator.unary?).result := by
  cases operator <;> exact ⟨rfl, rfl⟩

theorem signatureOf_binary_rename (operator : Operator) :
    (signatureOf operator.binary?).operand.rename new = (signatureOf operator.binary?).operand
      ∧ (signatureOf operator.binary?).result.rename new
          = (signatureOf operator.binary?).result := by
  cases operator <;> exact ⟨rfl, rfl⟩

mutual

/-- An expression is checked under new names as it is under the old ones. -/
theorem checkExpr_rename (node : Node) :
    Alike (TypesAlike new) (checkExpr node) (checkExpr (node.rename new)) := by
  cases node with
  | absent => exact .error _ _
  | number note value => exact .ok (notedType_rename new (.number note value))
  | real note value => exact .ok (notedType_rename new (.real note value))
  | bool note value => exact .ok (notedType_rename new (.bool note value))
  | char note code => exact .ok (notedType_rename new (.char note code))
  | ident note name => exact .ok (notedType_rename new (.ident note name))
  | member note base field offset =>
    rw [Node.rename, checkExpr, checkExpr]
    exact (checkExpr_rename base).bind fun _ _ alike =>
      checkMember_rename new note alike field offset
  | subscript note array index =>
    rw [Node.rename, checkExpr, checkExpr]
    apply (checkExpr_rename array).bind
    intro _ _ alikeArray
    exact (checkExpr_rename index).bind fun _ _ alikeIndex =>
      checkSubscript_rename new note alikeArray alikeIndex
  | unary note operator operand =>
    have scalar := signatureOf_unary_rename new operator
    rw [Node.rename, checkExpr, checkExpr]
    apply (checkExpr_rename operand).bind
    intro typed typed' alike
    have found := operandFindings_rename new (signatureOf operator.unary?).operand alike
      (.operand operator (signatureOf operator.unary?).operand)
      (.operand operator (signatureOf operator.unary?).operand) (Note.span_rename new note)
    rw [scalar.1] at found
    refine .ok ⟨?_, ?_, alike.findings.append found⟩
    · dsimp only
      rw [alike.part]
      rfl
    · dsimp only
      rw [alike.ok, found.isEmpty_eq]
      split
      · rw [Option.map_some, scalar.2]
      · rfl
  | binary note operator left right =>
    have scalar := signatureOf_binary_rename new operator
    rw [Node.rename, checkExpr, checkExpr]
    apply (checkExpr_rename left).bind
    intro first first' alikeLeft
    apply (checkExpr_rename right).bind
    intro second second' alikeRight
    have foundLeft := operandFindings_rename new (signatureOf operator.binary?).operand
      alikeLeft (.leftOperand operator (signatureOf operator.binary?).operand)
      (.leftOperand operator (signatureOf operator.binary?).operand) alikeLeft.span
    have foundRight := operandFindings_rename new (signatureOf operator.binary?).operand
      alikeRight (.rightOperand operator (signatureOf operator.binary?).operand)
      (.rightOperand operator (signatureOf operator.binary?).operand) alikeRight.span
    rw [scalar.1] at foundLeft foundRight
    have found := foundLeft.append foundRight
    refine .ok ⟨?_, ?_, (alikeLeft.findings.append alikeRight.findings).append found⟩
    · dsimp only
      rw [alikeLeft.part, alikeRight.part]
      rfl
    · dsimp only
      rw [alikeLeft.ok, alikeRight.ok, found.isEmpty_eq]
      split
      · rw [Option.map_some, scalar.2]
      · rfl
  | call note name args callee =>
    rw [Node.rename, checkExpr, checkExpr]
    exact (checkExprs_rename args).bind fun _ _ alike =>
      .ok (checkCall_rename new note name alike callee)
  | _ => exact .ok ⟨rfl, rfl, retold _⟩

theorem checkExprs_rename : forall nodes : List Node,
    Alike (List.Forall₂ (TypesAlike new)) (checkExprs nodes)
      (checkExprs (Node.renameEach new nodes))
  | [] => .ok .nil
  | node :: nodes => by
    rw [Node.renameEach, checkExprs, checkExprs]
    apply (checkExpr_rename node).bind
    intro _ _ first
    exact (checkExprs_rename nodes).bind fun _ _ rest => .ok (.cons first rest)

end

/-! ## Statements -/

/-- A checked part of a program is another one under new names. -/
structure VerifiesAlike {Part : Type} (same : Prop) (change : Part -> Part)
    (first later : Verified Part) : Prop where
  part : later.part = change first.part
  ok : later.ok = first.ok
  findings : Matches Telling same (new = .keep) first.findings later.findings

/-- The place that a value is stored into, under new names. -/
def renameStorage : Storage -> Storage
  | .initializer name => .initializer (new.names name)
  | .assignment => .assignment

@[simp] theorem renameStorage_keep (storage : Storage) : renameStorage .keep storage = storage := by
  cases storage <;> rfl

theorem checkStore_rename (storage : Storage) (span : Span) (wanted : Ty) {value value'}
    (alike : TypesAlike new value value') :
    (checkStore (renameStorage new storage) span (wanted.rename new) value').1
        = (checkStore storage span wanted value).1
      ∧ Retells new (checkStore storage span wanted value).2
          (checkStore (renameStorage new storage) span (wanted.rename new) value').2 := by
  unfold checkStore
  rw [alike.type, alike.part]
  cases value.type with
  | none => exact ⟨rfl, .nil⟩
  | some found =>
    simp only [Option.map_some, Ty.equal_rename, Ty.isComposite_rename,
      Node.isAddressable_rename, Node.span_rename]
    split
    · rename_i differ
      refine ⟨rfl, retold span rfl (by rintro rfl; simp) ?_⟩
      rintro _ _ ⟨⟩
      exact Bool.not_eq_true' _ ▸ differ
    · split
      · exact ⟨rfl, retold _ rfl (by rintro rfl; simp)⟩
      · exact ⟨rfl, .nil⟩

theorem checkVarDecl_rename (note : Note) (name : String) (type : Ty) (init : Node) :
    Alike (VerifiesAlike new True (Node.rename new)) (checkVarDecl note name type init)
      (checkVarDecl (note.rename new) (new.names name) (type.rename new) (init.rename new)) := by
  unfold checkVarDecl
  rw [Node.isPresent_rename]
  split
  · apply (checkExpr_rename new init).bind
    intro value value' alike
    have stored := checkStore_rename new (.initializer name) note.span note.type alike
    refine .ok ⟨?_, stored.1, alike.findings.append stored.2⟩
    dsimp only
    rw [alike.part]
    rfl
  · exact .ok ⟨rfl, rfl, .nil⟩

theorem checkAssign_rename (note : Note) (target value : Node) :
    Alike (VerifiesAlike new True (Node.rename new)) (checkAssign note target value)
      (checkAssign (note.rename new) (target.rename new) (value.rename new)) := by
  unfold checkAssign
  apply (checkExpr_rename new target).bind
  intro first first' alikeTarget
  apply (checkExpr_rename new value).bind
  intro second second' alikeValue
  have part : Node.assign (note.rename new) first'.part second'.part
      = (Node.assign note first.part second.part).rename new := by
    rw [alikeTarget.part, alikeValue.part]
    rfl
  dsimp only
  rw [part, alikeTarget.type, alikeTarget.part]
  cases first.type with
  | none => exact .ok ⟨rfl, rfl, alikeTarget.findings.append alikeValue.findings⟩
  | some wanted =>
    simp only [Option.map_some, Node.isAddressable_rename, Node.span_rename]
    split
    · have stored := checkStore_rename new .assignment note.span wanted alikeValue
      exact .ok ⟨rfl, stored.1, (alikeTarget.findings.append alikeValue.findings).append stored.2⟩
    · refine .ok ⟨rfl, rfl, (alikeTarget.findings.append ?_).append alikeValue.findings⟩
      exact retold _ (by cases first.part <;> rfl)

theorem checkCondition_rename (stmt : Conditional) (test : Node) :
    Alike (VerifiesAlike new True (Node.rename new)) (checkCondition stmt test)
      (checkCondition stmt (test.rename new)) := by
  unfold checkCondition
  apply (checkExpr_rename new test).bind
  intro typed typed' alike
  have found := operandFindings_rename new .boolean alike (.condition stmt) (.condition stmt)
    alike.span
  refine .ok ⟨alike.part, ?_, alike.findings.append found⟩
  dsimp only
  rw [alike.ok, ← found.isEmpty_eq]
  rfl

/-- The function around a statement under new names. -/
def Around.rename (around : Around) : Around where
  name := new.names around.name
  result := around.result.rename new

theorem checkReturn_rename (around : Option Around) (note : Note) (value : Node) :
    Alike (VerifiesAlike new True (Node.rename new)) (checkReturn around note value)
      (checkReturn (around.map (Around.rename new)) (note.rename new) (value.rename new)) := by
  have returned : forall node node' : Node, node' = node.rename new ->
      Node.ret (note.rename new) node' = (Node.ret note node).rename new := by
    rintro node _ rfl
    rfl
  cases around with
  | none =>
    simp only [Option.map_none, checkReturn, Node.isPresent_rename]
    split
    · apply (checkExpr_rename new value).bind
      intro typed typed' alike
      exact .ok ⟨returned _ _ alike.part, rfl, .append (retold note.span) alike.findings⟩
    · exact .ok ⟨rfl, rfl, retold note.span⟩
  | some around =>
    simp only [Option.map_some, checkReturn, Node.isPresent_rename]
    split
    · apply (checkExpr_rename new value).bind
      intro typed typed' alike
      have found := operandFindings_rename new around.result alike
        (fun found => .wrongResult around.name found around.result)
        (fun found => .wrongResult (around.rename new).name found (around.rename new).result)
        alike.span (fun _ => rfl) (by rintro rfl; simp [Around.rename])
      refine .ok ⟨returned _ _ alike.part, ?_, alike.findings.append found⟩
      dsimp only
      rw [alike.ok, ← found.isEmpty_eq]
      rfl
    · exact .ok ⟨rfl, rfl, retold _ rfl (by rintro rfl; simp [Around.rename])⟩

mutual

/-- A statement is checked under new names as it is under the old ones. -/
theorem checkStmt_rename (around : Option Around) (node : Node) :
    Alike (VerifiesAlike new True (Node.rename new)) (checkStmt around node)
      (checkStmt (around.map (Around.rename new)) (node.rename new)) := by
  cases node with
  | block note stmts =>
    rw [Node.rename, checkStmt, checkStmt]
    apply (checkStmts_rename around stmts).bind
    intro _ _ inner
    exact .ok ⟨congrArg (Node.block _) inner.part, inner.ok, inner.findings⟩
  | varDecl note name type init => exact checkVarDecl_rename new note name type init
  | assign note target value => exact checkAssign_rename new note target value
  | branch note test thenBody elseBody =>
    rw [Node.rename, checkStmt, checkStmt]
    apply (checkCondition_rename new .branch test).bind
    intro _ _ first
    apply (checkStmt_rename around thenBody).bind
    intro _ _ second
    apply (checkStmt_rename around elseBody).bind
    intro _ _ third
    refine .ok ⟨?_, ?_, (first.findings.append second.findings).append third.findings⟩
    · dsimp only
      rw [first.part, second.part, third.part]
      rfl
    · dsimp only
      rw [first.ok, second.ok, third.ok]
  | loop note test body =>
    rw [Node.rename, checkStmt, checkStmt]
    apply (checkCondition_rename new .loop test).bind
    intro _ _ first
    apply (checkStmt_rename around body).bind
    intro _ _ second
    refine .ok ⟨?_, ?_, first.findings.append second.findings⟩
    · dsimp only
      rw [first.part, second.part]
      rfl
    · dsimp only
      rw [first.ok, second.ok]
  | ret note value => exact checkReturn_rename new around note value
  | absent => exact .ok ⟨rfl, rfl, .nil⟩
  | _ => exact .ok ⟨rfl, rfl, retold _⟩

theorem checkStmts_rename (around : Option Around) : forall nodes : List Node,
    Alike (VerifiesAlike new True (Node.renameEach new)) (checkStmts around nodes)
      (checkStmts (around.map (Around.rename new)) (Node.renameEach new nodes))
  | [] => .ok ⟨rfl, rfl, .nil⟩
  | node :: nodes => by
    rw [Node.renameEach, checkStmts, checkStmts]
    apply (checkStmt_rename around node).bind
    intro _ _ first
    apply (checkStmts_rename around nodes).bind
    intro _ _ rest
    refine .ok ⟨?_, ?_, first.findings.append rest.findings⟩
    · dsimp only
      rw [first.part, rest.part]
      rfl
    · dsimp only
      rw [first.ok, rest.ok]

end

/-! ## Programs -/

variable (config config' : Config)

theorem checkFunction_rename (node : Node) :
    Alike (VerifiesAlike new (config = config') (Node.rename new)) (checkFunction config node)
      (checkFunction config' (node.rename new)) := by
  cases node with
  | funcDecl note name params result body signature entry =>
    cases signature with
    | none => exact .error _ _
    | some signature =>
      simp only [Node.rename, Option.map_some, checkFunction, Signature.rename,
        Ty.isComposite_rename]
      apply (checkStmt_rename new (some { name, result := signature.result }) body).bind
      intro inner inner' alike
      have composite : Retells new
          (if signature.result.isComposite then
            [(TypeIssue.compositeResult name signature.result).foundAt note.span] else [])
          (if signature.result.isComposite then
            [(TypeIssue.compositeResult (new.names name)
              (signature.result.rename new)).foundAt note.span] else []) :=
        .guarded (retold note.span)
      have returns : Matches Telling (config = config') (new = .keep)
          (returnWarning config name note.span inner.part)
          (returnWarning config' (new.names name) note.span inner'.part) := by
        unfold returnWarning
        rw [alike.part, Node.holdsKind_rename]
        split
        · exact .nil
        · exact .warn config config' (fun _ harmless isError => by grind) _ _ _ _
      refine .ok ⟨?_, ?_, ((composite.append alike.findings).always fun _ => id).append returns⟩
      · dsimp only
        rw [alike.part]
        rfl
      · dsimp only
        rw [alike.ok, ← composite.isEmpty_eq]
        rfl
  | _ => exact .error _ _

theorem checkEach_rename {check check' : Node -> Checked (Verified Node)}
    (each : forall node,
      Alike (VerifiesAlike new same (Node.rename new)) (check node) (check' (node.rename new)))
    (nodes : List Node) :
    Alike (VerifiesAlike new same (Node.renameEach new)) (checkEach check nodes)
      (checkEach check' (Node.renameEach new nodes)) := by
  induction nodes with
  | nil => exact .ok ⟨rfl, rfl, .nil⟩
  | cons node nodes ih =>
    rw [Node.renameEach, checkEach, checkEach]
    apply (each node).bind
    intro _ _ first
    apply ih.bind
    intro _ _ rest
    refine .ok ⟨?_, ?_, first.findings.append rest.findings⟩
    · dsimp only
      rw [first.part, rest.part]
      rfl
    · dsimp only
      rw [first.ok, rest.ok]

/-- A program is checked under new names and other settings as it is under the old ones. -/
theorem run_rename (program : Program) :
    Alike (fun first later => later.1 = first.1.rename new ∧ later.2.ok = first.2.ok
        ∧ Matches Telling (config = config') (new = .keep) first.2.diagnostics
            later.2.diagnostics)
      (run config program) (run config' (program.rename new)) := by
  unfold run
  apply (checkEach_rename new (checkFunction_rename new config config') program.functions).bind
  intro _ _ functions
  apply (checkEach_rename new (checkStmt_rename new none) program.blocks).bind
  intro _ _ blocks
  refine .ok ⟨?_, ?_, functions.findings.append (blocks.findings.always fun _ => id)⟩
  · dsimp only
    rw [functions.part, functions.ok, blocks.part, blocks.ok]
    rfl
  · dsimp only
    rw [functions.ok, blocks.ok]

/-- The check of a program under new names and other settings gives the tree under new names and the
same verdict.  A program that is refused is refused under every name. -/
theorem check_rename {program checked : Program} {judgement}
    (result : program.check config = (checked, .ok judgement)) :
    exists judgement', (program.rename new).check config' = (checked.rename new, .ok judgement')
      ∧ judgement'.ok = judgement.ok
      ∧ Matches Telling (config = config') (new = .keep) judgement.diagnostics
          judgement'.diagnostics := by
  have alike := run_rename new config config' program
  have phase : (program.rename new).phase = program.phase := rfl
  unfold Program.check at result ⊢
  rw [phase]
  split at result
  · rename_i resolved
    rw [if_pos resolved]
    split at result
    · rename_i passed
      cases result
      rcases alike.exists_ok passed with ⟨⟨tree, later⟩, passed', same, ok, findings⟩
      subst same
      rw [passed']
      exact ⟨later, rfl, ok, findings⟩
    · cases result
  · rename_i early
    cases result
    rw [if_neg early]
    exact ⟨_, rfl, rfl, (retold _).always fun _ => id⟩

/-- Settings change nothing but warnings. -/
theorem check_agree {config} (config' : Config) {program checked : Program} {judgement}
    (answered : program.check config = (checked, .ok judgement)) :
    exists judgement', program.check config' = (checked, .ok judgement')
      ∧ judgement'.ok = judgement.ok
      ∧ errors judgement'.diagnostics = errors judgement.diagnostics := by
  rcases check_rename .keep config config' answered with ⟨judgement', answered', ok, found⟩
  rw [Program.rename_keep, Program.rename_keep] at answered'
  exact ⟨judgement', answered', ok, found.errors_eq rfl⟩

end Typing

/-- The check of a program under new names gives the tree under new names, the same verdict, and the
same findings in other words. -/
theorem Program.check_rename (new : Renaming) (config : Config) {program checked : Program}
    {judgement} (result : program.check config = (checked, .ok judgement)) :
    exists judgement', (program.rename new).check config = (checked.rename new, .ok judgement')
      ∧ judgement'.ok = judgement.ok
      ∧ Rephrases judgement.diagnostics judgement'.diagnostics := by
  rcases Typing.check_rename new config config result with ⟨judgement', answered, ok, found⟩
  exact ⟨judgement', answered, ok, found.rephrases rfl⟩

end PCode
