import PCode.Proofs.Findings
import PCode.Proofs.Static.Typing
import PCode.Typing

namespace PCode
namespace Static

open Typing (Around)

/-!
The premises of the typing rules.

The rules ask something of each expression and each statement.  What they ask is listed here for a
whole program, in the order of a walk through it, whether or not it holds.  A premise about the type
of an expression is violated only if the expression has a type; so nothing follows from an
expression that has none but what is wrong inside it.
-/

/-- A premise, known by the issue that it raises where it is violated. -/
abbrev Premise := TypeIssue -> Span -> Prop

/-- The findings for premises: one for each premise that is violated, in their order. -/
inductive Violations : List Premise -> List Diagnostic -> Prop
  | nil : Violations [] []
  | violated {premise premises issue span findings} :
    premise issue span -> Violations premises findings ->
    Violations (premise :: premises) (issue.foundAt span :: findings)
  | kept {premise premises findings} :
    (forall issue span, ¬ premise issue span) -> Violations premises findings ->
    Violations (premise :: premises) findings

namespace Violations

variable {premises later : List Premise} {findings findings' : List Diagnostic}

theorem append (first : Violations premises findings) (second : Violations later findings') :
    Violations (premises ++ later) (findings ++ findings') := by
  induction first with
  | nil => exact second
  | violated raised _ ih => exact .violated raised ih
  | kept holds _ ih => exact .kept holds ih

theorem severe (violations : Violations premises findings) : Diagnostics.Severe findings := by
  induction violations with
  | nil => exact .nil
  | violated _ _ ih => exact .append (.single _ _ _) ih
  | kept _ _ ih => exact ih

/-- A premise that is violated is reported. -/
theorem reports (violations : Violations premises findings) {premise} (asked : premise ∈ premises)
    {issue span} (raised : premise issue span) :
    exists issue' span', premise issue' span' ∧ issue'.foundAt span' ∈ findings := by
  induction violations with
  | nil => cases asked
  | violated found _ ih =>
    rcases List.mem_cons.mp asked with here | later
    · exact ⟨_, _, here ▸ found, List.mem_cons_self⟩
    · rcases ih later with ⟨issue', span', again, member⟩
      exact ⟨issue', span', again, List.mem_cons_of_mem _ member⟩
  | kept holds _ ih =>
    rcases List.mem_cons.mp asked with here | later
    · exact absurd (here ▸ raised) (holds issue span)
    · exact ih later

end Violations

/-- An expression has a type by the rules. -/
def Types (env : Env) (node : Node) (type : Ty) : Prop := exists node', HasType env node type node'

/-- Something that does not depend on types. -/
def Premise.plain (holds : Prop) (issue : TypeIssue) (span : Span) : Premise :=
  fun raised place => ¬ holds ∧ raised = issue ∧ place = span

theorem Violations.plain_kept {holds : Prop} {issue span} (kept : holds) :
    Violations [.plain holds issue span] [] :=
  .kept (fun _ _ raised => raised.1 kept) .nil

theorem Violations.plain_violated {holds : Prop} {issue span} (fails : ¬ holds) :
    Violations [.plain holds issue span] [issue.foundAt span] :=
  .violated ⟨fails, rfl, rfl⟩ .nil

/-- Something that is asked of the type of an expression. -/
def Premise.about (env : Env) (node : Node) (Holds : Ty -> Prop) (issue : Ty -> TypeIssue)
    (span : Span) : Premise :=
  fun raised place =>
    exists type, Types env node type ∧ ¬ Holds type ∧ raised = issue type ∧ place = span

/-! ## Expressions -/

/-- What is asked of access to a field: the base is a structure, and has the field. -/
def memberPremises (env : Env) (base : Node) (field : String) (span : Span) : List Premise :=
  [.about env base (fun found => exists name fields, found = .struct name fields)
      (.notStruct field) span,
    .about env base (fun found => forall name fields, found = .struct name fields ->
      exists type before, FieldAt field fields type before) (.noField field) span]

/-- What is asked of an element: there is an array, and its index is an integer. -/
def subscriptPremises (env : Env) (array index : Node) (span : Span) : List Premise :=
  [.about env array (fun found => exists length elem, found = .array length elem) .notArray span,
    .about env index (Same · .integer) .index index.span]

/-- What is asked of arguments, the first of them at `position`: each has the type of its parameter,
and if that is composite, an argument of this type is a place. -/
def argumentPremises (env : Env) (function : String) (span : Span) :
    Nat -> List Ty -> List Node -> List Premise
  | position, param :: params, arg :: args =>
    .about env arg (Same · param) (.argument function position · param) span
      :: .about env arg (fun found => Same found param -> param.isComposite = true -> IsPlace arg)
        (fun _ => .compositeArgument function position) arg.span
      :: argumentPremises env function span (position + 1) params args
  | _, _, _ => []

/-- What is asked of a call: as many arguments as parameters, and only then something of each. -/
def callPremises (env : Env) (function : String) (span : Span) (params : List Ty)
    (args : List Node) : List Premise :=
  if args.length = params.length then argumentPremises env function span 1 params args
  else [.plain False (.arity function params.length args.length) span]

mutual

/-- The premises of an expression. -/
inductive ExprPremises (env : Env) : Node -> List Premise -> Prop
  | number {note value} : ExprPremises env (.number note value) []
  | real {note value} : ExprPremises env (.real note value) []
  | bool {note value} : ExprPremises env (.bool note value) []
  | char {note code} : ExprPremises env (.char note code) []
  | ident {note name} : ExprPremises env (.ident note name) []
  | member {note base field offset inner} :
    ExprPremises env base inner ->
    ExprPremises env (.member note base field offset)
      (inner ++ memberPremises env base field note.span)
  | subscript {note array index first second} :
    ExprPremises env array first -> ExprPremises env index second ->
    ExprPremises env (.subscript note array index)
      (first ++ second ++ subscriptPremises env array index note.span)
  | unary {note operator wanted result operand inner} :
    UnaryRule operator wanted result -> ExprPremises env operand inner ->
    ExprPremises env (.unary note operator operand)
      (inner ++ [.about env operand (Same · wanted) (.operand operator wanted) note.span])
  | binary {note operator wanted result left right first second} :
    BinaryRule operator wanted result -> ExprPremises env left first ->
    ExprPremises env right second ->
    ExprPremises env (.binary note operator left right)
      (first ++ second
        ++ [.about env left (Same · wanted) (.leftOperand operator wanted) left.span,
          .about env right (Same · wanted) (.rightOperand operator wanted) right.span])
  | call {note name args previous out callee inner} :
    Binds env name out (.function callee) -> ExprsPremises env args inner ->
    ExprPremises env (.call note name args previous)
      (inner ++ callPremises env name note.span callee.signature.params args)

/-- The premises of expressions, one after another. -/
inductive ExprsPremises (env : Env) : List Node -> List Premise -> Prop
  | nil : ExprsPremises env [] []
  | cons {node nodes first rest} :
    ExprPremises env node first -> ExprsPremises env nodes rest ->
    ExprsPremises env (node :: nodes) (first ++ rest)

end

/-! ## Statements -/

/-- How the premises of a store are asked: each of them by itself, or each only if those before it
hold. -/
inductive Asking where
  | each
  | staged
deriving DecidableEq

/-- A value that is stored has the type of its place. -/
def Premise.stored (env : Env) (storage : Storage) (span : Span) (Place : Ty -> Prop)
    (value : Node) : Premise :=
  fun raised place => exists wanted, Place wanted
    ∧ Premise.about env value (Same wanted) (.stored storage · wanted) span raised place

/-- What is asked of a value that is stored into a place of a type: it has this type, and if that is
composite, the value is a place itself. -/
def storePremises (asking : Asking) (env : Env) (storage : Storage) (span : Span)
    (Place : Ty -> Prop) (value : Node) : List Premise :=
  [.stored env storage span Place value,
    fun raised place => exists wanted, Place wanted
      ∧ Premise.about env value
        (fun found => (asking = .staged -> Same wanted found) -> wanted.isComposite = true ->
          IsPlace value)
        (fun _ => .compositeValue storage) value.span raised place]

/-- What is asked of a condition. -/
def conditionPremises (env : Env) (stmt : Conditional) (test : Node) : List Premise :=
  [.about env test (Same · .boolean) (.condition stmt) test.span]

/-- A return stands in a function. -/
def strayPremises (around : Option Around) (span : Span) : List Premise :=
  [.plain (around.isSome = true) .strayReturn span]

/-- What a function asks of the value of a return. -/
def resultPremises (env : Env) (value : Node) : Option Around -> List Premise
  | none => []
  | some around => [.about env value (Same · around.result)
    (.wrongResult around.name · around.result) value.span]

/-- What a function asks of a return without a value. -/
def missingPremises (span : Span) : Option Around -> List Premise
  | none => []
  | some around => [.plain False (.missingResult around.name around.result) span]

section Statements

variable (asking : Asking) (around : Option Around)

mutual

/-- The premises of a statement, which leads from a context to the next one. -/
inductive StmtPremises : Context -> Node -> List Premise -> Context -> Prop
  | absent {context} : StmtPremises context .absent [] context
  | block {context inside note stmts inner} :
    StmtsPremises context.enter stmts inner inside ->
    StmtPremises context (.block note stmts) inner (context.resume inside)
  | varDecl {context note name declared type} :
    Denotes context.env declared type ->
    StmtPremises context (.varDecl note name declared .absent) []
      (context.declare name type false)
  | varDeclInit {context note name declared type init inner} :
    ExprPremises context.env init inner -> Denotes context.env declared type ->
    StmtPremises context (.varDecl note name declared init)
      (inner ++ storePremises asking context.env (.initializer name) note.span (· = type) init)
      (context.declare name type false)
  | assign {context note target value first second} :
    ExprPremises context.env target first -> ExprPremises context.env value second ->
    StmtPremises context (.assign note target value)
      (first ++ [.about context.env target (fun _ => IsPlace target)
          (fun _ => .notAssignable target.kind) target.span]
        ++ (second ++ storePremises asking context.env .assignment note.span
          (fun wanted => Types context.env target wanted ∧ (asking = .staged -> IsPlace target))
          value)) context
  | branch {context between behind note test thenBody elseBody first second third} :
    ExprPremises context.env test first -> StmtPremises context thenBody second between ->
    StmtPremises between elseBody third behind ->
    StmtPremises context (.branch note test thenBody elseBody)
      (first ++ conditionPremises context.env .branch test ++ second ++ third) behind
  | loop {context behind note test body first second} :
    ExprPremises context.env test first -> StmtPremises context body second behind ->
    StmtPremises context (.loop note test body)
      (first ++ conditionPremises context.env .loop test ++ second) behind
  | ret {context note} :
    StmtPremises context (.ret note .absent)
      (strayPremises around note.span ++ missingPremises note.span around) context
  | retValue {context note value inner} :
    ExprPremises context.env value inner ->
    StmtPremises context (.ret note value)
      (strayPremises around note.span ++ (inner ++ resultPremises context.env value around))
      context

/-- The premises of statements, one after another. -/
inductive StmtsPremises : Context -> List Node -> List Premise -> Context -> Prop
  | nil {context} : StmtsPremises context [] [] context
  | cons {context between behind node nodes first rest} :
    StmtPremises context node first between -> StmtsPremises between nodes rest behind ->
    StmtsPremises context (node :: nodes) (first ++ rest) behind

end

end Statements

/-! ## Programs -/

/-- The premises of a function with its signature. -/
inductive FunctionPremises (asking : Asking) (env : Env) : Node -> List Premise -> Prop
  | funcDecl
    {formals behind note bodyNote name params params' stmts declared signature entry inner} :
    ScopedFormals (Context.start env) params params' formals ->
    StmtsPremises asking (some ⟨name, signature.result⟩) formals.enter stmts inner behind ->
    FunctionPremises asking env
      (.funcDecl note name params declared (.block bodyNote stmts) (some signature) entry)
      ([.plain (signature.result.isComposite = false) (.compositeResult name signature.result)
        note.span] ++ inner)

/-- The premises of a block of the main program. -/
inductive TopPremises (asking : Asking) (env : Env) : Node -> List Premise -> Prop
  | block {behind note stmts inner} :
    StmtsPremises asking none (Context.start env) stmts inner behind ->
    TopPremises asking env (.block note stmts) inner

/-- The premises of a program: those of its functions, and then those of its blocks. -/
inductive ProgramPremises (asking : Asking) (program : Program) : List Premise -> Prop
  | intro {structs declared structLayer functionLayer functions blocks} :
    ScopedStructs [] program.structs structs structLayer ->
    ScopedSignatures structLayer [] 0 program.functions declared functionLayer ->
    List.Forall₂ (FunctionPremises asking [functionLayer, structLayer]) declared functions ->
    List.Forall₂ (TopPremises asking [functionLayer, structLayer]) program.blocks blocks ->
    ProgramPremises asking program (functions.flatten ++ blocks.flatten)

end Static
end PCode
