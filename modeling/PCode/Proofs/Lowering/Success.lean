import PCode.Proofs.Lowering.Rules
import PCode.Proofs.Static.Typing

namespace PCode
namespace Lowering

open Static

/-!
Well-typed programs have code.

Lowering has causes to fail that no typing rule mentions: a value that takes more
than one cell, an expression without an address, a call whose function is not
known.  None of them arises.  A composite value is always a place, because no
function returns one, and the forms in which expressions are asked for are the
ones that they have.
-/

/-! ## Forms -/

/-- A binding that may be called: the function is one of the first `count`, and it
returns a scalar. -/
def Callable (count : Nat) : Binding -> Prop
  | .function callee => callee.function < count ∧ callee.signature.result.isComposite = false
  | _ => True

/-- The forms that an expression has: scalars have a value, and places have an
address. -/
def Form.Suits (form : Form) (type : Ty) (node : Node) : Prop :=
  match form with
  | .value => type.isComposite = false
  | .address => IsPlace node

/-- Composite values stand in memory. -/
theorem isPlace_of_composite {count env} (callable : env.All (Callable count)) {node node' type} :
    HasType env node type node' -> type.isComposite = true -> IsPlace node
  | .ident _, _ => .ident
  | .member base _, _ => .member (isPlace_of_composite callable base rfl)
  | .subscript array _, _ => .subscript (isPlace_of_composite callable array rfl)
  | .unary rule _, composite => by
    rw [rule.scalar.2] at composite
    cases composite
  | .binary rule _ _, composite => by
    rw [rule.scalar.2] at composite
    cases composite
  | .call binds _, composite => by
    rcases binds.holds callable with ⟨_, scalar⟩
    rw [scalar] at composite
    cases composite

variable {config : Config} {node node' : Node} {wanted type : Ty} {count start : Nat}

variable {found result : Ty} {operator : Operator} {nodes' : List Node}

/-- What a parameter accepts has the form in which it is passed. -/
theorem suits_of_accepts {param} (accepts : Accepts param found node) :
    (Form.ofParam param).Suits found node := by
  rw [Form.ofParam]
  cases composite : param.isComposite with
  | true => exact accepts.place composite
  | false => exact accepts.same.symm.eq_of_scalar composite ▸ composite

/-- A node that has code in a form. -/
abbrev Lowerable (config : Config) (form : Form) (node : Node) : Prop :=
  exists code, Lowers config form node code

/-- What is no place is asked for its value. -/
theorem Lowerable.ofValue {form} (suits : form.Suits type node) (noPlace : ¬ IsPlace node)
    (lowerable : Lowerable config .value node') : Lowerable config form node' := by
  cases form with
  | value => exact lowerable
  | address => exact absurd suits noPlace

/-- A place is asked for its address, or for its value if that is a scalar. -/
theorem Lowerable.ofPlace {form} (suits : form.Suits type node) (noted : node'.type = type)
    (lowerable : Lowerable config .address node') : Lowerable config form node' := by
  cases form with
  | address => exact lowerable
  | value =>
    rcases lowerable with ⟨code, lowers⟩
    exact ⟨_, .load (noted ▸ suits) lowers⟩

/-! ## Expressions -/

theorem unaryOpcode_of_rule (rule : UnaryRule operator wanted result) :
    exists opcode, unaryOpcode? operator = some opcode := by
  cases rule <;> exact ⟨_, rfl⟩

theorem binaryOpcode_of_rule (rule : BinaryRule operator wanted result) :
    exists opcode, binaryOpcode? operator = some opcode := by
  have known := binary_iff.mpr rule
  cases operator with
  | not | other _ => cases known
  | _ => exact ⟨_, rfl⟩

mutual

/-- A well-typed expression has code in the forms that it has. -/
theorem lowers_of_typed (config : Config) {count env} (callable : env.All (Callable count))
    (form : Form) {node node' type} :
    HasType env node type node' -> form.Suits type node -> Lowerable config form node'
  | .number, suits => .ofValue suits nofun ⟨_, .number⟩
  | .real, suits => .ofValue suits nofun ⟨_, .real⟩
  | .bool, suits => .ofValue suits nofun ⟨_, .bool⟩
  | .char, suits => .ofValue suits nofun ⟨_, .char⟩
  | .ident _, suits => .ofPlace suits rfl ⟨_, .ident⟩
  | .member base _, suits => by
    rcases lowers_of_typed config callable .address base (isPlace_of_composite callable base rfl)
        with ⟨_, lowers⟩
    exact .ofPlace suits rfl ⟨_, .member lowers⟩
  | .subscript array index, suits => by
    rcases lowers_of_typed config callable .address array (isPlace_of_composite callable array rfl)
        with ⟨_, lowersArray⟩
    rcases lowers_of_typed config callable .value index rfl with ⟨_, lowersIndex⟩
    exact .ofPlace suits rfl ⟨_, .subscript array.type_eq lowersArray lowersIndex⟩
  | .unary rule operand, suits => by
    rcases lowers_of_typed config callable .value operand rule.scalar.1 with ⟨_, lowers⟩
    rcases unaryOpcode_of_rule rule with ⟨_, known⟩
    exact .ofValue suits nofun ⟨_, .unary known lowers⟩
  | .binary rule left right, suits => by
    rcases lowers_of_typed config callable .value left rule.scalar.1 with ⟨_, lowersLeft⟩
    rcases lowers_of_typed config callable .value right rule.scalar.1 with ⟨_, lowersRight⟩
    rcases binaryOpcode_of_rule rule with ⟨_, known⟩
    exact .ofValue suits nofun ⟨_, .binary known lowersLeft lowersRight⟩
  | .call _ args, suits => by
    rcases lowersArgs_of_typed config callable args with ⟨_, lowers⟩
    exact .ofValue suits nofun ⟨_, .call lowers⟩

theorem lowersArgs_of_typed (config : Config) {count env} (callable : env.All (Callable count))
    {params nodes nodes'} :
    TakesArgs env params nodes nodes' -> exists codes, LowersArgs config params nodes' codes
  | .nil => ⟨[], .nil⟩
  | .cons arg accepts rest => by
    rcases lowers_of_typed config callable _ arg (suits_of_accepts accepts) with ⟨_, lowers⟩
    rcases lowersArgs_of_typed config callable rest with ⟨_, lowersRest⟩
    exact ⟨_, .cons lowers lowersRest⟩

end

/-! ## Statements -/

theorem stores_of_typed (config : Config) {env} (callable : env.All (Callable count))
    (target : Code) {value value'} (typed : HasType env value found value')
    (accepts : Accepts wanted found value) :
    exists code, Stores config target wanted value' code := by
  have suits := suits_of_accepts accepts
  rw [Form.ofParam] at suits
  cases composite : wanted.isComposite with
  | true =>
    rw [composite] at suits
    rcases lowers_of_typed config callable .address typed suits with ⟨_, lowers⟩
    exact ⟨_, .composite composite lowers⟩
  | false =>
    rw [composite] at suits
    rcases lowers_of_typed config callable .value typed suits with ⟨_, lowers⟩
    exact ⟨_, .scalar composite lowers⟩

mutual

/-- A well-typed statement has code, wherever it starts.  Functions around it
return scalars. -/
theorem lowersStmt_of_typed (config : Config) {count around}
    (scalar : forall result, around = some result -> result.isComposite = false)
    {context behind node node'} (start : Nat) :
    TypedStmt around context node node' behind -> context.env.All (Callable count) ->
    exists code, LowersStmt config around.isSome start node' code
  | .block stmts, callable => by
    rcases lowersStmts_of_typed config scalar start stmts callable.enter with ⟨_, lowers⟩
    exact ⟨_, .block lowers⟩
  | .varDecl _ _, _ => ⟨[], .varDecl⟩
  | .varDeclInit init _ _ accepts, callable => by
    rcases stores_of_typed config callable (Code.emit .lda _) init accepts with ⟨_, stores⟩
    exact ⟨_, .varDeclInit init.isPresent stores⟩
  | .assign target place value accepts, callable => by
    rcases lowers_of_typed config callable .address target place with ⟨targetCode, lowers⟩
    rcases stores_of_typed config callable targetCode value accepts with ⟨_, stores⟩
    exact ⟨_, .assign lowers (target.type_eq.symm ▸ stores)⟩
  | .branch test thenBody, callable => by
    rcases lowers_of_typed config callable .value test rfl with ⟨_, lowersTest⟩
    rcases lowersStmt_of_typed config scalar _ thenBody callable with ⟨_, lowersThen⟩
    exact ⟨_, .branch lowersTest lowersThen⟩
  | .branchElse test thenBody elseBody, callable => by
    rcases lowers_of_typed config callable .value test rfl with ⟨_, lowersTest⟩
    rcases lowersStmt_of_typed config scalar _ thenBody callable with ⟨_, lowersThen⟩
    -- The branches share one scope, so the second one starts where the first one ends.
    rcases lowersStmt_of_typed config scalar _ elseBody
        (thenBody.grows.keeps (fun all _ => all.push trivial) callable) with ⟨_, lowersElse⟩
    exact ⟨_, .branchElse elseBody.isPresent lowersTest lowersThen lowersElse⟩
  | .loop test body, callable => by
    rcases lowers_of_typed config callable .value test rfl with ⟨_, lowersTest⟩
    rcases lowersStmt_of_typed config scalar _ body callable with ⟨_, lowersBody⟩
    exact ⟨_, .loop lowersTest lowersBody⟩
  | .ret inside value same, callable => by
    have scalarValue := same.eq_of_scalar (scalar _ inside) ▸ scalar _ inside
    rcases lowers_of_typed config callable .value value scalarValue with ⟨_, lowers⟩
    exact ⟨_, .ret (by rw [inside]; rfl) lowers⟩

theorem lowersStmts_of_typed (config : Config) {count around}
    (scalar : forall result, around = some result -> result.isComposite = false)
    {context behind nodes nodes'} (start : Nat) :
    TypedStmts around context nodes nodes' behind -> context.env.All (Callable count) ->
    exists code, LowersStmts config around.isSome start nodes' code
  | .nil, _ => ⟨[], .nil⟩
  | .cons first rest, callable => by
    rcases lowersStmt_of_typed config scalar start first callable with ⟨_, lowers⟩
    rcases lowersStmts_of_typed config scalar _ rest
        (first.grows.keeps (fun all _ => all.push trivial) callable) with ⟨_, lowersRest⟩
    exact ⟨_, .cons lowers lowersRest⟩

end

/-! ## What may be called -/

variable {layer behind : Layer} {nodes declared : List Node}

/-- Functions of the program can be called, because well-typed ones return scalars. -/
theorem callable_signatures {structs index env functions}
    (judged : ScopedSignatures structs layer index nodes declared behind)
    (typed : List.Forall₂ (TypedFunction env) declared functions)
    (room : index + declared.length <= count)
    (callable : Env.All (Callable count) [layer, structs]) :
    Env.All (Callable count) [behind, structs] := by
  induction judged generalizing functions with
  | nil => exact callable
  | @cons _ _ index _ _ _ _ _ _ _ _ _ _ _ _ _ _ _ _ ih =>
    rw [List.length_cons] at room
    cases typed with
    | cons first rest =>
      cases first with
      | funcDecl _ scalar _ _ =>
        have inside : index < count := by omega
        exact ih rest (by omega) (callable.push ⟨inside, scalar⟩)

theorem callable_formals {context behind} (judged : ScopedFormals context nodes nodes' behind)
    (callable : context.env.All (Callable count)) : behind.env.All (Callable count) := by
  induction judged with
  | nil => exact callable
  | cons _ _ ih => exact ih (callable.push trivial)

end Lowering
end PCode
