import PCode.Program
import PCode.Text.Quoted
import PCode.Proofs.Static.Paths

namespace PCode
namespace Semantics

open Static (Selector)

/-!
What statements without calls do.

The meaning of a statement is told on the tree as it was written, before any phase has
noted anything.  A variable is known by the number of its declaration in source order.
A declaration that is executed once more means the same variable, and without an initial
value it leaves the contents alone.  A store gives contents to every part of every
variable, so it knows neither cells nor offsets.

Expressions are evaluated from left to right and in full; the logical operators are no
exception.  An expression has no meaning when an operator fails or an index is out of
range, and a statement that comes across one does not end.
-/

/-! ## Values -/

/-- Values, constants and operators.  An operator may fail. -/
structure Interpretation (Value : Type) where
  int : Int -> Value
  int? : Value -> Option Int
  bool : Bool -> Value
  bool? : Value -> Option Bool
  real : Binary64 -> Value
  char : Char -> Value
  unary : Operator -> Value -> Option Value
  binary : Operator -> Value -> Value -> Option Value
  int?_int : forall number, int? (int number) = some number
  bool?_bool : forall truth, bool? (bool truth) = some truth

/-! ## Scopes -/

/-- The type that a declared type stands for, given the structures by name. -/
def expand (structs : List (String × Ty)) : Ty -> Ty
  | .struct name fields => (structs.lookup name).getD (.struct name fields)
  | .array length elem => .array length (expand structs elem)
  | type => type

/-- The fields of a structure. -/
def fieldTypes (structs : List (String × Ty)) : List Node -> List (String × Ty)
  | [] => []
  | .varDecl _ name type _ :: nodes => (name, expand structs type) :: fieldTypes structs nodes
  | _ :: nodes => fieldTypes structs nodes

/-- The structures by name, each of which may use earlier ones. -/
def structTypes (structs : List (String × Ty)) : List Node -> List (String × Ty)
  | [] => structs
  | .structDecl _ name members :: nodes =>
    structTypes (structs ++ [(name, .struct name (fieldTypes structs members))]) nodes
  | _ :: nodes => structTypes structs nodes

/-- A variable: the number of its declaration, and its type. -/
structure Variable where
  number : Nat
  type : Ty

/-- What names stand for at a place, and the number of declarations before it. -/
structure Scope where
  structs : List (String × Ty)
  names : List (String × Variable)
  next : Nat

namespace Scope

/-- The scope of a block of the main program. -/
def start (program : Program) : Scope :=
  { structs := structTypes [] program.structs, names := [], next := 0 }

/-- Declares a variable.  It hides earlier ones of its name. -/
def declare (scope : Scope) (name : String) (type : Ty) : Scope :=
  { scope with
    names := (name, ⟨scope.next, expand scope.structs type⟩) :: scope.names
    next := scope.next + 1 }

mutual

/-- The scope behind a statement.  The names of a block are gone behind it, and all its
declarations count. -/
def behind (scope : Scope) : Node -> Scope
  | .varDecl _ name type _ => scope.declare name type
  | .branch _ _ thenBody elseBody => behind (behind scope thenBody) elseBody
  | .loop _ _ body => behind scope body
  | .block _ stmts => { scope with next := (behindAll scope stmts).next }
  | _ => scope

/-- The scope behind statements. -/
def behindAll (scope : Scope) : List Node -> Scope
  | [] => scope
  | node :: nodes => behindAll (behind scope node) nodes

end

end Scope

/-! ## Stores -/

/-- The contents of the parts of variables. -/
abbrev Store (Value : Type) := Nat -> List Selector -> Value

/-- Changes a part of a variable, with all its own parts. -/
def Store.write {Value : Type} (store : Store Value) (number : Nat) (path : List Selector)
    (contents : List Selector -> Value) : Store Value := fun other selectors =>
  if other = number then
    match selectors.dropPrefix? path with
    | some rest => contents rest
    | none => store other selectors
  else store other selectors

/-! ## Expressions -/

/-- What an expression means: a part of a variable, or a value. -/
inductive Meaning (Value : Type) where
  | place (number : Nat) (path : List Selector) (type : Ty)
  | computed (value : Value)

namespace Meaning

variable {Value : Type} (store : Store Value)

/-- The value. -/
def load : Meaning Value -> Value
  | .place number path _ => store number path
  | .computed value => value

/-- The contents of all parts. -/
def contents : Meaning Value -> List Selector -> Value
  | .place number path _ => fun rest => store number (path ++ rest)
  | .computed value => fun _ => value

/-- A field of a part of a variable. -/
def field? (name : String) : Meaning Value -> Option (Meaning Value)
  | .place number path type =>
    (type.field? name).map fun found => .place number (path ++ [.field name]) found.1
  | .computed _ => none

/-- An element of a part of a variable, if the index is in range. -/
def element? (index : Int) : Meaning Value -> Option (Meaning Value)
  | .place number path (.array length elem) =>
    if 0 <= index ∧ index < length.toInt then
      some (.place number (path ++ [.index index]) elem)
    else none
  | _ => none

theorem load_computed (value : Option Value) :
    (value.map Meaning.computed).map (Meaning.load store) = value := by
  cases value <;> rfl

theorem contents_nil (found : Meaning Value) : found.contents store [] = found.load store := by
  cases found with
  | place number path type => exact congrArg (store number) (List.append_nil path)
  | computed value => rfl

end Meaning

section Execution

variable {Value : Type} (interpretation : Interpretation Value)

/-- The meaning of an expression. -/
def meaning (scope : Scope) (store : Store Value) : Node -> Option (Meaning Value)
  | .number _ value => some (.computed (interpretation.int value.toInt))
  | .real _ value => some (.computed (interpretation.real value))
  | .bool _ value => some (.computed (interpretation.bool value))
  | .char _ code => some (.computed (interpretation.char (Text.charOfCode code.toInt)))
  | .ident _ name =>
    (scope.names.lookup name).map fun found => .place found.number [] found.type
  | .member _ base field _ => (meaning scope store base).bind (Meaning.field? field)
  | .subscript _ array index =>
    (meaning scope store array).bind fun place =>
      (meaning scope store index).bind fun found =>
        (interpretation.int? (found.load store)).bind fun index => place.element? index
  | .unary _ operator operand =>
    (meaning scope store operand).bind fun found =>
      (interpretation.unary operator (found.load store)).map .computed
  | .binary _ operator left right =>
    (meaning scope store left).bind fun first =>
      (meaning scope store right).bind fun second =>
        (interpretation.binary operator (first.load store) (second.load store)).map .computed
  | _ => none

/-- The value of an expression. -/
def value? (scope : Scope) (store : Store Value) (node : Node) : Option Value :=
  (meaning interpretation scope store node).map (Meaning.load store)

variable {interpretation}

variable {scope : Scope} {store : Store Value} {note : Note}

theorem meaning_subscript {array index} :
    meaning interpretation scope store (.subscript note array index)
      = (meaning interpretation scope store array).bind fun place =>
          ((value? interpretation scope store index).bind interpretation.int?).bind
            fun index => place.element? index := by
  rw [meaning, value?]
  cases meaning interpretation scope store index <;> rfl

theorem value?_unary {operator operand} :
    value? interpretation scope store (.unary note operator operand)
      = (value? interpretation scope store operand).bind (interpretation.unary operator) := by
  rw [value?, value?, meaning]
  cases meaning interpretation scope store operand with
  | none => rfl
  | some found => exact Meaning.load_computed store _

theorem value?_binary {operator left right} :
    value? interpretation scope store (.binary note operator left right)
      = (value? interpretation scope store left).bind fun first =>
          (value? interpretation scope store right).bind
            (interpretation.binary operator first) := by
  rw [value?, value?, value?, meaning]
  cases meaning interpretation scope store left with
  | none => rfl
  | some first =>
    cases meaning interpretation scope store right with
    | none => rfl
    | some second => exact Meaning.load_computed store _

variable (interpretation)

/-- The outcome of a test. -/
def test? (scope : Scope) (store : Store Value) (test : Node) : Option Bool :=
  (value? interpretation scope store test).bind interpretation.bool?

/-- The store once a part of a variable has the contents of an expression. -/
def writeFrom? (scope : Scope) (store : Store Value) (number : Nat) (path : List Selector)
    (value : Node) : Option (Store Value) :=
  (meaning interpretation scope store value).map fun found =>
    store.write number path (found.contents store)

/-- The store behind an assignment. -/
def assign? (scope : Scope) (store : Store Value) (target value : Node) : Option (Store Value) :=
  (meaning interpretation scope store target).bind fun
    | .place number path _ => writeFrom? interpretation scope store number path value
    | .computed _ => none

/-! ## Statements -/

mutual

/-- A statement leads from a store to a store.  What has no such store behind it has
failed or goes on for ever. -/
inductive Exec : Scope -> Node -> Store Value -> Store Value -> Prop
  | absent {scope : Scope} {store} : Exec scope .absent store store
  | block {scope : Scope} {store after note stmts} :
    Execs scope stmts store after -> Exec scope (.block note stmts) store after
  | declare {scope : Scope} {store note name type} :
    Exec scope (.varDecl note name type .absent) store store
  | declareInit {scope : Scope} {store after note name type init} :
    writeFrom? interpretation scope store scope.next [] init = some after ->
    Exec scope (.varDecl note name type init) store after
  | assign {scope : Scope} {store after note target value} :
    assign? interpretation scope store target value = some after ->
    Exec scope (.assign note target value) store after
  | thenBranch {scope : Scope} {store after note test thenBody elseBody} :
    test? interpretation scope store test = some true -> Exec scope thenBody store after ->
    Exec scope (.branch note test thenBody elseBody) store after
  | elseBranch {scope : Scope} {store after note test thenBody elseBody} :
    test? interpretation scope store test = some false ->
    Exec (scope.behind thenBody) elseBody store after ->
    Exec scope (.branch note test thenBody elseBody) store after
  | loopEnd {scope : Scope} {store note test body} :
    test? interpretation scope store test = some false ->
    Exec scope (.loop note test body) store store
  | loopStep {scope : Scope} {store between after note test body} :
    test? interpretation scope store test = some true -> Exec scope body store between ->
    Exec scope (.loop note test body) between after ->
    Exec scope (.loop note test body) store after

/-- Statements lead from a store to a store, one after another. -/
inductive Execs : Scope -> List Node -> Store Value -> Store Value -> Prop
  | nil {scope : Scope} {store} : Execs scope [] store store
  | cons {scope : Scope} {store between after node nodes} :
    Exec scope node store between -> Execs (scope.behind node) nodes between after ->
    Execs scope (node :: nodes) store after

end

end Execution

end Semantics
end PCode
