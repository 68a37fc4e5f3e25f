import PCode.Diagnostic
import PCode.Program

namespace PCode

/-!
What can be wrong with the types of a program.
-/

/-- A place that a value is stored into. -/
inductive Storage where
  | initializer (name : String)
  | assignment
deriving DecidableEq, Repr, Inhabited

def Storage.text : Storage -> String
  | .initializer name => s!"initializer of '{name}'"
  | .assignment => "assignment"

/-- A statement that tests a condition. -/
inductive Conditional where
  | branch
  | loop
deriving DecidableEq, Repr, Inhabited

def Conditional.text : Conditional -> String
  | .branch => "if"
  | .loop => "while"

inductive TypeIssue where
  | notResolved (phase : Phase)
  | compositeResult (function : String) (type : Ty)
  | notStatement (kind : NodeKind)
  | notExpression (kind : NodeKind)
  | notAssignable (kind : NodeKind)
  | stored (storage : Storage) (found wanted : Ty)
  | compositeValue (storage : Storage)
  | condition (stmt : Conditional) (found : Ty)
  | strayReturn
  | missingResult (function : String) (wanted : Ty)
  | wrongResult (function : String) (found wanted : Ty)
  | notArray (found : Ty)
  | index (found : Ty)
  | operand (operator : Operator) (wanted found : Ty)
  | leftOperand (operator : Operator) (wanted found : Ty)
  | rightOperand (operator : Operator) (wanted found : Ty)
  | notStruct (field : String) (found : Ty)
  | noField (field : String) (type : Ty)
  | arity (function : String) (wanted found : Nat)
  | argument (function : String) (position : Nat) (found wanted : Ty)
  | compositeArgument (function : String) (position : Nat)
deriving DecidableEq, Repr, Inhabited

namespace TypeIssue

def category : TypeIssue -> Category
  | .stored .. => .typeMismatch
  | .condition .. => .typeMismatch
  | .wrongResult .. => .typeMismatch
  | .notArray _ => .typeMismatch
  | .index _ => .typeMismatch
  | .operand .. => .typeMismatch
  | .leftOperand .. => .typeMismatch
  | .rightOperand .. => .typeMismatch
  | .notStruct .. => .typeMismatch
  | .argument .. => .typeMismatch
  | .noField .. => .undefinedIdentifier
  | .arity .. => .arityMismatch
  | _ => .structural

/-- The wording of an issue.  Positions of arguments are counted from one. -/
def message : TypeIssue -> String
  | .notResolved phase =>
    s!"type checking requires a resolved program (program is {phase.name})"
  | .compositeResult function type =>
    s!"function '{function}' cannot return composite type {type.text}"
  | .notStatement kind => s!"{kind.name} is not a statement"
  | .notExpression kind => s!"{kind.name} is not an expression"
  | .notAssignable kind => s!"cannot assign to {kind.name}"
  | .stored storage found wanted =>
    s!"{storage.text}: cannot use {found.text} as {wanted.text}"
  | .compositeValue storage =>
    s!"{storage.text}: composite value must be a variable, field or element"
  | .condition stmt found => s!"{stmt.text} condition must be Boolean, got {found.text}"
  | .strayReturn => "return outside of a function"
  | .missingResult function wanted => s!"function '{function}' must return a {wanted.text} value"
  | .wrongResult function found wanted =>
    s!"cannot return {found.text} from function '{function}' returning {wanted.text}"
  | .notArray found => s!"cannot index non-array type {found.text}"
  | .index found => s!"array index must be Integer, got {found.text}"
  | .operand operator wanted found =>
    s!"operator '{operator.text}' expects {wanted.text}, got {found.text}"
  | .leftOperand operator wanted found =>
    s!"left operand of '{operator.text}' must be {wanted.text}, got {found.text}"
  | .rightOperand operator wanted found =>
    s!"right operand of '{operator.text}' must be {wanted.text}, got {found.text}"
  | .notStruct field found => s!"field access '.{field}' on non-struct type {found.text}"
  | .noField field type => s!"no field '{field}' in {type.describe}"
  | .arity function wanted found =>
    s!"function '{function}' expects {wanted} arguments, got {found}"
  | .argument function position found wanted =>
    s!"argument {position} of '{function}': cannot use {found.text} as {wanted.text}"
  | .compositeArgument function position =>
    s!"argument {position} of '{function}' is passed by reference and must be a variable, "
      ++ "field or element"

def foundAt (issue : TypeIssue) (span : Span) : Diagnostic :=
  Diagnostic.error issue.category span issue.message

end TypeIssue

end PCode
