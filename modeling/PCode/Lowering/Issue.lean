import PCode.Judgement

namespace PCode

/-!
Why a tree cannot be lowered.

None of these causes arises in a program that was resolved and checked.  They
guard against trees whose phase flag was set by hand.
-/

/-- A node that has no code. -/
inductive LoweringIssue where
  | notStatement (kind : NodeKind)
  | strayReturn
  | compositeValue (type : Ty)
  | unaryOperator (operator : Operator)
  | binaryOperator (operator : Operator)
  | notExpression (kind : NodeKind)
  | noAddress (kind : NodeKind)
  | notArray (type : Ty)
  | unresolvedCall (function : String)
deriving DecidableEq, Repr, Inhabited

def LoweringIssue.message : LoweringIssue -> String
  | .notStatement kind => s!"cannot generate {kind.name} as a statement"
  | .strayReturn => "return outside of a function body"
  | .compositeValue type => s!"{type.text} value has no scalar form"
  | .unaryOperator operator => s!"no instruction for unary '{operator.text}'"
  | .binaryOperator operator => s!"no instruction for binary '{operator.text}'"
  | .notExpression kind => s!"{kind.name} is not an expression"
  | .noAddress kind => s!"{kind.name} has no address"
  | .notArray type => s!"subscript of non-array {type.text}"
  | .unresolvedCall function => s!"call to '{function}' was not resolved"

inductive GenerationError where
  | notChecked (phase : Phase)
  | lowering (span : Span) (issue : LoweringIssue)
deriving DecidableEq, Repr, Inhabited

namespace GenerationError

def message : GenerationError -> String
  | .notChecked phase =>
    s!"code generation: program has not been type checked (program is {phase.name})"
  | .lowering span issue => s!"{span.text}: {issue.message}"

def isNotChecked : GenerationError -> Bool
  | .notChecked _ => true
  | .lowering .. => false

end GenerationError

/-- How lowering ends early. -/
inductive LoweringStop where
  | interrupted (interruption : Interruption)
  | failed (error : GenerationError)
deriving DecidableEq, Repr, Inhabited

abbrev Lowered (Result : Type) := Except LoweringStop Result

namespace Lowered

/-- There is no code for the node at a place. -/
def fail {Result : Type} (span : Span) (issue : LoweringIssue) : Lowered Result :=
  .error (.failed (.lowering span issue))

def hole {Result : Type} : Lowered Result := .error (.interrupted .hole)

end Lowered

end PCode
