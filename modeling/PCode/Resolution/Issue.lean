import PCode.Diagnostic
import PCode.Scope

namespace PCode

/-!
What can be wrong with the names and declared types of a program.

Every issue belongs to one category of errors: a name without a declaration is
an undefined identifier, and everything else is structural.
-/

/-- An error in names or declared types. -/
inductive ScopeIssue where
  | missingType
  | arrayLength (length : Int64)
  | typeTooLarge (type : Ty)
  | notStructType (name : String) (kind : EntityKind)
  | containsItself (owner : String)
  | usedBeforeDeclaration (name owner : String)
  | undefinedStruct (name : String)
  | duplicateField (name owner : String)
  | fieldInitializer (name owner : String)
  | noFields (owner : String)
  | structTooLarge (owner : String)
  | structRedefined (owner : String)
  | functionRedefined (name : String)
  | duplicateParameter (name owner : String)
  | noBody (owner : String)
  | noBlock
  | redeclared (name : String)
  | frameTooLarge (name : String)
  | notStatement (kind : NodeKind)
  | notExpression (kind : NodeKind)
  | unknownUnary (operator : Operator)
  | unknownBinary (operator : Operator)
  | undefinedName (name : String)
  | notVariable (name : String) (kind : EntityKind)
  | undefinedFunction (name : String)
  | notFunction (name : String) (kind : EntityKind)
deriving DecidableEq, Repr, Inhabited

namespace ScopeIssue

def category : ScopeIssue -> Category
  | .undefinedStruct _ => .undefinedIdentifier
  | .undefinedName _ => .undefinedIdentifier
  | .undefinedFunction _ => .undefinedIdentifier
  | _ => .structural

def message : ScopeIssue -> String
  | .missingType => "missing type"
  | .arrayLength length => s!"array length must be positive, got {length}"
  | .typeTooLarge type => s!"type {type.text} exceeds {Ty.maxCells} cells"
  | .notStructType name kind => s!"'{name}' is a {kind.name}, not a struct type"
  | .containsItself owner => s!"struct '{owner}' cannot contain itself"
  | .usedBeforeDeclaration name owner =>
    s!"struct '{name}' is used by '{owner}' before its declaration"
  | .undefinedStruct name => s!"undefined struct '{name}'"
  | .duplicateField name owner => s!"duplicate field '{name}' in struct '{owner}'"
  | .fieldInitializer name owner =>
    s!"field '{name}' of struct '{owner}' cannot have an initializer"
  | .noFields owner => s!"struct '{owner}' has no fields"
  | .structTooLarge owner => s!"struct '{owner}' exceeds {Ty.maxCells} cells"
  | .structRedefined owner => s!"redefinition of struct '{owner}'"
  | .functionRedefined name => s!"redefinition of '{name}'"
  | .duplicateParameter name owner => s!"duplicate parameter '{name}' in function '{owner}'"
  | .noBody owner => s!"function '{owner}' has no body"
  | .noBlock => "program has no top-level block"
  | .redeclared name => s!"redeclaration of '{name}' in the same scope"
  | .frameTooLarge name => s!"declaring '{name}' grows the frame past {Ty.maxCells} cells"
  | .notStatement kind => s!"{kind.name} is not a statement"
  | .notExpression kind => s!"{kind.name} is not an expression"
  | .unknownUnary operator => s!"unknown unary operator '{operator.text}'"
  | .unknownBinary operator => s!"unknown binary operator '{operator.text}'"
  | .undefinedName name => s!"undefined identifier '{name}'"
  | .notVariable name kind => s!"'{name}' is a {kind.name}, not a variable"
  | .undefinedFunction name => s!"undefined function '{name}'"
  | .notFunction name kind => s!"'{name}' is a {kind.name}, not a function"

def foundAt (issue : ScopeIssue) (span : Span) : Diagnostic :=
  Diagnostic.error issue.category span issue.message

end ScopeIssue

end PCode
