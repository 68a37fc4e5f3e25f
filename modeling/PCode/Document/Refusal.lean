import PCode.Document.Reading
import PCode.Node

namespace PCode

/-!
Why a document is refused.

A refusal has a cause and, in front of it, the places that lead to it.  The
wording of what is wrong inside a JSON value is a parameter of the message.
-/

inductive LiteralSort where
  | integer
  | real
  | boolean
  | char
deriving DecidableEq, Repr, Inhabited

def LiteralSort.name : LiteralSort -> String
  | .integer => "integer"
  | .real => "real"
  | .boolean => "boolean"
  | .char => "char"

inductive Coordinate where
  | line
  | column
  | length
deriving DecidableEq, Repr, Inhabited

def Coordinate.name : Coordinate -> String
  | .line => "line"
  | .column => "column"
  | .length => "length"

/-- What is wrong with a document. -/
inductive RefusalCause where
  | reading (error : ReadingError)
  | notStruct (kind : String)
  | notFunction (kind : String)
  | position (kind : String)
  | coordinate (kind : String) (part : Coordinate) (value : Int64)
  | missingType
  | unnamedStructType
  | arrayLength (length : Int64)
  | unknownType (kind : String)
  | unnamed (span : Span)
  | initializer (name : String) (span : Span)
  | noBody (name : String)
  | bodyKind (name : String) (kind : NodeKind)
  | missingStatement
  | unknownStatement (kind : String) (span : Span)
  | missingExpression
  | unknownExpression (kind : String) (span : Span)
  | unknownOperator (op : String) (span : Span)
  | literal (sort : LiteralSort) (span : Span) (problem : JsonProblem)
  | integerRange (value : Int64) (span : Span)
  | characterCount (span : Span) (text : String)
  | topKind (kind : NodeKind)
deriving DecidableEq, Repr, Inhabited

inductive RefusalPlace where
  | structEntry (index : Nat)
  | functionEntry (index : Nat)
  | blockEntry (index : Nat)
  | declaration (name : String)
  | resultType (name : String)
deriving DecidableEq, Repr, Inhabited

def RefusalPlace.text : RefusalPlace -> String
  | .structEntry index => s!"struct {index}: "
  | .functionEntry index => s!"function {index}: "
  | .blockEntry index => s!"block {index}: "
  | .declaration name => s!"'{name}': "
  | .resultType name => s!"return type of '{name}': "

namespace RefusalCause

def text (tell : JsonProblem -> String) : RefusalCause -> String
  | .reading (.value problem) => tell problem
  | .reading (.unknownKey key) => s!"json: unknown field {Text.quoted key}"
  | .notStruct kind => s!"expected struct, got '{kind}'"
  | .notFunction kind => s!"expected func, got '{kind}'"
  | .position kind => s!"{kind}: pos must be [line, column]"
  | .coordinate kind part value => s!"{kind}: {part.name} {value}: out of range"
  | .missingType => "missing type"
  | .unnamedStructType => "struct type without a name"
  | .arrayLength length => s!"array length {length}: out of range"
  | .unknownType kind => s!"unknown type kind '{kind}'"
  | .unnamed span => s!"declaration at {span.text} without a name"
  | .initializer name span => s!"'{name}' at {span.text} cannot have an initializer"
  | .noBody name => s!"function '{name}' has no body"
  | .bodyKind name kind => s!"body of '{name}' is a {kind.name}"
  | .missingStatement => "missing statement"
  | .unknownStatement kind span => s!"unknown statement kind '{kind}' at {span.text}"
  | .missingExpression => "missing expression"
  | .unknownExpression kind span => s!"unknown expression kind '{kind}' at {span.text}"
  | .unknownOperator op span => s!"unknown operator '{op}' at {span.text}"
  | .literal sort span problem => s!"{sort.name} literal at {span.text}: " ++ tell problem
  | .integerRange value span => s!"integer literal {value} at {span.text}: out of range"
  | .characterCount span text =>
    s!"char literal at {span.text} must hold exactly one character, got {Text.quoted text}"
  | .topKind kind => s!"top-level entry is a {kind.name}"

/-- Whether a number did not fit where it stands. -/
def isRange : RefusalCause -> Bool
  | .coordinate .. => true
  | .arrayLength _ => true
  | .integerRange .. => true
  | _ => false

end RefusalCause

/-- Why a document is refused, and where. -/
structure Refusal where
  places : List RefusalPlace := []
  cause : RefusalCause
deriving DecidableEq, Repr, Inhabited

namespace Refusal

def message (refusal : Refusal) (tell : JsonProblem -> String) : String :=
  String.join (refusal.places.map RefusalPlace.text) ++ "malformed program: "
    ++ refusal.cause.text tell

/-- The refusal seen from further out. -/
def under (place : RefusalPlace) (refusal : Refusal) : Refusal :=
  { refusal with places := place :: refusal.places }

end Refusal

/-- How the building of a tree ends early. -/
inductive DocumentFailure where
  | refused (refusal : Refusal)
  /-- Nothing is listed where a structure, a function, a field or a parameter
  must be. -/
  | hole
deriving DecidableEq, Repr, Inhabited

namespace DocumentFailure

def because (cause : RefusalCause) : DocumentFailure := .refused { cause }

def under (place : RefusalPlace) : DocumentFailure -> DocumentFailure
  | .refused refusal => .refused (refusal.under place)
  | .hole => .hole

end DocumentFailure

end PCode
