import PCode.Config
import PCode.Span

namespace PCode

/-!
Findings of the phases.

A diagnostic is an error of one of four categories or a warning that names the
flag behind it.  Diagnostics are collected in the order in which they are found.
Warnings are only recorded while their flag is on, and nothing else depends on
them: what counts as a failure is decided by the errors alone.
-/

inductive Category where
  | undefinedIdentifier
  | arityMismatch
  | typeMismatch
  | structural
deriving DecidableEq, Repr, Inhabited

namespace Category

/-- The category of a number; numbers outside the table are structural. -/
def ofCode (code : Int64) : Category :=
  if code = 0 then .undefinedIdentifier
  else if code = 1 then .arityMismatch
  else if code = 2 then .typeMismatch
  else .structural

def name : Category -> String
  | .undefinedIdentifier => "UndefinedIdentifierError"
  | .arityMismatch => "ArityMismatchError"
  | .typeMismatch => "TypeMismatchError"
  | .structural => "StructuralError"

end Category

/-- Whether a finding forbids the program, and of which sort it is. -/
inductive Verdict where
  | error (category : Category)
  | warning (flag : String)
  /-- Neither an error nor a warning; shown like an error but never counted. -/
  | remark (category : Category)
deriving DecidableEq, Repr, Inhabited

/-- One finding, at the place where it was made. -/
structure Diagnostic where
  verdict : Verdict
  span : Span
  message : String
deriving DecidableEq, Repr, Inhabited

namespace Diagnostic

def isError (diagnostic : Diagnostic) : Bool :=
  match diagnostic.verdict with
  | .error _ => true
  | _ => false

/-- The category that a finding belongs to; warnings belong to none. -/
def category? (diagnostic : Diagnostic) : Option Category :=
  match diagnostic.verdict with
  | .error category => some category
  | .remark category => some category
  | .warning _ => none

def text (diagnostic : Diagnostic) : String :=
  let place := s!"line {diagnostic.span.shownLine} column {diagnostic.span.shownColumn}: "
  match diagnostic.verdict with
  | .warning flag => place ++ "warning: " ++ diagnostic.message ++ " [-W" ++ flag ++ "]"
  | .error category => place ++ category.name ++ ": " ++ diagnostic.message
  | .remark category => place ++ category.name ++ ": " ++ diagnostic.message

def error (category : Category) (span : Span) (message : String) : Diagnostic :=
  ⟨.error category, span, message⟩

def warn (config : Config) (warning : Warning) (span : Span) (message : String) :
    List Diagnostic :=
  if config.warnings warning then [⟨.warning warning.name, span, message⟩] else []

end Diagnostic

namespace Diagnostics

def errors (diagnostics : List Diagnostic) : List Diagnostic :=
  diagnostics.filter Diagnostic.isError

def hasErrors (diagnostics : List Diagnostic) : Bool := diagnostics.any Diagnostic.isError

/-- The errors, one in a line; nothing if there is none. -/
def joined? (diagnostics : List Diagnostic) : Option String :=
  match errors diagnostics with
  | [] => none
  | found => some ("\n".intercalate (found.map Diagnostic.text))

def categories (diagnostics : List Diagnostic) : List Category :=
  (errors diagnostics).filterMap Diagnostic.category?

end Diagnostics

end PCode
