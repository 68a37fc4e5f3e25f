import PCode.Lowering
import PCode.Resolution
import PCode.Typing

namespace PCode

/-!
Compilation: resolution, type checking and lowering in this order.

The first phase that fails ends the compilation.  The diagnostics are those of
all phases that ran, warnings included; the error speaks of the failing phase
alone.
-/

/-- Why a compilation has no code. -/
inductive CompilationError where
  | resolution (diagnostics : List Diagnostic)
  | typing (diagnostics : List Diagnostic)
  | generation (error : GenerationError)
deriving Repr, Inhabited

namespace CompilationError

/-- The errors of a phase, one in a line. -/
def errorLines (diagnostics : List Diagnostic) : String :=
  (Diagnostics.joined? diagnostics).getD ""

def message : CompilationError -> String
  | .resolution diagnostics => "resolution: compilation failed: " ++ errorLines diagnostics
  | .typing diagnostics => "type checking: compilation failed: " ++ errorLines diagnostics
  | .generation error => "code generation: " ++ error.message

def isFailure : CompilationError -> Bool
  | .resolution _ => true
  | .typing _ => true
  | .generation _ => false

def categories : CompilationError -> List Category
  | .resolution diagnostics => Diagnostics.categories diagnostics
  | .typing diagnostics => Diagnostics.categories diagnostics
  | .generation _ => []

def isNotChecked : CompilationError -> Bool
  | .generation error => error.isNotChecked
  | _ => false

end CompilationError

/-- What a compilation gives: a line for each phase that was begun, the
diagnostics, and the code or the reason why there is none. -/
structure Compilation where
  log : List String
  diagnostics : List Diagnostic
  result : Except CompilationError Generated

namespace Compilation

def resolving : String := "Resolving identifiers..."

def checking : String := "Checking types..."

def generating : String := "Generating code..."

/-- The line for finished code. -/
def generatedLine (generated : Generated) : String :=
  s!"Generated {generated.code.size} instructions"

/-- The last step of a compilation, behind the diagnostics found so far. -/
def finish (diagnostics : List Diagnostic) :
    Except GenerationError Generated -> Compilation
  | .error error =>
    { log := [resolving, checking, generating], diagnostics, result := .error (.generation error) }
  | .ok generated =>
    { log := [resolving, checking, generating, generatedLine generated], diagnostics,
      result := .ok generated }

end Compilation

def Program.compile (program : Program) (config : Config) :
    Program × Except Interruption Compilation :=
  match program.resolve config with
  | (program, .error interruption) => (program, .error interruption)
  | (program, .ok resolution) =>
    if !resolution.ok then
      (program, .ok
        { log := [Compilation.resolving]
          diagnostics := resolution.diagnostics
          result := .error (.resolution resolution.diagnostics) })
    else
      match program.check config with
      | (program, .error interruption) => (program, .error interruption)
      | (program, .ok typing) =>
        let diagnostics := resolution.diagnostics ++ typing.diagnostics
        if !typing.ok then
          (program, .ok
            { log := [Compilation.resolving, Compilation.checking]
              diagnostics
              result := .error (.typing typing.diagnostics) })
        else
          match program.generate config with
          | (program, .error interruption) => (program, .error interruption)
          | (program, .ok result) => (program, .ok (Compilation.finish diagnostics result))

end PCode
