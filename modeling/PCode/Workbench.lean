import PCode.Command
import PCode.Duration
import PCode.Glob
import PCode.Host
import PCode.Text.Quoted

namespace PCode

/-!
What a run of tests asks of the system it runs on.

Besides files, tests need directories and programs that can be run for a limited
time.  A tree of files is such a system once it is said what its programs do.
-/

/-- Why a program cannot be run. -/
inductive ProgramError where
  /-- A name without slash that no directory for programs holds. -/
  | unlisted
  /-- A path that leads to nothing. -/
  | unreachable (cause : FileError)
  /-- Something that is no program. -/
  | unusable (cause : FileError)
deriving DecidableEq, Repr, Inhabited

def ProgramError.message (name : String) (error : ProgramError) : String :=
  let cause := match error with
    | .unlisted => "executable file not found in $PATH"
    | .unreachable cause => PathError.message ⟨"stat", name, cause⟩
    | .unusable cause => cause.message
  s!"exec: {Text.quoted name}: {cause}"

structure Execution where
  outcome : Outcome
  elapsed : Duration
  timedOut : Bool := false
deriving DecidableEq, Repr, Inhabited

/-- The exit status of a run; one that was stopped has none of its own. -/
def Execution.exitCode (execution : Execution) : Int64 :=
  if execution.timedOut then -1 else Int64.ofNat execution.outcome.exit

structure Workbench (m : Type -> Type) extends Host m, Glob.Search m where
  makeDirectories : String -> m (Except PathError Unit)
  findProgram : String -> m (Except ProgramError Unit)
  /-- Runs a program on arguments, no longer than a span of time. -/
  execute : String -> List String -> Duration -> m Execution

namespace FileTree

/-- Whether a name stands for a file that can be run. -/
def findProgram (tree : FileTree) (name : String) : Except ProgramError Unit :=
  if !name.contains '/' then .error .unlisted
  else
    match tree.lookup name, tree.locate name with
    | .error error, _ => .error (.unreachable error)
    | .ok (.file _), .ok (.inside place, _) =>
      if tree.programs.contains place then .ok () else .error (.unusable .notPermitted)
    | _, _ => .error (.unusable .isDirectory)

/-- The time that every run takes in a tree. -/
def runTime : Duration := ⟨1000000⟩

/-- A tree of files as a system for tests, in which every program does the same. -/
def workbench (program : List String -> StateM FileTree Outcome) : Workbench (StateM FileTree) where
  toHost := FileTree.host
  exists? := fun path => do return (← get).exists? path
  list := fun path => do return (← get).list path
  makeDirectories := fun path => do
    match (← get).makeDirectories path with
    | .error error => return .error error
    | .ok tree => set tree; return .ok ()
  findProgram := fun name => do return (← get).findProgram name
  execute := fun _ args timeout => do
    if timeout.nanoseconds < runTime.nanoseconds then
      return { outcome := {}, elapsed := runTime, timedOut := true }
    else
      return { outcome := ← program args, elapsed := runTime }

end FileTree

end PCode
