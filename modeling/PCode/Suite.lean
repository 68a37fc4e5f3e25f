import PCode.Digest
import PCode.Suite.Verdict
import PCode.Text.Blank
import PCode.Workbench

namespace PCode

/-!
Runs of tests.

A test compiles a file and compares the outcome with the golden record of that
file.  Which files are tested is planned first: a file may be left out by name,
it may be unreadable, and of files with the same content only the first is
tested.  The plan depends on the files alone, so the tests can be carried out in
any order; the verdicts are sorted by file.
-/

structure SuiteSettings where
  compiler : String
  compilerArgs : String
  patterns : String
  excluded : String
  /-- Where golden records are kept; next to each file if empty. -/
  directory : String
  output : String
  update : Bool
  timeout : Duration
  verbose : Bool
deriving DecidableEq, Repr, Inhabited

namespace Suite

/-- What is found out about a file before any test. -/
inductive Sighting where
  | excluded
  | unreadable (error : PathError)
  | readable (digest : String)
deriving DecidableEq, Repr, Inhabited

inductive Task where
  | settle (verdict : TestVerdict)
  | test (file digest : String)
deriving DecidableEq, Repr, Inhabited

def Task.file : Task -> String
  | .settle verdict => verdict.file
  | .test file _ => file

/-- The tasks for files, given the digests that were met before and the files
they were met in. -/
def planFrom (seen : List (String × String)) : List (String × Sighting) -> List Task
  | [] => []
  | (file, .excluded) :: sightings =>
    .settle { file, status := .skip, message := "Explicitly skipped" } :: planFrom seen sightings
  | (file, .unreadable error) :: sightings =>
    .settle { file, status := .error
              message := s!"Failed to read file for hashing: {error.message}" }
      :: planFrom seen sightings
  | (file, .readable digest) :: sightings =>
    match seen.lookup digest with
    | some first =>
      .settle { file, status := .skip, message := s!"Content is identical to {first}" }
        :: planFrom seen sightings
    | none => .test file digest :: planFrom ((digest, file) :: seen) sightings

def plan (sightings : List (String × Sighting)) : List Task := planFrom [] sightings

def sorted (verdicts : List TestVerdict) : List TestVerdict :=
  verdicts.mergeSort fun first second => first.file <= second.file

/-- The paths of a pattern that are new and not hidden, behind those found so
far. -/
def addMatches (found : List String) : List String -> List String
  | [] => found
  | path :: paths =>
    if (Path.base path).startsWith "." || found.contains path then addMatches found paths
    else addMatches (found ++ [path]) paths

end Suite

namespace SuiteSettings

/-- Where the golden record of a file is kept. -/
def goldenPath (settings : SuiteSettings) (file : String) : String :=
  let directory :=
    if settings.directory.isEmpty then Path.directory file else settings.directory
  Path.join directory ("." ++ Path.stem file ++ ".golden.json")

/-- The arguments that the compiler is given for a file. -/
def arguments (settings : SuiteSettings) (file : String) : List String :=
  Text.words settings.compilerArgs ++ ["--dump", file]

def reportPath (settings : SuiteSettings) : String :=
  if settings.directory.isEmpty then settings.output
  else Path.join settings.directory settings.output

end SuiteSettings

/-- A run as it is recorded, without its time. -/
def Execution.recorded (execution : Execution) : RecordedRun where
  stdout := execution.outcome.stdout
  stderr := execution.outcome.stderr
  exitCode := execution.exitCode
  timedOut := execution.timedOut

namespace Suite

section

variable {m : Type -> Type} [Monad m]

/-- The files that patterns stand for, behind those found so far. -/
def filesFrom (bench : Workbench m) (found : List String) :
    List String -> m (Except BadPattern (List String))
  | [] => return .ok found
  | pattern :: patterns => do
    match ← Glob.expand bench.toSearch pattern with
    | .error error => return .error error
    | .ok paths => filesFrom bench (addMatches found paths) patterns

def files (bench : Workbench m) (settings : SuiteSettings) :
    m (Except BadPattern (List String)) :=
  filesFrom bench [] (Text.words settings.patterns)

def sight (bench : Workbench m) (settings : SuiteSettings) (file : String) :
    m (String × Sighting) := do
  if (Text.words settings.excluded).contains file then return (file, .excluded)
  else
    match ← bench.read file with
    | .error error => return (file, .unreadable error)
    | .ok content => return (file, .readable (Digest.text (Digest.ofBytes content.toList)))

/-- Writes a golden record, with the directories it lies in. -/
def record (bench : Workbench m) (path : String) (golden : Golden) : m (Except String Unit) := do
  let directory := Path.directory path
  match ← bench.makeDirectories directory with
  | .error error => return .error (s!"creating directory {directory}: {error.message}")
  | .ok () =>
    match ← bench.write path golden.text.toUTF8 with
    | .error error => return .error (s!"writing golden file {path}: {error.message}")
    | .ok () => return .ok ()

/-- Compares a run with the golden record at a path. -/
def compare (bench : Workbench m) (path file digest : String) (run : RecordedRun) :
    m TestVerdict := do
  match ← bench.read path with
  | .error error =>
    if error.cause = .notFound then
      return { file, status := .skip
               message := "No golden file; run with --update to create one" }
    else
      return { file, status := .error
               message := s!"Could not read golden file {path}: {error.message}" }
  | .ok content =>
    match Golden.read content.toList with
    | .error error =>
      return { file, status := .error
               message := s!"Could not parse golden file {path}: {error.message}" }
    | .ok golden => return golden.judge file digest run

/-- The verdict on a run: it is recorded or compared, unless it was stopped. -/
def conclude (bench : Workbench m) (settings : SuiteSettings) (file digest : String)
    (execution : Execution) : m TestVerdict := do
  let path := settings.goldenPath file
  if execution.timedOut then
    return { file, status := .fail
             message := s!"Compilation timed out after {settings.timeout.text}" }
  else if settings.update then
    let golden : Golden :=
      { digest, args := settings.arguments file, run := execution.recorded }
    match ← record bench path golden with
    | .error message => return { file, status := .error, message }
    | .ok () => return { file, status := .updated, message := s!"Golden file written to {path}" }
  else compare bench path file digest execution.recorded

def logLine (file : String) (execution : Execution) : String :=
  s!"[{file}] exit {execution.exitCode} in {execution.elapsed.text}\n"

/-- Carries out a task; the verdict comes with what is logged. -/
def perform (bench : Workbench m) (settings : SuiteSettings) : Task -> m (TestVerdict × String)
  | .settle verdict => return (verdict, "")
  | .test file digest => do
    let execution ← bench.execute settings.compiler (settings.arguments file) settings.timeout
    let verdict ← conclude bench settings file digest execution
    return (verdict, if settings.verbose then logLine file execution else "")

/-- Tests files: their verdicts, sorted, and what is logged. -/
def run (bench : Workbench m) (settings : SuiteSettings) (files : List String) :
    m (List TestVerdict × String) := do
  let sightings ← files.mapM (sight bench settings)
  let ended ← (plan sightings).mapM (perform bench settings)
  return (sorted (ended.map Prod.fst), String.join (ended.map Prod.snd))

end

end Suite

end PCode
