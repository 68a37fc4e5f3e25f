import PCode.Flags.Plain
import PCode.Suite
import PCode.Suite.Report

namespace PCode
namespace Command
namespace Test

/-!
The command that tests a compiler.

It finds the compiler and the files to test, runs the tests, prints a summary and
writes a report.  It fails if a test fails or cannot be carried out.
-/

def flags : List PlainFlag :=
  [⟨"compiler", .text "./kpc", "Path to the kpc binary under test."⟩,
   ⟨"args", .text "", "Extra arguments for kpc (space-separated)."⟩,
   ⟨"test-files", .text "tests/*.json", "Glob pattern(s) for programs to test (space-separated)."⟩,
   ⟨"skip-files", .text "", "Files to skip (space-separated)."⟩,
   ⟨"dir", .text "", "Directory holding golden files (defaults to each program's directory)."⟩,
   ⟨"output", .text ".test_results.json", "Output file for the JSON test report."⟩,
   ⟨"update", .toggle false, "Write golden files from the current compiler output."⟩,
   ⟨"timeout", .span (.ofSeconds 5), "Timeout for each compilation."⟩,
   ⟨"j", .number 4, "Number of parallel test jobs."⟩,
   ⟨"v", .toggle false, "Enable verbose logging."⟩]

def valueOf (flags : List PlainFlag) (name : String) : Option PlainValue :=
  (flags.find? fun flag => flag.name == name).map PlainFlag.value

def textOf (flags : List PlainFlag) (name : String) : String :=
  match valueOf flags name with
  | some (.text value) => value
  | _ => ""

def isOn (flags : List PlainFlag) (name : String) : Bool :=
  valueOf flags name == some (.toggle true)

def spanOf (flags : List PlainFlag) (name : String) : Duration :=
  match valueOf flags name with
  | some (.span value) => value
  | _ => ⟨0⟩

/-- What flags ask for.  The number of jobs is left out, because the verdicts do
not depend on it. -/
def settings (flags : List PlainFlag) : SuiteSettings where
  compiler := textOf flags "compiler"
  compilerArgs := textOf flags "args"
  patterns := textOf flags "test-files"
  excluded := textOf flags "skip-files"
  directory := textOf flags "dir"
  output := textOf flags "output"
  update := isOn flags "update"
  timeout := spanOf flags "timeout"
  verbose := isOn flags "v"

def labelled (colour label text : String) : String :=
  Report.coloured colour s!"[{label}]" ++ " " ++ text ++ "\n"

def refused (text : String) : Outcome := .failure (labelled Report.red "ERROR" text)

section

variable {m : Type -> Type} [Monad m]

def testAll (bench : Workbench m) (settings : SuiteSettings) (files : List String) :
    m Outcome := do
  let (verdicts, log) ← Suite.run bench settings files
  let path := settings.reportPath
  let warning := match ← bench.write path (Report.document verdicts).toUTF8 with
    | .error error =>
      labelled Report.yellow "WARN" s!"writing report {path}: {error.message}"
    | .ok () => ""
  return {
    exit := if verdicts.any fun verdict => verdict.status.isBad then 1 else 0
    stdout := Report.summary settings.verbose verdicts
    stderr := log ++ warning }

def act (bench : Workbench m) (settings : SuiteSettings) : m Outcome := do
  match ← bench.findProgram settings.compiler with
  | .error error =>
    return refused
      s!"Compiler '{settings.compiler}' not found: {error.message settings.compiler}"
  | .ok () =>
    match ← Suite.files bench settings with
    | .error error => return refused s!"Invalid glob pattern(s): {error.message}"
    | .ok [] => return { stderr := "No test files found matching the pattern(s).\n" }
    | .ok files => testAll bench settings files

def run (bench : Workbench m) (arguments : List String) : m Outcome := do
  match PlainFlag.parse flags arguments with
  | .help => return { stderr := PlainFlag.page "ktest" flags }
  | .failed error =>
    return { exit := 2, stderr := error.message ++ "\n" ++ PlainFlag.page "ktest" flags }
  | .done flags _ => act bench (settings flags)

end

end Test
end Command
end PCode
