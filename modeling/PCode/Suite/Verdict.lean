import PCode.Suite.Golden
import PCode.Text.Quoted

namespace PCode

/-!
Verdicts on test files.

A run agrees with its golden record if exit status, standard output and standard
error agree, newlines at the end of an output not counted.  A verdict of failure
tells which of the three differ.
-/

/-- How the test of a file has ended. -/
inductive Status where
  | pass
  | fail
  | skip
  | error
  | updated
deriving DecidableEq, Repr, Inhabited

namespace Status

def name : Status -> String
  | .pass => "PASS"
  | .fail => "FAIL"
  | .skip => "SKIP"
  | .error => "ERROR"
  | .updated => "UPDATED"

/-- Whether a status makes the whole suite fail. -/
def isBad (status : Status) : Bool := status == .fail || status == .error

end Status

/-- What is said about one file. -/
structure TestVerdict where
  file : String
  status : Status
  message : String
  /-- Where a run and its golden record differ. -/
  diff : String := ""
deriving DecidableEq, Repr, Inhabited

/-- The lines of an output, newlines at its end not counted. -/
def outputLines (text : String) : List String :=
  let kept := (text.toList.reverse.dropWhile fun char => char == '\n').reverse
  (String.ofList kept).splitOn "\n"

/-- What is left of two lists behind the elements that they start with in
common. -/
def dropCommon : List String -> List String -> List String × List String
  | first :: firsts, second :: seconds =>
    if first = second then dropCommon firsts seconds else (first :: firsts, second :: seconds)
  | firsts, seconds => (firsts, seconds)

/-- The lines in which two outputs differ: those of the first that are gone, then
those of the second that are new.  Lines in common at the start and at the end
are left out. -/
def changedLines (golden target : List String) : String :=
  let (golden, target) := dropCommon golden target
  let (golden, target) := dropCommon golden.reverse target.reverse
  let line (mark text : String) : String := mark ++ " " ++ Text.quoted text ++ "\n"
  String.join (golden.reverse.map (line "-") ++ target.reverse.map (line "+"))

/-- The part of a diff about one output; nothing where the outputs agree. -/
def outputDiff (title golden target : String) : String :=
  if outputLines golden = outputLines target then ""
  else title ++ " mismatch (-golden +target):\n"
    ++ changedLines (outputLines golden) (outputLines target)

def exitDiff (golden target : Int64) : String :=
  if golden = target then ""
  else s!"Exit code mismatch:\n  - Golden: {golden}\n  - Target: {target}\n"

/-- Where a run differs from a recorded one; nothing where they agree. -/
def RecordedRun.diff (golden target : RecordedRun) : String :=
  exitDiff golden.exitCode target.exitCode
    ++ outputDiff "P-code" golden.stdout target.stdout
    ++ outputDiff "Diagnostics" golden.stderr target.stderr

/-- The verdict on a run by its golden record.  Agreement is mentioned together
with a program that has changed since. -/
def Golden.judge (golden : Golden) (file digest : String) (target : RecordedRun) : TestVerdict :=
  let diff := golden.run.diff target
  if diff.isEmpty then
    { file, status := .pass
      message := "Output matches golden file"
        ++ (if golden.digest.isEmpty || golden.digest = digest then ""
          else " (program changed since the golden file was written)") }
  else { file, status := .fail, message := "Output differs from golden file", diff }

end PCode
