import PCode.Suite.Verdict

namespace PCode
namespace Report

/-!
What a run of tests tells: a summary in colours to be read, and a JSON document
with one member for each file.
-/

/-- A control sequence of terminals. -/
def control (code : String) : String := String.ofList [Char.ofNat 27, '['] ++ code ++ "m"

def coloured (code text : String) : String := control code ++ text ++ control "0"

def red : String := "91"
def green : String := "92"
def yellow : String := "93"
def cyan : String := "96"
def bold : String := "1"

def colour : Status -> String
  | .pass => green
  | .updated => green
  | .fail => red
  | .error => red
  | .skip => yellow

/-- What the summary says about one file.  A test that passes is mentioned only
on request. -/
def entry (verbose : Bool) (verdict : TestVerdict) : String :=
  if verdict.status = .pass && !verbose then ""
  else
    coloured (colour verdict.status) s!"[{verdict.status.name}]"
      ++ s!" {verdict.file}: {verdict.message}\n"
      ++ (if verdict.diff.isEmpty then "" else coloured cyan verdict.diff ++ "\n")

def count (status : Status) (verdicts : List TestVerdict) : Nat :=
  verdicts.countP fun verdict => verdict.status == status

def totals (verdicts : List TestVerdict) : String :=
  s!"{count .pass verdicts} passed, {count .fail verdicts} failed, "
    ++ s!"{count .error verdicts} errors, {count .skip verdicts} skipped, "
    ++ s!"{count .updated verdicts} updated ({verdicts.length} total)"

def summary (verbose : Bool) (verdicts : List TestVerdict) : String :=
  String.join (verdicts.map (entry verbose)) ++ "\n" ++ coloured bold "Summary:" ++ " "
    ++ totals verdicts ++ "\n"

/-- A verdict as JSON, empty texts left out. -/
def verdictJson (verdict : TestVerdict) : Json :=
  .object
    ([("file", .string verdict.file), ("status", .string verdict.status.name)]
    ++ (if verdict.message.isEmpty then [] else [("message", .string verdict.message)])
    ++ (if verdict.diff.isEmpty then [] else [("diff", .string verdict.diff)]))

def document (verdicts : List TestVerdict) : String :=
  (Json.object (verdicts.map fun verdict => (verdict.file, verdictJson verdict))).indented

end Report
end PCode
