import PCode.Json.Reader
import PCode.Json.Writer

namespace PCode

/-!
Golden records.

A golden record keeps what the compiler said about a program: the digest of the
program, the arguments of the run, and its outcome.  Reading one goes through its
members in order; keys are matched without regard to case, unknown keys are
passed over, `null` changes nothing, and the first value of the wrong sort is
what is reported.
-/

/-- The outcome of a run as it is recorded. -/
structure RecordedRun where
  stdout : String := ""
  stderr : String := ""
  exitCode : Int64 := 0
  /-- Nanoseconds, or zero where the time was not kept. -/
  duration : Int64 := 0
  timedOut : Bool := false
deriving DecidableEq, Repr, Inhabited

structure Golden where
  digest : String := ""
  args : List String := []
  run : RecordedRun := {}
deriving DecidableEq, Repr, Inhabited

/-- A value of the wrong sort: what was found, where, and what was wanted. -/
structure GoldenMismatch where
  found : String
  /-- The record and the path of the member, unless it is the whole text. -/
  place : Option (String × String)
  wanted : String
deriving DecidableEq, Repr, Inhabited

/-- Why a text is no golden record. -/
inductive GoldenError where
  | syntaxError (error : Json.SyntaxError)
  | mismatch (mismatch : GoldenMismatch)
deriving DecidableEq, Repr, Inhabited

def GoldenError.message : GoldenError -> String
  | .syntaxError error => error.message
  | .mismatch cause =>
    match cause.place with
    | none => s!"json: cannot unmarshal {cause.found} into Go value of type {cause.wanted}"
    | some (record, path) =>
      s!"json: cannot unmarshal {cause.found} into Go struct field {record}.{path} of type "
        ++ cause.wanted

namespace Golden

abbrev Read (Part : Type) := Except GoldenMismatch Part

def readText (place : String × String) (old : String) : Json -> Read String
  | .null => .ok old
  | .string text => .ok text
  | value => .error ⟨value.sort, some place, "string"⟩

def readInt (place : String × String) (wanted : String) (old : Int64) : Json -> Read Int64
  | .null => .ok old
  | .number text =>
    match Json.int64? text with
    | some value => .ok value
    | none => .error ⟨"number " ++ text, some place, wanted⟩
  | value => .error ⟨value.sort, some place, wanted⟩

def readBool (place : String × String) (old : Bool) : Json -> Read Bool
  | .null => .ok old
  | .bool value => .ok value
  | value => .error ⟨value.sort, some place, "bool"⟩

/-- Reads texts into the cells of a list, new cells starting empty. -/
def readCells (place : String × String) (cells : List String) : List Json -> Read (List String)
  | [] => .ok []
  | value :: values =>
    match readText place (cells.headD "") value with
    | .error mismatch => .error mismatch
    | .ok text => (readCells place cells.tail values).map fun texts => text :: texts

def readTexts (place : String × String) (old : List String) : Json -> Read (List String)
  | .null => .ok []
  | .array values => readCells place old values
  | value => .error ⟨value.sort, some place, "[]string"⟩

def readRunMembers (run : RecordedRun) : List (String × Json) -> Read RecordedRun
  | [] => .ok run
  | (key, value) :: members =>
    let place (name : String) : String × String := ("Execution", "result." ++ name)
    let read : Read RecordedRun :=
      match Json.matchKey? ["stdout", "stderr", "exitCode", "duration", "timed_out"] key with
      | some "stdout" =>
        (readText (place "stdout") run.stdout value).map fun text => { run with stdout := text }
      | some "stderr" =>
        (readText (place "stderr") run.stderr value).map fun text => { run with stderr := text }
      | some "exitCode" =>
        (readInt (place "exitCode") "int" run.exitCode value).map fun code =>
          { run with exitCode := code }
      | some "duration" =>
        (readInt (place "duration") "time.Duration" run.duration value).map fun span =>
          { run with duration := span }
      | some "timed_out" =>
        (readBool (place "timed_out") run.timedOut value).map fun late =>
          { run with timedOut := late }
      | _ => .ok run
    match read with
    | .error mismatch => .error mismatch
    | .ok run => readRunMembers run members

def readRun (old : RecordedRun) : Json -> Read RecordedRun
  | .null => .ok old
  | .object members => readRunMembers old members
  | value => .error ⟨value.sort, some ("Golden", "result"), "main.Execution"⟩

def readMembers (golden : Golden) : List (String × Json) -> Read Golden
  | [] => .ok golden
  | (key, value) :: members =>
    let read : Read Golden :=
      match Json.matchKey? ["hash", "args", "result"] key with
      | some "hash" =>
        (readText ("Golden", "hash") golden.digest value).map fun text =>
          { golden with digest := text }
      | some "args" =>
        (readTexts ("Golden", "args") golden.args value).map fun texts =>
          { golden with args := texts }
      | some "result" => (readRun golden.run value).map fun run => { golden with run := run }
      | _ => .ok golden
    match read with
    | .error mismatch => .error mismatch
    | .ok golden => readMembers golden members

def ofJson : Json -> Read Golden
  | .null => .ok {}
  | .object members => readMembers {} members
  | value => .error ⟨value.sort, none, "main.Golden"⟩

def read (bytes : List UInt8) : Except GoldenError Golden :=
  match Json.readWhole bytes with
  | .error error => .error (.syntaxError error)
  | .ok value =>
    match ofJson value with
    | .error mismatch => .error (.mismatch mismatch)
    | .ok golden => .ok golden

/-- A recorded run as JSON; a time of zero and a run in time are not written. -/
def runJson (run : RecordedRun) : Json :=
  .object
    ([("stdout", .string run.stdout), ("stderr", .string run.stderr),
      ("exitCode", .number (toString run.exitCode))]
    ++ (if run.duration = 0 then [] else [("duration", .number (toString run.duration))])
    ++ (if run.timedOut then [("timed_out", .bool true)] else []))

def toJson (golden : Golden) : Json :=
  .object
    ([("hash", .string golden.digest)]
    ++ (if golden.args.isEmpty then [] else [("args", .array (golden.args.map .string))])
    ++ [("result", runJson golden.run)])

def text (golden : Golden) : String := golden.toJson.indented

end Golden

end PCode
