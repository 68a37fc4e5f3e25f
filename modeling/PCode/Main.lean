import PCode.Command.Compile
import PCode.Command.Test

namespace PCode
namespace Main

/-!
The tools as one program of the machine: `kpc` compiles, `ktest` tests.

Everything here carries out on the machine's files what the tools ask of a
system.  The compiler under test is the one of this library: it is carried out
in place, and its time is taken.
-/

/-- The cause of a failure of the machine. -/
def causeOf : IO.Error -> FileError
  | .noFileOrDirectory .. => .notFound
  | .permissionDenied .. => .notPermitted
  | .inappropriateType .. => .notDirectory
  | .invalidArgument .. => .invalid
  | _ => .notFound

def isDirectory (path : String) : IO Bool := do ((← IO.currentDir) / path).isDir

def isThere (path : String) : IO Bool := do ((← IO.currentDir) / path).pathExists

def readFile (path : String) : IO (Except PathError ByteArray) := do
  if ← isDirectory path then return .error ⟨"read", path, .isDirectory⟩
  else
    try return .ok (← IO.FS.readBinFile path)
    catch error => return .error ⟨"open", path, causeOf error⟩

def writeFile (path : String) (content : ByteArray) : IO (Except PathError Unit) := do
  if ← isDirectory path then return .error ⟨"open", path, .isDirectory⟩
  else
    try
      IO.FS.writeBinFile path content
      return .ok ()
    catch error => return .error ⟨"open", path, causeOf error⟩

def removeFile (path : String) : IO Unit := do
  try IO.FS.removeFile path catch _ => return ()

def host : Host IO where
  read := readFile
  write := writeFile
  remove := removeFile

def listDirectory (path : String) : IO (Option (List String)) := do
  if ← isDirectory path then
    let entries ← ((← IO.currentDir) / path).readDir
    return some (entries.toList.map fun entry => entry.fileName)
  else return none

def makeDirectories (path : String) : IO (Except PathError Unit) := do
  try
    IO.FS.createDirAll path
    return .ok ()
  catch error => return .error ⟨"mkdir", path, causeOf error⟩

def findProgram (name : String) : IO (Except ProgramError Unit) := do
  if !name.contains '/' then return .error .unlisted
  else if ← isDirectory name then return .error (.unusable .isDirectory)
  else if ← isThere name then return .ok ()
  else return .error (.unreachable .notFound)

/-- Compiles in place and takes the time. -/
def execute (_ : String) (arguments : List String) (timeout : Duration) : IO Execution := do
  let start ← IO.monoNanosNow
  let outcome ← Command.Compile.run host arguments
  let elapsed : Duration := ⟨Int64.ofNat ((← IO.monoNanosNow) - start)⟩
  return { outcome, elapsed, timedOut := timeout.nanoseconds < elapsed.nanoseconds }

/-- Files, directories and the compiler. -/
def bench : Workbench IO where
  toHost := host
  exists? := isThere
  list := listDirectory
  makeDirectories := makeDirectories
  findProgram := findProgram
  execute := execute

/-- Runs the tool that the first argument names. -/
def run : List String -> IO Outcome
  | "kpc" :: arguments => Command.Compile.run host arguments
  | "ktest" :: arguments => Command.Test.run bench arguments
  | _ => return { exit := 2, stderr := "expected the name of a tool: kpc or ktest\n" }

end Main
end PCode

def main (arguments : List String) : IO UInt32 := do
  let outcome ← PCode.Main.run arguments
  (← IO.getStdout).putStr outcome.stdout
  (← IO.getStderr).putStr outcome.stderr
  return UInt32.ofNat outcome.exit
