import PCode.Artifact
import PCode.Command
import PCode.Compilation
import PCode.Document.Tree
import PCode.Excerpt
import PCode.Flags.Help

namespace PCode
namespace Command
namespace Compile

/-!
The command that compiles a program document.

It takes one document, compiles it with the settings of the flags, reports what
was found, and writes the code to a file or prints it.  Nothing is written
unless the compilation has succeeded.
-/

def manual : Manual where
  name := "kpc"
  synopsis := "[options] <program.json>"
  description :=
    "Resolves, type checks and compiles a parsed kaskell program to P-machine code."
  repository := "<https://github.com/xplshn/kaskell>"

def warningEntries : List FamilyEntry :=
  Warning.all.map fun warning => ⟨warning.name, warning.description, warning.initial⟩

def featureEntries : List FamilyEntry :=
  Feature.all.map fun feature => ⟨feature.name, feature.description, feature.initial⟩

def flags : FlagSet :=
  let set : FlagSet := {}
  let set := (set.defineText "output" "o" "out.p" "Place the output into <file>." "file").1
  let set := (set.defineText "source" "s" ""
    "Source file the positions refer to, for error excerpts." "file").1
  let set := (set.defineText "dialect" "" "Pa" "Output dialect (P, Pa)." "dialect").1
  let set := (set.defineToggle "dump" "d" false
    "Print the instruction stream to stdout instead of writing a file.").1
  let set := (set.defineToggle "verbose" "v" false "Report the progress of every phase.").1
  let set := (set.defineToggle "pedantic" "" false
    "Issue all warnings demanded by the strict dialect.").1
  (set.defineFamily "W" "Warning Flags" warningEntries).defineFamily "F" "Feature Flags"
    featureEntries

structure Options where
  output : String
  source : String
  dialect : String
  dump : Bool
  verbose : Bool
  pedantic : Bool
  switches : List String
deriving DecidableEq, Repr

def textOf (set : FlagSet) (name : String) : String :=
  ((set.find? name).map fun flag => flag.value.shown).getD ""

def isOn (set : FlagSet) (name : String) : Bool :=
  (set.find? name).map Flag.value == some (.toggle true)

def Options.ofFlags (set : FlagSet) : Options where
  output := textOf set "output"
  source := textOf set "source"
  dialect := textOf set "dialect"
  dump := isOn set "dump"
  verbose := isOn set "verbose"
  pedantic := isOn set "pedantic"
  switches := set.collected "W" ++ set.collected "F"

def Options.config (options : Options) : Except UnknownDialect Config :=
  let config := if options.pedantic then Config.initial.setWarning .pedantic true else Config.initial
  (config.applyDialectNamed options.dialect).map fun config =>
    config.processFlags options.switches

/-- A message of the command, on a line of its own. -/
def complaint (message : String) : String := "kpc: " ++ message ++ "\n"

/-- A line between the parts of a report on progress. -/
def rule : String := "----------------------\n"

/-- Text that is only printed when progress is reported. -/
def Options.progress (options : Options) (text : String) : Outcome :=
  if options.verbose then { stdout := text } else {}

/-- The words for a document that cannot be read.  A directory can be opened, and
fails only when it is read as a document. -/
def unreadable (input : String) (error : PathError) : String :=
  if error.operation = "read" then s!"{input}: malformed program: {error.message}"
  else error.message

/-- What a document that cannot be used leads to. -/
def rejected (input : String) : DocumentFailure -> Outcome
  | .refused refusal =>
    .failure (complaint (s!"{input}: " ++ refusal.message JsonProblem.message))
  | .hole => { exit := 2, stderr := complaint (s!"{input}: an entry is missing") }

/-- What was found in a program. -/
def report (files : List SourceFile) (diagnostics : List Diagnostic) : String :=
  let renderer : Renderer := { files }
  let count := (Diagnostics.errors diagnostics).length
  (renderer.renderAll diagnostics).text ++ (if count > 0 then s!"{count} error(s)\n" else "")

/-- What a failed compilation leads to, besides the report. -/
def failed (error : CompilationError) : Outcome :=
  if error.isFailure then { exit := 1 } else .failure (complaint error.message)

section

variable {m : Type -> Type} [Monad m]

/-- Prints the code or writes it to its file. -/
def deliver (host : Host m) (options : Options) (config : Config) (generated : Generated) :
    m Outcome := do
  let listing := generated.code.listing generated.bindings config.style
  if options.dump then
    return { exit := if listing.error.isSome then 1 else 0, stdout := listing.text }
  else
    let start := options.progress (s!"Writing '{options.output}'...\n")
    match ← listing.writeTo host options.output with
    | .error error => return start.andThen (.failure (complaint error.message))
    | .ok () => return start.andThen (options.progress (rule ++ "Done!\n"))

def compile (host : Host m) (options : Options) (config : Config) (files : List SourceFile)
    (input : String) (program : Program) : m Outcome := do
  match program.compile config with
  | (_, .error _) => return rejected input .hole
  | (_, .ok compilation) =>
    let phases := options.progress (String.join (compilation.log.map fun line => line ++ "\n"))
    let found : Outcome := { stderr := report files compilation.diagnostics }
    let start := phases.andThen found
    match compilation.result with
    | .error error => return start.andThen (failed error)
    | .ok generated => return start.andThen (← deliver host options config generated)

def decode (host : Host m) (options : Options) (config : Config) (files : List SourceFile)
    (input : String) : m Outcome := do
  let start := options.progress (rule ++ s!"Decoding '{input}'...\n")
  match ← host.read input with
  | .error error => return start.andThen (.failure (complaint (unreadable input error)))
  | .ok content =>
    match Program.decode content.toList 0 with
    | .error failure => return start.andThen (rejected input failure)
    | .ok program => return start.andThen (← compile host options config files input program)

/-- The files that excerpts are taken from: the source file if one is named. -/
def sourceFiles (host : Host m) (options : Options) (input : String) :
    m (Except PathError (List SourceFile)) := do
  if options.source.isEmpty then return .ok [{ name := input }]
  else
    match ← host.read options.source with
    | .error error => return .error error
    | .ok content =>
      return .ok [{ name := options.source, content := Text.ofBytes content.toList }]

/-- Carries out the command for its arguments. -/
def act (host : Host m) (options : Options) : List String -> m Outcome
  | [input] => do
    match options.config with
    | .error refusal => return .failure (complaint refusal.message)
    | .ok config =>
      match ← sourceFiles host options input with
      | .error error => return .failure (complaint error.message)
      | .ok files => decode host options config files input
  | _ => return .failure (complaint "exactly one input file expected")

def run (host : Host m) (arguments : List String) : m Outcome := do
  match manual.invoke flags arguments with
  | (_, .fault fault) => return { exit := 2, stderr := complaint fault.message }
  | (_, .failed error) => return .failure (manual.advice error)
  | (_, .help page) => return { stdout := page }
  | (set, .run args) => act host (.ofFlags set) args

end

end Compile
end Command
end PCode
