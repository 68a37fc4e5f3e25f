import Mathlib
import PCode.Command.Compile
import PCode.Proofs.Compilation
import PCode.Proofs.FileTree
import PCode.Proofs.Listing
import PCode.Proofs.Text.Utf8

namespace PCode
namespace Command
namespace Compile

open Diagnostics (hasErrors)
open Text (toList_loop)

/-!
The compile command is all or nothing.

The command has one place where it writes, behind everything that can refuse the program.  Code that
is delivered can be printed to its end, so the file that is created is never removed again.  Hence a
run that fails leaves all files as they were, and a run that succeeds changes its output and nothing
else.
-/

/-! ## Parts of a run -/

/-- How a part of a run on a tree of files has ended.  It has ended well exactly if `Good` holds;
then `Left` holds of the files that it left behind, and otherwise they are the files from before. -/
structure Settles (ended : Outcome × FileTree) (tree : FileTree) (Good : Prop)
    (Left : FileTree -> Prop) : Prop where
  exit : ended.1.exit = 0 <-> Good
  kept : ended.1.exit ≠ 0 -> ended.2 = tree
  left : Good -> Left ended.2

section Settling

variable {tree : FileTree} {Good : Prop} {Left : FileTree -> Prop}

variable {outcome : Outcome} {ended : Outcome × FileTree} {content : ByteArray}
  {generated : Generated} {source : Int64} {arguments : List String}

theorem Settles.fails (failed : outcome.exit ≠ 0) (bad : ¬ Good) :
    Settles (outcome, tree) tree Good Left where
  exit := ⟨fun zero => absurd zero failed, fun good => absurd good bad⟩
  kept := fun _ => rfl
  left := fun good => absurd good bad

theorem Settles.ends {after} (ended : outcome.exit = 0) (good : Good) (left : Left after) :
    Settles (outcome, after) tree Good Left where
  exit := ⟨fun _ => good, fun _ => ended⟩
  kept := fun failed => absurd ended failed
  left := fun _ => left

/-- What was printed before changes neither the end of a run nor its files. -/
theorem Settles.andThen (start : Outcome) (settles : Settles ended tree Good Left) :
    Settles (start.andThen ended.1, ended.2) tree Good Left :=
  ⟨settles.exit, settles.kept, settles.left⟩

theorem Settles.of_iff {Good' : Prop} {Left' : FileTree -> Prop}
    (settles : Settles ended tree Good Left) (same : Good' <-> Good)
    (weaker : Good' -> forall after, Left after -> Left' after) :
    Settles ended tree Good' Left' where
  exit := settles.exit.trans same.symm
  kept := settles.kept
  left := fun good => weaker good _ (settles.left (same.mp good))

end Settling

variable {tree after : FileTree} {path : String}

/-- A sequence goes on with what its first part gives and leaves behind. -/
theorem run_bind {First Second : Type} {first : StateM FileTree First}
    {second : First -> StateM FileTree Second} {given} (ran : first tree = (given, after)) :
    (first >>= second) tree = second given after := by
  simp only [bind, StateT.bind, ran]

theorem host_read (tree : FileTree) (path : String) :
    FileTree.host.read path tree = (tree.read path, tree) :=
  rfl

theorem host_write_of_error {cause} (refused : tree.write path content = .error cause) :
    FileTree.host.write path content tree = (.error cause, tree) := by
  simp only [FileTree.host, bind, StateT.bind, get, getThe, MonadStateOf.get, StateT.get, pure,
    refused]
  rfl

theorem host_write_of_ok (written : tree.write path content = .ok after) :
    FileTree.host.write path content tree = (.ok (), after) := by
  simp only [FileTree.host, bind, StateT.bind, get, getThe, MonadStateOf.get, StateT.get, pure,
    written]
  rfl

/-! ## Delivery -/

/-- Files behind a delivery: the same if the code was printed, and otherwise changed at the output
only, which holds the code. -/
def Delivered (tree : FileTree) (options : Options) (config : Config) (generated : Generated)
    (after : FileTree) : Prop :=
  if options.dump then after = tree
  else FileTree.Wrote tree after options.output (generated.printed config).text.toUTF8

theorem writeTo_of_error {listing : Listing} {cause}
    (refused : tree.write path listing.text.toUTF8 = .error cause) :
    listing.writeTo FileTree.host path tree = (.error (.create path cause), tree) := by
  rw [Listing.writeTo, run_bind (host_write_of_error refused)]
  rfl

/-- Code that can be printed to its end stays in the file that was created for it. -/
theorem writeTo_of_ok {listing : Listing} (complete : listing.error = none)
    (written : tree.write path listing.text.toUTF8 = .ok after) :
    listing.writeTo FileTree.host path tree = (.ok (), after) := by
  rw [Listing.writeTo, run_bind (host_write_of_ok written)]
  dsimp only
  rw [complete]
  rfl

theorem exit_progress (options : Options) (text : String) : (options.progress text).exit = 0 := by
  rw [Options.progress]
  split <;> rfl

theorem settles_deliver (tree : FileTree) (options : Options) (config : Config)
    (printable : Lowering.Printable generated) :
    Settles (deliver FileTree.host options config generated tree) tree
      (options.dump = true ∨ tree.Creatable options.output)
      (Delivered tree options config generated) := by
  have complete : (generated.printed config).error = none := printable.listing config.style
  unfold deliver Delivered
  rw [← Generated.printed]
  cases dumps : options.dump with
  | true =>
    simp only [if_true, complete]
    exact .ends rfl (.inl trivial) rfl
  | false =>
    simp only [Bool.false_eq_true, if_false, false_or]
    cases written : tree.write options.output (generated.printed config).text.toUTF8 with
    | error cause =>
      rw [run_bind (writeTo_of_error written)]
      refine .fails Nat.one_ne_zero ?_
      intro creatable
      rcases FileTree.write_of_creatable creatable (generated.printed config).text.toUTF8
          with ⟨after, ok⟩
      rw [written] at ok
      cases ok
    | ok after =>
      rw [run_bind (writeTo_of_ok complete written)]
      exact .ends (exit_progress options _) (FileTree.creatable_of_write written)
        (FileTree.wrote_of_write written)

/-! ## Compilation -/

/-- Code at the end of a compilation can be printed. -/
theorem printable_of_course {program behind config compilation}
    (whole : Written.Whole source program)
    (course : Compilation.Course program config behind compilation)
    (code : compilation.result = .ok generated) : Lowering.Printable generated := by
  rcases course.accepted whole code with ⟨_, checked, _, _, _, _, generates, typed⟩
  rcases Lowering.generate_of_typed config whole typed with ⟨_, same, again, printable⟩
  rw [generates] at again
  cases again
  exact printable

/-- Files behind a compilation that has code. -/
def Compiled (tree : FileTree) (options : Options) (config : Config) (compilation : Compilation)
    (after : FileTree) : Prop :=
  exists generated, compilation.result = .ok generated
    ∧ Delivered tree options config generated after

/-- A program is compiled and delivered exactly if no error is reported and there is somewhere to
deliver it to. -/
theorem settles_compile (tree : FileTree) (options : Options) (config : Config)
    (files : List SourceFile) (input : String) {program} (whole : Written.Whole source program) :
    exists compilation, (program.compile config).2 = .ok compilation
      ∧ Settles (compile FileTree.host options config files input program tree) tree
          (hasErrors compilation.diagnostics = false
            ∧ (options.dump = true ∨ tree.Creatable options.output))
          (Compiled tree options config compilation) := by
  rcases Compilation.course_of_whole config whole with ⟨behind, compilation, course⟩
  have compiles := Compilation.compile_of_course course
  have clean := course.code_iff whole
  refine ⟨compilation, congrArg Prod.snd compiles, ?_⟩
  rw [compile, compiles]
  dsimp only
  cases code : compilation.result with
  | error error =>
    have failure : (failed error).exit = 1 := by
      rw [failed, if_pos (course.reported code).1]
    refine .fails (ne_of_eq_of_ne failure Nat.one_ne_zero) ?_
    rintro ⟨noErrors, _⟩
    rcases clean.mpr noErrors with ⟨generated, ok⟩
    rw [code] at ok
    cases ok
  | ok generated =>
    have delivered := settles_deliver tree options config (printable_of_course whole course code)
    refine ((delivered.andThen _).of_iff ?_ ?_)
    · exact ⟨And.right, fun good => ⟨clean.mp ⟨generated, code⟩, good⟩⟩
    · exact fun _ after left => ⟨generated, code, left⟩

/-! ## Documents -/

/-- What the document at a path compiles to. -/
def Decoded (tree : FileTree) (config : Config) (input : String) (compilation : Compilation) :
    Prop :=
  exists content program, tree.read input = .ok content
    ∧ Program.decode content.toList 0 = .ok program
    ∧ (program.compile config).2 = .ok compilation

theorem exit_rejected (input : String) (failure : DocumentFailure) :
    (rejected input failure).exit ≠ 0 := by
  cases failure with
  | refused refusal => exact Nat.one_ne_zero
  | hole => exact Nat.succ_ne_zero 1

theorem settles_decode (tree : FileTree) (options : Options) (config : Config)
    (files : List SourceFile) (input : String) :
    Settles (decode FileTree.host options config files input tree) tree
      (exists compilation, Decoded tree config input compilation
        ∧ hasErrors compilation.diagnostics = false
        ∧ (options.dump = true ∨ tree.Creatable options.output))
      (fun after => forall compilation, Decoded tree config input compilation ->
        Compiled tree options config compilation after) := by
  rw [decode, run_bind (host_read tree input)]
  cases readable : tree.read input with
  | error cause =>
    refine .fails Nat.one_ne_zero ?_
    rintro ⟨_, ⟨_, _, content, _⟩, _⟩
    rw [readable] at content
    cases content
  | ok content =>
    dsimp only
    cases decoded : Program.decode content.toList 0 with
    | error failure =>
      refine .fails (exit_rejected input failure) ?_
      rintro ⟨_, ⟨_, _, same, decodes, _⟩, _⟩
      rw [readable] at same
      cases same
      rw [decoded] at decodes
      cases decodes
    | ok program =>
      rcases settles_compile tree options config files input
          (Written.whole_of_decode decoded) with ⟨compilation, compiled, settles⟩
      have only : forall other, Decoded tree config input other -> other = compilation := by
        rintro other ⟨_, _, same, decodes, compiles⟩
        rw [readable] at same
        cases same
        rw [decoded] at decodes
        cases decodes
        rw [compiled] at compiles
        exact (Except.ok.inj compiles).symm
      refine (settles.andThen _).of_iff ⟨?_, ?_⟩ ?_
      · rintro ⟨other, isDecoded, good⟩
        rw [only other isDecoded] at good
        exact good
      · exact fun good => ⟨compilation, ⟨content, program, readable, decoded, compiled⟩, good⟩
      · intro _ after left other isDecoded
        rw [only other isDecoded]
        exact left

/-! ## Command lines -/

/-- A task of the command: what the flags ask for, the document, and what it compiles to. -/
structure Job where
  options : Options
  input : String
  config : Config
  compilation : Compilation

/-- A task that nothing stands in the way of. -/
structure Job.Feasible (job : Job) (tree : FileTree) : Prop where
  dialect : job.options.config = .ok job.config
  source : job.options.source = "" ∨ exists content, tree.read job.options.source = .ok content
  decoded : Decoded tree job.config job.input job.compilation
  clean : hasErrors job.compilation.diagnostics = false
  delivers : job.options.dump = true ∨ tree.Creatable job.options.output

/-- The source file is looked at, and no file is changed. -/
theorem sourceFiles_cases (tree : FileTree) (options : Options) (input : String) :
    (exists files, sourceFiles FileTree.host options input tree = (.ok files, tree)
        ∧ (options.source = "" ∨ exists content, tree.read options.source = .ok content))
      ∨ exists cause, sourceFiles FileTree.host options input tree = (.error cause, tree)
        ∧ ¬ (options.source = "" ∨ exists content, tree.read options.source = .ok content) := by
  unfold sourceFiles
  by_cases unnamed : options.source = ""
  · exact .inl ⟨_, by rw [if_pos (String.isEmpty_iff.mpr unnamed)]; rfl, .inl unnamed⟩
  · rw [if_neg (fun empty => unnamed (String.isEmpty_iff.mp empty)),
      run_bind (host_read tree options.source)]
    cases readable : tree.read options.source with
    | ok content => exact .inl ⟨_, rfl, .inr ⟨content, rfl⟩⟩
    | error cause =>
      refine .inr ⟨cause, rfl, ?_⟩
      rintro (empty | ⟨_, ok⟩)
      · exact unnamed empty
      · cases ok

/-- The command is carried out exactly if its arguments are those of a feasible task. -/
theorem settles_act (tree : FileTree) (options : Options) (arguments : List String) :
    Settles (act FileTree.host options arguments tree) tree
      (exists job : Job, job.options = options ∧ arguments = [job.input] ∧ job.Feasible tree)
      (fun after => forall job : Job, job.options = options -> arguments = [job.input] ->
        job.Feasible tree -> Compiled tree options job.config job.compilation after) := by
  match arguments with
  | [] | _ :: _ :: _ =>
    refine .fails Nat.one_ne_zero ?_
    rintro ⟨_, _, single, _⟩
    cases single
  | [input] =>
    rw [act]
    cases chosen : options.config with
    | error refusal =>
      refine .fails Nat.one_ne_zero ?_
      rintro ⟨job, rfl, _, feasible⟩
      rw [feasible.dialect] at chosen
      cases chosen
    | ok config =>
      dsimp only
      rcases sourceFiles_cases tree options input
          with ⟨files, looked, named⟩ | ⟨cause, looked, missing⟩
      · rw [run_bind looked]
        refine (settles_decode tree options config files input).of_iff ⟨?_, ?_⟩ ?_
        · rintro ⟨⟨_, _, given, compilation⟩, rfl, single, feasible⟩
          cases single
          cases chosen.symm.trans feasible.dialect
          exact ⟨compilation, feasible.decoded, feasible.clean, feasible.delivers⟩
        · rintro ⟨compilation, decoded, clean, delivers⟩
          exact ⟨⟨options, input, config, compilation⟩, rfl, rfl, chosen, named, decoded, clean,
            delivers⟩
        · rintro _ after left ⟨_, _, given, compilation⟩ rfl single feasible
          cases single
          cases chosen.symm.trans feasible.dialect
          exact left compilation feasible.decoded
      · rw [run_bind looked]
        refine .fails Nat.one_ne_zero ?_
        rintro ⟨job, rfl, _, feasible⟩
        exact missing feasible.source

/-- All flags that a command line of the command may use. -/
def known : FlagSet := (flags.defineToggle "help" "h" false "Display this information").1

/-- The command line can be read, and leaves the flags like this. -/
def Parses (arguments : List String) (set : FlagSet) : Prop := known.parse arguments = (set, none)

/-- The command line can be read, and sets a flag. -/
def Asks (arguments : List String) (flag : String) : Prop :=
  exists set, Parses arguments set ∧ isOn set flag = true

/-- A feasible task that a command line sets. -/
structure Job.Of (job : Job) (tree : FileTree) (arguments : List String) : Prop where
  parses : exists set, Parses arguments set ∧ isOn set "help" = false
    ∧ Options.ofFlags set = job.options ∧ set.args = [job.input]
  feasible : job.Feasible tree

theorem Parses.unique {set other} (parses : Parses arguments set) (again : Parses arguments other) :
    set = other :=
  congrArg Prod.fst (parses.symm.trans again)

/-- What the command does about a command line.  No two of its flags bear the same name, so the only
fault of a command line is one of its arguments. -/
theorem invoke_eq (arguments : List String) :
    manual.invoke flags arguments
      = match known.parse arguments with
        | (set, some error) => (set, .failed error)
        | (set, none) =>
          if isOn set "help" then (set, .help (Help.page manual set Help.defaultWidth))
          else (set, .run set.args) := by
  have defines : flags.defineToggle "help" "h" false "Display this information" = (known, none) :=
    Prod.ext rfl (by decide +kernel)
  rw [Manual.invoke, defines]
  rfl

/-- A command line that cannot be read asks for nothing. -/
theorem not_parses_of_error {set other error} (parsed : known.parse arguments = (set, some error)) :
    ¬ Parses arguments other := by
  intro parses
  have none := congrArg Prod.snd (parsed.symm.trans parses)
  cases none

/-- A run succeeds exactly if it only shows help or there is a task for it. -/
theorem settles_run (tree : FileTree) (arguments : List String) :
    Settles (run FileTree.host arguments tree) tree
      (Asks arguments "help" ∨ exists job : Job, job.Of tree arguments)
      (fun after => (Asks arguments "help" -> after = tree)
        ∧ forall job : Job, job.Of tree arguments ->
          Compiled tree job.options job.config job.compilation after) := by
  rw [run, invoke_eq]
  rcases parsed : known.parse arguments with ⟨set, _ | error⟩
  case some =>
    refine .fails Nat.one_ne_zero ?_
    rintro (⟨_, parses, _⟩ | ⟨_, ⟨_, parses, _⟩, _⟩)
    · exact not_parses_of_error parsed parses
    · exact not_parses_of_error parsed parses
  case none =>
    dsimp only
    cases help : isOn set "help" with
    | true =>
      rw [if_pos rfl]
      refine .ends rfl (.inl ⟨set, parsed, help⟩) ⟨fun _ => rfl, ?_⟩
      rintro job ⟨⟨other, parses, noHelp, _⟩, _⟩
      rw [parses.unique parsed, help] at noHelp
      cases noHelp
    | false =>
      rw [if_neg Bool.false_ne_true]
      have quiet : ¬ Asks arguments "help" := by
        rintro ⟨other, parses, asked⟩
        rw [parses.unique parsed, help] at asked
        cases asked
      refine (settles_act tree (.ofFlags set) set.args).of_iff ⟨?_, ?_⟩ ?_
      · rintro (asked | ⟨job, ⟨other, parses, _, options, single⟩, feasible⟩)
        · exact absurd asked quiet
        · cases parses.unique parsed
          exact ⟨job, options.symm, single, feasible⟩
      · rintro ⟨job, options, single, feasible⟩
        exact .inr ⟨job, ⟨set, parsed, help, options.symm, single⟩, feasible⟩
      · intro _ after left
        refine ⟨fun asked => absurd asked quiet, ?_⟩
        rintro job ⟨⟨other, parses, _, options, single⟩, feasible⟩
        cases parses.unique parsed
        rw [← options]
        exact left job options.symm single feasible

/-- A command line that compiles `p` to `q`. -/
def sampleLine : List String := ["-o", "q", "p"]

/-- What that command line asks for. -/
def sampleOptions : Options := .ofFlags (known.parse sampleLine).1

/-- The settings of that command line. -/
def sampleConfig : Config := sampleOptions.config.toOption.getD default

/-- A tree with nothing in it but a document. -/
def sampleTree : FileTree := { files := [(["p"], ⟨Written.sampleText.toArray⟩)] }

theorem read_sampleTree : sampleTree.read "p" = .ok ⟨Written.sampleText.toArray⟩ := by
  have located : sampleTree.locate "p" = .ok (.inside ["p"], false) := by decide +kernel
  rw [FileTree.read, FileTree.lookup, located]
  rfl

theorem creatable_sampleTree : sampleTree.Creatable "q" := by
  have located : sampleTree.locate "q" = .ok (.inside ["q"], false) := by decide +kernel
  refine ⟨sampleTree.put ["q"] .empty, ?_⟩
  rw [FileTree.write, located]
  rfl

theorem config_sampleOptions : sampleOptions.config = .ok sampleConfig := by
  have known : sampleOptions.config.toOption.isSome = true := by decide +kernel
  cases chosen : sampleOptions.config with
  | ok config => simp only [sampleConfig, chosen, Except.toOption, Option.getD]
  | error refusal =>
    rw [chosen] at known
    cases known

end Compile
end Command
end PCode
