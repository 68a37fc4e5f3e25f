import PCode.Proofs.Json.RoundTrip
import PCode.Suite.Verdict

namespace PCode
namespace Golden

/-!
Golden records are read back as they were written.

What is left out when a record is written is what reading starts from: no arguments, no time, and a
run that was not stopped.  So a later run is judged by the very run that was recorded.
-/

/-! ## Values -/

theorem toString_int64 (value : Int64) : toString value = Json.integerText value.toInt := by
  have shown : toString value = value.toInt.repr := rfl
  rw [shown, Json.integerText]
  cases value.toInt with
  | ofNat number =>
    have nonneg : ¬ Int.ofNat number < 0 := by simp
    rw [decide_eq_false nonneg]
    rfl
  | negSucc number =>
    rw [decide_eq_true (Int.negSucc_lt_zero number), String.ofList_append]
    rfl

theorem readable_int64 (value : Int64) (room : Nat) :
    Json.Readable room (.number (toString value)) := by
  rw [toString_int64]
  exact .number value.toInt

theorem readInt_int64 (place : String × String) (wanted : String) (old value : Int64) :
    readInt place wanted old (.number (toString value)) = .ok value := by
  rw [readInt, toString_int64, Json.int64?_integerText]

theorem readCells_texts (place : String × String) (cells texts : List String) :
    readCells place cells (texts.map .string) = .ok texts := by
  induction texts generalizing cells with
  | nil => rfl
  | cons text texts ih =>
    rw [List.map_cons, readCells, readText]
    dsimp only
    rw [ih]
    rfl

/-! ## Members -/

section Members

variable (run : RecordedRun) (members : List (String × Json))

theorem readRunMembers_stdout (text : String) :
    readRunMembers run (("stdout", .string text) :: members)
      = readRunMembers { run with stdout := text } members :=
  rfl

theorem readRunMembers_stderr (text : String) :
    readRunMembers run (("stderr", .string text) :: members)
      = readRunMembers { run with stderr := text } members :=
  rfl

theorem readRunMembers_exitCode (code : Int64) :
    readRunMembers run (("exitCode", .number (toString code)) :: members)
      = readRunMembers { run with exitCode := code } members := by
  have known : Json.matchKey? ["stdout", "stderr", "exitCode", "duration", "timed_out"] "exitCode"
      = some "exitCode" := by decide
  simp only [readRunMembers, known, readInt_int64, Except.map]

theorem readRunMembers_duration (span : Int64) :
    readRunMembers run (("duration", .number (toString span)) :: members)
      = readRunMembers { run with duration := span } members := by
  have known : Json.matchKey? ["stdout", "stderr", "exitCode", "duration", "timed_out"] "duration"
      = some "duration" := by decide
  simp only [readRunMembers, known, readInt_int64, Except.map]

theorem readRunMembers_timedOut :
    readRunMembers run (("timed_out", .bool true) :: members)
      = readRunMembers { run with timedOut := true } members :=
  rfl

end Members

theorem readRun_runJson (run : RecordedRun) : readRun {} (runJson run) = .ok run := by
  rcases run with ⟨stdout, stderr, exitCode, duration, timedOut⟩
  rw [runJson, readRun, List.cons_append, List.cons_append, List.cons_append, List.cons_append,
    List.cons_append, List.cons_append, readRunMembers_stdout, readRunMembers_stderr,
    readRunMembers_exitCode, List.nil_append]
  dsimp only
  by_cases instant : duration = 0
  · rw [if_pos instant, instant, List.nil_append]
    cases timedOut with
    | false => rfl
    | true => exact readRunMembers_timedOut _ _
  · rw [if_neg instant, List.singleton_append, readRunMembers_duration]
    cases timedOut with
    | false => rfl
    | true => exact readRunMembers_timedOut _ _

theorem ofJson_toJson (golden : Golden) : ofJson golden.toJson = .ok golden := by
  rcases golden with ⟨digest, args, run⟩
  have last (golden : Golden) (fresh : golden.run = {}) :
      readMembers golden [("result", runJson run)] = .ok { golden with run := run } := by
    have known : Json.matchKey? ["hash", "args", "result"] "result" = some "result" := by decide
    simp only [readMembers, known, fresh, readRun_runJson, Except.map]
  rw [toJson, ofJson]
  by_cases plain : args.isEmpty = true
  · rw [if_pos plain]
    rw [List.isEmpty_iff] at plain
    subst plain
    exact last { digest := digest } rfl
  · have known : Json.matchKey? ["hash", "args", "result"] "args" = some "args" := by decide
    have first : readMembers {} (("hash", .string digest) :: ("args", .array (args.map .string))
          :: [("result", runJson run)])
        = readMembers { digest := digest, args := args } [("result", runJson run)] := by
      have hash : Json.matchKey? ["hash", "args", "result"] "hash" = some "hash" := by decide
      rw [readMembers.eq_def]
      simp only [hash, readText, Except.map]
      rw [readMembers.eq_def]
      simp only [known, readTexts, readCells_texts, Except.map]
    rw [if_neg plain]
    exact first.trans (last _ rfl)

/-! ## Whole records -/

theorem readable_runJson (run : RecordedRun) (room : Nat) :
    Json.Readable (room + 1) (runJson run) := by
  refine .object (List.forall_mem_append.mpr ⟨List.forall_mem_append.mpr ⟨?_, ?_⟩, ?_⟩)
  · exact List.forall_mem_cons.mpr ⟨.string _, List.forall_mem_cons.mpr ⟨.string _,
      List.forall_mem_singleton.mpr (readable_int64 run.exitCode room)⟩⟩
  · split
    · exact List.forall_mem_nil _
    · exact List.forall_mem_singleton.mpr (readable_int64 run.duration room)
  · split
    · exact List.forall_mem_singleton.mpr (.bool true)
    · exact List.forall_mem_nil _

theorem readable_toJson (golden : Golden) (room : Nat) :
    Json.Readable (room + 2) golden.toJson := by
  refine .object (List.forall_mem_append.mpr ⟨List.forall_mem_append.mpr ⟨?_, ?_⟩, ?_⟩)
  · exact List.forall_mem_singleton.mpr (.string _)
  · split
    · exact List.forall_mem_nil _
    · refine List.forall_mem_singleton.mpr (.array ?_)
      intro value member
      rcases List.mem_map.mp member with ⟨text, _, rfl⟩
      exact .string text
  · exact List.forall_mem_singleton.mpr (readable_runJson golden.run room)

/-- The text of a golden record is read as that record. -/
theorem read_text (golden : Golden) : read golden.text.toUTF8.toList = .ok golden := by
  rw [read, text, Json.readWhole_indented (readable_toJson golden 9998)]
  dsimp only
  rw [ofJson_toJson]

/-! ## Judgement by a record -/

/-- Two runs that no test tells apart. -/
structure Agree (first second : RecordedRun) : Prop where
  exitCode : first.exitCode = second.exitCode
  stdout : outputLines first.stdout = outputLines second.stdout
  stderr : outputLines first.stderr = outputLines second.stderr

theorem Agree.symm {first second} (agree : Agree first second) : Agree second first :=
  ⟨agree.exitCode.symm, agree.stdout.symm, agree.stderr.symm⟩

theorem Agree.trans {first second third} (agree : Agree first second) (next : Agree second third) :
    Agree first third :=
  ⟨agree.exitCode.trans next.exitCode, agree.stdout.trans next.stdout,
    agree.stderr.trans next.stderr⟩

theorem exitDiff_eq_empty_iff (golden target : Int64) :
    exitDiff golden target = "" <-> golden = target := by
  rw [exitDiff]
  split
  · rename_i same
    exact iff_of_true rfl same
  · rename_i different
    refine iff_of_false ?_ different
    simp only [String.append_eq_empty_iff]
    rintro ⟨⟨⟨⟨title, _⟩, _⟩, _⟩, _⟩
    exact absurd title (by decide)

theorem outputDiff_eq_empty_iff (title golden target : String) :
    outputDiff title golden target = "" <-> outputLines golden = outputLines target := by
  rw [outputDiff]
  split
  · rename_i same
    exact iff_of_true rfl same
  · rename_i different
    refine iff_of_false ?_ different
    simp [String.append_eq_empty_iff]

theorem diff_eq_empty_iff (golden target : RecordedRun) :
    golden.diff target = "" <-> Agree golden target := by
  rw [RecordedRun.diff, String.append_eq_empty_iff, String.append_eq_empty_iff,
    exitDiff_eq_empty_iff, outputDiff_eq_empty_iff, outputDiff_eq_empty_iff]
  constructor
  · rintro ⟨⟨exitCode, stdout⟩, stderr⟩
    exact ⟨exitCode, stdout, stderr⟩
  · intro agree
    exact ⟨⟨agree.exitCode, agree.stdout⟩, agree.stderr⟩

/-- A run passes by a record exactly if it agrees with the run that was recorded. -/
theorem judge_pass_iff (golden : Golden) (file digest : String) (target : RecordedRun) :
    (golden.judge file digest target).status = .pass <-> Agree golden.run target := by
  rw [← diff_eq_empty_iff, ← String.isEmpty_iff, judge]
  split
  · simp [*]
  · simp [*]

end Golden
end PCode
