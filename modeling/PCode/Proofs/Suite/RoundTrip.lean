import PCode.Command.Test
import PCode.Proofs.Command.Compile
import PCode.Proofs.Path
import PCode.Proofs.Suite.Golden
import PCode.Proofs.Suite.Schedules

namespace PCode

namespace SuiteSettings

/-- The same settings for a run that updates. -/
def updating (settings : SuiteSettings) : SuiteSettings := { settings with update := true }

/-- The same settings for a run that compares. -/
def comparing (settings : SuiteSettings) : SuiteSettings := { settings with update := false }

end SuiteSettings

namespace Suite

/-!
Golden records from one run to the next.

A run that updates writes one record for each file that it tests, and a later run compares with what
it finds there.  Records are hidden files, so they never stand where a tested file stands.  But the
path of a record forgets the ending of the file, and with a directory for records also where the
file lies: files may share a record.  Then the one that was tested last has it, and the others pass
exactly if they cannot be told apart from it.
-/

open FileTree (Spares workbench runTime)
open Golden (Agree)

/-! ## Runs that change nothing -/

section States

variable {State Item Result : Type} {work : Item -> StateM State Result} {state : State}

theorem bind_run {Next : Type} (first : StateM State Result) (next : Result -> StateM State Next)
    (state : State) : (first >>= next) state = next (first state).1 (first state).2 :=
  rfl

theorem mapM_cons_run (item : Item) (items : List Item) :
    (item :: items).mapM work state
      = ((work item state).1 :: (items.mapM work (work item state).2).1,
          (items.mapM work (work item state).2).2) := by
  rw [List.mapM_cons]
  rfl

/-- Work that leaves the state alone is done on each item by itself. -/
theorem mapM_run_of_quiet {items : List Item}
    (quiet : forall item, item ∈ items -> (work item state).2 = state) :
    items.mapM work state = (items.map fun item => (work item state).1, state) := by
  induction items with
  | nil =>
    rw [List.mapM_nil]
    rfl
  | cons item items ih =>
    rcases List.forall_mem_cons.mp quiet with ⟨first, others⟩
    rw [mapM_cons_run, first, ih others]
    rfl

end States

/-! ## Plans -/

/-- What is found out about a file in a tree. -/
def sighting (settings : SuiteSettings) (tree : FileTree) (file : String) : Sighting :=
  if (Text.words settings.excluded).contains file then .excluded
  else
    match tree.read file with
    | .error error => .unreadable error
    | .ok content => .readable (Digest.text (Digest.ofBytes content.toList))

/-- The tasks for files in a tree. -/
def tasks (settings : SuiteSettings) (tree : FileTree) (files : List String) : List Task :=
  plan (files.map fun file => (file, sighting settings tree file))

section Planning

variable {settings : SuiteSettings} {tree : FileTree} {files : List String} {file digest : String}

theorem sight_run (program : List String -> StateM FileTree Outcome) (settings : SuiteSettings)
    (tree : FileTree) (file : String) :
    sight (workbench program) settings file tree
      = ((file, sighting settings tree file), tree) := by
  have read : (workbench program).read file tree = (tree.read file, tree) := rfl
  rw [sight, sighting]
  split
  · rfl
  · rw [bind_run, read]
    dsimp only
    cases tree.read file with
    | error error => rfl
    | ok content => rfl

/-- A run carries out the tasks that are planned in the tree it starts from. -/
theorem run_eq (program : List String -> StateM FileTree Outcome) (settings : SuiteSettings)
    (files : List String) (tree : FileTree) :
    (run (workbench program) settings files tree).1.1
        = sorted (((tasks settings tree files).mapM (perform (workbench program) settings)
            tree).1.map Prod.fst)
      ∧ (run (workbench program) settings files tree).2
        = ((tasks settings tree files).mapM (perform (workbench program) settings) tree).2 := by
  have sights : files.mapM (sight (workbench program) settings) tree
      = (files.map fun file => (file, sighting settings tree file), tree) := by
    rw [mapM_run_of_quiet fun file _ => by rw [sight_run]]
    simp only [sight_run]
  rw [run, bind_run, sights]
  exact ⟨rfl, rfl⟩

/-- What is settled in advance is neither updated nor passed. -/
theorem status_of_settle {seen sightings verdict}
    (planned : .settle verdict ∈ planFrom seen sightings) :
    verdict.status ≠ .updated ∧ verdict.status ≠ .pass := by
  induction sightings generalizing seen with
  | nil => cases planned
  | cons sighting rest ih =>
    rcases planFrom_cases seen sighting with ⟨settled, _, here, status⟩ | ⟨_, _, _, here⟩
    · rw [here] at planned
      rcases List.mem_cons.mp planned with first | later
      · cases first
        exact status
      · exact ih later
    · rw [here] at planned
      rcases List.mem_cons.mp planned with first | later
      · cases first
      · exact ih later

theorem readable_of_test (planned : .test file digest ∈ tasks settings tree files) :
    file ∈ files ∧ exists content, tree.read file = .ok content := by
  rcases first_of_test_mem planned with ⟨_, found⟩
  have member := List.mem_of_find?_eq_some found
  rcases List.mem_map.mp member with ⟨name, isFile, equal⟩
  rcases Prod.mk.inj equal with ⟨rfl, seen⟩
  refine ⟨isFile, ?_⟩
  rw [sighting] at seen
  split at seen
  · cases seen
  · split at seen
    · cases seen
    · rename_i content read
      exact ⟨content, read⟩

end Planning

/-! ## Single tests -/

/-- A program that is asked about one file: what it says depends on the content of the file only,
and it leaves all files alone. -/
def Steady (program : List String -> StateM FileTree Outcome) (line : List String)
    (file : String) : Prop :=
  exists answer : Except PathError ByteArray -> Outcome,
    forall tree, program line tree = (answer (tree.read file), tree)

/-- The run of a program that answers in time. -/
def executed (outcome : Outcome) : Execution := { outcome, elapsed := runTime }

section Records

variable (program : List String -> StateM FileTree Outcome) (settings : SuiteSettings)
  (tree : FileTree) (file : String)

/-- What a program says about a file in a tree. -/
def outcomeOf : Outcome :=
  (program (settings.arguments file) tree).1

/-- The run that is recorded for a file in a tree. -/
def runOf : RecordedRun :=
  (executed (outcomeOf program settings tree file)).recorded

/-- The golden record of a file in a tree. -/
def recordOf (digest : String) : Golden where
  digest := digest
  args := settings.arguments file
  run := runOf program settings tree file

end Records

section Testing

variable {program : List String -> StateM FileTree Outcome} {settings : SuiteSettings}
  {tree after : FileTree} {file digest : String}

/-- A test of a steady program in time is concluded in the tree that it started from. -/
theorem conclude_of_perform (steady : Steady program (settings.arguments file) file)
    (inTime : runTime.nanoseconds <= settings.timeout.nanoseconds) {verdict log}
    (performed : perform (workbench program) settings (.test file digest) tree
      = ((verdict, log), after)) :
    conclude (workbench program) settings file digest
      (executed (outcomeOf program settings tree file)) tree = (verdict, after) := by
  rcases steady with ⟨answer, steady⟩
  have ran : (workbench program).execute settings.compiler (settings.arguments file)
      settings.timeout tree = (executed (outcomeOf program settings tree file), tree) := by
    have notLate : ¬ settings.timeout.nanoseconds < runTime.nanoseconds := Int64.not_lt.mpr inTime
    simp only [workbench, if_neg notLate, outcomeOf]
    rw [bind_run, steady]
    rfl
  rw [perform, bind_run, ran] at performed
  cases performed
  rfl

/-- What a comparison comes to: nothing changes, the verdict is about the file, and a record that
can be read decides it. -/
structure Compares (tree : FileTree) (path file digest : String) (target : RecordedRun)
    (compared : TestVerdict × FileTree) : Prop where
  keeps : compared.2 = tree
  about : compared.1.file = file
  judged : forall golden : Golden, tree.read path = .ok golden.text.toUTF8 ->
    compared.1 = golden.judge file digest target

variable (program tree file digest) in
theorem compares_run (path : String) (target : RecordedRun) :
    Compares tree path file digest target
      (compare (workbench program) path file digest target tree) := by
  have read : (workbench program).read path tree = (tree.read path, tree) := rfl
  rw [compare, bind_run, read]
  dsimp only
  cases found : tree.read path with
  | error error =>
    dsimp only
    split
    · exact ⟨rfl, rfl, fun golden recorded => by rw [found] at recorded; cases recorded⟩
    · exact ⟨rfl, rfl, fun golden recorded => by rw [found] at recorded; cases recorded⟩
  | ok content =>
    dsimp only
    cases parsed : Golden.read content.toList with
    | error error =>
      refine ⟨rfl, rfl, ?_⟩
      intro golden recorded
      rw [found] at recorded
      rw [Except.ok.inj recorded, Golden.read_text] at parsed
      cases parsed
    | ok known =>
      refine ⟨rfl, Pool.file_judge known file digest target, ?_⟩
      intro golden recorded
      rw [found] at recorded
      rw [Except.ok.inj recorded, Golden.read_text] at parsed
      cases parsed
      rfl

variable (tree digest) in
/-- A test without an update ends in a comparison. -/
theorem compares_of_perform (steady : Steady program (settings.arguments file) file)
    (inTime : runTime.nanoseconds <= settings.timeout.nanoseconds)
    (comparing : settings.update = false) :
    Compares tree (settings.goldenPath file) file digest (runOf program settings tree file)
      ((perform (workbench program) settings (.test file digest) tree).1.1,
        (perform (workbench program) settings (.test file digest) tree).2) := by
  rcases performed : perform (workbench program) settings (.test file digest) tree
    with ⟨⟨verdict, log⟩, after⟩
  have ended := conclude_of_perform steady inTime performed
  have notLate : ¬ (executed (outcomeOf program settings tree file)).timedOut = true :=
    Bool.false_ne_true
  have only : ¬ settings.update = true := by
    rw [comparing]
    exact Bool.false_ne_true
  rw [conclude, if_neg notLate, if_neg only] at ended
  rw [← ended]
  exact compares_run program tree file digest (settings.goldenPath file) _

/-- A golden record stands at a path, and its place is the only one that was given away. -/
def Recorded (before after : FileTree) (path : String) (golden : Golden) : Prop :=
  exists place, after.locate path = .ok (.inside place, false)
    ∧ after.entry? place = some (.file golden.text.toUTF8)
    ∧ Spares (fun other => other = place) before after

variable (program tree) in
theorem makeDirectories_run (path : String) :
    (exists error, (workbench program).makeDirectories path tree = (.error error, tree))
      ∨ exists after, tree.makeDirectories path = .ok after
        ∧ (workbench program).makeDirectories path tree = (.ok (), after) := by
  have current : (get : StateM FileTree FileTree) tree = (tree, tree) := rfl
  simp only [workbench]
  rw [bind_run, current]
  dsimp only
  cases tree.makeDirectories path with
  | error error => exact .inl ⟨error, rfl⟩
  | ok after => exact .inr ⟨after, rfl, rfl⟩

variable (program tree) in
theorem write_run (path : String) (content : ByteArray) :
    (exists error, (workbench program).write path content tree = (.error error, tree))
      ∨ exists after, tree.write path content = .ok after
        ∧ (workbench program).write path content tree = (.ok (), after) := by
  have current : (get : StateM FileTree FileTree) tree = (tree, tree) := rfl
  simp only [workbench, FileTree.host]
  rw [bind_run, current]
  dsimp only
  cases tree.write path content with
  | error error => exact .inl ⟨error, rfl⟩
  | ok after => exact .inr ⟨after, rfl, rfl⟩

variable (program tree) in
theorem record_run (path : String) (golden : Golden) :
    ((record (workbench program) path golden tree).1 = .ok ()
        ∧ Recorded tree (record (workbench program) path golden tree).2 path golden)
      ∨ exists message, (record (workbench program) path golden tree).1 = .error message
        ∧ Spares (fun _ => False) tree (record (workbench program) path golden tree).2 := by
  rw [record, bind_run]
  rcases makeDirectories_run program tree (Path.directory path)
    with ⟨error, failed⟩ | ⟨middle, made, ran⟩
  · rw [failed]
    exact .inr ⟨_, rfl, .refl _ _⟩
  have kept := FileTree.spares_makeDirectories made
  rw [ran]
  dsimp only
  rw [bind_run]
  rcases write_run program middle path golden.text.toUTF8
    with ⟨error, failed⟩ | ⟨after, written, ran⟩
  · rw [failed]
    exact .inr ⟨_, rfl, kept⟩
  · rcases FileTree.spares_of_write written with ⟨place, located, here, spares⟩
    rw [ran]
    exact .inl ⟨rfl, place, spares.locate located, here,
      (kept.mono fun _ never => never.elim).trans spares⟩

/-- A run that updates writes the record of a file, or says that it could not. -/
theorem conclude_update (updating : settings.update = true) {outcome verdict}
    (ended : conclude (workbench program) settings file digest (executed outcome) tree
      = (verdict, after)) :
    verdict.file = file
      ∧ (verdict.status = .updated
            ∧ Recorded tree after (settings.goldenPath file)
              { digest, args := settings.arguments file, run := (executed outcome).recorded }
          ∨ verdict.status = .error ∧ Spares (fun _ => False) tree after) := by
  have inTime : ¬ (executed outcome).timedOut = true := Bool.false_ne_true
  rw [conclude, if_neg inTime, if_pos updating, bind_run] at ended
  rcases record_run program tree (settings.goldenPath file)
      { digest, args := settings.arguments file, run := (executed outcome).recorded }
    with ⟨succeeded, recorded⟩ | ⟨message, failed, kept⟩
  · rw [succeeded] at ended
    cases ended
    exact ⟨rfl, .inl ⟨rfl, recorded⟩⟩
  · rw [failed] at ended
    cases ended
    exact ⟨rfl, .inr ⟨rfl, kept⟩⟩

end Testing

/-! ## Where records are kept -/

/-- The name under which the record of a file is kept. -/
def recordName (file : String) : String := "." ++ Path.stem file ++ ".golden.json"

/-- A place where the record of a file may stand. -/
structure IsRecordOf (settings : SuiteSettings) (file : String) (place : List String) : Prop where
  spelled : settings.goldenPath file = "/".intercalate place
  hidden : exists above, place = above ++ [recordName file]

theorem hidden_recordName (file : String) : (recordName file).startsWith "." = true := by
  rw [String.startsWith_string_iff, recordName, String.toList_append, String.toList_append,
    List.append_assoc]
  exact List.prefix_append _ _

theorem recordName_proper (file : String) : recordName file ∉ ["", ".", ".."] := by
  intro member
  have long : 13 <= (recordName file).length := by
    rw [recordName, String.length_append, String.length_append]
    have dot : ".".length = 1 := by decide
    have ending : ".golden.json".length = 12 := by decide
    omega
  simp only [List.mem_cons, List.not_mem_nil, or_false] at member
  rcases member with equal | equal | equal <;> rw [equal] at long <;>
    exact absurd long (by decide)

variable {file : String}

theorem slashless_recordName (slashless : Path.Slashless (Path.base file)) :
    Path.Slashless (recordName file) := by
  have stem : Path.Slashless (Path.stem file) := by
    rw [Path.stem]
    split
    · rw [Path.Slashless, String.toList_ofList]
      exact fun slash => slashless (List.mem_of_mem_take slash)
    · rw [Path.Slashless, String.toList_ofList]
      exact slashless
  rw [Path.Slashless, recordName, String.toList_append, String.toList_append, List.mem_append,
    List.mem_append]
  rintro ((dot | inside) | ending)
  · exact absurd dot (by decide)
  · exact stem inside
  · exact absurd ending (by decide)

/-- The path of a record is the clean form of a path that ends in the name of the record. -/
theorem goldenPath_eq_clean (settings : SuiteSettings)
    (slashless : Path.Slashless (Path.base file)) :
    exists path before, settings.goldenPath file = Path.clean path
      ∧ Path.parts path = before ++ [recordName file] := by
  have parted := Path.parts_of_slashless (slashless_recordName slashless)
  have visible : ¬ (recordName file).isEmpty = true := by
    rw [String.isEmpty_iff]
    intro empty
    exact recordName_proper file (by rw [empty]; exact List.mem_cons_self)
  have joined : exists directory, settings.goldenPath file
      = Path.join directory (recordName file) := ⟨_, rfl⟩
  rcases joined with ⟨directory, joined⟩
  rw [joined, Path.join, if_neg visible]
  split
  · exact ⟨recordName file, [], rfl, parted⟩
  · refine ⟨directory ++ "/" ++ recordName file, Path.parts directory, rfl, ?_⟩
    rw [Path.parts_below, parted]

section Places

variable {settings : SuiteSettings} {tree : FileTree} {file other : String} {place : List String}

theorem isRecordOf_of_locate (slashless : Path.Slashless (Path.base file))
    (located : tree.locate (settings.goldenPath file) = .ok (.inside place, false)) :
    IsRecordOf settings file place := by
  rcases goldenPath_eq_clean settings slashless with ⟨path, before, equal, parted⟩
  rcases Path.cleanParts_of_last parted (recordName_proper file) with ⟨above, kept⟩
  rw [equal] at located
  rcases FileTree.locate_clean located with ⟨same, spelled⟩
  exact ⟨equal.trans spelled, above, same.trans kept⟩

/-- Files that share the place of a record share its path. -/
theorem IsRecordOf.goldenPath_eq (first : IsRecordOf settings file place)
    (second : IsRecordOf settings other place) :
    settings.goldenPath file = settings.goldenPath other :=
  first.spelled.trans second.spelled.symm

/-- No record stands where a file stands that is not hidden. -/
theorem IsRecordOf.apart (record : IsRecordOf settings other place)
    (visible : (Path.base file).startsWith "." = false)
    (located : tree.locate file = .ok (.inside place, false)) : False := by
  rcases record.hidden with ⟨above, rfl⟩
  rcases FileTree.locate_base located with ⟨before, equal, _⟩
  have same := congrArg List.getLast? equal
  rw [List.getLast?_concat, List.getLast?_concat] at same
  rw [← Option.some.inj same, hidden_recordName] at visible
  cases visible

end Places

/-! ## Which files are found -/

/-- A file that is not hidden. -/
def Visible (file : String) : Prop := (Path.base file).startsWith "." = false

theorem visible_addMatches {found paths} (visible : forall file, file ∈ found -> Visible file) :
    forall file, file ∈ addMatches found paths -> Visible file := by
  induction paths generalizing found with
  | nil => exact visible
  | cons path paths ih =>
    rw [addMatches]
    split
    · exact ih visible
    · rename_i added
      rw [Bool.or_eq_true, not_or, Bool.not_eq_true] at added
      refine ih ?_
      intro file member
      rcases List.mem_append.mp member with before | here
      · exact visible file before
      · cases List.mem_singleton.mp here
        exact added.1

theorem visible_filesFrom {program : List String -> StateM FileTree Outcome}
    {patterns found files tree} (visible : forall file, file ∈ found -> Visible file)
    (listed : (filesFrom (workbench program) found patterns tree).1 = .ok files) :
    forall file, file ∈ files -> Visible file := by
  induction patterns generalizing found tree with
  | nil =>
    cases listed
    exact visible
  | cons pattern patterns ih =>
    rw [filesFrom, bind_run] at listed
    rcases expanded : Glob.expand (workbench program).toSearch pattern tree
      with ⟨error | paths, after⟩
    · rw [expanded] at listed
      cases listed
    · rw [expanded] at listed
      exact ih (visible_addMatches visible) listed

/-! ## The run that updates -/

/-- A verdict with a status was given on a file. -/
def Reports (verdicts : List TestVerdict) (file : String) (status : Status) : Prop :=
  exists verdict, verdict ∈ verdicts ∧ verdict.file = file ∧ verdict.status = status

section Updates

variable (program : List String -> StateM FileTree Outcome) (settings : SuiteSettings)

/-- What a file must be like to be tested twice: it can be read, it is not hidden, and what the
program says about it depends on its content only. -/
structure Fit (tree : FileTree) (file : String) : Prop where
  reads : exists content, tree.read file = .ok content
  visible : Visible file
  steady : Steady program (settings.arguments file) file

/-- What has come of tasks that update, and of the tree that they were carried out in. -/
structure Updates (origin before after : FileTree) (todo : List Task)
    (verdicts : List TestVerdict) : Prop where
  tested : forall file, Reports verdicts file .updated -> exists digest, .test file digest ∈ todo
  spares : Spares (fun place => exists file, Reports verdicts file .updated
    ∧ IsRecordOf settings file place) before after
  recorded : forall file, Reports verdicts file .updated ->
    exists other digest, Reports verdicts other .updated
      ∧ settings.goldenPath other = settings.goldenPath file
      ∧ after.read (settings.goldenPath file)
        = .ok (recordOf program settings origin other digest).text.toUTF8

end Updates

section Updating

variable {program : List String -> StateM FileTree Outcome} {settings : SuiteSettings}
  {origin before middle after : FileTree} {file digest : String} {todo : List Task}
  {verdict : TestVerdict} {verdicts : List TestVerdict}

theorem Fit.slashless (fit : Fit program settings origin file) :
    Path.Slashless (Path.base file) := by
  rcases fit.reads with ⟨content, read⟩
  rcases FileTree.read_cases read with ⟨place, located, _⟩
  rcases FileTree.locate_base located with ⟨_, _, slashless⟩
  exact slashless

/-- Records leave a file that is fit for tests as it is. -/
theorem Fit.read_of_spares {Owned : List String -> Prop} (fit : Fit program settings origin file)
    (same : before.read file = origin.read file) (spares : Spares Owned before after)
    (hidden : forall place, Owned place -> exists other, IsRecordOf settings other place) :
    after.read file = origin.read file := by
  rcases fit.reads with ⟨content, read⟩
  rw [read] at same ⊢
  refine spares.read same ?_
  intro place located owned
  rcases hidden place owned with ⟨other, record⟩
  exact record.apart fit.visible located

theorem reports_cons :
    Reports (verdict :: verdicts) file status
      <-> (verdict.file = file ∧ verdict.status = status) ∨ Reports verdicts file status := by
  simp only [Reports, List.mem_cons, exists_eq_or_imp]

theorem Updates.nil : Updates program settings origin before before [] [] where
  tested := by
    rintro file ⟨verdict, member, _⟩
    cases member
  spares := .refl _ _
  recorded := by
    rintro file ⟨verdict, member, _⟩
    cases member

/-- A task that leaves no record does not matter. -/
theorem Updates.skip {task} (rest : Updates program settings origin middle after todo verdicts)
    (kept : Spares (fun _ => False) before middle) (other : verdict.status ≠ .updated) :
    Updates program settings origin before after (task :: todo) (verdict :: verdicts) := by
  have same (file : String) :
      Reports (verdict :: verdicts) file .updated <-> Reports verdicts file .updated := by
    rw [reports_cons]
    exact or_iff_right fun here => other here.2
  constructor
  · intro file updated
    rcases rest.tested file ((same file).mp updated) with ⟨digest, member⟩
    exact ⟨digest, List.mem_cons_of_mem _ member⟩
  · simp only [same]
    exact (kept.mono fun _ never => never.elim).trans rest.spares
  · simp only [same]
    exact rest.recorded

/-- A record stays until the next file with the same path is recorded. -/
theorem Updates.record (rest : Updates program settings origin middle after todo verdicts)
    (fit : Fit program settings origin file) (about : verdict.file = file)
    (updated : verdict.status = .updated)
    (recorded : Recorded before middle (settings.goldenPath file)
      (recordOf program settings origin file digest)) :
    Updates program settings origin before after (.test file digest :: todo)
      (verdict :: verdicts) := by
  rcases recorded with ⟨place, located, here, spares⟩
  have isRecord := isRecordOf_of_locate fit.slashless located
  have reported : Reports (verdict :: verdicts) file .updated :=
    ⟨verdict, List.mem_cons_self, about, updated⟩
  have later {name : String} (listed : Reports verdicts name .updated) :
      Reports (verdict :: verdicts) name .updated := reports_cons.mpr (.inr listed)
  constructor
  · intro name listed
    rcases reports_cons.mp listed with ⟨same, _⟩ | inRest
    · rw [← same, about]
      exact ⟨digest, List.mem_cons_self⟩
    · rcases rest.tested name inRest with ⟨other, member⟩
      exact ⟨other, List.mem_cons_of_mem _ member⟩
  · refine .trans (spares.mono ?_) (rest.spares.mono ?_)
    · rintro _ rfl
      exact ⟨file, reported, isRecord⟩
    · rintro other ⟨name, listed, record⟩
      exact ⟨name, later listed, record⟩
  · intro name listed
    by_cases again : exists next, Reports verdicts next .updated
        ∧ settings.goldenPath next = settings.goldenPath name
    · rcases again with ⟨next, inRest, samePath⟩
      rcases rest.recorded next inRest with ⟨other, otherDigest, found, path, read⟩
      rw [← samePath]
      exact ⟨other, otherDigest, later found, path, read⟩
    · have same : name = file := by
        rcases reports_cons.mp listed with ⟨same, _⟩ | inRest
        · rw [← same, about]
        · exact absurd ⟨name, inRest, rfl⟩ again
      subst same
      refine ⟨name, digest, reported, rfl, ?_⟩
      refine rest.spares.read (FileTree.read_of_entry located here) ?_
      rintro other otherLocated ⟨next, inRest, record⟩
      rw [located] at otherLocated
      cases otherLocated
      exact again ⟨next, inRest, record.goldenPath_eq isRecord⟩

theorem Steady.outcomeOf_eq (steady : Steady program (settings.arguments file) file)
    (same : before.read file = after.read file) :
    outcomeOf program settings before file = outcomeOf program settings after file := by
  rcases steady with ⟨answer, steady⟩
  rw [outcomeOf, outcomeOf, steady, steady, same]

/-- What tasks that update have come to, as long as the tested files read as in the tree that the
run started from. -/
theorem updates_mapM (updating : settings.update = true)
    (inTime : runTime.nanoseconds <= settings.timeout.nanoseconds)
    (settled : forall verdict, .settle verdict ∈ todo -> verdict.status ≠ .updated)
    (fits : forall file digest, .test file digest ∈ todo ->
      Fit program settings origin file ∧ before.read file = origin.read file) :
    Updates program settings origin before
      (todo.mapM (perform (workbench program) settings) before).2 todo
      ((todo.mapM (perform (workbench program) settings) before).1.map Prod.fst) := by
  induction todo generalizing before with
  | nil =>
    rw [List.mapM_nil]
    exact .nil
  | cons task todo ih =>
    rw [mapM_cons_run, List.map_cons]
    have others (verdict : TestVerdict) (member : .settle verdict ∈ todo) :=
      settled verdict (List.mem_cons_of_mem _ member)
    have fitOthers (file digest : String) (member : .test file digest ∈ todo) :=
      fits file digest (List.mem_cons_of_mem _ member)
    cases task with
    | settle verdict =>
      refine Updates.skip (ih others fitOthers) (.refl _ _) ?_
      exact settled verdict List.mem_cons_self
    | test file digest =>
      rcases fits file digest List.mem_cons_self with ⟨fit, same⟩
      rcases performed : perform (workbench program) settings (.test file digest) before
        with ⟨⟨verdict, log⟩, middle⟩
      have ended := conclude_of_perform fit.steady inTime performed
      rw [fit.steady.outcomeOf_eq same] at ended
      -- Later files still read as they did, because records are hidden.
      have keeps {Owned : List String -> Prop} (spares : Spares Owned before middle)
          (hidden : forall place, Owned place -> IsRecordOf settings file place) :=
        fun name other (member : .test name other ∈ todo) =>
          And.intro (fitOthers name other member).1
            ((fitOthers name other member).1.read_of_spares (fitOthers name other member).2
              spares fun place owned => ⟨file, hidden place owned⟩)
      rcases conclude_update updating ended with ⟨about, ⟨updated, recorded⟩ | ⟨failed, kept⟩⟩
      · refine Updates.record (ih others ?_) fit about updated recorded
        rcases recorded with ⟨place, located, _, spares⟩
        refine keeps spares ?_
        rintro _ rfl
        exact isRecordOf_of_locate fit.slashless located
      · refine Updates.skip (ih others (keeps kept fun _ never => never.elim))
          kept ?_
        intro (updated : verdict.status = .updated)
        exact absurd (updated.symm.trans failed) (by decide)

end Updating

/-! ## The run that compares -/

theorem reports_sorted {verdicts} :
    Reports (sorted verdicts) file status <-> Reports verdicts file status := by
  simp only [Reports, sorted, List.mem_mergeSort]

section Comparing

variable {program : List String -> StateM FileTree Outcome} {settings : SuiteSettings}
  {tree : FileTree} {files : List String} {file : String}

/-- A file passes exactly if it is tested and its run agrees with the record. -/
theorem reports_pass_iff (comparing : settings.update = false)
    (inTime : runTime.nanoseconds <= settings.timeout.nanoseconds)
    (steady : forall file, file ∈ files -> Steady program (settings.arguments file) file)
    {golden : Golden} (recorded : tree.read (settings.goldenPath file) = .ok golden.text.toUTF8) :
    Reports (run (workbench program) settings files tree).1.1 file .pass
      <-> (exists digest, .test file digest ∈ tasks settings tree files)
        ∧ Agree golden.run (runOf program settings tree file) := by
  have compares (name digest : String) (planned : .test name digest ∈ tasks settings tree files) :=
    compares_of_perform tree digest (steady name (readable_of_test planned).1) inTime comparing
  have quiet : forall task, task ∈ tasks settings tree files ->
      (perform (workbench program) settings task tree).2 = tree := by
    intro task planned
    cases task with
    | settle verdict => rfl
    | test name digest => exact (compares name digest planned).keeps
  rw [(run_eq program settings files tree).1, reports_sorted, mapM_run_of_quiet quiet]
  constructor
  · rintro ⟨verdict, member, about, passed⟩
    rw [List.map_map] at member
    rcases List.mem_map.mp member with ⟨task, planned, rfl⟩
    cases task with
    | settle verdict => exact absurd passed (status_of_settle planned).2
    | test name digest =>
      have compared := compares name digest planned
      cases compared.about.symm.trans about
      refine ⟨⟨digest, planned⟩, ?_⟩
      rw [← Golden.judge_pass_iff golden file digest, ← compared.judged golden recorded]
      exact passed
  · rintro ⟨⟨digest, planned⟩, agree⟩
    have compared := compares file digest planned
    refine ⟨_, List.mem_map_of_mem (List.mem_map_of_mem planned), compared.about, ?_⟩
    have judged := compared.judged golden recorded
    dsimp only at judged ⊢
    rw [judged, Golden.judge_pass_iff]
    exact agree

end Comparing

/-! ## Both runs -/

section Results

variable (program : List String -> StateM FileTree Outcome) (settings : SuiteSettings)
  (files : List String) (tree : FileTree)

/-- A run that updates says of a file that its record was written. -/
def IsUpdated (file : String) : Prop :=
  Reports (run (workbench program) settings.updating files tree).1.1 file .updated

/-- A run that compares says of a file that it has passed. -/
def Passes (file : String) : Prop :=
  Reports (run (workbench program) settings.comparing files tree).1.1 file .pass

/-- The tree behind a run that updates and writes its report. -/
def behind : FileTree :=
  (Command.Test.testAll (workbench program) settings.updating files tree).2

end Results

/-- The second run finds `again`.  It tests the files that were tested before, and the report stands
neither in their place nor in that of their records. -/
structure Undisturbed (program : List String -> StateM FileTree Outcome) (settings : SuiteSettings)
    (files again : List String) (tree : FileTree) : Prop where
  found : (Suite.files (workbench program) settings (behind program settings files tree)).1
    = .ok again
  tested : forall {file digest : String}, .test file digest ∈ tasks settings tree files ->
    .test file digest ∈ tasks settings (behind program settings files tree) again
  apart : forall {file digest : String}, .test file digest ∈ tasks settings tree files ->
    forall path, path ∈ [file, settings.goldenPath file] ->
      (run (workbench program) settings.updating files tree).2.locate path
        ≠ (run (workbench program) settings.updating files tree).2.locate settings.reportPath

section Both

variable {program : List String -> StateM FileTree Outcome} {settings : SuiteSettings}
  {files again : List String} {tree after : FileTree} {file : String}

theorem updates_run (inTime : runTime.nanoseconds <= settings.timeout.nanoseconds)
    (steady : forall file, file ∈ files -> Steady program (settings.arguments file) file)
    (visible : forall file, file ∈ files -> Visible file) :
    Updates program settings.updating tree tree
      (run (workbench program) settings.updating files tree).2 (tasks settings tree files)
      (run (workbench program) settings.updating files tree).1.1 := by
  have updates : Updates program settings.updating tree tree _ (tasks settings tree files) _ :=
    updates_mapM rfl inTime (fun _ planned => (status_of_settle planned).1) fun file _ planned =>
      have readable := readable_of_test planned
      ⟨⟨readable.2, visible file readable.1, steady file readable.1⟩, rfl⟩
  rcases run_eq program settings.updating files tree with ⟨verdicts, between⟩
  rw [verdicts, between]
  constructor
  · simp only [reports_sorted]
    exact updates.tested
  · simp only [reports_sorted]
    exact updates.spares
  · simp only [reports_sorted]
    exact updates.recorded

/-- A report leaves all files alone that stand elsewhere. -/
theorem read_behind {path content}
    (read : (run (workbench program) settings.updating files tree).2.read path = .ok content)
    (apart : (run (workbench program) settings.updating files tree).2.locate path
      ≠ (run (workbench program) settings.updating files tree).2.locate settings.reportPath) :
    (behind program settings files tree).read path = .ok content := by
  rw [behind, Command.Test.testAll, bind_run]
  generalize run (workbench program) settings.updating files tree = ended at read apart ⊢
  rcases ended with ⟨⟨verdicts, log⟩, between⟩
  dsimp only at read apart ⊢
  rw [bind_run]
  rcases write_run program between settings.updating.reportPath (Report.document verdicts).toUTF8
    with ⟨error, failed⟩ | ⟨after, written, ran⟩
  · rw [failed]
    exact read
  · rcases FileTree.spares_of_write written with ⟨place, located, _, spares⟩
    rw [ran]
    refine spares.read read ?_
    rintro other otherLocated rfl
    exact apart (otherLocated.trans located.symm)

/-- A file that reads as before passes exactly if its run agrees with the record that it finds. -/
theorem passes_iff_agree (inTime : runTime.nanoseconds <= settings.timeout.nanoseconds)
    (steady : forall file, file ∈ again -> Steady program (settings.arguments file) file) {digest}
    (planned : .test file digest ∈ tasks settings after again)
    (same : after.read file = tree.read file) {golden : Golden}
    (recorded : after.read (settings.goldenPath file) = .ok golden.text.toUTF8) :
    Passes program settings again after file
      <-> Agree golden.run (runOf program settings tree file) := by
  have steadyFile := steady file (readable_of_test planned).1
  have sameRun : runOf program settings.comparing after file = runOf program settings tree file :=
    congrArg (fun outcome => (executed outcome).recorded) (steadyFile.outcomeOf_eq same)
  have inTimeAgain : runTime.nanoseconds <= settings.comparing.timeout.nanoseconds := inTime
  have found : after.read (settings.comparing.goldenPath file) = .ok golden.text.toUTF8 := recorded
  rw [Passes, reports_pass_iff rfl inTimeAgain steady found, sameRun]
  exact and_iff_right ⟨digest, planned⟩

/-- After a run that updates, a run with the same settings that compares passes every file that was
updated, exactly if no two of them that share a record can be told apart. -/
theorem updated_files_pass_iff (inTime : runTime.nanoseconds <= settings.timeout.nanoseconds)
    (steady : forall file, file ∈ files ++ again -> Steady program (settings.arguments file) file)
    (found : (Suite.files (workbench program) settings tree).1 = .ok files)
    (undisturbed : Undisturbed program settings files again tree) :
    (forall file, IsUpdated program settings files tree file ->
        Passes program settings again (behind program settings files tree) file)
      <-> forall one two, IsUpdated program settings files tree one ->
        IsUpdated program settings files tree two ->
        settings.goldenPath one = settings.goldenPath two ->
        Agree (runOf program settings tree one) (runOf program settings tree two) := by
  have steadyFiles (file : String) (member : file ∈ files) :=
    steady file (List.mem_append_left _ member)
  have visible := visible_filesFrom (List.forall_mem_nil _) found
  have updates : Updates program settings.updating tree tree _ _ _ :=
    updates_run inTime steadyFiles visible
  -- What the second run makes of a file, given the record that the first run left for it.
  have passes {file digest : String} {golden : Golden}
      (planned : .test file digest ∈ tasks settings tree files)
      (recorded : (run (workbench program) settings.updating files tree).2.read
        (settings.goldenPath file) = .ok golden.text.toUTF8) :
      Passes program settings again (behind program settings files tree) file
        <-> Agree golden.run (runOf program settings tree file) := by
    rcases readable_of_test planned with ⟨member, content, reads⟩
    have fit : Fit program settings.updating tree file :=
      ⟨⟨content, reads⟩, visible file member, steadyFiles file member⟩
    have between := fit.read_of_spares rfl updates.spares
      fun place ⟨other, _, record⟩ => ⟨other, record⟩
    refine passes_iff_agree inTime (fun name member => steady name (List.mem_append_right _ member))
      (undisturbed.tested planned) ?_ ?_
    · rw [reads] at between ⊢
      exact read_behind between (undisturbed.apart planned _ List.mem_cons_self)
    · exact read_behind recorded
        (undisturbed.apart planned _ (List.mem_cons_of_mem _ List.mem_cons_self))
  constructor
  · intro pass one two updatedOne updatedTwo shared
    rcases updates.tested one updatedOne with ⟨_, plannedOne⟩
    rcases updates.tested two updatedTwo with ⟨_, plannedTwo⟩
    rcases updates.recorded one updatedOne with ⟨other, digest, _, _, recorded⟩
    have agreeOne := (passes plannedOne recorded).mp (pass one updatedOne)
    rw [show settings.updating.goldenPath one = settings.goldenPath two from shared] at recorded
    have agreeTwo := (passes plannedTwo recorded).mp (pass two updatedTwo)
    exact agreeOne.symm.trans agreeTwo
  · intro agree file updated
    rcases updates.tested file updated with ⟨_, planned⟩
    rcases updates.recorded file updated with ⟨other, digest, recordedLast, shared, recorded⟩
    exact (passes planned recorded).mpr (agree other file recordedLast updated shared)

end Both

/-! ## The compiler -/

section Compiler

open Command.Compile (Options Parses isOn invoke_eq)

/-- The compiler, in a tree of files. -/
def compiler : List String -> StateM FileTree Outcome := Command.Compile.run FileTree.host

/-- An action that ends the same in every tree and leaves it alone. -/
def Quiet (action : StateM FileTree Outcome) : Prop :=
  exists outcome, forall tree, action tree = (outcome, tree)

theorem Quiet.andThen {action} (quiet : Quiet action) (start : Outcome) :
    Quiet (do return start.andThen (← action)) := by
  rcases quiet with ⟨outcome, quiet⟩
  refine ⟨start.andThen outcome, ?_⟩
  intro tree
  rw [bind_run, quiet]
  rfl

variable {file : String}

/-- An action that reads a file first and is quiet then. -/
theorem steady_of_quiet {rest : Except PathError ByteArray -> StateM FileTree Outcome}
    (quiet : forall read, Quiet (rest read)) :
    exists answer : Except PathError ByteArray -> Outcome,
      forall tree, (FileTree.host.read file >>= rest) tree = (answer (tree.read file), tree) := by
  refine ⟨fun read => (rest read {}).1, ?_⟩
  intro tree
  rcases quiet (tree.read file) with ⟨outcome, quiet⟩
  have read : FileTree.host.read file tree = (tree.read file, tree) := rfl
  simp only [bind_run, read, quiet]

theorem quiet_compile {options} (dumps : options.dump = true) (config : Config)
    (files : List SourceFile) (input : String) (program : Program) :
    Quiet (Command.Compile.compile FileTree.host options config files input program) := by
  rw [Command.Compile.compile]
  split
  · exact ⟨_, fun _ => rfl⟩
  · split
    · exact ⟨_, fun _ => rfl⟩
    · refine Quiet.andThen ?_ _
      rw [Command.Compile.deliver, if_pos dumps]
      exact ⟨_, fun _ => rfl⟩

/-- The compiler says the same about the same document, if it prints its code and names no other
file. -/
theorem steady_compile {line set} (parses : Parses line set) (noHelp : isOn set "help" = false)
    (dumps : isOn set "dump" = true) (unnamed : (Options.ofFlags set).source.isEmpty = true)
    (single : set.args = [file]) : Steady compiler line file := by
  have invoked : Command.Compile.manual.invoke Command.Compile.flags line = (set, .run [file]) := by
    rw [invoke_eq, show Command.Compile.known.parse line = (set, none) from parses]
    dsimp only
    rw [noHelp, single]
    rfl
  rw [Steady, compiler]
  simp only [Command.Compile.run, invoked, Command.Compile.act]
  cases (Options.ofFlags set).config with
  | error refusal => exact ⟨fun _ => _, fun _ => rfl⟩
  | ok config =>
    simp only [Command.Compile.sourceFiles, unnamed, if_true, pure_bind, Command.Compile.decode]
    refine steady_of_quiet ?_
    intro read
    split
    · exact ⟨_, fun _ => rfl⟩
    · split
      · exact ⟨_, fun _ => rfl⟩
      · exact (quiet_compile dumps config _ file _).andThen _

/-- A tree with two documents whose names differ only behind the dot. -/
def pairTree : FileTree where
  files := [(["a.p"], "\x7b\"blocks\":[\x7b\"kind\":\"block\"\x7d]\x7d".toUTF8),
    (["a.q"], "x".toUTF8)]

/-- Settings for a test of both. -/
def pairSettings : SuiteSettings where
  compiler := "./kpc"
  compilerArgs := ""
  patterns := "a.p a.q"
  excluded := ""
  directory := ""
  output := ".results.json"
  update := false
  timeout := .ofSeconds 5
  verbose := false

theorem steady_pair (file : String) (member : file ∈ ["a.p", "a.q"]) :
    Steady compiler (pairSettings.arguments file) file := by
  have parses {line : List String} (read : (Command.Compile.known.parse line).2 = none) :
      Parses line (Command.Compile.known.parse line).1 := Prod.ext rfl read
  rcases List.mem_pair.mp member with rfl | rfl
  · exact steady_compile (parses (by decide +kernel)) (by decide +kernel) (by decide +kernel)
      (by decide +kernel) (by decide +kernel)
  · exact steady_compile (parses (by decide +kernel)) (by decide +kernel) (by decide +kernel)
      (by decide +kernel) (by decide +kernel)

theorem isUpdated_pair (member : file ∈ ["a.p", "a.q"]) :
    IsUpdated compiler pairSettings ["a.p", "a.q"] pairTree file := by
  have verdicts : (((tasks pairSettings.updating pairTree ["a.p", "a.q"]).mapM
      (perform (workbench compiler) pairSettings.updating)
      pairTree).1.map Prod.fst).map (fun verdict => (verdict.file, verdict.status))
      = [("a.p", .updated), ("a.q", .updated)] := by
    decide +kernel
  rw [IsUpdated, (run_eq _ _ _ _).1, reports_sorted]
  have listed : (file, Status.updated) ∈ [("a.p", Status.updated), ("a.q", .updated)] := by
    rcases List.mem_pair.mp member with rfl | rfl <;> decide
  rw [← verdicts] at listed
  rcases List.mem_map.mp listed with ⟨verdict, isVerdict, equal⟩
  rcases Prod.mk.inj equal with ⟨about, status⟩
  exact ⟨verdict, isVerdict, about, status⟩

theorem undisturbed_pair : Undisturbed compiler pairSettings
    ["a.p", "a.q"] ["a.p", "a.q"] pairTree where
  found := by decide +kernel
  tested := by
    have same : tasks pairSettings (behind compiler pairSettings
        ["a.p", "a.q"] pairTree) ["a.p", "a.q"] = tasks pairSettings pairTree ["a.p", "a.q"] := by
      decide +kernel
    intro file digest planned
    rw [same]
    exact planned
  apart := by
    intro file digest planned
    rcases List.mem_pair.mp (readable_of_test planned).1 with rfl | rfl <;> decide +kernel

/-- Two documents share a record: one can be compiled and the other one cannot.  Both are updated,
and not both pass. -/
theorem updated_files_pass_iff_pair :
    IsUpdated compiler pairSettings ["a.p", "a.q"] pairTree "a.p"
      ∧ IsUpdated compiler pairSettings ["a.p", "a.q"] pairTree "a.q"
      ∧ ¬ forall file,
        IsUpdated compiler pairSettings ["a.p", "a.q"] pairTree file ->
        Passes compiler pairSettings ["a.p", "a.q"]
          (behind compiler pairSettings ["a.p", "a.q"] pairTree)
          file := by
  have first := isUpdated_pair List.mem_cons_self
  have second := isUpdated_pair (List.mem_cons_of_mem "a.p" (List.mem_singleton_self "a.q"))
  have differ : (runOf compiler pairSettings pairTree "a.p").exitCode
      ≠ (runOf compiler pairSettings pairTree "a.q").exitCode := by
    decide +kernel
  refine ⟨first, second, ?_⟩
  rw [updated_files_pass_iff (by decide)
    (fun file member => steady_pair file ((List.mem_append.mp member).elim id id))
    (by decide +kernel) undisturbed_pair]
  intro agree
  exact differ (agree "a.p" "a.q" first second (by decide +kernel)).exitCode

end Compiler

end Suite
end PCode
