import Mathlib.Algebra.GroupWithZero.Nat
import Mathlib.Data.List.Nodup
import Mathlib.Data.List.Perm.Basic
import Mathlib.Data.String.Basic
import PCode.Suite

namespace PCode
namespace Suite

/-!
Schedules of a run of tests.

The tests of a run are carried out by workers.  A dispatcher goes through the files: what needs no
test it settles at once, and the rest it hands over through a channel of tasks.  Each worker takes
tasks out of that channel and sends verdicts into a channel of verdicts, into which the dispatcher
sends what it has settled.  Both channels have room for as many entries as there are files, and the
verdicts are only taken out when all workers have finished.

A run is any interleaving of these steps.  Every file is accounted for in exactly one place: it has
not been looked at, or its task waits in the channel, or a worker has it, or its verdict has been
sent.  So no channel is ever full when something is sent, every interleaving comes to an end, and at
the end the verdicts are those of the plan, in an order that sorting takes away.
-/

/-! ## Plans -/

section Plans

variable {seen : List (String × String)} {sighting : String × Sighting}
  {sightings : List (String × Sighting)} {file digest : String}

/-- A file is settled, and the digests stay as they are, or it is the first file with its digest
and is tested. -/
theorem planFrom_cases (seen : List (String × String)) (sighting : String × Sighting) :
    (exists verdict : TestVerdict, verdict.file = sighting.1
        ∧ (forall rest, planFrom seen (sighting :: rest) = .settle verdict :: planFrom seen rest)
        ∧ verdict.status ≠ .updated ∧ verdict.status ≠ .pass)
      ∨ exists digest, sighting.2 = .readable digest ∧ seen.lookup digest = none
        ∧ forall rest, planFrom seen (sighting :: rest)
            = .test sighting.1 digest :: planFrom ((digest, sighting.1) :: seen) rest := by
  rcases sighting with ⟨file, found⟩
  cases found with
  | excluded => exact .inl ⟨_, rfl, fun rest => by rw [planFrom], by simp⟩
  | unreadable error => exact .inl ⟨_, rfl, fun rest => by rw [planFrom], by simp⟩
  | readable digest =>
    cases known : seen.lookup digest with
    | some first => exact .inl ⟨_, rfl, fun rest => by rw [planFrom, known], by simp⟩
    | none => exact .inr ⟨digest, rfl, known, fun rest => by rw [planFrom, known]⟩

theorem planFrom_settle {verdict} (alone : planFrom seen [sighting] = [.settle verdict])
    (rest : List (String × Sighting)) :
    planFrom seen (sighting :: rest) = .settle verdict :: planFrom seen rest := by
  rcases planFrom_cases seen sighting with ⟨other, _, settled, _⟩ | ⟨digest, _, _, tested⟩
  · rw [settled, planFrom] at alone
    rw [settled, List.head_eq_of_cons_eq alone]
  · rw [tested] at alone
    cases alone

theorem planFrom_test (alone : planFrom seen [sighting] = [.test file digest])
    (rest : List (String × Sighting)) :
    planFrom seen (sighting :: rest)
      = .test file digest :: planFrom ((digest, file) :: seen) rest := by
  rcases planFrom_cases seen sighting with ⟨other, _, settled, _⟩ | ⟨other, _, _, tested⟩
  · rw [settled] at alone
    cases alone
  · rw [tested] at alone
    cases List.head_eq_of_cons_eq alone
    exact tested rest

/-- A plan has one task for each file, in order. -/
theorem map_file_planFrom (seen : List (String × String)) (sightings : List (String × Sighting)) :
    (planFrom seen sightings).map Task.file = sightings.map Prod.fst := by
  induction sightings generalizing seen with
  | nil => rfl
  | cons sighting rest ih =>
    rcases planFrom_cases seen sighting with ⟨verdict, about, settled, _⟩ | ⟨digest, _, _, tested⟩
    · rw [settled, List.map_cons, ih, List.map_cons]
      exact congrArg (· :: _) about
    · rw [tested, List.map_cons, ih, List.map_cons]
      rfl

theorem length_planFrom (seen : List (String × String)) (sightings : List (String × Sighting)) :
    (planFrom seen sightings).length = sightings.length := by
  simpa using congrArg List.length (map_file_planFrom seen sightings)

/-- The verdict on a file whose content was met in another file before. -/
def duplicate (file first : String) : TestVerdict :=
  { file, status := .skip, message := s!"Content is identical to {first}" }

/-- Whether a file has content with a digest. -/
def hasDigest (digest : String) (sighting : String × Sighting) : Bool :=
  sighting.2 == .readable digest

theorem duplicate_mem_planFrom {first} (known : seen.lookup digest = some first)
    (member : (file, Sighting.readable digest) ∈ sightings) :
    .settle (duplicate file first) ∈ planFrom seen sightings := by
  induction sightings generalizing seen with
  | nil => cases member
  | cons sighting rest ih =>
    rcases List.mem_cons.mp member with here | later
    · subst here
      rw [planFrom, known]
      exact List.mem_cons_self
    · rcases planFrom_cases seen sighting with ⟨verdict, _, settled, _⟩ | ⟨other, _, new, tested⟩
      · rw [settled]
        exact List.mem_cons_of_mem _ (ih known later)
      · rw [tested]
        refine List.mem_cons_of_mem _ (ih ?_ later)
        have different : digest ≠ other := by
          intro same
          rw [same, new] at known
          cases known
        rw [List.lookup_cons, beq_false_of_ne different]
        exact known

/-- Of the files with one content the first is tested, and all others are settled as duplicates
of it. -/
theorem planFrom_readable (new : seen.lookup digest = none)
    (distinct : (sightings.map Prod.fst).Nodup)
    (member : (file, Sighting.readable digest) ∈ sightings) :
    exists first, (sightings.find? (hasDigest digest)).map Prod.fst = some first
      ∧ (if file = first then .test file digest else .settle (duplicate file first))
        ∈ planFrom seen sightings := by
  induction sightings generalizing seen with
  | nil => cases member
  | cons sighting rest ih =>
    rcases List.nodup_cons.mp distinct with ⟨fresh, distinctRest⟩
    by_cases same : hasDigest digest sighting = true
    · -- The first file with the digest is this one.
      rcases sighting with ⟨first, found⟩
      have readable : found = .readable digest := by simpa [hasDigest] using same
      subst readable
      refine ⟨first, by rw [List.find?_cons_of_pos same]; rfl, ?_⟩
      rw [planFrom, new]
      rcases List.mem_cons.mp member with here | later
      · cases here
        rw [if_pos rfl]
        exact List.mem_cons_self
      · have different : file ≠ first := by
          intro equal
          apply fresh
          rw [← equal]
          exact List.mem_map_of_mem later
        rw [if_neg different]
        exact List.mem_cons_of_mem _
          (duplicate_mem_planFrom (by rw [List.lookup_cons_self]) later)
    · have elsewhere : (file, Sighting.readable digest) ∈ rest := by
        rcases List.mem_cons.mp member with here | later
        · subst here
          simp [hasDigest] at same
        · exact later
      rw [List.find?_cons_of_neg same]
      rcases planFrom_cases seen sighting
          with ⟨verdict, _, settled, _⟩ | ⟨other, readable, _, tested⟩
      · rcases ih new distinctRest elsewhere with ⟨first, found, planned⟩
        refine ⟨first, found, ?_⟩
        rw [settled]
        exact List.mem_cons_of_mem _ planned
      · have different : digest ≠ other := by
          intro equal
          apply same
          simp [hasDigest, readable, equal]
        have stillNew : List.lookup digest ((other, sighting.1) :: seen) = none := by
          rw [List.lookup_cons, beq_false_of_ne different]
          exact new
        rcases ih stillNew distinctRest elsewhere with ⟨first, found, planned⟩
        refine ⟨first, found, ?_⟩
        rw [tested]
        exact List.mem_cons_of_mem _ planned

/-- Only the first file with a digest is tested. -/
theorem first_of_test_mem (planned : .test file digest ∈ planFrom seen sightings) :
    seen.lookup digest = none
      ∧ sightings.find? (hasDigest digest) = some (file, .readable digest) := by
  induction sightings generalizing seen with
  | nil => cases planned
  | cons sighting rest ih =>
    rcases sighting with ⟨name, found⟩
    rcases planFrom_cases seen (name, found)
        with ⟨verdict, _, settled, _⟩ | ⟨other, readable, new, tested⟩
    · rw [settled] at planned
      rcases List.mem_cons.mp planned with here | later
      · cases here
      · rcases ih later with ⟨unseen, first⟩
        refine ⟨unseen, ?_⟩
        rw [List.find?_cons_of_neg, first]
        -- A file with this digest would have been tested.
        intro same
        have readable : found = .readable digest := by simpa [hasDigest] using same
        have alone := settled []
        rw [readable] at alone
        simp [planFrom, unseen] at alone
    · rw [tested] at planned
      cases (readable : found = .readable other)
      rcases List.mem_cons.mp planned with here | later
      · cases here
        refine ⟨new, List.find?_cons_of_pos ?_⟩
        simp [hasDigest]
      · rcases ih later with ⟨unseen, first⟩
        have different : digest ≠ other := by
          intro equal
          rw [equal, List.lookup_cons_self] at unseen
          cases unseen
        rw [List.lookup_cons, beq_false_of_ne different] at unseen
        refine ⟨unseen, ?_⟩
        rw [List.find?_cons_of_neg, first]
        simp [hasDigest, Ne.symm different]

end Plans

/-! ## Dispatcher and workers -/

namespace Pool

/-- What a worker is doing. -/
inductive Worker where
  /-- It waits for a task. -/
  | waiting
  /-- It has a task, whose verdict it will send. -/
  | testing (file digest : String)
  | finished
deriving DecidableEq, Repr

/-- Where a run stands.  Channels are listed with their oldest entry first. -/
structure State where
  /-- The files that the dispatcher has not looked at. -/
  files : List String
  /-- The digests that were met, and the files they were met in first. -/
  seen : List (String × String)
  tasks : List (String × String)
  /-- Whether the channel of tasks is closed. -/
  closed : Bool
  verdicts : List TestVerdict
  workers : List Worker
deriving DecidableEq, Repr

/-- A run before its first step. -/
def start (files : List String) (workers : Nat) : State where
  files
  seen := []
  tasks := []
  closed := false
  verdicts := []
  workers := List.replicate workers .waiting

/-- All workers have finished. -/
def State.Done (state : State) : Prop := forall worker, worker ∈ state.workers -> worker = .finished

section System

/-!
Files and programs are functions here: what is found out about a file depends on the file alone, and
so does the verdict on it.
-/

variable (bench : Workbench Id) (settings : SuiteSettings)

/-- What is found out about a file. -/
def look (file : String) : String × Sighting := Id.run (sight bench settings file)

/-- The verdict that a task leads to. -/
def verdictOf (task : Task) : TestVerdict := (Id.run (perform bench settings task)).1

/-- One step of the dispatcher or of a worker.  Channels have room for `capacity` entries, and
whoever sends into a full one does not get on. -/
inductive Step (capacity : Nat) (state : State) : State -> Prop
  | settle {file files verdict} :
    state.files = file :: files ->
    planFrom state.seen [look bench settings file] = [.settle verdict] ->
    state.verdicts.length < capacity ->
    Step capacity state { state with files, verdicts := state.verdicts ++ [verdict] }
  | hand {file digest files} :
    state.files = file :: files ->
    planFrom state.seen [look bench settings file] = [.test file digest] ->
    state.tasks.length < capacity ->
    Step capacity state
      { state with
        files
        seen := (digest, file) :: state.seen
        tasks := state.tasks ++ [(file, digest)] }
  | close : state.files = [] -> state.closed = false ->
    Step capacity state { state with closed := true }
  | take {front back file digest tasks} :
    state.workers = front ++ .waiting :: back -> state.tasks = (file, digest) :: tasks ->
    Step capacity state
      { state with tasks, workers := front ++ .testing file digest :: back }
  | report {front back file digest} :
    state.workers = front ++ .testing file digest :: back ->
    state.verdicts.length < capacity ->
    Step capacity state
      { state with
        verdicts := state.verdicts ++ [verdictOf bench settings (.test file digest)]
        workers := front ++ .waiting :: back }
  | leave {front back} :
    state.workers = front ++ .waiting :: back -> state.tasks = [] -> state.closed = true ->
    Step capacity state { state with workers := front ++ .finished :: back }

/-- A number of steps one after another. -/
inductive Steps (capacity : Nat) (state : State) : Nat -> State -> Prop
  | none : Steps capacity state 0 state
  | more {count between next} :
    Steps capacity state count between -> Step bench settings capacity between next ->
    Steps capacity state (count + 1) next

end System

/-! ## Verdicts -/

section Verdicts

variable (bench : Workbench Id) (settings : SuiteSettings)

theorem file_judge (golden : Golden) (file digest : String) (target : RecordedRun) :
    (golden.judge file digest target).file = file := by
  unfold Golden.judge
  dsimp only
  split <;> rfl

theorem file_compare (path file digest : String) (target : RecordedRun) :
    (Id.run (compare bench path file digest target)).file = file := by
  simp only [compare, Id.run_bind]
  split
  · split <;> rfl
  · split
    · rfl
    · exact file_judge _ file digest target

theorem file_conclude (file digest : String) (execution : Execution) :
    (Id.run (conclude bench settings file digest execution)).file = file := by
  simp only [conclude]
  split
  · rfl
  · split
    · simp only [Id.run_bind]
      split <;> rfl
    · exact file_compare bench _ file digest _

/-- The verdict of a task is about the file of the task. -/
theorem file_verdictOf (task : Task) : (verdictOf bench settings task).file = task.file := by
  cases task with
  | settle verdict => rfl
  | test file digest => exact file_conclude bench settings file digest _

theorem look_fst (file : String) : (look bench settings file).1 = file := by
  simp only [look, sight]
  split
  · rfl
  · simp only [Id.run_bind]
    split <;> rfl

theorem map_fst_look (files : List String) :
    (files.map (look bench settings)).map Prod.fst = files := by
  rw [List.map_map]
  conv_rhs => rw [← List.map_id files]
  exact List.map_congr_left fun file _ => look_fst bench settings file

/-- The tasks of a run. -/
def planned (files : List String) : List Task := plan (files.map (look bench settings))

theorem map_file_planned (files : List String) :
    ((planned bench settings files).map (verdictOf bench settings)).map TestVerdict.file
      = files := by
  rw [List.map_map]
  calc (planned bench settings files).map (TestVerdict.file ∘ verdictOf bench settings)
      = (planned bench settings files).map Task.file :=
        List.map_congr_left fun task _ => file_verdictOf bench settings task
    _ = files := by rw [planned, plan, map_file_planFrom, map_fst_look]

/-- Tests that are carried out one after another give the verdicts of the plan. -/
theorem run_verdicts (files : List String) :
    (Id.run (run bench settings files)).1
      = sorted ((planned bench settings files).map (verdictOf bench settings)) := by
  simp only [run, Id.run_bind, List.idRun_mapM, Id.run_pure, List.map_map]
  rfl

end Verdicts

theorem pairwise_sorted (verdicts : List TestVerdict) :
    (sorted verdicts).Pairwise fun first second => first.file <= second.file := by
  have transitive : forall first second third : TestVerdict,
      decide (first.file <= second.file) = true -> decide (second.file <= third.file) = true ->
        decide (first.file <= third.file) = true := by
    intro first second third firstLeast secondLeast
    rw [decide_eq_true_eq] at *
    exact String.le_trans firstLeast secondLeast
  have total : forall first second : TestVerdict,
      (decide (first.file <= second.file) || decide (second.file <= first.file)) = true := by
    intro first second
    simpa using String.le_total first.file second.file
  exact (List.pairwise_mergeSort transitive total verdicts).imp of_decide_eq_true

/-- Verdicts on distinct files can be sorted in one way only. -/
theorem eq_sorted {verdicts listed} (distinct : (verdicts.map TestVerdict.file).Nodup)
    (same : listed.Perm verdicts)
    (ordered : listed.Pairwise fun first second => first.file <= second.file) :
    listed = sorted verdicts := by
  have sortedPerm : (sorted verdicts).Perm verdicts := List.mergeSort_perm _ _
  refine List.Perm.eq_of_pairwise ?_ ordered (pairwise_sorted verdicts)
    (same.trans sortedPerm.symm)
  intro first second firstListed secondListed firstLeast secondLeast
  exact List.inj_on_of_nodup_map distinct (same.mem_iff.mp firstListed)
    (sortedPerm.mem_iff.mp secondListed) (String.le_antisymm firstLeast secondLeast)

/-! ## Every file in one place -/

/-- The task that a worker has. -/
def Worker.held : Worker -> List Task
  | .testing file digest => [.test file digest]
  | _ => []

/-- The tasks that were handed over and have no verdict yet. -/
def State.handed (state : State) : List Task :=
  state.workers.flatMap Worker.held ++ state.tasks.map fun task => .test task.1 task.2

section Accounting

variable {bench : Workbench Id} {settings : SuiteSettings} {capacity : Nat} {state next : State}
  {tasks : List Task}

/-- The tasks for the files that the dispatcher has not looked at. -/
def State.remaining (bench : Workbench Id) (settings : SuiteSettings) (state : State) : List Task :=
  planFrom state.seen (state.files.map (look bench settings))

/-- Every task of a run is ended, handed over or still to come. -/
structure Sound (bench : Workbench Id) (settings : SuiteSettings) (tasks : List Task)
    (state : State) : Prop where
  accounted : exists ended, state.verdicts = ended.map (verdictOf bench settings)
    ∧ (ended ++ state.handed ++ state.remaining bench settings).Perm tasks
  all_seen : state.closed = true -> state.files = []
  all_taken : .finished ∈ state.workers -> state.closed = true ∧ state.tasks = []

theorem sound_start (files : List String) (workers : Nat) :
    Sound bench settings (planned bench settings files) (start files workers) where
  accounted := by
    refine ⟨[], rfl, ?_⟩
    have idle : (List.replicate workers Worker.waiting).flatMap Worker.held = [] := by
      simp [Worker.held]
    simp only [start, State.handed, State.remaining, idle, planned, plan, List.map_nil,
      List.append_nil, List.nil_append]
    exact .refl _
  all_seen := by simp [start]
  all_taken := by simp [start]

theorem Step.sound (step : Step bench settings capacity state next)
    (sound : Sound bench settings tasks state) : Sound bench settings tasks next := by
  rcases sound with ⟨⟨ended, sent, accounted⟩, allSeen, allTaken⟩
  cases step with
  | @settle file files verdict upcoming alone room =>
    refine ⟨⟨ended ++ [.settle verdict], ?_, ?_⟩, ?_, allTaken⟩
    · rw [List.map_append, sent]
      rfl
    · rw [State.remaining, upcoming, List.map_cons, planFrom_settle alone] at accounted
      rw [List.perm_iff_count] at accounted ⊢
      intro task
      have counted := accounted task
      simp only [List.count_append, List.count_cons, List.count_nil, State.handed,
        State.remaining] at counted ⊢
      omega
    · intro closed
      rw [allSeen closed] at upcoming
      cases upcoming
  | @hand file digest files upcoming alone room =>
    have open' : state.closed ≠ true := by
      intro closed
      rw [allSeen closed] at upcoming
      cases upcoming
    refine ⟨⟨ended, sent, ?_⟩, fun closed => absurd closed open', ?_⟩
    · rw [State.remaining, upcoming, List.map_cons, planFrom_test alone] at accounted
      rw [List.perm_iff_count] at accounted ⊢
      intro task
      have counted := accounted task
      simp only [List.count_append, List.count_cons, List.count_nil, State.handed,
        State.remaining, List.map_append, List.map_cons, List.map_nil] at counted ⊢
      omega
    · intro finished
      exact absurd (allTaken finished).1 open'
  | close upcoming _ =>
    exact ⟨⟨ended, sent, accounted⟩, fun _ => upcoming, fun finished => ⟨rfl, (allTaken finished).2⟩⟩
  | @take front back file digest rest waiting upcoming =>
    refine ⟨⟨ended, sent, ?_⟩, allSeen, ?_⟩
    · rw [State.handed, waiting, upcoming] at accounted
      rw [List.perm_iff_count] at accounted ⊢
      intro task
      have counted := accounted task
      simp only [List.count_append, List.count_cons, List.count_nil, State.handed, Worker.held,
        State.remaining, List.flatMap_append, List.flatMap_cons, List.map_cons]
        at counted ⊢
      omega
    · intro finished
      have before : .finished ∈ state.workers := by
        rw [waiting]
        simpa using finished
      rw [(allTaken before).2] at upcoming
      cases upcoming
  | @report front back file digest testing room =>
    refine ⟨⟨ended ++ [.test file digest], ?_, ?_⟩, allSeen, ?_⟩
    · rw [List.map_append, sent]
      rfl
    · rw [State.handed, testing] at accounted
      rw [List.perm_iff_count] at accounted ⊢
      intro task
      have counted := accounted task
      simp only [List.count_append, List.count_cons, List.count_nil, State.handed, Worker.held,
        State.remaining, List.flatMap_append, List.flatMap_cons] at counted ⊢
      omega
    · intro finished
      apply allTaken
      rw [testing]
      simpa using finished
  | @leave front back waiting empty closed =>
    refine ⟨⟨ended, sent, ?_⟩, allSeen, fun _ => ⟨closed, empty⟩⟩
    rw [State.handed, waiting] at accounted
    simpa [State.handed, State.remaining, Worker.held] using accounted

variable {first : State} {count : Nat}

theorem Steps.sound (steps : Steps bench settings capacity first count state)
    (sound : Sound bench settings tasks first) : Sound bench settings tasks state := by
  induction steps with
  | none => exact sound
  | more _ step ih => exact step.sound ih

theorem Sound.length_eq (sound : Sound bench settings tasks state) :
    state.verdicts.length + state.handed.length + state.files.length = tasks.length := by
  rcases sound.accounted with ⟨ended, sent, accounted⟩
  have lengths := accounted.length_eq
  simp only [List.length_append, State.remaining, length_planFrom, List.length_map] at lengths
  rw [sent, List.length_map]
  exact lengths

/-! ## Room in the channels -/

/-- Whoever is about to send finds room.  The dispatcher is, as long as there are files that it has
not looked at, and so is a worker that has a task. -/
structure Roomy (capacity : Nat) (state : State) : Prop where
  verdicts : (state.files ≠ [] ∨ exists file digest, .testing file digest ∈ state.workers) ->
    state.verdicts.length < capacity
  tasks : state.files ≠ [] -> state.tasks.length < capacity

theorem Sound.roomy (sound : Sound bench settings tasks state) : Roomy tasks.length state := by
  have lengths := sound.length_eq
  rw [State.handed, List.length_append, List.length_map] at lengths
  constructor
  · rintro (upcoming | ⟨file, digest, testing⟩)
    · have some := List.length_pos_iff.mpr upcoming
      omega
    · have held : Task.test file digest ∈ state.workers.flatMap Worker.held :=
        List.mem_flatMap.mpr ⟨_, testing, List.mem_singleton.mpr rfl⟩
      have some := List.length_pos_of_mem held
      omega
  · intro upcoming
    have some := List.length_pos_iff.mpr upcoming
    omega

/-! ## Progress -/

/-- As long as a worker has not finished, someone can take a step. -/
theorem Sound.exists_step (sound : Sound bench settings tasks state) (unfinished : ¬ state.Done) :
    exists next, Step bench settings tasks.length state next := by
  have roomy := sound.roomy
  cases upcoming : state.files with
  | cons file files =>
    have nonempty : state.files ≠ [] := by
      rw [upcoming]
      exact List.cons_ne_nil _ _
    rcases planFrom_cases state.seen (look bench settings file)
        with ⟨verdict, _, settled, _⟩ | ⟨digest, _, _, tested⟩
    · exact ⟨_, .settle upcoming (settled []) (roomy.verdicts (.inl nonempty))⟩
    · have alone := tested []
      rw [look_fst] at alone
      exact ⟨_, .hand upcoming alone (roomy.tasks nonempty)⟩
  | nil =>
    cases closed : state.closed with
    | false => exact ⟨_, .close upcoming closed⟩
    | true =>
      simp only [State.Done, not_forall] at unfinished
      rcases unfinished with ⟨worker, member, busy⟩
      rcases List.append_of_mem member with ⟨front, back, workers⟩
      cases worker with
      | finished => exact absurd rfl busy
      | testing file digest =>
        exact ⟨_, .report workers (roomy.verdicts (.inr ⟨file, digest, member⟩))⟩
      | waiting =>
        cases waiting : state.tasks with
        | nil => exact ⟨_, .leave workers waiting closed⟩
        | cons task rest => exact ⟨_, .take workers waiting⟩

/-- How many steps a worker is away from its end, further tasks not counted. -/
def Worker.rank : Worker -> Nat
  | .waiting => 1
  | .testing _ _ => 2
  | .finished => 0

/-- How many steps a run may still take. -/
def State.rank (state : State) : Nat :=
  3 * state.files.length + 2 * state.tasks.length + (state.workers.map Worker.rank).sum
    + (if state.closed then 0 else 1)

theorem Step.rank_lt (step : Step bench settings capacity state next) : next.rank < state.rank := by
  cases step with
  | settle upcoming _ _ =>
    simp only [State.rank, upcoming, List.length_cons]
    omega
  | hand upcoming _ _ =>
    simp only [State.rank, upcoming, List.length_cons, List.length_append, List.length_nil]
    omega
  | close _ stillOpen =>
    simp [State.rank, stillOpen]
  | take waiting upcoming =>
    simp only [State.rank, waiting, upcoming, Worker.rank, List.map_append, List.map_cons,
      List.sum_append, List.sum_cons, List.length_cons]
    omega
  | report testing _ =>
    simp only [State.rank, testing, Worker.rank, List.map_append, List.map_cons, List.sum_append,
      List.sum_cons]
    omega
  | leave waiting _ _ =>
    simp only [State.rank, waiting, Worker.rank, List.map_append, List.map_cons, List.sum_append,
      List.sum_cons]
    omega

theorem Steps.count_le (steps : Steps bench settings capacity first count state) :
    count + state.rank <= first.rank := by
  induction steps with
  | none => omega
  | more _ step ih =>
    have less := step.rank_lt
    omega

theorem rank_start (files : List String) (workers : Nat) :
    (start files workers).rank = 3 * files.length + workers + 1 := by
  simp [start, State.rank, Worker.rank]

/-! ## The end of a run -/

theorem Step.length_workers (step : Step bench settings capacity state next) :
    next.workers.length = state.workers.length := by
  cases step with
  | settle | hand | close => rfl
  | take waiting _ => simp [waiting]
  | report testing _ => simp [testing]
  | leave waiting _ _ => simp [waiting]

theorem Steps.length_workers (steps : Steps bench settings capacity first count state) :
    state.workers.length = first.workers.length := by
  induction steps with
  | none => rfl
  | more _ step ih => rw [step.length_workers, ih]

/-- When all workers have finished, the verdicts are those of the plan. -/
theorem Sound.verdicts_of_done (sound : Sound bench settings tasks state) (done : state.Done)
    (some : 0 < state.workers.length) :
    state.verdicts.Perm (tasks.map (verdictOf bench settings)) := by
  rcases sound.accounted with ⟨ended, sent, accounted⟩
  rcases List.exists_mem_of_length_pos some with ⟨worker, member⟩
  have finished : .finished ∈ state.workers := done worker member ▸ member
  rcases sound.all_taken finished with ⟨closed, empty⟩
  have idle : state.workers.flatMap Worker.held = [] := by
    rw [List.flatMap_eq_nil_iff]
    intro worker member
    rw [done worker member]
    rfl
  rw [State.handed, idle, empty, State.remaining, sound.all_seen closed] at accounted
  rw [sent]
  simpa [planFrom] using accounted.map (verdictOf bench settings)

/-- A worker only ever tests the first file with its content. -/
theorem Sound.first_of_testing {files file digest}
    (sound : Sound bench settings (planned bench settings files) state)
    (testing : .testing file digest ∈ state.workers) :
    (files.map (look bench settings)).find? (hasDigest digest) = some (file, .readable digest) := by
  rcases sound.accounted with ⟨ended, _, accounted⟩
  have held : Task.test file digest ∈ state.workers.flatMap Worker.held :=
    List.mem_flatMap.mpr ⟨_, testing, List.mem_singleton.mpr rfl⟩
  have member : Task.test file digest ∈ planned bench settings files := by
    rw [← accounted.mem_iff, State.handed]
    simp [held]
  exact (first_of_test_mem member).2

end Accounting

/-- The report on a run: one verdict for each file, sorted by file, and of the files with one
content the first is tested and all others are skipped. -/
structure Complete (bench : Workbench Id) (settings : SuiteSettings) (files : List String)
    (verdicts : List TestVerdict) : Prop where
  one_each : (verdicts.map TestVerdict.file).Perm files
  ordered : verdicts.Pairwise fun first second => first.file <= second.file
  tested_once : forall file, file ∈ files -> forall digest,
    look bench settings file = (file, .readable digest) ->
    exists first, files.find? (fun other => hasDigest digest (look bench settings other)) = some first
      ∧ (if file = first then verdictOf bench settings (.test file digest) else duplicate file first)
        ∈ verdicts

section Reports

variable (bench : Workbench Id) (settings : SuiteSettings) {files : List String}

theorem find?_look (digest : String) :
    ((files.map (look bench settings)).find? (hasDigest digest)).map Prod.fst
      = files.find? fun other => hasDigest digest (look bench settings other) := by
  induction files with
  | nil => rfl
  | cons file files ih =>
    rw [List.map_cons]
    cases found : hasDigest digest (look bench settings file) with
    | true =>
      rw [List.find?_cons_of_pos found, List.find?_cons_of_pos (by simpa using found)]
      exact congrArg Option.some (look_fst bench settings file)
    | false =>
      rw [List.find?_cons_of_neg (by simpa using found),
        List.find?_cons_of_neg (by simpa using found), ih]

theorem complete_run (distinct : files.Nodup) :
    Complete bench settings files (Id.run (run bench settings files)).1 := by
  rw [run_verdicts]
  have same : (sorted ((planned bench settings files).map (verdictOf bench settings))).Perm
      ((planned bench settings files).map (verdictOf bench settings)) := List.mergeSort_perm _ _
  refine ⟨?_, pairwise_sorted _, ?_⟩
  · have names := same.map TestVerdict.file
    rwa [map_file_planned] at names
  · intro file member digest readable
    have sighted : (file, Sighting.readable digest) ∈ files.map (look bench settings) :=
      readable ▸ List.mem_map_of_mem member
    have apart : ((files.map (look bench settings)).map Prod.fst).Nodup := by
      rwa [map_fst_look]
    rcases planFrom_readable List.lookup_nil apart sighted with ⟨first, found, task⟩
    refine ⟨first, (find?_look bench settings digest).symm.trans found, same.mem_iff.mpr ?_⟩
    refine List.mem_map.mpr ⟨_, task, ?_⟩
    split <;> rfl

/-- Verdicts do not depend on the schedule.  In every state that dispatcher and workers get into, no
one who is about to send finds a full channel, only first files of their content are tested, and
some step can be taken as long as a worker has not finished; after a bounded number of steps all of
them have.  Then the verdicts, however they are sorted by file, are those of tests that are carried
out one after another, and these are a complete report on the files. -/
theorem verdicts_independent_of_schedule (distinct : files.Nodup) {workers : Nat}
    (some : 0 < workers) {count : Nat} {state : State}
    (steps : Steps bench settings files.length (start files workers) count state) :
    Roomy files.length state
      ∧ (forall file digest, .testing file digest ∈ state.workers ->
          files.find? (fun other => hasDigest digest (look bench settings other)) = .some file)
      ∧ (¬ state.Done -> exists next, Step bench settings files.length state next)
      ∧ count <= 3 * files.length + workers + 1
      ∧ (state.Done -> forall listed : List TestVerdict, listed.Perm state.verdicts ->
          listed.Pairwise (fun first second => first.file <= second.file) ->
          listed = (Id.run (run bench settings files)).1)
      ∧ Complete bench settings files (Id.run (run bench settings files)).1 := by
  have sound := steps.sound (sound_start files workers)
  have capacity : (planned bench settings files).length = files.length := by
    rw [planned, plan, length_planFrom, List.length_map]
  refine ⟨capacity ▸ sound.roomy, ?_, ?_, ?_, ?_, complete_run bench settings distinct⟩
  · intro file digest testing
    rw [← find?_look, sound.first_of_testing testing]
    rfl
  · intro unfinished
    exact capacity ▸ sound.exists_step unfinished
  · have bounded := steps.count_le
    rw [rank_start] at bounded
    omega
  · intro done listed same ordered
    have crew : 0 < state.workers.length := by
      rw [steps.length_workers, start, List.length_replicate]
      exact some
    have sent := sound.verdicts_of_done done crew
    rw [run_verdicts]
    refine eq_sorted ?_ (same.trans sent) ordered
    rwa [map_file_planned]

end Reports

/-- A bench on which every file is empty and every program ends at once. -/
def idleBench : Workbench Id where
  read := fun _ => .ok .empty
  write := fun _ _ => .ok ()
  remove := fun _ => ()
  exists? := fun _ => true
  list := fun _ => none
  makeDirectories := fun _ => .ok ()
  findProgram := fun _ => .ok ()
  execute := fun _ _ _ => { outcome := {}, elapsed := ⟨0⟩ }

/-- The digest of an empty file. -/
def emptyDigest : String := Digest.text (Digest.ofBytes ByteArray.empty.toList)

/-- Two workers and two files with the same content: one worker tests the first file while the
dispatcher settles the second, and the other worker gets nothing to do. -/
theorem verdicts_independent_of_schedule_pair :
    ["b", "a"].Nodup
      ∧ exists count state, Steps idleBench default 2 (start ["b", "a"] 2) count state
        ∧ state.Done
        ∧ (Id.run (run idleBench default ["b", "a"])).1
            = [duplicate "a" "b", verdictOf idleBench default (.test "b" emptyDigest)] := by
  have distinct : ["b", "a"].Nodup := by decide
  have seesFirst : planFrom [] [look idleBench default "b"] = [.test "b" emptyDigest] := rfl
  have seesSecond : planFrom [(emptyDigest, "b")] [look idleBench default "a"]
      = [.settle (duplicate "a" "b")] := by
    have readable : look idleBench default "a" = ("a", .readable emptyDigest) := rfl
    rw [readable, planFrom, List.lookup_cons_self]
    rfl
  have handed : Steps idleBench default 2 (start ["b", "a"] 2) 1
      ⟨["a"], [(emptyDigest, "b")], [("b", emptyDigest)], false, [], [.waiting, .waiting]⟩ :=
    .more .none (.hand rfl seesFirst (by decide))
  have taken := handed.more (@Step.take _ _ _ _ [] [.waiting] "b" emptyDigest [] rfl rfl)
  have settled := taken.more (.settle rfl seesSecond (by decide))
  have reported := settled.more (@Step.report _ _ _ _ [] [.waiting] "b" emptyDigest rfl (by decide))
  have closed := reported.more (.close rfl rfl)
  have left := closed.more (@Step.leave _ _ _ _ [] [.waiting] rfl rfl rfl)
  have ended : Steps idleBench default 2 (start ["b", "a"] 2) 7
      ⟨[], [(emptyDigest, "b")], [], true,
        [duplicate "a" "b", verdictOf idleBench default (.test "b" emptyDigest)],
        [.finished, .finished]⟩ :=
    left.more (@Step.leave _ _ _ _ [.finished] [] rfl rfl rfl)
  have done : forall worker, worker ∈ [Worker.finished, .finished] -> worker = .finished := by
    simp
  refine ⟨distinct, _, _, ended, done, ?_⟩
  rcases verdicts_independent_of_schedule idleBench default distinct (by decide) ended
    with ⟨_, _, _, _, independent, _⟩
  refine (independent done _ (.refl _) ?_).symm
  rw [List.pairwise_pair, file_verdictOf]
  decide

end Pool

end Suite
end PCode
