import Mathlib.Data.List.Basic
import PCode.Scope

namespace PCode
namespace Table

/-!
The table as a stack of environments.

Whoever holds a table sees the answers to calls and nothing else.  A stack of environments that
is kept from these answers alone, without cells and frames, explains all of them: a name means
what the innermost open environment binds it to.  The frames are counted off from the outside in,
so the level of the current one is the number of open ones, and a frame that stays open never
gets smaller.  Calls that close the scopes which they open leave no trace.
-/

/-! ## Calls and their answers -/

/-- What a table may be asked for. -/
inductive Call where
  | openBlock
  | openFrame
  | close
  | insert (name : String) (entity : Entity)
  | insertVariable (name : String) (type : Ty) (byRef : Bool) (site : Option Site)
  | lookup (name : String)
  | lookupCurrent (name : String)
deriving DecidableEq, Repr

/-- What comes back from a call. -/
inductive Answer where
  | opened
  | closed (entities : List Entity)
  | added (entity : Entity)
  | taken (existing : Entity)
  | found (entity : Option Entity)
  | fault (fault : Fault)
deriving DecidableEq, Repr

/-- The answer to an insertion, and the table behind it. -/
def settle (table : Table) : Except Fault Insertion -> Answer × Table
  | .ok (.added entity later) => (.added entity, later)
  | .ok (.taken existing) => (.taken existing, table)
  | .error fault => (.fault fault, table)

/-- The answer to a call, and the table behind it.  A fault leaves the table as it is. -/
def call (table : Table) : Call -> Answer × Table
  | .openBlock => (.opened, table.openBlock)
  | .openFrame => (.opened, table.openFrame)
  | .close =>
    match table.close with
    | .ok (entities, later) => (.closed entities, later)
    | .error fault => (.fault fault, table)
  | .insert name entity => table.settle (table.insert name entity)
  | .insertVariable name type byRef site =>
    table.settle (table.insertVariable name type byRef site)
  | .lookup name => (.found (table.lookup name), table)
  | .lookupCurrent name => (.found (table.lookupCurrent name), table)

/-- The answers to calls that are made one after another, and the table behind them. -/
def run (table : Table) : List Call -> List Answer × Table
  | [] => ([], table)
  | call :: calls =>
    let (answers, last) := (table.call call).2.run calls
    ((table.call call).1 :: answers, last)

/-! ## The stack of environments -/

/-- The entities bound since a scope was opened, in order, and whether a frame came with it. -/
structure Environment where
  frame : Bool
  entities : List Entity := []

/-- The entity that a name is bound to in one environment. -/
def Environment.find? (environment : Environment) (name : String) : Option Entity :=
  environment.entities.find? fun entity => entity.name == name

/-- The name that a call binds, and whether it needs a frame. -/
def Call.target? : Call -> Option (String × Bool)
  | .insert name _ => some (name, false)
  | .insertVariable name _ _ _ => some (name, true)
  | _ => none

/-- The entities that a call may bind among a number of open scopes.  Where the cells of a
variable are is up to the table. -/
def Call.Makes (depth : Nat) (entity : Entity) : Call -> Prop
  | .insert name given => entity = { given with name, depth }
  | .insertVariable name type byRef site => exists frame offset,
    entity = { kind := .variable, name, type, frame, offset, byRef, depth, site }
  | _ => False

/-- What a stack of environments, innermost first, answers to a call, and the stack behind it. -/
inductive Answers : List Environment -> Call -> Answer -> List Environment -> Prop
  | openBlock {stack} : Answers stack .openBlock .opened (⟨false, []⟩ :: stack)
  | openFrame {stack} : Answers stack .openFrame .opened (⟨true, []⟩ :: stack)
  | close {top stack} : Answers (top :: stack) .close (.closed top.entities) stack
  | unopened : Answers [] .close (.fault .noScope) []
  | added {top stack call name framed entity} :
    call.target? = some (name, framed) -> (framed = true -> (top :: stack).any (·.frame) = true) ->
    top.find? name = none -> call.Makes (stack.length + 1) entity ->
    Answers (top :: stack) call (.added entity) (⟨top.frame, top.entities ++ [entity]⟩ :: stack)
  | taken {top stack call name framed existing} :
    call.target? = some (name, framed) -> (framed = true -> (top :: stack).any (·.frame) = true) ->
    top.find? name = some existing -> Answers (top :: stack) call (.taken existing) (top :: stack)
  | nowhere {call target} : call.target? = some target -> Answers [] call (.fault .noScope) []
  | unframed {top stack call name} :
    call.target? = some (name, true) -> (top :: stack).any (·.frame) = false ->
    Answers (top :: stack) call (.fault .noFrame) (top :: stack)
  | lookup {stack name} :
    Answers stack (.lookup name) (.found (stack.findSome? (·.find? name))) stack
  | lookupCurrent {stack name} :
    Answers stack (.lookupCurrent name) (.found (stack.head?.bind (·.find? name))) stack

/-- The answers of a stack of environments to calls that are made one after another. -/
inductive Replays : List Environment -> List Call -> List Answer -> List Environment -> Prop
  | nil {stack} : Replays stack [] [] stack
  | cons {stack next last call answer calls answers} :
    Answers stack call answer next -> Replays next calls answers last ->
    Replays stack (call :: calls) (answer :: answers) last

/-- Whether calls behind `opened` open ones close exactly the scopes that they open, these
included, and bind nothing outside of them. -/
def Balanced : Nat -> List Answer -> Prop
  | opened, [] => opened = 0
  | opened, .opened :: answers => Balanced (opened + 1) answers
  | opened, .closed _ :: answers => opened ≠ 0 ∧ Balanced (opened - 1) answers
  | opened, .added _ :: answers => opened ≠ 0 ∧ Balanced opened answers
  | opened, _ :: answers => Balanced opened answers

/-- The environments that a table holds. -/
def environments (table : Table) : List Environment :=
  table.scopes.map fun scope => ⟨scope.frame.isSome, scope.entities⟩

/-- The open frames, innermost first. -/
def frames (table : Table) : List Frame := table.scopes.filterMap Scope.frame

/-! ## Single calls -/

section Single

variable {table : Table} {scopes : List Scope} {cells : Int64}

theorem environments_takeCells :
    environments ⟨takeCells cells scopes⟩ = environments ⟨scopes⟩ := by
  induction scopes with
  | nil => rfl
  | cons scope scopes induction =>
    rcases scope with ⟨entities, _ | frame⟩
    · exact congrArg (List.cons _) induction
    · rfl

theorem frames_takeCells :
    frames ⟨takeCells cells scopes⟩ = (frames ⟨scopes⟩).modifyHead (Frame.take · cells) := by
  induction scopes with
  | nil => rfl
  | cons scope scopes induction =>
    rcases scope with ⟨entities, _ | frame⟩
    · exact induction
    · rfl

theorem length_environments (table : Table) : table.environments.length = table.depth :=
  List.length_map _

theorem any_environments (table : Table) :
    table.environments.any (·.frame) = table.frame?.isSome := by
  rw [environments, frame?, List.any_map, List.isSome_findSome?]
  rfl

theorem lookup_environments (table : Table) (name : String) :
    table.lookup name = table.environments.findSome? (·.find? name) := by
  rw [environments, List.findSome?_map]
  rfl

/-- A table answers as the stack of its environments does. -/
theorem answers_call (call : Call) :
    Answers table.environments call (table.call call).1 (table.call call).2.environments := by
  rcases table with ⟨scopes⟩
  cases call with
  | openBlock => exact .openBlock
  | openFrame => exact .openFrame
  | close => cases scopes with
    | nil => exact .unopened
    | cons scope scopes => exact .close
  | insert name given => cases scopes with
    | nil => exact .nowhere rfl
    | cons scope scopes =>
      simp only [Table.call, Table.insert]
      cases found : scope.find? name with
      | some existing => exact .taken rfl nofun found
      | none =>
        refine .added rfl nofun found ?_
        rw [List.length_map]
        rfl
  | insertVariable name type byRef site => cases scopes with
    | nil => exact .nowhere rfl
    | cons scope scopes =>
      have framed := any_environments ⟨scope :: scopes⟩
      simp only [Table.call, Table.insertVariable, Table.insert]
      cases current : frame? ⟨scope :: scopes⟩ with
      | none => exact .unframed rfl (framed.trans (by rw [current, Option.isSome_none]))
      | some frame =>
        have any := framed.trans (by rw [current, Option.isSome_some])
        cases found : scope.find? name with
        | some existing => exact .taken rfl (fun _ => any) found
        | none =>
          dsimp only [settle]
          rw [environments_takeCells]
          refine .added rfl (fun _ => any) found ⟨frame.level, frame.next, ?_⟩
          rw [List.length_map]
          rfl
  | lookup name =>
    rw [Table.call, lookup_environments]
    exact .lookup
  | lookupCurrent name =>
    have current : lookupCurrent ⟨scopes⟩ name
        = (environments ⟨scopes⟩).head?.bind (·.find? name) := by
      cases scopes <;> rfl
    rw [Table.call, current]
    exact .lookupCurrent

/-- All that a call may do to the frames: open one, close one, or take cells in the current one. -/
theorem frames_call (call : Call) :
    (table.call call).2.frames = table.frames
      ∨ (table.call call).2.frames = .fresh (table.frames.length + 1) :: table.frames
      ∨ (table.call call).2.frames = table.frames.tail
      ∨ exists cells, (table.call call).2.frames = table.frames.modifyHead (Frame.take · cells) := by
  rcases table with ⟨scopes⟩
  cases call with
  | openBlock | lookup name | lookupCurrent name => exact .inl rfl
  | openFrame =>
    refine .inr (.inl ?_)
    rw [frames, frames, List.length_filterMap_eq_countP]
    rfl
  | close => cases scopes with
    | nil => exact .inl rfl
    | cons scope scopes =>
      rcases scope with ⟨entities, _ | frame⟩
      · exact .inl rfl
      · exact .inr (.inr (.inl rfl))
  | insert name given => cases scopes with
    | nil => exact .inl rfl
    | cons scope scopes =>
      refine .inl ?_
      simp only [Table.call, Table.insert]
      cases scope.find? name <;> rfl
  | insertVariable name type byRef site => cases scopes with
    | nil => exact .inl rfl
    | cons scope scopes =>
      simp only [Table.call, Table.insertVariable, Table.insert]
      cases frame? ⟨scope :: scopes⟩ with
      | none => exact .inl rfl
      | some frame => cases scope.find? name with
        | some existing => exact .inl rfl
        | none => exact .inr (.inr (.inr ⟨_, frames_takeCells⟩))

end Single

/-! ## Frames -/

section Frames

variable {table : Table} {all : List Frame}

/-- The frames are numbered from the outside in. -/
def Numbered : List Frame -> Prop
  | [] => True
  | frame :: rest => frame.level = rest.length + 1 ∧ Numbered rest

theorem numbered_call (numbered : Numbered table.frames) (call : Call) :
    Numbered (table.call call).2.frames := by
  rcases frames_call call with same | opened | closed | ⟨cells, taken⟩
  · rwa [same]
  · rw [opened]
    exact ⟨rfl, numbered⟩
  · rw [closed]
    cases all : table.frames with
    | nil => trivial
    | cons frame rest => exact (all ▸ numbered).2
  · rw [taken]
    cases all : table.frames with
    | nil => trivial
    | cons frame rest =>
      rw [all] at numbered
      exact numbered

theorem numbered_run {calls} (numbered : Numbered table.frames) :
    Numbered (table.run calls).2.frames := by
  induction calls generalizing table with
  | nil => exact numbered
  | cons call calls induction => exact induction (numbered_call numbered call)

theorem frame?_eq (table : Table) : table.frame? = table.frames.head? :=
  (List.head?_filterMap ..).symm

/-- The level of the current frame is the number of open ones. -/
theorem frameLevel_eq (numbered : Numbered table.frames) :
    table.frameLevel = table.frames.length := by
  rw [frameLevel, frame?_eq]
  cases all : table.frames with
  | nil => rfl
  | cons frame rest => exact (all ▸ numbered).1

theorem count_environments (table : Table) :
    table.environments.countP (·.frame) = table.frames.length := by
  rw [environments, frames, List.countP_map, List.length_filterMap_eq_countP]
  rfl

/-- A frame of a given level is open and needs so many cells at least. -/
def Needs (level : Nat) (size : Int64) (frames : List Frame) : Prop :=
  exists above frame below, frames = above ++ frame :: below ∧ below.length + 1 = level
    ∧ size <= frame.size

theorem size_take (frame : Frame) (cells : Int64) : frame.size <= (frame.take cells).size := by
  rw [Frame.take]
  split
  · exact Int64.le_of_lt ‹_›
  · exact Int64.le_refl _

theorem needs_call {level size call} (needs : Needs level size table.frames)
    (kept : level <= (table.call call).2.frames.length) :
    Needs level size (table.call call).2.frames := by
  rcases needs with ⟨above, frame, below, all, rank, bounded⟩
  rcases frames_call call with same | opened | closed | ⟨cells, taken⟩
  · exact ⟨above, frame, below, same.trans all, rank, bounded⟩
  · exact ⟨_ :: above, frame, below, opened.trans (congrArg _ all), rank, bounded⟩
  · rw [closed, all] at kept ⊢
    cases above with
    | nil =>
      rw [List.nil_append, List.tail_cons] at kept
      omega
    | cons first above => exact ⟨above, frame, below, rfl, rank, bounded⟩
  · rw [taken, all]
    cases above with
    | nil => exact ⟨[], _, below, rfl, rank, Int64.le_trans bounded (size_take frame cells)⟩
    | cons first above => exact ⟨_ :: above, frame, below, rfl, rank, bounded⟩

theorem needs_run {level size calls} (needs : Needs level size table.frames)
    (kept : forall before, before <+: calls -> level <= (table.run before).2.frames.length) :
    Needs level size (table.run calls).2.frames := by
  induction calls generalizing table with
  | nil => exact needs
  | cons call calls induction =>
    refine induction (needs_call needs (kept [call] (List.prefix_append [call] calls))) ?_
    intro before first
    exact kept (call :: before) (List.cons_prefix_cons.mpr ⟨rfl, first⟩)

/-- A frame never gets smaller while it is open. -/
theorem frameSize_run {calls} (numbered : Numbered table.frames)
    (kept : forall before, before <+: calls ->
      table.frameLevel <= (table.run before).2.frameLevel)
    (current : (table.run calls).2.frameLevel = table.frameLevel) :
    table.frameSize <= (table.run calls).2.frameSize := by
  simp only [frameLevel_eq numbered, frameLevel_eq (numbered_run numbered)] at kept current
  cases all : table.frames with
  | nil =>
    rw [all, List.length_nil, List.length_eq_zero_iff] at current
    rw [frameSize, frameSize, frame?_eq, frame?_eq, all, current]
    exact Int64.le_refl _
  | cons frame rest =>
    have needs : Needs table.frames.length frame.size table.frames :=
      ⟨[], frame, rest, all, by rw [all]; rfl, Int64.le_refl _⟩
    rcases needs_run needs kept with ⟨above, later, below, last, rank, bounded⟩
    have alone : above = [] := by
      rw [last, List.length_append, List.length_cons] at current
      exact List.eq_nil_of_length_eq_zero (by omega)
    rw [frameSize, frameSize, frame?_eq, frame?_eq, all, last, alone]
    exact bounded

end Frames

/-! ## Sequences of calls -/

section Sequences

theorem replays_run (table : Table) (calls : List Call) :
    Replays table.environments calls (table.run calls).1 (table.run calls).2.environments := by
  induction calls generalizing table with
  | nil => exact .nil
  | cons call calls induction => exact .cons (answers_call call) (induction _)

/-- Balanced calls give back the stack that they found. -/
theorem Replays.eq_of_balanced (above : List Environment) {stack last calls answers}
    (replays : Replays (above ++ stack) calls answers last)
    (balanced : Balanced above.length answers) : last = stack := by
  generalize start : above ++ stack = all at replays
  induction replays generalizing above with
  | nil =>
    rw [Balanced, List.length_eq_zero_iff] at balanced
    rw [<- start, balanced]
    rfl
  | cons answers rest induction => cases answers with
    | openBlock | openFrame => exact induction (_ :: above) balanced (congrArg _ start)
    | close => cases above with
      | nil => exact absurd rfl balanced.1
      | cons top above => exact induction above balanced.2 (List.cons.inj start).2
    | added => cases above with
      | nil => exact absurd rfl balanced.1
      | cons top above =>
        refine induction (_ :: above) ?_ (congrArg (List.cons _) (List.cons.inj start).2)
        exact balanced.2
    | unopened | taken | nowhere | unframed | lookup | lookupCurrent =>
      exact induction above balanced start

end Sequences

/-- What a table and a stack of environments have in common, whatever calls follow. -/
structure Refines (table : Table) (stack : List Environment) : Prop where
  depth : table.depth = stack.length
  level : table.frameLevel = stack.countP (·.frame)
  /-- The frame is open as long as the level does not fall below its own. -/
  size : forall calls,
    (forall before, before <+: calls -> table.frameLevel <= (table.run before).2.frameLevel) ->
    (table.run calls).2.frameLevel = table.frameLevel ->
    table.frameSize <= (table.run calls).2.frameSize
  balanced : forall calls, Balanced 0 (table.run calls).1 ->
    (table.run calls).2.depth = table.depth
    ∧ (table.run calls).2.frameLevel = table.frameLevel
    ∧ forall name, (table.run calls).2.lookup name = table.lookup name

/-- The answers of a table are those of a stack of environments. -/
theorem refines_run_empty (history : List Call) : exists stack,
    Replays [] history (empty.run history).1 stack ∧ Refines (empty.run history).2 stack := by
  have numbered : Numbered (empty.run history).2.frames := numbered_run trivial
  refine ⟨_, replays_run empty history, (length_environments _).symm, ?_, ?_, ?_⟩
  · rw [frameLevel_eq numbered, count_environments]
  · exact fun calls => frameSize_run numbered
  · intro calls balanced
    have same : (run _ calls).2.environments = (empty.run history).2.environments :=
      (replays_run _ calls).eq_of_balanced [] balanced
    refine ⟨?_, ?_, fun name => ?_⟩
    · rw [<- length_environments, same, length_environments]
    · rw [frameLevel_eq (numbered_run numbered), frameLevel_eq numbered, <- count_environments,
        <- count_environments, same]
    · rw [lookup_environments, lookup_environments, same]

end Table
end PCode
