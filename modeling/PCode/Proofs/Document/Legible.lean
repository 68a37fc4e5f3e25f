import PCode.Document.Reading
import PCode.Proofs.Json.Numerals

namespace PCode

/-!
Documents that are read.

A document keeps the values of its literals as they are written.  In a document that comes from a
text every number among them is a numeral, wherever it stands: in an entry, in an entry inside it,
or in a cell that a list has given up and may fill again.
-/

/-- All cells of a list, also those behind its present end. -/
def Slots.cells {Cell : Type} (slots : Slots Cell) : List Cell := slots.live ++ slots.spare

namespace Entry

/-- The cells in which an entry holds other entries, by its keys. -/
def cells (entry : Entry) : List (List (Option Entry)) :=
  [[entry.expr], [entry.left], [entry.right], [entry.array], [entry.index], [entry.init],
   [entry.lhs], [entry.rhs], [entry.cond], [entry.thenPart], [entry.elsePart], [entry.body],
   entry.args.cells, entry.stmts.cells, entry.fields.cells, entry.params.cells]

/-- An entry in which every number is a numeral. -/
inductive Legible : Entry -> Prop
  | intro {entry} :
    (forall text, entry.value = some (.number text) -> Json.IsNumeral text) ->
    (forall cells, cells ∈ entry.cells -> forall part, some part ∈ cells -> Legible part) ->
    Legible entry

/-- Cells whose entries are legible. -/
def AllLegible (cells : List (Option Entry)) : Prop :=
  forall part, some part ∈ cells -> Legible part

theorem allLegible_nil : AllLegible [] := fun _ member => by cases member

theorem allLegible_cons {cell cells} :
    AllLegible (cell :: cells) <-> AllLegible [cell] ∧ AllLegible cells := by
  constructor
  · intro all
    constructor
    · intro part member
      exact all part (List.mem_singleton.mp member ▸ List.mem_cons_self)
    · intro part member
      exact all part (List.mem_cons_of_mem _ member)
  · rintro ⟨first, rest⟩ part member
    rcases List.mem_cons.mp member with same | later
    · exact first part (List.mem_singleton.mpr same)
    · exact rest part later

theorem allLegible_none : AllLegible [none] := by
  intro part member
  cases List.mem_singleton.mp member

variable {entry : Entry}

theorem allLegible_some : AllLegible [some entry] <-> Legible entry := by
  constructor
  · intro all
    exact all entry List.mem_cons_self
  · intro legible part member
    cases List.mem_singleton.mp member
    exact legible

theorem Legible.value (legible : Legible entry) {text} (equal : entry.value = some (.number text)) :
    Json.IsNumeral text := by
  cases legible with
  | intro numeral _ => exact numeral text equal

/-- Groups of cells whose entries are legible. -/
def GroupsLegible (groups : List (List (Option Entry))) : Prop :=
  forall cells, cells ∈ groups -> AllLegible cells

theorem Legible.inside (legible : Legible entry) : GroupsLegible entry.cells := by
  cases legible with
  | intro _ inside => exact inside

theorem Legible.part (legible : Legible entry) (index : Nat) {cells}
    (found : entry.cells[index]? = some cells) : AllLegible cells :=
  legible.inside cells (List.mem_of_getElem? found)

/-- One group of cells may be replaced by legible ones. -/
theorem GroupsLegible.set {groups} (legible : GroupsLegible groups) (index : Nat) {cells}
    (all : AllLegible cells) : GroupsLegible (groups.set index cells) := by
  intro others member
  rcases List.mem_or_eq_of_mem_set member with before | rfl
  · exact legible others before
  · exact all

theorem legible_of_groups (plain : entry.value = none) (groups : GroupsLegible entry.cells) :
    Legible entry :=
  .intro (fun _ equal => by rw [plain] at equal; cases equal) groups

theorem Legible.cell (legible : Legible entry) : AllLegible [some entry] :=
  allLegible_some.mpr legible

theorem Legible.optionalCell (legible : Legible entry) (present : Bool) :
    AllLegible [if present then some entry else none] := by
  cases present
  · exact allLegible_none
  · exact legible.cell

section Changes

variable {Failure Part : Type} {stored : Except Failure Part} {keep : Part -> Entry} {new : Entry}

/-- Nothing about legibility depends on names, places and types. -/
theorem Legible.of_map (legible : Legible entry) (kept : stored.map keep = .ok new)
    (alike : forall part, (keep part).value = entry.value ∧ (keep part).cells = entry.cells := by
      exact fun _ => ⟨rfl, rfl⟩) : Legible new := by
  rcases Results.of_map kept with ⟨part, _, rfl⟩
  rcases alike part with ⟨value, cells⟩
  exact .intro (fun _ equal => legible.value (value ▸ equal)) (cells ▸ legible.inside)

/-- A change of one group of cells. -/
theorem Legible.of_map_set (legible : Legible entry) (index : Nat)
    {cells : Part -> List (Option Entry)} (kept : stored.map keep = .ok new)
    (all : forall part, stored = .ok part -> AllLegible (cells part))
    (alike : forall part, (keep part).value = entry.value
      ∧ (keep part).cells = entry.cells.set index (cells part) := by
      exact fun _ => ⟨rfl, rfl⟩) : Legible new := by
  rcases Results.of_map kept with ⟨part, isPart, rfl⟩
  rcases alike part with ⟨value, same⟩
  exact .intro (fun _ equal => legible.value (value ▸ equal))
    (same ▸ legible.inside.set index (all part isPart))

end Changes

theorem legible_empty : Legible {} := by
  refine .intro (fun _ equal => by cases equal) ?_
  intro cells member part inside
  have none : forall cells, cells ∈ Entry.cells {} -> some part ∉ cells := by
    simp [Entry.cells, Slots.cells]
  exact absurd inside (none cells member)

end Entry

namespace Document

open Entry (AllLegible)

/-- Legible cells, without those that were given up. -/
theorem AllLegible.live {slots : Slots (Option Entry)} (all : AllLegible slots.cells) :
    AllLegible slots.live :=
  fun part member => all part (List.mem_append_left _ member)

theorem allLegible_refill {old entries} (before : AllLegible old.cells)
    (stored : AllLegible entries) : AllLegible (refill old entries).cells := by
  rw [refill]
  split
  · exact Entry.allLegible_nil
  · intro part member
    rcases List.mem_append.mp member with live | spare
    · exact stored part live
    · exact before part (List.mem_of_mem_drop spare)

mutual

theorem legible_storeMembers : forall (old : Entry) (members : List (String × Json)) {new},
    old.Legible -> (forall member, member ∈ members -> Json.Legible member.2) ->
    storeMembers old members = .ok new -> new.Legible
  | old, [], _, legible, _, stored => by
    cases stored
    exact legible
  | old, (key, value) :: members, new, legible, values, stored => by
    rw [storeMembers] at stored
    have valueLegible : value.Legible := values (key, value) List.mem_cons_self
    have part (index : Nat) {before after : Option Entry}
        (found : old.cells[index]? = some [before]) :
        storeEntry before value = .ok after -> AllLegible [after] :=
      legible_storeEntry before value (legible.part index found) valueLegible
    have parts (index : Nat) {before after : Slots (Option Entry)}
        (found : old.cells[index]? = some before.cells) :
        storeEntries before value = .ok after -> AllLegible after.cells :=
      legible_storeEntries before value (legible.part index found) valueLegible
    split at stored
    · cases stored
    rename_i middle middleStored
    have middleLegible : middle.Legible := by
      split at middleStored
      · exact legible.of_map middleStored
      · exact legible.of_map middleStored
      · exact legible.of_map middleStored
      · cases middleStored
        exact .intro (fun _ equal => by cases equal; exact valueLegible.numeral) legible.inside
      · exact legible.of_map middleStored
      · exact legible.of_map middleStored
      · exact legible.of_map middleStored
      · exact legible.of_map middleStored
      · exact legible.of_map_set 0 middleStored fun _ => part 0 rfl
      · exact legible.of_map_set 1 middleStored fun _ => part 1 rfl
      · exact legible.of_map_set 2 middleStored fun _ => part 2 rfl
      · exact legible.of_map_set 3 middleStored fun _ => part 3 rfl
      · exact legible.of_map_set 4 middleStored fun _ => part 4 rfl
      · exact legible.of_map_set 5 middleStored fun _ => part 5 rfl
      · exact legible.of_map_set 6 middleStored fun _ => part 6 rfl
      · exact legible.of_map_set 7 middleStored fun _ => part 7 rfl
      · exact legible.of_map_set 8 middleStored fun _ => part 8 rfl
      · exact legible.of_map_set 9 middleStored fun _ => part 9 rfl
      · exact legible.of_map_set 10 middleStored fun _ => part 10 rfl
      · exact legible.of_map_set 11 middleStored fun _ => part 11 rfl
      · exact legible.of_map_set 12 middleStored fun _ => parts 12 rfl
      · exact legible.of_map_set 13 middleStored fun _ => parts 13 rfl
      · exact legible.of_map_set 14 middleStored fun _ => parts 14 rfl
      · exact legible.of_map_set 15 middleStored fun _ => parts 15 rfl
      · exact legible.of_map middleStored
      · cases middleStored
    exact legible_storeMembers middle members middleLegible
      (List.forall_mem_cons.mp values).2 stored

theorem legible_storeEntry : forall (old : Option Entry) (value : Json) {new},
    AllLegible [old] -> value.Legible -> storeEntry old value = .ok new -> AllLegible [new]
  | _, .null, _, _, _, stored => by
    cases stored
    exact Entry.allLegible_none
  | old, .object members, _, before, legible, stored => by
    rcases Results.of_map stored with ⟨entry, kept, rfl⟩
    refine Entry.allLegible_some.mpr (legible_storeMembers (old.getD {}) members ?_ ?_ kept)
    · cases old with
      | none => exact Entry.legible_empty
      | some old => exact Entry.allLegible_some.mp before
    · intro member inside
      exact legible.part (List.mem_map_of_mem inside)
  | _, .bool _, _, _, _, stored => by cases stored
  | _, .number _, _, _, _, stored => by cases stored
  | _, .string _, _, _, _, stored => by cases stored
  | _, .array _, _, _, _, stored => by cases stored

theorem legible_storeEntries : forall (old : Slots (Option Entry)) (value : Json)
    {new},
    AllLegible old.cells -> value.Legible -> storeEntries old value = .ok new ->
    AllLegible new.cells
  | _, .null, _, _, _, stored => by
    cases stored
    exact Entry.allLegible_nil
  | old, .array values, _, before, legible, stored => by
    rcases Results.of_map stored with ⟨entries, kept, rfl⟩
    exact allLegible_refill before
      (legible_storeElements old.cells values before (fun _ inside => legible.part inside) kept)
  | _, .bool _, _, _, _, stored => by cases stored
  | _, .number _, _, _, _, stored => by cases stored
  | _, .string _, _, _, _, stored => by cases stored
  | _, .object _, _, _, _, stored => by cases stored

theorem legible_storeElements : forall (cells : List (Option Entry)) (values : List Json)
    {new},
    AllLegible cells -> (forall value, value ∈ values -> value.Legible) ->
    storeElements cells values = .ok new -> AllLegible new
  | _, [], _, _, _, stored => by
    cases stored
    exact Entry.allLegible_nil
  | cells, value :: values, _, before, legible, stored => by
    rw [storeElements] at stored
    split at stored
    · cases stored
    rename_i entry entryStored
    rcases Results.of_map stored with ⟨entries, kept, rfl⟩
    have old : AllLegible [cells.headD none] ∧ AllLegible cells.tail := by
      cases cells with
      | nil => exact ⟨Entry.allLegible_none, Entry.allLegible_nil⟩
      | cons cell cells => exact Entry.allLegible_cons.mp before
    exact Entry.allLegible_cons.mpr
      ⟨legible_storeEntry _ value old.1 (legible value List.mem_cons_self) entryStored,
        legible_storeElements _ values old.2 (List.forall_mem_cons.mp legible).2 kept⟩

end

/-- A document in which every number is a numeral. -/
structure Legible (document : Document) : Prop where
  structs : AllLegible document.structs.cells
  functions : AllLegible document.functions.cells
  blocks : AllLegible document.blocks.cells

theorem legible_store {members old new} (legible : old.Legible)
    (values : forall member, member ∈ members -> Json.Legible member.2)
    (stored : store old members = .ok new) : new.Legible := by
  induction members generalizing old with
  | nil =>
    cases stored
    exact legible
  | cons member members ih =>
    rcases List.forall_mem_cons.mp values with ⟨first, later⟩
    rw [store] at stored
    split at stored
    · cases stored
    rename_i middleStored
    refine ih ?_ later stored
    split at middleStored
    · rcases Results.of_map middleStored with ⟨_, kept, rfl⟩
      exact { legible with structs := legible_storeEntries _ _ legible.structs first kept }
    · rcases Results.of_map middleStored with ⟨_, kept, rfl⟩
      exact { legible with functions := legible_storeEntries _ _ legible.functions first kept }
    · rcases Results.of_map middleStored with ⟨_, kept, rfl⟩
      exact { legible with blocks := legible_storeEntries _ _ legible.blocks first kept }
    · cases middleStored

theorem legible_empty : Legible {} :=
  ⟨Entry.allLegible_nil, Entry.allLegible_nil, Entry.allLegible_nil⟩

/-- Every number in a document that is read from a text is a numeral. -/
theorem legible_of_read {bytes document} (read : Document.read bytes = .ok document) :
    document.Legible := by
  rw [Document.read] at read
  split at read
  · cases read
  rename_i value valueRead
  have legible := Json.legible_of_readLeading valueRead
  rw [ofJson.eq_def] at read
  split at read
  · cases read
    exact legible_empty
  · exact legible_store legible_empty
      (fun member inside => legible.part (List.mem_map_of_mem inside)) read
  · cases read

end Document
end PCode
