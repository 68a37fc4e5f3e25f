import PCode.Proofs.Static.Scoping
import PCode.Resolution

namespace PCode
namespace Resolution

open Static

/-!
The table of names against lexical environments.

The table is one structure that is pushed, popped, extended and counted in.  Here
each operation on it is matched with what happens to an environment: a lookup
finds the binding of the innermost scope that has the name, opening and closing
scopes is entering and resuming contexts, an insertion is a declaration, and
recording a use is nothing at all.

Entities know their depth, the number of scopes that were open when they were
bound.  Environments do not count; the distance between a use and its binding is
the number of layers passed, and the two numbers agree because a scope that is
still open has the depth it was opened at.
-/

/-! ## Entities and bindings -/

/-- An entity of a scope at some depth stands for an entry of a layer. -/
def Stands (depth : Nat) (entity : Entity) (entry : String × Binding) : Prop :=
  entity.name = entry.1 ∧ entity.depth = depth ∧
    match entry.2 with
    | .variable type offset byRef =>
      entity.kind = .variable ∧ entity.type = type ∧ entity.frame = 1
        ∧ entity.offset = Int64.ofInt offset ∧ entity.byRef = byRef
    | .function callee =>
      entity.kind = .function ∧ entity.type = callee.signature.result
        ∧ entity.callee = some callee
    | .struct type => entity.kind = .struct ∧ entity.type = type

namespace Stands

variable {depth : Nat} {entity : Entity} {name : String} {binding : Binding}

theorem of_variable (stands : Stands depth entity (name, binding))
    (kind : entity.kind = .variable) :
    exists offset, binding = .variable entity.type offset entity.byRef ∧ entity.frame = 1
      ∧ entity.offset = Int64.ofInt offset := by
  rcases stands with ⟨_, _, meaning⟩
  match binding, meaning with
  | .variable _ offset _, ⟨_, sameType, frame, place, sameByRef⟩ =>
    exact ⟨offset, by rw [sameType, sameByRef], frame, place⟩
  | .function _, ⟨other, _⟩ => exact absurd (kind.symm.trans other) (by decide)
  | .struct _, ⟨other, _⟩ => exact absurd (kind.symm.trans other) (by decide)

theorem of_function (stands : Stands depth entity (name, binding))
    (kind : entity.kind = .function) :
    exists callee, binding = .function callee ∧ entity.type = callee.signature.result
      ∧ entity.callee = some callee := by
  rcases stands with ⟨_, _, meaning⟩
  match binding, meaning with
  | .variable _ _ _, ⟨other, _⟩ => exact absurd (kind.symm.trans other) (by decide)
  | .function callee, ⟨_, sameType, sameCallee⟩ => exact ⟨callee, rfl, sameType, sameCallee⟩
  | .struct _, ⟨other, _⟩ => exact absurd (kind.symm.trans other) (by decide)

theorem of_struct (stands : Stands depth entity (name, binding)) (kind : entity.kind = .struct) :
    binding = .struct entity.type := by
  rcases stands with ⟨_, _, meaning⟩
  match binding, meaning with
  | .variable _ _ _, ⟨other, _⟩ => exact absurd (kind.symm.trans other) (by decide)
  | .function _, ⟨other, _⟩ => exact absurd (kind.symm.trans other) (by decide)
  | .struct _, ⟨_, sameType⟩ => rw [sameType]

end Stands

/-- Open scopes show an environment, scope by scope. -/
inductive Shows : List Scope -> Env -> Prop
  | nil : Shows [] []
  | cons {scope scopes} {layer : Layer} {env} :
    List.Forall₂ (Stands (scopes.length + 1)) scope.entities layer -> Shows scopes env ->
    Shows (scope :: scopes) (layer :: env)

variable {layer : Layer} {scopes : List Scope} {env : Env} {table : Table} {name : String}

/-- Searching a scope and searching its layer either both fail or find the same. -/
theorem find_cases {depth entities} (stand : List.Forall₂ (Stands depth) entities layer)
    (name : String) :
    (entities.find? (fun entity => entity.name == name) = none ∧ layer.lookup name = none) ∨
      exists entity binding, entities.find? (fun entity => entity.name == name) = some entity
        ∧ layer.lookup name = some binding ∧ Stands depth entity (name, binding) := by
  induction stand with
  | nil => exact Or.inl ⟨rfl, rfl⟩
  | @cons entity entry entities layer first _ ih =>
    rcases entry with ⟨key, binding⟩
    have named : entity.name = key := first.1
    rw [List.find?_cons, List.lookup_cons, named]
    by_cases same : key = name
    · subst same
      simp only [beq_self_eq_true]
      exact Or.inr ⟨entity, binding, rfl, rfl, first⟩
    · have different : ¬ name = key := fun equal => same equal.symm
      simp only [beq_eq_false_iff_ne.mpr same, beq_eq_false_iff_ne.mpr different]
      exact ih

/-- The same for the whole table, whose search goes from the inside out. -/
theorem lookup_cases (shows : Shows scopes env) (name : String) :
    (Table.lookup ⟨scopes⟩ name = none ∧ forall out binding, ¬ Binds env name out binding) ∨
      exists entity out binding, Table.lookup ⟨scopes⟩ name = some entity
        ∧ Binds env name out binding ∧ out < scopes.length
        ∧ Stands (scopes.length - out) entity (name, binding) := by
  induction shows with
  | nil =>
    refine Or.inl ⟨rfl, ?_⟩
    intro out binding impossible
    cases impossible
  | @cons scope scopes layer env stand _ ih =>
    rw [Table.lookup, List.findSome?_cons, Scope.find?]
    rcases find_cases stand name with
      ⟨notFound, missing⟩ | ⟨entity, binding, found, bound, stands⟩
    · rw [notFound]
      rcases ih with
        ⟨nowhere, unbound⟩ | ⟨entity, out, binding, found, binds, inside, stands⟩
      · refine Or.inl ⟨nowhere, ?_⟩
        intro out binding binds
        cases binds with
        | here found =>
          rw [missing] at found
          cases found
        | outward _ binds => exact unbound _ _ binds
      · refine Or.inr ⟨entity, out + 1, binding, found, .outward missing binds, ?_, ?_⟩
        · exact Nat.succ_lt_succ inside
        · rw [List.length_cons, Nat.add_sub_add_right]
          exact stands
    · rw [found]
      exact Or.inr ⟨entity, 0, binding, rfl, .here bound, Nat.zero_lt_succ _, stands⟩

/-- What the table finds is what lexical scoping says, at the right distance. -/
theorem binds_of_lookup {entity} (shows : Shows table.scopes env)
    (found : table.lookup name = some entity) :
    exists binding, Binds env name (table.depth - entity.depth) binding
      ∧ Stands entity.depth entity (name, binding) := by
  rcases lookup_cases shows name with
    ⟨missing, _⟩ | ⟨other, out, binding, found', binds, inside, stands⟩
  · rw [missing] at found
    cases found
  · rw [found'] at found
    cases found
    have depth : entity.depth = table.scopes.length - out := stands.2.1
    have distance : table.depth - entity.depth = out := by
      rw [Table.depth, depth]
      omega
    rw [distance, depth]
    exact ⟨binding, binds, stands⟩

/-- What lexical scoping says is what the table finds. -/
theorem lookup_of_binds {out binding} (shows : Shows table.scopes env)
    (binds : Binds env name out binding) :
    exists entity, table.lookup name = some entity ∧ table.depth - entity.depth = out
      ∧ Stands entity.depth entity (name, binding) := by
  rcases lookup_cases shows name with
    ⟨_, unbound⟩ | ⟨entity, out', binding', found, binds', inside, stands⟩
  · exact absurd binds (unbound out binding)
  · rcases binds'.unique binds with ⟨rfl, rfl⟩
    have depth : entity.depth = table.scopes.length - out' := stands.2.1
    refine ⟨entity, found, ?_, depth ▸ stands⟩
    rw [Table.depth, depth]
    omega

/-! ## Uses -/

/-- Which of the open scopes own a frame. -/
def owners (scopes : List Scope) : List Bool := scopes.map fun scope => scope.frame.isSome

theorem owners_of_frames {scopes'} (frames : scopes'.map Scope.frame = scopes.map Scope.frame) :
    owners scopes' = owners scopes := by
  have mapped := congrArg (List.map Option.isSome) frames
  rw [List.map_map, List.map_map] at mapped
  exact mapped

theorem frame_of_frames {scopes'} (frames : scopes'.map Scope.frame = scopes.map Scope.frame) :
    Table.frame? ⟨scopes'⟩ = Table.frame? ⟨scopes⟩ := by
  have first (list : List Scope) :
      list.findSome? Scope.frame = (list.map Scope.frame).findSome? id := by
    rw [List.findSome?_map]
    rfl
  rw [Table.frame?, Table.frame?, first, first, frames]

/-- Scopes that differ in recorded uses only: they show the same environments
and have the same frames. -/
structure Alike (scopes scopes' : List Scope) : Prop where
  shows : forall env, Shows scopes env -> Shows scopes' env
  frames : scopes'.map Scope.frame = scopes.map Scope.frame

namespace Alike

variable {scopes scopes' scopes'' : List Scope}

theorem refl (scopes : List Scope) : Alike scopes scopes := ⟨fun _ shows => shows, rfl⟩

theorem trans (first : Alike scopes scopes') (second : Alike scopes' scopes'') :
    Alike scopes scopes'' :=
  ⟨fun env shows => second.shows env (first.shows env shows), second.frames.trans first.frames⟩

end Alike

private theorem length_useIn (name : String) : forall scopes : List Scope,
    (Table.useIn name scopes).length = scopes.length
  | [] => rfl
  | scope :: scopes => by
    rw [Table.useIn]
    split
    · rfl
    · rw [List.length_cons, List.length_cons, length_useIn name scopes]

private theorem frames_useIn (name : String) : forall scopes : List Scope,
    (Table.useIn name scopes).map Scope.frame = scopes.map Scope.frame
  | [] => rfl
  | scope :: scopes => by
    rw [Table.useIn]
    split
    · rfl
    · rw [List.map_cons, List.map_cons, frames_useIn name scopes]

private theorem shows_useIn (name : String) (shows : Shows scopes env) :
    Shows (Table.useIn name scopes) env := by
  induction shows with
  | nil => exact .nil
  | @cons scope scopes layer env stand outside ih =>
    rw [Table.useIn]
    split
    · refine .cons ?_ outside
      rw [List.forall₂_map_left_iff]
      refine stand.imp ?_
      intro entity entry stands
      split <;> exact stands
    · refine .cons ?_ ih
      rw [length_useIn]
      exact stand

theorem useAll_alike (names : List String) (table : Table) :
    Alike table.scopes (table.useAll names).scopes := by
  induction names generalizing table with
  | nil => exact .refl _
  | cons name names ih =>
    have first : Alike table.scopes (table.use name).scopes :=
      ⟨fun _ => shows_useIn name, frames_useIn name _⟩
    exact first.trans (ih (table.use name))

/-! ## Contexts -/

/-- The table mirrors a context: the scopes show its environment, and the frame
has given away the cells that the context counts, of which there are not too
many. -/
structure Mirrors (table : Table) (context : Context) : Prop where
  shows : Shows table.scopes context.env
  frame : table.frame? = some ⟨1, Int64.ofInt context.used, Int64.ofInt context.used⟩
  low : 0 <= context.used
  high : context.used <= Ty.cellLimit

namespace Mirrors

variable {table : Table} {context : Context}

theorem openBlock (mirrors : Mirrors table context) : Mirrors table.openBlock context.enter where
  shows := .cons .nil mirrors.shows
  frame := mirrors.frame
  low := mirrors.low
  high := mirrors.high

theorem useAll (mirrors : Mirrors table context) (names : List String) :
    Mirrors (table.useAll names) context where
  shows := (useAll_alike names table).shows _ mirrors.shows
  frame := (frame_of_frames (useAll_alike names table).frames).trans mirrors.frame
  low := mirrors.low
  high := mirrors.high

theorem frameLevel (mirrors : Mirrors table context) : table.frameLevel = 1 := by
  rw [Table.frameLevel, mirrors.frame]
  rfl

theorem frameSize (mirrors : Mirrors table context) :
    table.frameSize = Int64.ofInt context.used := by
  rw [Table.frameSize, mirrors.frame]
  rfl

end Mirrors

theorem owners_useAll (table : Table) (names : List String) :
    owners (table.useAll names).scopes = owners table.scopes :=
  owners_of_frames (useAll_alike names table).frames

/-! ## Insertion -/

/-- Binding a name that the innermost scope does not have. -/
theorem insert_of_free (entity : Entity) (binding : Binding)
    (shows : Shows table.scopes (layer :: env)) (free : layer.lookup name = none)
    (stands : Stands table.depth { entity with name := name, depth := table.depth }
      (name, binding)) :
    exists inserted, table.insert name entity
        = .ok (.added { entity with name := name, depth := table.depth } inserted)
      ∧ Shows inserted.scopes ((layer ++ [(name, binding)]) :: env)
      ∧ inserted.scopes.map Scope.frame = table.scopes.map Scope.frame := by
  rcases table with ⟨scopes⟩
  cases shows with
  | @cons scope scopes layer env stand outside =>
    rcases find_cases stand name with ⟨missing, _⟩ | ⟨_, _, _, bound, _⟩
    · let added : Entity := { entity with name := name, depth := Table.depth ⟨scope :: scopes⟩ }
      refine ⟨⟨{ scope with entities := scope.entities ++ [added] } :: scopes⟩, ?_,
        .cons (List.rel_append stand (.cons stands .nil)) outside, rfl⟩
      simp only [Table.insert, Scope.find?, missing, added]
    · rw [free] at bound
      cases bound

/-- A name that the innermost scope has is not bound again. -/
theorem insert_of_bound {binding} (shows : Shows table.scopes (layer :: env))
    (bound : layer.lookup name = some binding) (entity : Entity) :
    exists existing, table.insert name entity = .ok (.taken existing) := by
  rcases table with ⟨scopes⟩
  cases shows with
  | @cons scope scopes layer env stand _ =>
    rcases find_cases stand name with ⟨_, free⟩ | ⟨existing, _, found, _, _⟩
    · rw [free] at bound
      cases bound
    · refine ⟨existing, ?_⟩
      simp only [Table.insert, Scope.find?, found]

theorem takeCells_frame (cells : Int64) : forall scopes : List Scope,
    Table.frame? ⟨Table.takeCells cells scopes⟩
      = (Table.frame? ⟨scopes⟩).map fun frame => frame.take cells
  | [] => rfl
  | scope :: scopes => by
    rw [Table.takeCells]
    split
    · rename_i frame owned
      simp [Table.frame?, owned]
    · rename_i unowned
      have rest := takeCells_frame cells scopes
      simp only [Table.frame?] at rest ⊢
      rw [List.findSome?_cons, List.findSome?_cons, unowned, rest]

theorem takeCells_owners (cells : Int64) : forall scopes : List Scope,
    owners (Table.takeCells cells scopes) = owners scopes
  | [] => rfl
  | scope :: scopes => by
    rw [Table.takeCells]
    split
    · rename_i frame owned
      simp [owners, owned]
    · exact congrArg (scope.frame.isSome :: ·) (takeCells_owners cells scopes)

private theorem length_takeCells (cells : Int64) : forall scopes : List Scope,
    (Table.takeCells cells scopes).length = scopes.length
  | [] => rfl
  | scope :: scopes => by
    rw [Table.takeCells]
    split
    · rfl
    · rw [List.length_cons, List.length_cons, length_takeCells cells scopes]

theorem takeCells_shows (cells : Int64) (shows : Shows scopes env) :
    Shows (Table.takeCells cells scopes) env := by
  induction shows with
  | nil => exact .nil
  | @cons scope scopes layer env stand outside ih =>
    rw [Table.takeCells]
    split
    · exact .cons stand outside
    · refine .cons ?_ ih
      rw [length_takeCells]
      exact stand

/-- Taking cells in a frame of exact size, within the range of machine integers. -/
theorem take_exact {used cells machine} (low : 0 <= used) (high : used <= Ty.cellLimit)
    (exact_cells : machine.toInt = cells) (nonneg : 0 <= cells) (bounded : cells <= Ty.cellLimit) :
    Frame.take ⟨1, Int64.ofInt used, Int64.ofInt used⟩ machine
      = ⟨1, Int64.ofInt (used + cells), Int64.ofInt (used + cells)⟩ := by
  have limit : Ty.cellLimit = 2147483647 := rfl
  have before : (Int64.ofInt used).toInt = used := Int64.toInt_ofInt_of_le (by omega) (by omega)
  have behind : (Int64.ofInt (used + cells)).toInt = used + cells :=
    Int64.toInt_ofInt_of_le (by omega) (by omega)
  have sum : Int64.ofInt used + machine = Int64.ofInt (used + cells) := by
    apply Int64.toInt_inj.mp
    rw [Int64.toInt_add, before, exact_cells, behind]
    apply Int.bmod_eq_of_le <;> omega
  have size : (if Int64.ofInt (used + cells) > Int64.ofInt used then Int64.ofInt (used + cells)
      else Int64.ofInt used) = Int64.ofInt (used + cells) := by
    split
    · rfl
    · rename_i notGreater
      rw [gt_iff_lt, Int64.lt_iff_toInt_lt, before, behind] at notGreater
      have none : cells = 0 := by omega
      rw [none, Int.add_zero]
  simp only [Frame.take, sum, size]

namespace Mirrors

variable {table : Table} {context : Context} {name : String} {type : Ty}

/-- Declaring a variable whose name is free.  The table is left with a frame of
the right size whether or not that size is within the limit, and the test of the
frame decides which of the two it is. -/
theorem insertVariable (mirrors : Mirrors table context) (sized : Sized type)
    (free : context.inner.lookup name = none) (byRef : Bool) (site : Option Site) :
    exists entity inserted, table.insertVariable name type byRef site = .ok (.added entity inserted)
      ∧ entity.offset = Int64.ofInt context.used
      ∧ owners inserted.scopes = owners table.scopes
      ∧ (frameFits inserted = true <-> (context.declare name type byRef).used <= Ty.cellLimit)
      ∧ ((context.declare name type byRef).used <= Ty.cellLimit ->
          Mirrors inserted (context.declare name type byRef)) := by
  have cellsNonneg := sized.cellsOf_nonneg byRef
  have cellsBounded : Context.cellsOf type byRef <= Ty.cellLimit := by
    have bounded := sized.bounded
    simp only [Context.cellsOf]
    split
    · decide
    · exact bounded
  let fresh : Entity :=
    { kind := .variable, type, byRef, site, frame := 1, offset := Int64.ofInt context.used }
  rcases insert_of_free fresh
    (.variable type context.used byRef) mirrors.shows free ⟨rfl, rfl, rfl, rfl, rfl, rfl, rfl⟩
      with ⟨inserted, added, shows, frames⟩
  let widened : Table := ⟨Table.takeCells (if byRef then 1 else type.size) inserted.scopes⟩
  have frame : widened.frame? = some ⟨1, Int64.ofInt (context.used + Context.cellsOf type byRef),
      Int64.ofInt (context.used + Context.cellsOf type byRef)⟩ := by
    rw [takeCells_frame, frame_of_frames frames, mirrors.frame, Option.map_some,
      take_exact mirrors.low mirrors.high (sized.cellsOf_eq byRef) cellsNonneg cellsBounded]
  refine ⟨{ fresh with name := name, depth := table.depth }, widened, ?_, rfl, ?_, ?_, ?_⟩
  · rcases table with ⟨scopes⟩
    cases mirrors.shows with
    | cons stand outside => simp only [Table.insertVariable, mirrors.frame, fresh, added, widened]
  · exact (takeCells_owners _ _).trans (owners_of_frames frames)
  · have limit : Ty.cellLimit = 2147483647 := rfl
    have low := mirrors.low
    have high := mirrors.high
    rw [frameFits, Table.frameSize, frame, decide_eq_true_eq, Int64.le_iff_toInt_le,
      Ty.maxCells_toInt]
    show (Int64.ofInt (context.used + Context.cellsOf type byRef)).toInt <= Ty.cellLimit <-> _
    rw [Int64.toInt_ofInt_of_le (by omega) (by omega)]
    rfl
  · intro bounded
    exact {
      shows := takeCells_shows _ shows
      frame := frame
      low := Int.add_nonneg mirrors.low cellsNonneg
      high := bounded }

/-- Declaring a variable whose name the scope has already. -/
theorem insertVariable_of_bound {binding} (mirrors : Mirrors table context)
    (bound : context.inner.lookup name = some binding) (type : Ty) (byRef : Bool)
    (site : Option Site) :
    exists existing, table.insertVariable name type byRef site = .ok (.taken existing) := by
  let fresh : Entity :=
    { kind := .variable, type, byRef, site, frame := 1, offset := Int64.ofInt context.used }
  rcases insert_of_bound mirrors.shows bound fresh with ⟨existing, taken⟩
  refine ⟨existing, ?_⟩
  rcases table with ⟨scopes⟩
  cases mirrors.shows with
  | cons stand outside => simp only [Table.insertVariable, mirrors.frame, fresh, taken]

end Mirrors

/-! ## Leaving scopes -/

theorem leave_table {config scope} (opened : table.scopes = scope :: scopes) :
    (leave config table).2 = ⟨scopes⟩ := by
  rcases table with ⟨all⟩
  cases opened
  rfl

/-- Leaving a scope that shares its frame takes the environment from before, and
the cells taken inside stay taken. -/
theorem Mirrors.leave {inner outer : Table} {context inside : Context}
    (mirrors : Mirrors inner inside) (owned : owners inner.scopes = false :: owners outer.scopes)
    (around : inside.outer = context.env) (config : Config) :
    Mirrors (leave config inner).2 (context.resume inside)
      ∧ owners (Resolution.leave config inner).2.scopes = owners outer.scopes := by
  rcases inner with ⟨scopes⟩
  have shows := mirrors.shows
  rw [Context.env, around] at shows
  cases shows with
  | @cons scope scopes layer env stand outside =>
    have unowned : scope.frame = none :=
      Option.isNone_iff_eq_none.mp (Option.isSome_eq_false_iff.mp (List.cons.inj owned).1)
    have frame := mirrors.frame
    rw [Table.frame?, List.findSome?_cons, unowned] at frame
    rw [leave_table rfl]
    exact ⟨⟨outside, frame, mirrors.low, mirrors.high⟩, (List.cons.inj owned).2⟩

/-- The table between two bodies: it shows an environment and no frame is open. -/
structure Rests (table : Table) (env : Env) : Prop where
  shows : Shows table.scopes env
  unowned : forall owner, owner ∈ owners table.scopes -> owner = false

namespace Rests

variable {table : Table} {env : Env}

theorem empty : Rests Table.empty [] := ⟨.nil, fun _ member => by cases member⟩

theorem openBlock (rests : Rests table env) : Rests table.openBlock ([] :: env) where
  shows := .cons .nil rests.shows
  unowned := by
    intro owner member
    rcases List.mem_cons.mp member with same | later
    · exact same
    · exact rests.unowned owner later

/-- The frame of a body is always the only one. -/
theorem openFrames (rests : Rests table env) : table.openFrames = 0 := by
  rw [Table.openFrames, List.countP_eq_zero]
  intro scope member
  have unowned := rests.unowned scope.frame.isSome (List.mem_map_of_mem member)
  rw [unowned]
  decide

theorem openFrame (rests : Rests table env) : Mirrors table.openFrame (Context.start env) where
  shows := .cons .nil rests.shows
  frame := by
    rw [Table.openFrame, rests.openFrames]
    rfl
  low := show (0 : Int) <= Context.headerCells by decide
  high := show Context.headerCells <= Ty.cellLimit by decide

/-- Leaving the scope of a frame closes the frame. -/
theorem leave {inner inside} (rests : Rests table env) (mirrors : Mirrors inner inside)
    (owned : owners inner.scopes = true :: owners table.scopes) (around : inside.outer = env)
    (config : Config) : Rests (leave config inner).2 env := by
  rcases inner with ⟨scopes⟩
  have shows := mirrors.shows
  rw [Context.env, around] at shows
  cases shows with
  | @cons scope scopes layer env stand outside =>
    rw [leave_table rfl]
    refine ⟨outside, ?_⟩
    rw [show owners scopes = owners table.scopes from (List.cons.inj owned).2]
    exact rests.unowned

end Rests

end Resolution
end PCode
