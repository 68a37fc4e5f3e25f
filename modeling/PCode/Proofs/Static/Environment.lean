import PCode.Node
import PCode.Proofs.Cells

namespace PCode
namespace Static

/-!
Lexical environments.

An environment is an immutable list of layers, innermost first, and a layer is a
list of names with what they stand for.  A name stands for what the innermost
layer that has it says, and the number of layers passed on the way outwards is
part of the answer.  Nothing is ever taken out of an environment: leaving a
scope means going on with the environment from before.

Variables get their cells in the order of their declarations, so a context
carries, beside the environment, the number of cells that the frame has given
away.  Cell counts are exact integers; the limit of a frame is a condition of
the judgements and not a property of the arithmetic.
-/

/-! ## Names and what they stand for -/

/-- What a name stands for. -/
inductive Binding where
  /-- A variable with its type and its first cell.  By reference means that the
  cell holds the address of the value. -/
  | variable (type : Ty) (offset : Int) (byRef : Bool)
  | function (callee : Callee)
  | struct (type : Ty)

/-- The names of one scope. -/
abbrev Layer := List (String × Binding)

/-- The scopes around a place, innermost first. -/
abbrev Env := List Layer

/-- A name stands for a binding, found the given number of scopes out. -/
inductive Binds : Env -> String -> Nat -> Binding -> Prop
  | here {layer} {env : Env} {name binding} :
    layer.lookup name = some binding -> Binds (layer :: env) name 0 binding
  | outward {layer env name out binding} :
    layer.lookup name = none -> Binds env name out binding ->
    Binds (layer :: env) name (out + 1) binding

variable {name : String} {out : Nat} {binding : Binding}

/-- A name stands for one thing only. -/
theorem Binds.unique {env out' binding'} (left : Binds env name out binding)
    (right : Binds env name out' binding') : out = out' ∧ binding = binding' := by
  induction left generalizing out' with
  | here found =>
    cases right with
    | here found' =>
      rw [found] at found'
      exact ⟨rfl, Option.some.inj found'⟩
    | outward missing _ =>
      rw [found] at missing
      cases missing
  | outward missing _ ih =>
    cases right with
    | here found =>
      rw [missing] at found
      cases found
    | outward _ right =>
      rcases ih right with ⟨sameOut, sameBinding⟩
      exact ⟨congrArg (· + 1) sameOut, sameBinding⟩

/-! ## Declared types -/

/-- The type that a declared type stands for: structures are looked up, and
arrays have a positive length and stay within the limit. -/
inductive Denotes (env : Env) : Ty -> Ty -> Prop
  | integer : Denotes env .integer .integer
  | boolean : Denotes env .boolean .boolean
  | real : Denotes env .real .real
  | char : Denotes env .char .char
  | struct {name : String} {fields out type} :
    Binds env name out (.struct type) -> Denotes env (.struct name fields) type
  | array {length elem type} :
    1 <= length.toInt -> Denotes env elem type -> (Ty.array length type).cells <= Ty.cellLimit ->
    Denotes env (.array length elem) (.array length type)

/-! ## Contexts -/

/-- Where a statement stands: the innermost scope, the scopes around it, and the
cells of the frame that are taken. -/
structure Context where
  inner : Layer
  outer : Env
  used : Int

namespace Context

/-- All scopes of a context. -/
def env (context : Context) : Env := context.inner :: context.outer

/-- Cells at the start of every frame. -/
def headerCells : Int := 5

/-- A scope with a frame of its own, of which only the header is taken. -/
def start (env : Env) : Context := { inner := [], outer := env, used := headerCells }

/-- A new scope inside the same frame. -/
def enter (context : Context) : Context :=
  { inner := [], outer := context.env, used := context.used }

/-- Back in a scope after one inside it was left.  Its names are gone, and its
cells stay taken. -/
def resume (context inside : Context) : Context := { context with used := inside.used }

/-- Cells of a variable: one for an address, and otherwise those of its type. -/
def cellsOf (type : Ty) (byRef : Bool) : Int := if byRef then 1 else type.cells

/-- Declares a variable in the innermost scope. -/
def declare (context : Context) (name : String) (type : Ty) (byRef : Bool) : Context :=
  { context with
    inner := context.inner ++ [(name, .variable type context.used byRef)]
    used := context.used + cellsOf type byRef }

end Context

/-! ## What scopes and declarations add -/

theorem lookup_snoc (layer : Layer) (name other : String) (binding : Binding) :
    (layer ++ [(other, binding)]).lookup name
      = (layer.lookup name).or (if name = other then some binding else none) := by
  rw [List.lookup_append, List.lookup_cons]
  by_cases same : name = other
  · rw [if_pos same, beq_iff_eq.mpr same]
  · rw [if_neg same, beq_false_of_ne same]
    rfl

/-- A new scope binds nothing. -/
theorem Binds.of_enter {env : Env} (binds : Binds ([] :: env) name out binding) :
    exists further, Binds env name further binding := by
  cases binds with
  | here found => cases found
  | outward _ rest => exact ⟨_, rest⟩

/-- A declaration binds its own name, and all others stand for what they did before. -/
theorem Binds.of_declare {context : Context} {other type byRef}
    (binds : Binds (context.declare other type byRef).env name out binding) :
    (name = other ∧ binding = .variable type context.used byRef)
      ∨ Binds context.env name out binding := by
  cases binds with
  | here found =>
    rw [Context.declare, lookup_snoc] at found
    cases known : context.inner.lookup name with
    | some earlier =>
      rw [known, Option.some_or] at found
      exact .inr (.here (known.trans found))
    | none =>
      rw [known, Option.none_or] at found
      split at found
      · rename_i same
        exact .inl ⟨same, (Option.some.inj found).symm⟩
      · cases found
  | outward missing rest =>
    rw [Context.declare, lookup_snoc] at missing
    exact .inr (.outward (Option.or_eq_none_iff.mp missing).1 rest)

/-! ## Environments whose types are finished -/

mutual

/-- A type without open parts: no type is missing, structures have fields and
arrays have elements. -/
def Proper : Ty -> Prop
  | .integer | .boolean | .real | .char => True
  | .struct _ fields => fields ≠ [] ∧ ProperFields fields
  | .array length elem => 1 <= length.toInt ∧ Proper elem
  | .unknown | .other _ => False

/-- Fields whose types have no open parts. -/
def ProperFields : List (String × Ty) -> Prop
  | [] => True
  | (_, type) :: fields => Proper type ∧ ProperFields fields

end

mutual

theorem Proper.lengthsPositive : forall {type}, Proper type -> type.LengthsPositive
  | .integer, _ => trivial
  | .boolean, _ => trivial
  | .real, _ => trivial
  | .char, _ => trivial
  | .struct _ _, proper => ProperFields.lengthsPositive proper.2
  | .array _ _, proper => ⟨proper.1, Proper.lengthsPositive proper.2⟩

theorem ProperFields.lengthsPositive : forall {fields},
    ProperFields fields -> Ty.FieldLengthsPositive fields
  | [], _ => trivial
  | (_, _) :: _, proper =>
    ⟨Proper.lengthsPositive proper.1, ProperFields.lengthsPositive proper.2⟩

end

/-- A type without open parts that stays within the limit. -/
structure Sized (type : Ty) : Prop where
  proper : Proper type
  bounded : type.cells <= Ty.cellLimit

namespace Sized

variable {type : Ty}

theorem cells_nonneg (sized : Sized type) : 0 <= type.cells :=
  Ty.cells_nonneg type sized.proper.lengthsPositive

theorem fits (sized : Sized type) : type.fitsIn Ty.maxCells = true :=
  Ty.fitsIn_of_cells_le type sized.proper.lengthsPositive (by decide) sized.bounded

/-- The machine count of such a type is its exact count. -/
theorem size_toInt (sized : Sized type) : type.size.toInt = type.cells :=
  (Ty.cells_of_fitsIn type (by decide) sized.fits).2.2

/-- Counting the cells of such a type never wraps. -/
theorem countsExactly (sized : Sized type) : type.CountsExactly :=
  Ty.countsExactly_of_cells_le type sized.proper.lengthsPositive sized.bounded

/-- The machine count of the cells of a variable is the exact one. -/
theorem cellsOf_eq (sized : Sized type) (byRef : Bool) :
    (if byRef then 1 else type.size).toInt = Context.cellsOf type byRef := by
  cases byRef with
  | true => rfl
  | false => exact sized.size_toInt

theorem cellsOf_nonneg (sized : Sized type) (byRef : Bool) : 0 <= Context.cellsOf type byRef := by
  have nonneg := sized.cells_nonneg
  simp only [Context.cellsOf]
  split <;> omega

/-- A scalar takes one cell. -/
theorem cells_eq_one (sized : Sized type) (scalar : type.isComposite = false) :
    type.cells = 1 := by
  cases type with
  | integer | boolean | real | char => rfl
  | struct | array => cases scalar
  | unknown | other => exact sized.proper.elim

theorem known (sized : Sized type) : type.isKnown = true := by
  cases type with
  | unknown => exact sized.proper.elim
  | _ => rfl

end Sized

/-- Whether every type in a binding is finished. -/
def Binding.Finished : Binding -> Prop
  | .variable type _ _ => Sized type
  | .function callee =>
    (forall param, param ∈ callee.signature.params -> Sized param) ∧ Sized callee.signature.result
  | .struct type => Sized type

/-- Whether every binding of an environment has a property. -/
def Env.All (Holds : Binding -> Prop) (env : Env) : Prop :=
  forall layer, layer ∈ env -> forall entry, entry ∈ layer -> Holds entry.2

/-- Whether every type in an environment is finished. -/
abbrev Env.Finished (env : Env) : Prop := env.All Binding.Finished

namespace Env.All

variable {Holds : Binding -> Prop} {layer : Layer} {env : Env}

theorem nil : Env.All Holds [] := fun _ member => by cases member

theorem cons (here : forall entry, entry ∈ layer -> Holds entry.2) (outside : env.All Holds) :
    Env.All Holds (layer :: env) := by
  intro other member
  rcases List.mem_cons.mp member with same | later
  · exact same ▸ here
  · exact outside other later

/-- A new scope binds nothing. -/
theorem enter (outside : env.All Holds) : Env.All Holds ([] :: env) :=
  cons (fun _ member => by cases member) outside

theorem tail (all : Env.All Holds (layer :: env)) : env.All Holds :=
  (List.forall_mem_cons.mp all).2

theorem push (all : Env.All Holds (layer :: env))
    (added : Holds binding) : Env.All Holds ((layer ++ [(name, binding)]) :: env) := by
  refine cons ?_ all.tail
  intro entry member
  rcases List.mem_append.mp member with before | last
  · exact all layer List.mem_cons_self entry before
  · cases List.mem_singleton.mp last
    exact added

end Env.All

private theorem mem_of_lookup {layer : Layer} (found : layer.lookup name = some binding) :
    exists entry, entry ∈ layer ∧ entry.2 = binding := by
  induction layer with
  | nil => cases found
  | cons entry layer ih =>
    rw [List.lookup_cons] at found
    split at found
    · exact ⟨entry, List.mem_cons_self, Option.some.inj found⟩
    · rcases ih found with ⟨other, member, equal⟩
      exact ⟨other, List.mem_cons_of_mem _ member, equal⟩

theorem Binds.holds {Holds : Binding -> Prop} {env} (binds : Binds env name out binding)
    (all : env.All Holds) : Holds binding := by
  induction binds with
  | here found =>
    rcases mem_of_lookup found with ⟨entry, member, equal⟩
    exact equal ▸ all _ List.mem_cons_self entry member
  | outward _ _ ih => exact ih all.tail

theorem Denotes.sized {env declared type} (denotes : Denotes env declared type)
    (finished : env.Finished) : Sized type := by
  induction denotes with
  | integer => exact ⟨trivial, by decide⟩
  | boolean => exact ⟨trivial, by decide⟩
  | real => exact ⟨trivial, by decide⟩
  | char => exact ⟨trivial, by decide⟩
  | struct found => exact found.holds finished
  | array positive _ bounded ih =>
    exact ⟨⟨positive, ih.proper⟩, bounded⟩

end Static
end PCode
