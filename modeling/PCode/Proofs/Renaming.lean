import Mathlib.Logic.Function.Basic
import PCode.Judgement

namespace PCode

/-!
Programs under new names.

Variables, functions and structures share one space of names, and fields have another one.  A
renaming changes both, and keeps different names apart.  It is applied to a whole tree: to what the
tree declares and uses, and to the types that phases have noted in it.  Sizes, offsets and the forms
of nodes stay what they are, and types stay equal or different; this is all that the phases ask for.
-/

/-- New names, and new names of fields.  Different names stay different. -/
structure Renaming where
  names : String -> String
  fields : String -> String
  names_injective : Function.Injective names
  fields_injective : Function.Injective fields

namespace Renaming

variable (new : Renaming)

@[simp] theorem names_inj {left right} : new.names left = new.names right <-> left = right :=
  new.names_injective.eq_iff

@[simp] theorem fields_inj {left right} : new.fields left = new.fields right <-> left = right :=
  new.fields_injective.eq_iff

/-- The renaming that keeps all names. -/
def keep : Renaming := ⟨id, id, Function.injective_id, Function.injective_id⟩

@[simp] theorem names_keep (name : String) : keep.names name = name := rfl

@[simp] theorem fields_keep (name : String) : keep.fields name = name := rfl

@[simp] theorem names_beq (left right : String) :
    (new.names left == new.names right) = (left == right) := by
  apply Bool.eq_iff_iff.mpr
  simp

end Renaming

/-! ## Types -/

namespace Ty

mutual

/-- A type under new names. -/
def rename (new : Renaming) : Ty -> Ty
  | .struct name fields => .struct (new.names name) (renameFields new fields)
  | .array length elem => .array length (rename new elem)
  | type => type

/-- Fields under new names. -/
def renameFields (new : Renaming) : List (String × Ty) -> List (String × Ty)
  | [] => []
  | (name, type) :: fields => (new.fields name, rename new type) :: renameFields new fields

end

variable (new : Renaming)

@[simp] theorem isComposite_rename (type : Ty) :
    (type.rename new).isComposite = type.isComposite := by
  cases type <;> rfl

@[simp] theorem isKnown_rename (type : Ty) : (type.rename new).isKnown = type.isKnown := by
  cases type <;> rfl

/-- Types stay equal or different. -/
@[simp] theorem equal_rename : forall left right : Ty,
    (left.rename new).equal (right.rename new) = left.equal right
  | .array length elem, right => by
    cases right with
    | array length' elem' => simp only [rename, equal, equal_rename elem elem']
    | _ => rfl
  | .struct name fields, right => by
    cases right with
    | struct name' fields' => simp only [rename, equal, Renaming.names_beq]
    | _ => rfl
  | .unknown, right | .integer, right | .boolean, right | .real, right | .char, right
  | .other _, right => by cases right <;> rfl

mutual

@[simp] theorem size_rename : forall type : Ty, (type.rename new).size = type.size
  | .struct _ fields => by simp only [rename, size, sizeFields_rename fields]
  | .array _ elem => by simp only [rename, size, size_rename elem]
  | .unknown | .integer | .boolean | .real | .char | .other _ => rfl

@[simp] theorem sizeFields_rename : forall fields : List (String × Ty),
    sizeFields (renameFields new fields) = sizeFields fields
  | [] => rfl
  | (_, type) :: fields => by
    simp only [renameFields, sizeFields, size_rename type, sizeFields_rename fields]

end

mutual

@[simp] theorem fitsIn_rename : forall (type : Ty) (limit : Int64),
    (type.rename new).fitsIn limit = type.fitsIn limit
  | .struct _ fields, limit => by simp only [rename, fitsIn, fieldsFitIn_rename fields]
  | .array _ elem, limit => by simp only [rename, fitsIn, fitsIn_rename elem, size_rename]
  | .unknown, _ | .integer, _ | .boolean, _ | .real, _ | .char, _ | .other _, _ => rfl

@[simp] theorem fieldsFitIn_rename : forall (fields : List (String × Ty)) (limit : Int64),
    fieldsFitIn (renameFields new fields) limit = fieldsFitIn fields limit
  | [], _ => rfl
  | (_, type) :: fields, limit => by
    simp only [renameFields, fieldsFitIn, fitsIn_rename type, fieldsFitIn_rename fields,
      size_rename]

end

mutual

@[simp] theorem rename_keep : forall type : Ty, type.rename .keep = type
  | .struct _ fields => congrArg (Ty.struct _) (renameFields_keep fields)
  | .array _ elem => congrArg (Ty.array _) (rename_keep elem)
  | .unknown | .integer | .boolean | .real | .char | .other _ => rfl

theorem renameFields_keep : forall fields : List (String × Ty), renameFields .keep fields = fields
  | [] => rfl
  | (name, type) :: fields => by
    rw [renameFields, rename_keep type, renameFields_keep fields]
    rfl

end

theorem findField_rename (name : String) (fields : List (String × Ty)) :
    findField (new.fields name) (renameFields new fields)
      = (findField name fields).map fun found => (found.1.rename new, found.2) := by
  induction fields with
  | nil => rfl
  | cons field fields ih =>
    simp only [renameFields, findField, Renaming.fields_inj, ih]
    split
    · rfl
    · simp only [Option.map_map, size_rename]
      rfl

/-- A field is found under its new name, at the same offset. -/
theorem field?_rename (name : String) (type : Ty) :
    (type.rename new).field? (new.fields name)
      = (type.field? name).map fun found => (found.1.rename new, found.2) := by
  cases type with
  | struct _ fields => exact findField_rename new name fields
  | _ => rfl

end Ty

/-! ## Trees -/

/-- A note under new names. -/
def Note.rename (new : Renaming) (note : Note) : Note := { note with type := note.type.rename new }

@[simp] theorem Note.span_rename (new : Renaming) (note : Note) :
    (note.rename new).span = note.span := rfl

@[simp] theorem Note.rename_keep (note : Note) : note.rename .keep = note := by
  rw [rename, Ty.rename_keep]

/-- A signature under new names. -/
def Signature.rename (new : Renaming) (signature : Signature) : Signature where
  params := signature.params.map (Ty.rename new)
  result := signature.result.rename new

/-- The function that a call reaches, under new names. -/
def Callee.rename (new : Renaming) (callee : Callee) : Callee :=
  { callee with signature := callee.signature.rename new }

@[simp] theorem Signature.rename_keep (signature : Signature) :
    signature.rename .keep = signature := by
  have types : Ty.rename .keep = id := funext Ty.rename_keep
  simp [rename, types]

@[simp] theorem Callee.rename_keep (callee : Callee) : callee.rename .keep = callee := by
  rw [rename, Signature.rename_keep]

namespace Node

mutual

/-- A tree under new names. -/
def rename (new : Renaming) : Node -> Node
  | .absent => .absent
  | .blank note kind => .blank (note.rename new) kind
  | .number note value => .number (note.rename new) value
  | .real note value => .real (note.rename new) value
  | .bool note value => .bool (note.rename new) value
  | .char note code => .char (note.rename new) code
  | .ident note name => .ident (note.rename new) (new.names name)
  | .member note base field offset =>
    .member (note.rename new) (rename new base) (new.fields field) offset
  | .subscript note array index =>
    .subscript (note.rename new) (rename new array) (rename new index)
  | .unary note operator operand => .unary (note.rename new) operator (rename new operand)
  | .binary note operator left right =>
    .binary (note.rename new) operator (rename new left) (rename new right)
  | .call note name args callee =>
    .call (note.rename new) (new.names name) (renameEach new args)
      (callee.map (Callee.rename new))
  | .varDecl note name type init =>
    .varDecl (note.rename new) (new.names name) (type.rename new) (rename new init)
  | .assign note target value => .assign (note.rename new) (rename new target) (rename new value)
  | .branch note test thenBody elseBody =>
    .branch (note.rename new) (rename new test) (rename new thenBody) (rename new elseBody)
  | .loop note test body => .loop (note.rename new) (rename new test) (rename new body)
  | .ret note value => .ret (note.rename new) (rename new value)
  | .block note stmts => .block (note.rename new) (renameEach new stmts)
  | .structDecl note name fields =>
    .structDecl (note.rename new) (new.names name) (renameFields new fields)
  | .funcDecl note name params result body signature entry =>
    .funcDecl (note.rename new) (new.names name) (renameEach new params) (result.rename new)
      (rename new body) (signature.map (Signature.rename new)) entry

/-- Trees under new names. -/
def renameEach (new : Renaming) : List Node -> List Node
  | [] => []
  | node :: nodes => rename new node :: renameEach new nodes

/-- The fields of a structure under new names.  A declaration names a field here and not a
variable. -/
def renameFields (new : Renaming) : List Node -> List Node
  | [] => []
  | .varDecl note name type init :: nodes =>
    .varDecl (note.rename new) (new.fields name) (type.rename new) (rename new init)
      :: renameFields new nodes
  | node :: nodes => rename new node :: renameFields new nodes

end

variable (new : Renaming)

mutual

/-- Nothing changes when all names are kept. -/
@[simp] theorem rename_keep : forall node : Node, node.rename .keep = node
  | .absent => rfl
  | .blank _ _ | .number _ _ | .real _ _ | .bool _ _ | .char _ _ | .ident _ _ => by simp [rename]
  | .member _ base _ _ => by simp [rename, rename_keep base]
  | .subscript _ array index => by simp [rename, rename_keep array, rename_keep index]
  | .unary _ _ operand => by simp [rename, rename_keep operand]
  | .binary _ _ left right => by simp [rename, rename_keep left, rename_keep right]
  | .call _ _ args callee => by
    have callees : Callee.rename .keep = id := funext Callee.rename_keep
    simp [rename, renameEach_keep args, callees]
  | .varDecl _ _ _ init => by simp [rename, rename_keep init]
  | .assign _ target value => by simp [rename, rename_keep target, rename_keep value]
  | .branch _ test thenBody elseBody => by
    simp [rename, rename_keep test, rename_keep thenBody, rename_keep elseBody]
  | .loop _ test body => by simp [rename, rename_keep test, rename_keep body]
  | .ret _ value => by simp [rename, rename_keep value]
  | .block _ stmts => by simp [rename, renameEach_keep stmts]
  | .structDecl _ _ fields => by simp [rename, renameFields_keep fields]
  | .funcDecl _ _ params _ body _ _ => by
    have signatures : Signature.rename .keep = id := funext Signature.rename_keep
    simp [rename, renameEach_keep params, rename_keep body, signatures]

theorem renameEach_keep : forall nodes : List Node, renameEach .keep nodes = nodes
  | [] => rfl
  | node :: nodes => by rw [renameEach, rename_keep node, renameEach_keep nodes]

theorem renameFields_keep : forall nodes : List Node, renameFields .keep nodes = nodes
  | [] => rfl
  | node :: nodes => by
    have here := rename_keep node
    cases node <;> exact congrArg₂ List.cons here (renameFields_keep nodes)

end

theorem renameEach_eq_map (nodes : List Node) : renameEach new nodes = nodes.map (rename new) := by
  induction nodes with
  | nil => rfl
  | cons node nodes ih => rw [renameEach, ih, List.map_cons]

@[simp] theorem length_renameEach (nodes : List Node) :
    (renameEach new nodes).length = nodes.length := by
  rw [renameEach_eq_map, List.length_map]

@[simp] theorem isEmpty_renameFields (nodes : List Node) :
    (renameFields new nodes).isEmpty = nodes.isEmpty := by
  cases nodes with
  | nil => rfl
  | cons node nodes => cases node <;> rfl

@[simp] theorem isPresent_rename (node : Node) : (node.rename new).isPresent = node.isPresent := by
  cases node <;> rfl

@[simp] theorem note_rename (node : Node) : (node.rename new).note = node.note.rename new := by
  cases node <;> rfl

@[simp] theorem span_rename (node : Node) : (node.rename new).span = node.span := by
  cases node <;> rfl

@[simp] theorem type_rename (node : Node) : (node.rename new).type = node.type.rename new := by
  cases node <;> rfl

theorem withFrameSize_rename (size : Int64) (node : Node) :
    (node.rename new).withFrameSize size = (node.withFrameSize size).rename new := by
  cases node <;> rfl

theorem isAddressable?_rename (node : Node) :
    (node.rename new).isAddressable? = node.isAddressable? := by
  cases node with
  | member _ base => exact isAddressable?_rename base
  | subscript _ array => exact isAddressable?_rename array
  | blank _ kind => cases kind <;> rfl
  | _ => exact rfl

@[simp] theorem isAddressable_rename (node : Node) :
    (node.rename new).isAddressable = node.isAddressable := by
  rw [isAddressable, isAddressable, isAddressable?_rename]

variable (wanted : NodeKind)

mutual

@[simp] theorem holdsKind_rename : forall node : Node,
    (node.rename new).holdsKind wanted = node.holdsKind wanted
  | .absent | .blank _ _ | .number _ _ | .real _ _ | .bool _ _ | .char _ _ | .ident _ _ => rfl
  | .member _ base _ _ => by simp only [rename, holdsKind, holdsKind_rename base]
  | .subscript _ array index => by
    simp only [rename, holdsKind, holdsKind_rename array, holdsKind_rename index]
  | .unary _ _ operand => by simp only [rename, holdsKind, holdsKind_rename operand]
  | .binary _ _ left right => by
    simp only [rename, holdsKind, holdsKind_rename left, holdsKind_rename right]
  | .call _ _ args _ => by simp only [rename, holdsKind, anyHoldsKind_rename args]
  | .varDecl _ _ _ init => by simp only [rename, holdsKind, holdsKind_rename init]
  | .assign _ target value => by
    simp only [rename, holdsKind, holdsKind_rename target, holdsKind_rename value]
  | .branch _ test thenBody elseBody => by
    simp only [rename, holdsKind, holdsKind_rename test, holdsKind_rename thenBody,
      holdsKind_rename elseBody]
  | .loop _ test body => by
    simp only [rename, holdsKind, holdsKind_rename test, holdsKind_rename body]
  | .ret _ value => by simp only [rename, holdsKind, holdsKind_rename value]
  | .block _ stmts => by simp only [rename, holdsKind, anyHoldsKind_rename stmts]
  | .structDecl _ _ fields => by
    simp only [rename, holdsKind, anyHoldsKind_renameFields fields]
  | .funcDecl _ _ params _ body _ _ => by
    simp only [rename, holdsKind, anyHoldsKind_rename params, holdsKind_rename body]

theorem anyHoldsKind_rename : forall nodes : List Node,
    anyHoldsKind wanted (renameEach new nodes) = anyHoldsKind wanted nodes
  | [] => rfl
  | node :: nodes => by
    simp only [renameEach, anyHoldsKind, holdsKind_rename node,
      anyHoldsKind_rename nodes]

theorem anyHoldsKind_renameFields : forall nodes : List Node,
    anyHoldsKind wanted (renameFields new nodes) = anyHoldsKind wanted nodes
  | [] => rfl
  | node :: nodes => by
    have here := holdsKind_rename node
    have rest := anyHoldsKind_renameFields nodes
    -- A field is renamed like a variable, up to its name.
    cases node <;> simp only [renameFields, anyHoldsKind, rest] <;>
      exact congrArg (· || _) here

end

end Node

/-- A program under new names. -/
def Program.rename (new : Renaming) (program : Program) : Program where
  structs := Node.renameEach new program.structs
  functions := Node.renameEach new program.functions
  blocks := Node.renameEach new program.blocks
  phase := program.phase

@[simp] theorem Program.rename_keep (program : Program) : program.rename .keep = program := by
  rw [rename, Node.renameEach_keep, Node.renameEach_keep, Node.renameEach_keep]

end PCode
