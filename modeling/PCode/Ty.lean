namespace PCode

/-!
Types of the source language.

A type is a scalar, a structure with named fields, or an array.  Two further
forms exist because a tree need not be finished: a type that is not known yet,
and a tag outside the table of types.  Values occupy machine cells, and cell
counts are machine integers that wrap.  A count is therefore only meaningful
under a limit, and `fitsIn` decides whether a type keeps to one without forming
a product that could wrap.
-/

/-- A type, as it is declared or as it has been found out. -/
inductive Ty where
  /-- Not known, or not given. -/
  | unknown
  | integer
  | boolean
  | real
  | char
  /-- A tag outside the table of types; its values take one cell. -/
  | other (tag : Int64)
  /-- A structure.  Without fields it refers to a declaration by name. -/
  | struct (name : String) (fields : List (String × Ty))
  | array (length : Int64) (elem : Ty)
deriving Repr, Inhabited

namespace Ty

/-- The largest number of cells of one value and of one frame. -/
def maxCells : Int64 := 2147483647

/-- The type that a bare tag stands for.  The tags of structures and arrays
give a structure without name and fields and an array without elements. -/
def ofTag (tag : Int64) : Ty :=
  if tag = 0 then .integer
  else if tag = 1 then .boolean
  else if tag = 2 then .real
  else if tag = 3 then .char
  else if tag = 4 then .struct "" []
  else if tag = 5 then .array 0 .unknown
  else .other tag

def tagName (tag : Int64) : String :=
  if tag = 0 then "Integer"
  else if tag = 1 then "Boolean"
  else if tag = 2 then "Real"
  else if tag = 3 then "Char"
  else if tag = 4 then "Struct"
  else if tag = 5 then "Array"
  else s!"Kind({tag})"

mutual

/-- Whether two types are the same tree. -/
def same : Ty -> Ty -> Bool
  | .unknown, .unknown => true
  | .integer, .integer => true
  | .boolean, .boolean => true
  | .real, .real => true
  | .char, .char => true
  | .other tag, .other tag' => tag == tag'
  | .struct name fields, .struct name' fields' =>
    name == name' && sameFields fields fields'
  | .array length elem, .array length' elem' =>
    length == length' && same elem elem'
  | _, _ => false

/-- Whether two lists of fields have the same names and the same types. -/
def sameFields : List (String × Ty) -> List (String × Ty) -> Bool
  | [], [] => true
  | (name, type) :: fields, (name', type') :: fields' =>
    name == name' && same type type' && sameFields fields fields'
  | _, _ => false

end

mutual

theorem same_iff : forall left right : Ty, same left right = true <-> left = right
  | .unknown, right => by cases right <;> simp [same]
  | .integer, right => by cases right <;> simp [same]
  | .boolean, right => by cases right <;> simp [same]
  | .real, right => by cases right <;> simp [same]
  | .char, right => by cases right <;> simp [same]
  | .other _, right => by cases right <;> simp [same]
  | .struct _ fields, right => by
    cases right <;> simp [same]
    exact fun _ => sameFields_iff fields _
  | .array _ elem, right => by
    cases right <;> simp [same]
    exact fun _ => same_iff elem _

theorem sameFields_iff : forall left right : List (String × Ty),
    sameFields left right = true <-> left = right
  | [], right => by cases right <;> simp [sameFields]
  | (name, type) :: fields, [] => by simp [sameFields]
  | (name, type) :: fields, (name', type') :: fields' => by
    simp only [sameFields, Bool.and_eq_true, List.cons.injEq, Prod.mk.injEq]
    rw [same_iff type type', sameFields_iff fields fields', beq_iff_eq]

end

instance : DecidableEq Ty := fun left right =>
  decidable_of_iff (same left right = true) (same_iff left right)

/-- Types that a program may exchange for each other: structures of one name,
arrays of one length with equal elements, and otherwise the same type. -/
def equal : Ty -> Ty -> Bool
  | .unknown, .unknown => true
  | .integer, .integer => true
  | .boolean, .boolean => true
  | .real, .real => true
  | .char, .char => true
  | .other tag, .other tag' => tag == tag'
  | .struct name _, .struct name' _ => name == name'
  | .array length elem, .array length' elem' =>
    length == length' && equal elem elem'
  | _, _ => false

/-- Structures and arrays are passed and copied by address. -/
def isComposite : Ty -> Bool
  | .struct _ _ => true
  | .array _ _ => true
  | _ => false

def isKnown : Ty -> Bool
  | .unknown => false
  | _ => true

mutual

/-- The number of cells of a value, as a machine integer. -/
def size : Ty -> Int64
  | .unknown => 0
  | .struct _ fields => sizeFields fields
  | .array length elem => length * size elem
  | _ => 1

def sizeFields : List (String × Ty) -> Int64
  | [] => 0
  | (_, type) :: fields => size type + sizeFields fields

end

mutual

/-- Whether a value takes at most `limit` cells.  The limit is divided by the
size of an element instead of multiplying, so that nothing wraps. -/
def fitsIn : Ty -> Int64 -> Bool
  | .unknown, _ => true
  | .struct _ fields, limit => fieldsFitIn fields limit
  | .array length elem, limit =>
    if length < 0 then false
    else if fitsIn elem limit then
      size elem == 0 || decide (length <= limit / size elem)
    else false
  | _, limit => decide (1 <= limit)

/-- Whether fields take at most `limit` cells: each field is held against what
the fields before it have left over. -/
def fieldsFitIn : List (String × Ty) -> Int64 -> Bool
  | [], limit => decide (0 <= limit)
  | (_, type) :: fields, limit =>
    if fitsIn type limit then fieldsFitIn fields (limit - size type) else false

end

/-- The first field of a name, with its type and the cells before it. -/
def findField (name : String) : List (String × Ty) -> Option (Ty × Int64)
  | [] => none
  | (name', type) :: fields =>
    if name' = name then some (type, 0)
    else (findField name fields).map fun (found, offset) =>
      (found, size type + offset)

/-- The field of a structure, with its type and its offset in cells. -/
def field? (name : String) : Ty -> Option (Ty × Int64)
  | .struct _ fields => findField name fields
  | _ => none

/-- A type as messages write it.  Structures show their name only. -/
def text : Ty -> String
  | .unknown => "<unresolved>"
  | .integer => "Integer"
  | .boolean => "Boolean"
  | .real => "Real"
  | .char => "Char"
  | .other tag => s!"Kind({tag})"
  | .struct name _ => "Struct(" ++ name ++ ")"
  | .array length elem => s!"Array[{length}](" ++ text elem ++ ")"

/-- A structure with its fields; every other type as messages write it. -/
def describe : Ty -> String
  | .struct name fields =>
    let shown := fields.map fun (field, type) => " " ++ field ++ ": " ++ type.text
    "struct " ++ name ++ " \x7b" ++ ";".intercalate shown ++ " \x7d"
  | type => type.text

end Ty

end PCode
