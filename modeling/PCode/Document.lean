import PCode.Json.Value

namespace PCode

/-!
Program documents.

A document is the written form of a program: three lists of entries.  One record
serves for every entry, whatever it stands for, so an entry may carry parts that
its kind has no use for.  What an entry means is decided when the tree is built
from it.
-/

/-- A list that is being filled.  Of what was written before, the cells behind
its present end are kept: when the list grows again, they are filled anew and
not started afresh. -/
structure Slots (Cell : Type) where
  live : List Cell := []
  spare : List Cell := []
deriving Repr, Inhabited

/-- A type as a document writes it. -/
structure TypeRef where
  kind : String := ""
  name : String := ""
  length : Int64 := 0
  elem : Option TypeRef := none
deriving Repr, Inhabited

structure Entry where
  kind : String := ""
  /-- Line and column, or nothing. -/
  pos : Slots Int64 := {}
  length : Int64 := 0
  /-- The value of a literal, as written. -/
  value : Option Json := none
  name : String := ""
  field : String := ""
  op : String := ""
  type : Option TypeRef := none
  expr : Option Entry := none
  left : Option Entry := none
  right : Option Entry := none
  array : Option Entry := none
  index : Option Entry := none
  init : Option Entry := none
  lhs : Option Entry := none
  rhs : Option Entry := none
  cond : Option Entry := none
  thenPart : Option Entry := none
  elsePart : Option Entry := none
  body : Option Entry := none
  args : Slots (Option Entry) := {}
  stmts : Slots (Option Entry) := {}
  fields : Slots (Option Entry) := {}
  params : Slots (Option Entry) := {}
  returns : Option TypeRef := none
deriving Repr, Inhabited

/-- The written form of a program. -/
structure Document where
  structs : Slots (Option Entry) := {}
  functions : Slots (Option Entry) := {}
  blocks : Slots (Option Entry) := {}
deriving Repr, Inhabited

namespace TypeRef

def keys : List String := ["kind", "name", "len", "elem"]

end TypeRef

namespace Entry

def keys : List String :=
  ["kind", "pos", "len", "value", "name", "field", "op", "type", "expr", "left", "right", "array",
   "index", "init", "lhs", "rhs", "cond", "then", "else", "body", "args", "stmts", "fields",
   "params", "returns"]

end Entry

namespace Document

def keys : List String := ["structs", "functions", "blocks"]

end Document

end PCode
