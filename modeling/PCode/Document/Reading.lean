import PCode.Document
import PCode.Json.Reader

namespace PCode

/-!
Documents from JSON.

The members of an object are stored one after another, in the order in which
they are written.  A key that comes again overwrites a text or a number, and is
stored on top of what an entry or a list already holds; `null` leaves a text or
a number as it is and clears everything else.  Keys are matched without regard
to case, and a key that is not known is refused before its value is looked at.
The first thing that does not fit, in the order of the text, is what is
reported.
-/

/-- Why a value could not be read from JSON. -/
inductive JsonProblem where
  | syntaxError (error : Json.SyntaxError)
  /-- A literal has no value. -/
  | missing
  /-- A value of one sort stands where another is wanted. -/
  | mismatch (found wanted : String)
deriving DecidableEq, Repr, Inhabited

def JsonProblem.message : JsonProblem -> String
  | .syntaxError error => error.leadingMessage
  | .missing => Json.SyntaxError.empty.message
  | .mismatch found wanted => s!"cannot use {found} as {wanted}"

inductive ReadingError where
  | value (problem : JsonProblem)
  | unknownKey (key : String)
deriving DecidableEq, Repr, Inhabited

namespace Document

def misfit (found : Json) (wanted : String) : ReadingError := .value (.mismatch found.sort wanted)

def storeText (old : String) : Json -> Except ReadingError String
  | .null => .ok old
  | .string text => .ok text
  | value => .error (misfit value "string")

def storeInt (old : Int64) : Json -> Except ReadingError Int64
  | .null => .ok old
  | .number text =>
    match Json.int64? text with
    | some number => .ok number
    | none => .error (.value (.mismatch ("number " ++ text) "integer"))
  | value => .error (misfit value "integer")

/-- Stores integers into the cells of a list, new cells starting at zero. -/
def storeInts (cells : List Int64) : List Json -> Except ReadingError (List Int64)
  | [] => .ok []
  | value :: values =>
    match storeInt (cells.headD 0) value with
    | .error error => .error error
    | .ok number => (storeInts cells.tail values).map fun numbers => number :: numbers

/-- The slots after a list of `values` has been stored into the first of `old`.
An empty list gives up all cells. -/
def refill {Cell : Type} (old : Slots Cell) (values : List Cell) : Slots Cell :=
  if values.isEmpty then {}
  else { live := values, spare := (old.live ++ old.spare).drop values.length }

def storePosition (old : Slots Int64) : Json -> Except ReadingError (Slots Int64)
  | .null => .ok {}
  | .array values => (storeInts (old.live ++ old.spare) values).map (refill old)
  | value => .error (misfit value "array")

mutual

/-- Stores members of an object into a type. -/
def storeTypeMembers (old : TypeRef) : List (String × Json) -> Except ReadingError TypeRef
  | [] => .ok old
  | (key, value) :: members =>
    let stored : Except ReadingError TypeRef :=
      match Json.matchKey? TypeRef.keys key with
      | some "kind" => (storeText old.kind value).map fun text => { old with kind := text }
      | some "name" => (storeText old.name value).map fun text => { old with name := text }
      | some "len" => (storeInt old.length value).map fun number => { old with length := number }
      | some "elem" => (storeType old.elem value).map fun type => { old with elem := type }
      | _ => .error (.unknownKey key)
    match stored with
    | .error error => .error error
    | .ok new => storeTypeMembers new members

def storeType (old : Option TypeRef) : Json -> Except ReadingError (Option TypeRef)
  | .null => .ok none
  | .object members => (storeTypeMembers (old.getD {}) members).map some
  | value => .error (misfit value "object")

end

mutual

/-- Stores members of an object into an entry. -/
def storeMembers (old : Entry) : List (String × Json) -> Except ReadingError Entry
  | [] => .ok old
  | (key, value) :: members =>
    let part (select : Entry -> Option Entry) (update : Option Entry -> Entry) :
        Except ReadingError Entry :=
      (storeEntry (select old) value).map update
    let parts (select : Entry -> Slots (Option Entry))
        (update : Slots (Option Entry) -> Entry) : Except ReadingError Entry :=
      (storeEntries (select old) value).map update
    let stored : Except ReadingError Entry :=
      match Json.matchKey? Entry.keys key with
      | some "kind" => (storeText old.kind value).map fun text => { old with kind := text }
      | some "pos" => (storePosition old.pos value).map fun pos => { old with pos := pos }
      | some "len" => (storeInt old.length value).map fun number => { old with length := number }
      | some "value" => .ok { old with value := some value }
      | some "name" => (storeText old.name value).map fun text => { old with name := text }
      | some "field" => (storeText old.field value).map fun text => { old with field := text }
      | some "op" => (storeText old.op value).map fun text => { old with op := text }
      | some "type" => (storeType old.type value).map fun type => { old with type := type }
      | some "expr" => part Entry.expr fun entry => { old with expr := entry }
      | some "left" => part Entry.left fun entry => { old with left := entry }
      | some "right" => part Entry.right fun entry => { old with right := entry }
      | some "array" => part Entry.array fun entry => { old with array := entry }
      | some "index" => part Entry.index fun entry => { old with index := entry }
      | some "init" => part Entry.init fun entry => { old with init := entry }
      | some "lhs" => part Entry.lhs fun entry => { old with lhs := entry }
      | some "rhs" => part Entry.rhs fun entry => { old with rhs := entry }
      | some "cond" => part Entry.cond fun entry => { old with cond := entry }
      | some "then" => part Entry.thenPart fun entry => { old with thenPart := entry }
      | some "else" => part Entry.elsePart fun entry => { old with elsePart := entry }
      | some "body" => part Entry.body fun entry => { old with body := entry }
      | some "args" => parts Entry.args fun entries => { old with args := entries }
      | some "stmts" => parts Entry.stmts fun entries => { old with stmts := entries }
      | some "fields" => parts Entry.fields fun entries => { old with fields := entries }
      | some "params" => parts Entry.params fun entries => { old with params := entries }
      | some "returns" => (storeType old.returns value).map fun type => { old with returns := type }
      | _ => .error (.unknownKey key)
    match stored with
    | .error error => .error error
    | .ok new => storeMembers new members

def storeEntry (old : Option Entry) : Json -> Except ReadingError (Option Entry)
  | .null => .ok none
  | .object members => (storeMembers (old.getD {}) members).map some
  | value => .error (misfit value "object")

def storeEntries (old : Slots (Option Entry)) : Json -> Except ReadingError (Slots (Option Entry))
  | .null => .ok {}
  | .array values => (storeElements (old.live ++ old.spare) values).map (refill old)
  | value => .error (misfit value "array")

/-- Stores entries into the cells of a list, new cells starting empty. -/
def storeElements (cells : List (Option Entry)) :
    List Json -> Except ReadingError (List (Option Entry))
  | [] => .ok []
  | value :: values =>
    match storeEntry (cells.headD none) value with
    | .error error => .error error
    | .ok entry => (storeElements cells.tail values).map fun entries => entry :: entries

end

/-- Stores members of an object into a document. -/
def store (old : Document) : List (String × Json) -> Except ReadingError Document
  | [] => .ok old
  | (key, value) :: members =>
    let stored : Except ReadingError Document :=
      match Json.matchKey? keys key with
      | some "structs" =>
        (storeEntries old.structs value).map fun entries => { old with structs := entries }
      | some "functions" =>
        (storeEntries old.functions value).map fun entries => { old with functions := entries }
      | some "blocks" =>
        (storeEntries old.blocks value).map fun entries => { old with blocks := entries }
      | _ => .error (.unknownKey key)
    match stored with
    | .error error => .error error
    | .ok new => store new members

def ofJson : Json -> Except ReadingError Document
  | .null => .ok {}
  | .object members => store {} members
  | value => .error (misfit value "object")

def read (bytes : List UInt8) : Except ReadingError Document :=
  match Json.readLeading bytes with
  | .error error => .error (.value (.syntaxError error))
  | .ok value => ofJson value

end Document

end PCode
