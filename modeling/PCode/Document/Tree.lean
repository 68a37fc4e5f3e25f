import PCode.Binary64.Reading
import PCode.Document.Refusal
import PCode.Program

namespace PCode
namespace Document

/-!
The tree of a document.

An entry is read by its kind, and parts that its kind has no use for are not
looked at.  Positions, integer literals and array lengths are checked against
their ranges, names of declarations must not be empty, and bodies must be
blocks; everything about the meaning of names and types is left to later phases.
-/

/-- What building a part of the tree gives. -/
abbrev Built (Part : Type) := Except DocumentFailure Part

def refuse {Part : Type} (cause : RefusalCause) : Built Part := .error (.because cause)

/-- Passes a part on, naming the place when there is none. -/
def inside {Part : Type} (place : RefusalPlace) : Built Part -> Built Part
  | .ok part => .ok part
  | .error failure => .error (failure.under place)

def isUpTo (limit value : Int64) : Bool := decide (0 <= value) && decide (value <= limit)

def fitsInWord (value : Int64) : Bool :=
  decide (-2147483648 <= value) && decide (value <= 2147483647)

/-- The place of an entry.  Without a position the length is not looked at. -/
def place (file : Int64) (kind : String) (pos : List Int64) (length : Int64) : Built Span :=
  match pos with
  | [] => .ok { file }
  | [line, column] =>
    if !isUpTo 4294967295 line then refuse (.coordinate kind .line line)
    else if !isUpTo 4294967295 column then refuse (.coordinate kind .column column)
    else if !isUpTo 65535 length then refuse (.coordinate kind .length length)
    else .ok { file, line, column, length }
  | _ => refuse (.position kind)

mutual

def typeOfRef : TypeRef -> Built Ty
  | ⟨kind, name, length, elem⟩ =>
    match kind with
    | "Integer" => .ok .integer
    | "Boolean" => .ok .boolean
    | "Real" => .ok .real
    | "Char" => .ok .char
    | "Struct" => if name.isEmpty then refuse .unnamedStructType else .ok (.struct name [])
    | "Array" =>
      if fitsInWord length then (typeOf elem).map (Ty.array length)
      else refuse (.arrayLength length)
    | _ => refuse (.unknownType kind)

def typeOf : Option TypeRef -> Built Ty
  | none => refuse .missingType
  | some type => typeOfRef type

end

/-- Place and type of a declaration. -/
def declared (file : Int64) (kind : String) (pos : List Int64) (length : Int64) (name : String)
    (type : Option TypeRef) : Built (Span × Ty) :=
  (place file kind pos length).bind fun span =>
    if name.isEmpty then refuse (.unnamed span)
    else (inside (.declaration name) (typeOf type)).map fun type => (span, type)

def integerValue : Option Json -> Except JsonProblem Int64
  | none => .error .missing
  | some .null => .ok 0
  | some (.number text) =>
    match Json.int64? text with
    | some value => .ok value
    | none => .error (.mismatch ("number " ++ text) "integer")
  | some value => .error (.mismatch value.sort "integer")

def realValue : Option Json -> Except JsonProblem Binary64
  | none => .error .missing
  | some .null => .ok (Binary64.ofParts false 0 0)
  | some (.number text) =>
    match Binary64.read text with
    | .value value => .ok value
    | _ => .error (.mismatch ("number " ++ text) "real number")
  | some value => .error (.mismatch value.sort "real number")

def boolValue : Option Json -> Except JsonProblem Bool
  | none => .error .missing
  | some .null => .ok false
  | some (.bool value) => .ok value
  | some value => .error (.mismatch value.sort "truth value")

def textValue : Option Json -> Except JsonProblem String
  | none => .error .missing
  | some .null => .ok ""
  | some (.string text) => .ok text
  | some value => .error (.mismatch value.sort "string")

/-- The value of a literal, or the refusal of the document. -/
def literal (sort : LiteralSort) (span : Span) : Except JsonProblem Value -> Built Value
  | .ok value => .ok value
  | .error problem => refuse (.literal sort span problem)

def operator (op : String) (span : Span) : Built Operator :=
  match Operator.ofText? op with
  | some operator => .ok operator
  | none => refuse (.unknownOperator op span)

mutual

def expr (file : Int64) : Entry -> Built Node
  | ⟨kind, ⟨pos, _⟩, length, value, name, field, op, _, operand, left, right, array, index, _, _,
    _, _, _, _, _, ⟨args, _⟩, _, _, _, _⟩ => do
    let span ← place file kind pos length
    let note : Note := { span }
    match kind with
    | "int" =>
      let number ← literal .integer span (integerValue value)
      if fitsInWord number then .ok (.number note number)
      else refuse (.integerRange number span)
    | "real" => (literal .real span (realValue value)).map (.real note)
    | "bool" => (literal .boolean span (boolValue value)).map (.bool note)
    | "char" =>
      let text ← literal .char span (textValue value)
      match text.toList with
      | [char] => .ok (.char note (Int32.ofNat char.toNat))
      | _ => refuse (.characterCount span text)
    | "ident" => .ok (.ident note name)
    | "field" =>
      let base ← someExpr file operand
      .ok (.member note base field 0)
    | "index" =>
      let array ← someExpr file array
      let index ← someExpr file index
      .ok (.subscript note array index)
    | "unary" =>
      let operator ← operator op span
      let operand ← someExpr file operand
      .ok (.unary note operator operand)
    | "binary" =>
      let operator ← operator op span
      let left ← someExpr file left
      let right ← someExpr file right
      .ok (.binary note operator left right)
    | "call" =>
      let args ← exprs file args
      .ok (.call note name args none)
    | _ => refuse (.unknownExpression kind span)

/-- The expression that must stand at a place. -/
def someExpr (file : Int64) : Option Entry -> Built Node
  | none => refuse .missingExpression
  | some entry => expr file entry

def exprs (file : Int64) : List (Option Entry) -> Built (List Node)
  | [] => .ok []
  | entry :: entries => do
    let node ← someExpr file entry
    let nodes ← exprs file entries
    .ok (node :: nodes)

end

/-- The expression that may stand at a place. -/
def anyExpr (file : Int64) : Option Entry -> Built Node
  | none => .ok .absent
  | some entry => expr file entry

mutual

def stmt (file : Int64) : Entry -> Built Node
  | ⟨kind, ⟨pos, _⟩, length, _, name, _, _, type, value, _, _, _, _, init, lhs, rhs, cond, thenPart,
    elsePart, body, _, ⟨stmts, _⟩, _, _, _⟩ => do
    let span ← place file kind pos length
    let note : Note := { span }
    match kind with
    | "block" =>
      let nodes ← stmtList file stmts
      .ok (.block note nodes)
    | "var" =>
      let (_, type) ← declared file kind pos length name type
      let init ← anyExpr file init
      .ok (.varDecl note name type init)
    | "assign" =>
      let target ← someExpr file lhs
      let value ← someExpr file rhs
      .ok (.assign note target value)
    | "if" =>
      let test ← someExpr file cond
      let thenBody ← someStmt file thenPart
      let elseBody ← anyStmt file elsePart
      .ok (.branch note test thenBody elseBody)
    | "while" =>
      let test ← someExpr file cond
      let body ← someStmt file body
      .ok (.loop note test body)
    | "return" =>
      let value ← anyExpr file value
      .ok (.ret note value)
    | _ => refuse (.unknownStatement kind span)

/-- The statement that must stand at a place. -/
def someStmt (file : Int64) : Option Entry -> Built Node
  | none => refuse .missingStatement
  | some entry => stmt file entry

/-- The statement that may stand at a place. -/
def anyStmt (file : Int64) : Option Entry -> Built Node
  | none => .ok .absent
  | some entry => stmt file entry

def stmtList (file : Int64) : List (Option Entry) -> Built (List Node)
  | [] => .ok []
  | entry :: entries => do
    let node ← someStmt file entry
    let nodes ← stmtList file entries
    .ok (node :: nodes)

end

/-- A field or a parameter, which has no initial value. -/
def plainDeclaration (file : Int64) : Option Entry -> Built Node
  | none => .error .hole
  | some entry => do
    let (span, type) ← declared file entry.kind entry.pos.live entry.length entry.name entry.type
    match entry.init with
    | none => .ok (.varDecl { span } entry.name type .absent)
    | some _ => refuse (.initializer entry.name span)

def structDecl (file : Int64) : Option Entry -> Built Node
  | none => .error .hole
  | some entry => do
    if entry.kind != "struct" then refuse (.notStruct entry.kind)
    else
      let span ← place file entry.kind entry.pos.live entry.length
      let fields ← entry.fields.live.mapM (plainDeclaration file)
      .ok (.structDecl { span } entry.name fields)

def funcDecl (file : Int64) : Option Entry -> Built Node
  | none => .error .hole
  | some entry => do
    if entry.kind != "func" then refuse (.notFunction entry.kind)
    else
      let span ← place file entry.kind entry.pos.live entry.length
      let params ← entry.params.live.mapM (plainDeclaration file)
      let result ← inside (.resultType entry.name) (typeOf entry.returns)
      match entry.body with
      | none => refuse (.noBody entry.name)
      | some body =>
        let body ← stmt file body
        if body.kind = .block then
          .ok (.funcDecl { span } entry.name params result body none none)
        else refuse (.bodyKind entry.name body.kind)

def topBlock (file : Int64) (entry : Option Entry) : Built Node := do
  let node ← someStmt file entry
  if node.kind = .block then .ok node else refuse (.topKind node.kind)

/-- The nodes of a list of entries, each built by `build` and numbered from
`start`. -/
def listed (place : Nat -> RefusalPlace) (build : Option Entry -> Built Node) (start : Nat) :
    List (Option Entry) -> Built (List Node)
  | [] => .ok []
  | entry :: entries => do
    let node ← inside (place start) (build entry)
    let nodes ← listed place build (start + 1) entries
    .ok (node :: nodes)

def program (document : Document) (file : Int64) : Built Program := do
  let structs ← listed .structEntry (structDecl file) 0 document.structs.live
  let functions ← listed .functionEntry (funcDecl file) 0 document.functions.live
  let blocks ← listed .blockEntry (topBlock file) 0 document.blocks.live
  .ok { structs, functions, blocks }

end Document

def Program.decode (bytes : List UInt8) (file : Int64) : Except DocumentFailure Program :=
  match Document.read bytes with
  | .error error => .error (.because (.reading error))
  | .ok document => document.program file

end PCode
