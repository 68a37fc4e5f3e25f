import PCode.Resolution.Issue

namespace PCode
namespace Resolution

/-!
Declared types and structures.

A declared type names structures; its resolution puts the fields in their place.
Structures are declared in order, and the fields of one may only use those
before it.  No type and no structure may take more than `Ty.maxCells` cells.
-/

/-- The structure whose fields are being resolved: its name, and its position
among the structures, whose names are listed in order. -/
structure Owner where
  name : String
  index : Nat
  order : List String

/-- Why a name stands for no structure. -/
def strangerIssue (owner : Option Owner) (name : String) : ScopeIssue :=
  match owner with
  | none => .undefinedStruct name
  | some owner =>
    if name = owner.name then .containsItself owner.name
    else
      match owner.order.findIdx? (· == name) with
      | some index =>
        if index > owner.index then .usedBeforeDeclaration name owner.name
        else .undefinedStruct name
      | none => .undefinedStruct name

/-- The type that a declared type stands for, with the fields of structures in
place. -/
def resolveType (table : Table) (owner : Option Owner) : Ty -> Except ScopeIssue Ty
  | .unknown => .error .missingType
  | .array length elem =>
    if length <= 0 then .error (.arrayLength length)
    else
      match resolveType table owner elem with
      | .error issue => .error issue
      | .ok elem =>
        let type := Ty.array length elem
        if type.fitsIn Ty.maxCells then .ok type else .error (.typeTooLarge type)
  | .struct name _ =>
    match table.lookup name with
    | some entity =>
      if entity.kind = .struct then .ok entity.type
      else .error (.notStructType name entity.kind)
    | none => .error (strangerIssue owner name)
  | type => .ok type

/-- Fields after their types have been resolved.  The fields proper are those
whose type could be resolved. -/
structure FieldsOutcome where
  nodes : List Node := []
  fields : List (String × Ty) := []
  findings : List Diagnostic := []

/-- Resolves the fields of a structure behind those with the names `seen`. -/
def resolveFields (table : Table) (owner : Owner) (seen : List String) :
    List Node -> FieldsOutcome
  | [] => {}
  | .varDecl note name type init :: nodes =>
    let rest := resolveFields table owner (name :: seen) nodes
    let repeated :=
      if seen.contains name then [(ScopeIssue.duplicateField name owner.name).foundAt note.span]
      else []
    let initial :=
      if init.isPresent then [(ScopeIssue.fieldInitializer name owner.name).foundAt note.span]
      else []
    match resolveType table (some owner) type with
    | .ok resolved =>
      { nodes := .varDecl { note with type := resolved } name type init :: rest.nodes
        fields := (name, resolved) :: rest.fields
        findings := repeated ++ initial ++ rest.findings }
    | .error issue =>
      { nodes := .varDecl note name type init :: rest.nodes
        fields := rest.fields
        findings := repeated ++ initial ++ [issue.foundAt note.span] ++ rest.findings }
  | node :: nodes =>
    let rest := resolveFields table owner seen nodes
    { rest with nodes := node :: rest.nodes }

/-- What came of resolving a part of the program: the part with its notes,
whether it is in order, what was found, and the table behind it. -/
structure Outcome (Part : Type) where
  part : Part
  ok : Bool
  findings : List Diagnostic
  table : Table

/-- Declares a structure once its fields are in order. -/
def declareStruct (table : Table) (note : Note) (name : String) (outcome : FieldsOutcome) :
    Outcome Node :=
  let node := Node.structDecl note name outcome.nodes
  let failure (findings : List Diagnostic) : Outcome Node :=
    { part := node, ok := false, findings := outcome.findings ++ findings, table }
  let missing :=
    if outcome.nodes.isEmpty then [(ScopeIssue.noFields name).foundAt note.span] else []
  if !(outcome.findings ++ missing).isEmpty then failure missing
  else
    let type := Ty.struct name outcome.fields
    if !type.fitsIn Ty.maxCells then failure [(ScopeIssue.structTooLarge name).foundAt note.span]
    else
      match table.insert name { kind := .struct, type, site := some { span := note.span } } with
      | .ok (.added _ table) => { part := node.withType type, ok := true, findings := [], table }
      | _ => failure [(ScopeIssue.structRedefined name).foundAt note.span]

def resolveStruct (table : Table) (order : List String) (index : Nat) (node : Node) :
    Outcome Node :=
  match node with
  | .structDecl note name fields =>
    declareStruct table note name (resolveFields table { name, index, order } [] fields)
  | _ => { part := node, ok := true, findings := [], table }

/-- Resolves structures in order, the first of them at position `index`. -/
def resolveStructs (table : Table) (order : List String) (index : Nat) :
    List Node -> Outcome (List Node)
  | [] => { part := [], ok := true, findings := [], table }
  | node :: nodes =>
    let first := resolveStruct table order index node
    let rest := resolveStructs first.table order (index + 1) nodes
    { part := first.part :: rest.part
      ok := first.ok && rest.ok
      findings := first.findings ++ rest.findings
      table := rest.table }

end Resolution
end PCode
