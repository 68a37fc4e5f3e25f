import PCode.Node

namespace PCode

/-!
Programs and the phases they pass through.

A program is a list of structures, a list of functions and a list of top-level
blocks, together with a flag for the phase it has reached.  Every phase asks for
its predecessor through that flag.  Phases lie on a line, and the flag may be
set to any point of it, so a phase is a rank and not one of four words.
-/

/-- How far a program has come. -/
structure Phase where
  rank : Int64
deriving DecidableEq, Repr, Inhabited

namespace Phase

def parsed : Phase := ⟨0⟩
def resolved : Phase := ⟨1⟩
def checked : Phase := ⟨2⟩
def generated : Phase := ⟨3⟩

def name (phase : Phase) : String :=
  if phase = parsed then "parsed"
  else if phase = resolved then "resolved"
  else if phase = checked then "checked"
  else if phase = generated then "generated"
  else "unknown"

/-- Whether a phase lies at or behind another one. -/
def reaches (phase required : Phase) : Bool := decide (required.rank <= phase.rank)

end Phase

structure Program where
  structs : List Node
  functions : List Node
  blocks : List Node
  phase : Phase := .parsed
deriving Repr, Inhabited

namespace Program

def isFunction : Node -> Bool
  | .funcDecl .. => true
  | _ => false

/-- Puts a program together.  Every function must be one, and no function of the
tree may lack a parameter; nothing else is asked of the nodes. -/
def ofNodes? (structs functions blocks : List Node) : Option Program :=
  if Node.allParamsPresent structs && Node.allParamsPresent functions
      && Node.allParamsPresent blocks && functions.all isFunction then
    some { structs, functions, blocks }
  else none

/-- The code address of a function's entry, once it is placed. -/
def entry? (program : Program) (function : Nat) : Option Nat :=
  match program.functions[function]? with
  | some (.funcDecl _ _ _ _ _ _ entry) => entry
  | _ => none

end Program

end PCode
