import PCode.Diagnostic
import PCode.Program

namespace PCode

/-!
What phases hand back.

A phase that only looks at a program gives a judgement: whether the program is
in order, and what was found.  A tree built by hand may lack parts that a phase
has to look at; the phase is then interrupted and gives no judgement.
-/

/-- Why a phase stops without a result. -/
inductive Interruption where
  /-- The tree lacks something that the phase cannot do without. -/
  | hole
  /-- A function that has its place is placed at another address. -/
  | placedTwice
deriving DecidableEq, Repr, Inhabited

/-- What a phase says about a program. -/
structure Judgement where
  ok : Bool
  diagnostics : List Diagnostic
deriving Repr, Inhabited

end PCode
