import PCode.Ty

namespace PCode

/-!
Operators of the source language.

Every operator has a number, a spelling and, where it may stand before or
between operands, a signature.  Both signatures take operands of one type.
Numbers outside the table are kept, since a tree may carry them; they have no
signature and are refused where names are bound.
-/

/-- An operator, or the number of none. -/
inductive Operator where
  | plus
  | minus
  | star
  | slash
  | rem
  | and
  | or
  | not
  | eq
  | neq
  | lt
  | lte
  | gt
  | gte
  | other (code : Int64)
deriving DecidableEq, Repr, Inhabited

namespace Operator

def all : List Operator :=
  [.plus, .minus, .star, .slash, .rem, .and, .or, .not, .eq, .neq, .lt, .lte, .gt, .gte]

def code : Operator -> Int64
  | .plus => 1
  | .minus => 2
  | .star => 3
  | .slash => 4
  | .rem => 5
  | .and => 6
  | .or => 7
  | .not => 8
  | .eq => 9
  | .neq => 10
  | .lt => 11
  | .lte => 12
  | .gt => 13
  | .gte => 14
  | .other code => code

def ofCode (code : Int64) : Operator :=
  (all.find? fun operator => operator.code == code).getD (.other code)

/-- The spelling of an operator in source text and in messages. -/
def text : Operator -> String
  | .plus => "+"
  | .minus => "-"
  | .star => "*"
  | .slash => "/"
  | .rem => "%"
  | .and => "and"
  | .or => "or"
  | .not => "not"
  | .eq => "="
  | .neq => "<>"
  | .lt => "<"
  | .lte => "<="
  | .gt => ">"
  | .gte => ">="
  | .other code => s!"op({code})"

def ofText? (text : String) : Option Operator :=
  all.find? fun operator => operator.text == text

/-- The type of every operand and the type of the result. -/
structure Signature where
  operand : Ty
  result : Ty
deriving DecidableEq, Repr, Inhabited

/-- What an operator takes and gives where it stands before its operand. -/
def unary? : Operator -> Option Signature
  | .minus => some ⟨.integer, .integer⟩
  | .not => some ⟨.boolean, .boolean⟩
  | _ => none

/-- What an operator takes and gives where it stands between its operands. -/
def binary? : Operator -> Option Signature
  | .plus | .minus | .star | .slash | .rem => some ⟨.integer, .integer⟩
  | .and | .or => some ⟨.boolean, .boolean⟩
  | .eq | .neq | .lt | .lte | .gt | .gte => some ⟨.integer, .boolean⟩
  | _ => none

end Operator

end PCode
