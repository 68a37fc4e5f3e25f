import PCode.Lowering.Expressions
import PCode.Proofs.Semantics.Source
import PCode.Proofs.Stack

namespace PCode
namespace Semantics

/-!
The machine on one frame.

The machine has an expression stack and the cells of one frame.  Addresses are numbers
on the stack.  An instruction that cannot be carried out stops the machine where it is:
an access outside the frame, a value that is no number where an address is needed, an
index out of bounds, an operator that fails.

Code is a list of instructions that starts at an address.  The machine stops when it
leaves the code, so reaching the address behind the last instruction is to have run the
code to its end.  Code without jumps can also be run as a list.
-/

/-- The values of a machine, the constants that it reads, and the size of its frame. -/
structure Machine (Value : Type) extends Interpretation Value where
  /-- The value that a constant stands for, by its text. -/
  literal : String -> Value
  size : Int
  literal_bool : forall truth, literal (if truth then "true" else "false") = bool truth
  literal_real : forall number, literal (Lowering.realLiteral number) = real number
  literal_char : forall letter, literal (Text.quotedChar letter) = char letter

/-! ## A machine on numbers and texts -/

/-- A number, or a constant by its text. -/
inductive Word where
  | int (value : Int)
  | text (text : String)
deriving DecidableEq, Repr

namespace Word

def int? : Word -> Option Int
  | .int value => some value
  | .text _ => none

def bool (truth : Bool) : Word := .text (if truth then "true" else "false")

def bool? (word : Word) : Option Bool :=
  if word = bool true then some true else if word = bool false then some false else none

/-- Operators on numbers.  Division by zero fails. -/
def arithmetic (left right : Int) : Operator -> Option Word
  | .plus => some (.int (left + right))
  | .minus => some (.int (left - right))
  | .star => some (.int (left * right))
  | .slash => if right = 0 then none else some (.int (left.tdiv right))
  | .rem => if right = 0 then none else some (.int (left.tmod right))
  | .eq => some (bool (decide (left = right)))
  | .neq => some (bool (decide (left ≠ right)))
  | .lt => some (bool (decide (left < right)))
  | .lte => some (bool (decide (left <= right)))
  | .gt => some (bool (decide (right < left)))
  | .gte => some (bool (decide (right <= left)))
  | _ => none

/-- Operators on truth values. -/
def logic (left right : Bool) : Operator -> Option Word
  | .and => some (bool (left && right))
  | .or => some (bool (left || right))
  | _ => none

def unary (operator : Operator) (operand : Word) : Option Word :=
  match operator with
  | .minus => operand.int?.map fun value => .int (-value)
  | .not => operand.bool?.map fun truth => bool (!truth)
  | _ => none

def binary (operator : Operator) (left right : Word) : Option Word :=
  match left.int?, right.int?, left.bool?, right.bool? with
  | some first, some second, _, _ => arithmetic first second operator
  | _, _, some first, some second => logic first second operator
  | _, _, _, _ => none

end Word

/-- The machine on numbers and texts with a frame of some size. -/
def Machine.onWords (size : Int) : Machine Word where
  int := .int
  int? := Word.int?
  bool := Word.bool
  bool? := Word.bool?
  real number := .text (Lowering.realLiteral number)
  char letter := .text (Text.quotedChar letter)
  unary := Word.unary
  binary := Word.binary
  literal := .text
  size
  int?_int _ := rfl
  bool?_bool truth := by cases truth <;> decide
  literal_bool _ := rfl
  literal_real _ := rfl
  literal_char _ := rfl

/-! ## Memory -/

/-- The expression stack and the cells of the frame. -/
structure Memory (Value : Type) where
  stack : List Value
  cells : Int -> Value

/-- Cells some of which, from `target` on, have new contents. -/
def overwrite {Value : Type} (cells : Int -> Value) (target count : Int)
    (contents : Int -> Value) : Int -> Value := fun cell =>
  if target <= cell ∧ cell < target + count then contents (cell - target) else cells cell

/-! ## Instructions -/

/-- What instructions other than jumps do. -/
inductive Operation (Value : Type) where
  | push (value : Value)
  | load
  | advance (count : Int)
  | index (size : Int)
  | check (low high : Int)
  | store
  | copy (count : Int)
  | unary (operator : Operator)
  | binary (operator : Operator)

/-- What instructions do. -/
inductive Action (Value : Type) where
  | straight (operation : Operation Value)
  | jump (target : Nat)
  | branch (target : Nat)

/-- What an instruction without operands does. -/
def plain? {Value : Type} : Opcode -> Option (Operation Value)
  | .ind => some .load
  | .sto => some .store
  | .neg => some (.unary .minus)
  | .not => some (.unary .not)
  | .add => some (.binary .plus)
  | .sub => some (.binary .minus)
  | .mul => some (.binary .star)
  | .div => some (.binary .slash)
  | .mod => some (.binary .rem)
  | .and => some (.binary .and)
  | .or => some (.binary .or)
  | .equ => some (.binary .eq)
  | .neq => some (.binary .neq)
  | .les => some (.binary .lt)
  | .leq => some (.binary .lte)
  | .grt => some (.binary .gt)
  | .geq => some (.binary .gte)
  | _ => none

namespace Machine

variable {Value : Type} (machine : Machine Value)

/-- What an instruction other than a jump does.  Calls are left out, and `stp` does
nothing more. -/
def operation? (instruction : Instruction) : Option (Operation Value) :=
  match instruction.opcode, instruction.operands with
  | .ldc, [.int value] => some (.push (machine.int value))
  | .ldc, [.literal text] => some (.push (machine.literal text))
  | .lda, [.int 0, .int offset] => some (.push (machine.int offset))
  | .inc, [.int count] => some (.advance count)
  | .ixa, [.int size] => some (.index size)
  | .chk, [.int low, .int high] => some (.check low high)
  | .movs, [.int count] => some (.copy count)
  | opcode, [] => plain? opcode
  | _, _ => none

/-- What an instruction does. -/
def action? (instruction : Instruction) : Option (Action Value) :=
  match instruction.opcode, instruction.operands with
  | .ujp, [.int (.ofNat target)] => some (.jump target)
  | .fjp, [.int (.ofNat target)] => some (.branch target)
  | _, _ => (machine.operation? instruction).map .straight

/-- Whether cells lie in the frame. -/
def Inside (first count : Int) : Prop := 0 <= first ∧ first + count <= machine.size

instance (first count : Int) : Decidable (machine.Inside first count) :=
  inferInstanceAs (Decidable (_ ∧ _))

/-- Carries out an operation. -/
def apply (operation : Operation Value) (memory : Memory Value) : Option (Memory Value) :=
  match operation, memory with
  | .push value, ⟨stack, cells⟩ => some ⟨value :: stack, cells⟩
  | .load, ⟨address :: stack, cells⟩ =>
    (machine.int? address).bind fun address =>
      if machine.Inside address 1 then some ⟨cells address :: stack, cells⟩ else none
  | .advance count, ⟨address :: stack, cells⟩ =>
    (machine.int? address).map fun address => ⟨machine.int (address + count) :: stack, cells⟩
  | .index size, ⟨index :: address :: stack, cells⟩ =>
    (machine.int? index).bind fun index =>
      (machine.int? address).map fun address =>
        ⟨machine.int (address + index * size) :: stack, cells⟩
  | .check low high, ⟨value :: stack, cells⟩ =>
    (machine.int? value).bind fun number =>
      if low <= number ∧ number <= high then some ⟨value :: stack, cells⟩ else none
  | .store, ⟨value :: target :: stack, cells⟩ =>
    (machine.int? target).bind fun target =>
      if machine.Inside target 1 then some ⟨stack, overwrite cells target 1 fun _ => value⟩
      else none
  | .copy count, ⟨source :: target :: stack, cells⟩ =>
    (machine.int? source).bind fun source =>
      (machine.int? target).bind fun target =>
        if machine.Inside source count ∧ machine.Inside target count then
          some ⟨stack, overwrite cells target count fun offset => cells (source + offset)⟩
        else none
  | .unary operator, ⟨operand :: stack, cells⟩ =>
    (machine.unary operator operand).map fun value => ⟨value :: stack, cells⟩
  | .binary operator, ⟨right :: left :: stack, cells⟩ =>
    (machine.binary operator left right).map fun value => ⟨value :: stack, cells⟩
  | _, _ => none

/-! ## Code without jumps -/

/-- Carries out an instruction that is no jump. -/
def effect (instruction : Instruction) (memory : Memory Value) : Option (Memory Value) :=
  (machine.operation? instruction).bind fun operation => machine.apply operation memory

/-- Carries out instructions in order. -/
def run : List Instruction -> Memory Value -> Option (Memory Value)
  | [], memory => some memory
  | instruction :: instructions, memory =>
    (machine.effect instruction memory).bind (run instructions)

theorem run_append (first second : List Instruction) (memory : Memory Value) :
    machine.run (first ++ second) memory
      = (machine.run first memory).bind (machine.run second) := by
  induction first generalizing memory with
  | nil => rfl
  | cons instruction first ih =>
    rw [List.cons_append, run, run, Option.bind_assoc]
    exact congrArg _ (funext ih)

theorem run_emit (opcode : Opcode) (operands : List Operand) (memory : Memory Value) :
    machine.run (Code.emit opcode operands).instructions memory
      = machine.effect ⟨opcode, operands⟩ memory := by
  rw [Code.instructions_emit, run]
  exact Option.bind_fun_some _

/-- Code behind code runs from where that leads. -/
theorem run_code {first second : Code} {memory between}
    (ran : machine.run first.instructions memory = some between) :
    machine.run (first ++ second).instructions memory
      = machine.run second.instructions between := by
  rw [Code.instructions_append, run_append, ran]
  rfl

/-- Code that fails, fails with more code behind it. -/
theorem run_failed {first} (second : Code) {memory}
    (failed : machine.run first.instructions memory = none) :
    machine.run (first ++ second).instructions memory = none := by
  rw [Code.instructions_append, run_append, failed]
  rfl

end Machine

/-! ## Steps -/

/-- Where the machine is, and its memory. -/
structure State (Value : Type) where
  address : Nat
  memory : Memory Value

section Steps

variable {Value : Type} (machine : Machine Value) (start : Nat) (code : List Instruction)

/-- The instruction at an address. -/
def fetch (address : Nat) : Option Instruction :=
  if start <= address then code[address - start]? else none

/-- Takes the branch that the value on top of the stack selects. -/
def branch (target : Nat) (state : State Value) : Option (State Value) :=
  match state.memory with
  | ⟨[], _⟩ => none
  | ⟨value :: stack, cells⟩ =>
    (machine.bool? value).map fun truth =>
      ⟨if truth then state.address + 1 else target, ⟨stack, cells⟩⟩

/-- One step. -/
def step (state : State Value) : Option (State Value) :=
  match (fetch start code state.address).bind machine.action? with
  | some (.straight operation) =>
    (machine.apply operation state.memory).map fun memory => ⟨state.address + 1, memory⟩
  | some (.jump target) => some ⟨target, state.memory⟩
  | some (.branch target) => branch machine target state
  | none => none

/-- A number of steps. -/
inductive Steps : Nat -> State Value -> State Value -> Prop
  | refl {state} : Steps 0 state state
  | next {count state between last} :
    step machine start code state = some between -> Steps count between last ->
    Steps (count + 1) state last

/-- The machine gets from one state to another. -/
def Reaches (state last : State Value) : Prop :=
  exists count, Steps machine start code count state last

variable {machine start code}

variable {state last : State Value} {address : Nat} {memory : Memory Value}

theorem Steps.trans {first second between} (front : Steps machine start code first state between)
    (back : Steps machine start code second between last) :
    Steps machine start code (first + second) state last := by
  induction front with
  | refl =>
    rw [Nat.zero_add]
    exact back
  | next taken _ ih =>
    rw [Nat.add_right_comm]
    exact .next taken (ih back)

variable {count target : Nat} {instruction : Instruction} {piece : List Instruction}

/-- A run to another address takes a first step. -/
theorem Steps.first (run : Steps machine start code count state last)
    (different : state.address ≠ last.address) :
    exists rest between, count = rest + 1 ∧ step machine start code state = some between
      ∧ Steps machine start code rest between last := by
  cases run with
  | refl => exact absurd rfl different
  | next taken back => exact ⟨_, _, rfl, taken, back⟩

/-- Steps are determined: a run to where the machine stops goes through every state that
it gets to. -/
theorem Steps.rest {first whole between} (front : Steps machine start code first state between)
    (run : Steps machine start code whole state last)
    (stopped : step machine start code last = none) :
    exists rest, whole = first + rest ∧ Steps machine start code rest between last := by
  induction front generalizing whole with
  | refl => exact ⟨whole, (Nat.zero_add whole).symm, run⟩
  | next taken _ ih =>
    cases run with
    | refl =>
      rw [stopped] at taken
      cases taken
    | next taken' back =>
      rw [taken] at taken'
      cases taken'
      rcases ih back with ⟨rest, rfl, remains⟩
      exact ⟨rest, by omega, remains⟩

/-! ## Pieces of code -/

variable (start code) in
/-- A piece of the code stands at an address. -/
def Sits (address : Nat) (piece : List Instruction) : Prop :=
  exists before after, code = before ++ piece ++ after ∧ address = start + before.length

namespace Sits

variable {address : Nat} {first second piece : List Instruction} {instruction : Instruction}

theorem whole : Sits start code start code :=
  ⟨[], [], by rw [List.nil_append, List.append_nil], rfl⟩

theorem left (sits : Sits start code address (first ++ second)) :
    Sits start code address first := by
  rcases sits with ⟨before, after, rfl, place⟩
  exact ⟨before, second ++ after, by simp only [List.append_assoc], place⟩

theorem right (sits : Sits start code address (first ++ second)) :
    Sits start code (address + first.length) second := by
  rcases sits with ⟨before, after, rfl, rfl⟩
  refine ⟨before ++ first, after, by simp only [List.append_assoc], ?_⟩
  rw [List.length_append, Nat.add_assoc]

/-- The second of two pieces, at an address that is said in another way. -/
theorem later {place} (sits : Sits start code address (first ++ second))
    (same : place = address + first.length) : Sits start code place second :=
  same ▸ sits.right

theorem stop_le (sits : Sits start code address piece) :
    address + piece.length <= start + code.length := by
  rcases sits with ⟨before, after, rfl, rfl⟩
  simp only [List.length_append]
  omega

theorem fetch_eq (sits : Sits start code address (instruction :: piece)) :
    fetch start code address = some instruction := by
  rcases sits with ⟨before, after, rfl, rfl⟩
  rw [fetch, if_pos (Nat.le_add_right _ _), Nat.add_sub_cancel_left, List.append_assoc,
    List.getElem?_append_right (Nat.le_refl _), Nat.sub_self]
  rfl

theorem tail (sits : Sits start code address (instruction :: piece)) :
    Sits start code (address + 1) piece := by
  have parts : Sits start code address ([instruction] ++ piece) := sits
  exact parts.right

end Sits

/-- The machine stops behind the code. -/
theorem step_end (memory : Memory Value) :
    step machine start code ⟨start + code.length, memory⟩ = none := by
  rw [step, fetch, if_pos (Nat.le_add_right _ _), Nat.add_sub_cancel_left,
    List.getElem?_eq_none (Nat.le_refl _)]
  rfl

/-! ## Straight pieces -/

/-- Instructions none of which is a jump. -/
def Straight (piece : List Instruction) : Prop :=
  forall instruction, instruction ∈ piece -> instruction.opcode.jumps = false

theorem straight_append {first second} (left : Straight first) (right : Straight second) :
    Straight (first ++ second) := by
  intro instruction member
  rcases List.mem_append.mp member with before | behind
  · exact left instruction before
  · exact right instruction behind

theorem action?_straight (straight : instruction.opcode.jumps = false) :
    machine.action? instruction = (machine.operation? instruction).map .straight := by
  unfold Machine.action?
  split
  · rename_i jumps _
    rw [jumps] at straight
    cases straight
  · rename_i jumps _
    rw [jumps] at straight
    cases straight
  · rfl

/-- An instruction that is no jump is carried out, and the next one follows. -/
theorem step_straight (fetched : fetch start code address = some instruction)
    (straight : instruction.opcode.jumps = false) :
    step machine start code ⟨address, memory⟩
      = (machine.effect instruction memory).map fun memory => ⟨address + 1, memory⟩ := by
  rw [step, fetched, Option.bind_some, action?_straight straight, Machine.effect]
  cases machine.operation? instruction with
  | none => rfl
  | some operation => rfl

/-- A straight piece that runs takes the machine behind it. -/
theorem steps_of_run {last} (sits : Sits start code address piece) (straight : Straight piece)
    (ran : machine.run piece memory = some last) :
    Steps machine start code piece.length ⟨address, memory⟩ ⟨address + piece.length, last⟩ := by
  induction piece generalizing address memory with
  | nil =>
    cases ran
    exact .refl
  | cons instruction piece ih =>
    rcases Option.bind_eq_some_iff.mp ran with ⟨between, first, rest⟩
    have taken : step machine start code ⟨address, memory⟩ = some ⟨address + 1, between⟩ := by
      rw [step_straight sits.fetch_eq (straight instruction List.mem_cons_self), first]
      rfl
    have remains := ih sits.tail (List.forall_mem_cons.mp straight).2 rest
    rw [Nat.add_assoc, Nat.add_comm 1] at remains
    exact .next taken remains

/-- A run to the end of the code runs every straight piece that it comes to. -/
theorem run_of_steps {last} (sits : Sits start code address piece) (straight : Straight piece)
    (steps : Steps machine start code count ⟨address, memory⟩ ⟨start + code.length, last⟩) :
    exists between rest, machine.run piece memory = some between ∧ count = piece.length + rest
      ∧ Steps machine start code rest ⟨address + piece.length, between⟩
          ⟨start + code.length, last⟩ := by
  induction piece generalizing address memory count with
  | nil => exact ⟨memory, count, rfl, (Nat.zero_add count).symm, steps⟩
  | cons instruction piece ih =>
    have short := sits.stop_le
    rw [List.length_cons] at short
    rcases steps.first (show address ≠ start + code.length by omega)
        with ⟨later, between, rfl, taken, back⟩
    rw [step_straight sits.fetch_eq (straight instruction List.mem_cons_self)] at taken
    rcases Option.map_eq_some_iff.mp taken with ⟨next, first, rfl⟩
    rcases ih sits.tail (List.forall_mem_cons.mp straight).2 back
        with ⟨between, rest, ran, rfl, remains⟩
    refine ⟨between, rest, ?_, ?_, ?_⟩
    · rw [Machine.run, first]
      exact ran
    · rw [List.length_cons]
      omega
    · rw [List.length_cons, Nat.add_comm piece.length, ← Nat.add_assoc]
      exact remains

/-! ## Jumps -/

theorem step_jump (fetched : fetch start code address = some ⟨.ujp, [.int target]⟩) :
    step machine start code ⟨address, memory⟩ = some ⟨target, memory⟩ := by
  rw [step, fetched]
  rfl

theorem step_branch {value stack} {cells : Int -> Value}
    (fetched : fetch start code address = some ⟨.fjp, [.int target]⟩) :
    step machine start code ⟨address, ⟨value :: stack, cells⟩⟩
      = (machine.bool? value).map fun truth =>
          ⟨if truth then address + 1 else target, ⟨stack, cells⟩⟩ := by
  rw [step, fetched]
  rfl

end Steps

end Semantics
end PCode
