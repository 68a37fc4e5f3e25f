import Mathlib.Algebra.Ring.Int.Defs
import PCode.Lowering
import PCode.Proofs.Code

namespace PCode

/-!
Depths of the expression stack along control flow.

What an instruction does to the stack is known in advance: it takes cells and
leaves cells.  A call counts like any other instruction, because it takes its mark
and its arguments and leaves a value.  So there is a depth to expect at every
address, the sum of the effects of all instructions before it.  It is the real
depth if control flow agrees with the order of the code: jumps and returns happen
at depth zero, and jumps lead to addresses where zero is expected.  That is the
condition on single instructions below, and it carries over to sequences of them.
-/

/-! ## Cells taken and left -/

namespace Opcode

/-- Cells taken from the stack, where their number does not depend on an operand. -/
def takes : Opcode -> Int
  | .ind | .inc | .chk | .neg | .not | .fjp => 1
  | .sto | .movs | .ixa | .add | .sub | .mul | .div | .mod | .and | .or => 2
  | .equ | .neq | .les | .leq | .grt | .geq => 2
  | _ => 0

/-- Cells left on the stack in place of those that were taken. -/
def leaves : Opcode -> Int
  | .ldc | .lda | .lod | .ind | .inc | .ixa | .chk | .neg | .not => 1
  | .add | .sub | .mul | .div | .mod | .and | .or => 1
  | .equ | .neq | .les | .leq | .grt | .geq | .cup => 1
  | .mst => markSize
  | _ => 0

/-- Whether an instruction has a target. -/
def jumps : Opcode -> Bool
  | .ujp | .fjp => true
  | _ => false

/-- Whether an instruction ends a function or the program. -/
def ends : Opcode -> Bool
  | .retf | .stp => true
  | _ => false

/-- Whether the instruction behind may come next. -/
def continues : Opcode -> Bool
  | .ujp | .retf | .stp => false
  | _ => true

theorem continues_of_ends {opcode : Opcode} (ends : opcode.ends = true) :
    opcode.continues = false ∧ opcode.jumps = false := by
  cases opcode <;> cases ends <;> exact ⟨rfl, rfl⟩

theorem leaves_nonneg (opcode : Opcode) : 0 <= opcode.leaves := by cases opcode <;> decide

end Opcode

namespace Instruction

/-- Cells taken from the stack.  A call takes the mark and the arguments. -/
def takes (instruction : Instruction) : Int :=
  match instruction.opcode, instruction.operands with
  | .cup, .int count :: _ => Opcode.markSize + count
  | .cup, _ => Opcode.markSize
  | opcode, _ => opcode.takes

/-- The effect of an instruction is what it leaves less what it takes. -/
theorem effect_eq (instruction : Instruction) :
    instruction.effect = instruction.opcode.leaves - instruction.takes := by
  rcases instruction with ⟨opcode, operands⟩
  cases opcode with
  | cup =>
    match operands with
    | .int count :: _ => exact Int.sub_sub 1 Opcode.markSize count
    | .literal _ :: _ => rfl
    | .label _ :: _ => rfl
    | .entry _ _ :: _ => rfl
    | .extent _ :: _ => rfl
    | [] => rfl
  | _ => rfl

end Instruction

namespace Stack

/-! ## Control flow -/

/-- The addresses that may come behind an instruction. -/
inductive Leads (instruction : Instruction) (address : Nat) : Nat -> Prop
  | next : instruction.opcode.continues = true -> Leads instruction address (address + 1)
  | jump {target : Nat} : instruction.opcode.jumps = true ->
    instruction.operands = [.int target] -> Leads instruction address target

/-- Control flow from an entry on: the addresses that it reaches, and the depths
at which it does. -/
inductive Reaches (code : List Instruction) (entry : Nat) : Nat -> Int -> Prop
  | enter : Reaches code entry entry 0
  | step {address next depth instruction} :
    Reaches code entry address depth -> code[address]? = some instruction ->
    Leads instruction address next -> Reaches code entry next (depth + instruction.effect)

/-! ## Expected depths -/

/-- The sum of the effects of instructions. -/
def netEffect (instructions : List Instruction) : Int := (instructions.map Instruction.effect).sum

@[simp] theorem netEffect_nil : netEffect [] = 0 := rfl

@[simp] theorem netEffect_cons (instruction : Instruction) (instructions : List Instruction) :
    netEffect (instruction :: instructions) = instruction.effect + netEffect instructions :=
  rfl

@[simp] theorem netEffect_append (first second : List Instruction) :
    netEffect (first ++ second) = netEffect first + netEffect second := by
  rw [netEffect, List.map_append, List.sum_append]
  rfl

/-- The depth to expect at an address. -/
def depthAt (code : List Instruction) (address : Nat) : Int := netEffect (code.take address)

theorem depthAt_append (before after : List Instruction) (offset : Nat) :
    depthAt (before ++ after) (before.length + offset)
      = netEffect before + depthAt after offset := by
  rw [depthAt, List.take_length_add_append, netEffect_append]
  rfl

variable {offset target : Nat} {instruction : Instruction}

theorem depthAt_append_left (before after : List Instruction) (inside : offset <= before.length) :
    depthAt (before ++ after) offset = depthAt before offset := by
  rw [depthAt, List.take_append_of_le_length inside]
  rfl

theorem depthAt_length (code : List Instruction) : depthAt code code.length = netEffect code := by
  rw [depthAt, List.take_length]

theorem depthAt_succ {code address} (found : code[address]? = some instruction) :
    depthAt code (address + 1) = depthAt code address + instruction.effect := by
  rw [depthAt, List.take_add_one, found, netEffect_append]
  exact congrArg (depthAt code address + ·) (Int.add_zero instruction.effect)

/-- The greatest depth is at least every expected depth, and it is one of them. -/
theorem depthAt_le_peakOf (code : List Instruction) (address : Nat) :
    depthAt code address <= Code.peakOf code := by
  induction code generalizing address with
  | nil =>
    rw [depthAt, List.take_nil]
    exact Int.le_refl 0
  | cons instruction code ih =>
    rw [Code.peakOf]
    cases address with
    | zero => exact Int.le_max_left 0 _
    | succ address =>
      have later := ih address
      have sum : depthAt (instruction :: code) (address + 1)
          = instruction.effect + depthAt code address := rfl
      omega

theorem exists_depthAt_eq_peakOf (code : List Instruction) :
    exists address, address <= code.length ∧ depthAt code address = Code.peakOf code := by
  induction code with
  | nil => exact ⟨0, Nat.le_refl 0, rfl⟩
  | cons instruction code ih =>
    rcases ih with ⟨address, inside, equal⟩
    rw [Code.peakOf]
    rcases Int.le_total 0 (instruction.effect + Code.peakOf code) with rises | falls
    · refine ⟨address + 1, Nat.succ_le_succ inside, ?_⟩
      rw [Int.max_eq_right rises, ← equal]
      rfl
    · refine ⟨0, Nat.zero_le _, ?_⟩
      rw [Int.max_eq_left falls]
      rfl

theorem peakOf_nonneg (code : List Instruction) : 0 <= Code.peakOf code :=
  depthAt_le_peakOf code 0

/-! ## Steady instructions -/

/-- An instruction that may stand at a depth: there are enough cells to take,
control flow turns aside at depth zero only, and jumps lead to addresses that are
fit for it. -/
structure Steady (lands : Nat -> Prop) (depth : Int) (instruction : Instruction) : Prop where
  covered : instruction.takes <= depth
  lands : instruction.opcode.jumps = true ->
    exists target : Nat, instruction.operands = [.int target] ∧ lands target
  jumped : instruction.opcode.jumps = true -> depth + instruction.effect = 0
  ended : instruction.opcode.ends = true -> depth = 0

namespace Steady

variable {lands : Nat -> Prop}

theorem ujp (fit : lands target) : Steady lands 0 ⟨.ujp, [.int target]⟩ where
  covered := Int.le_refl 0
  lands := fun _ => ⟨target, rfl, fit⟩
  jumped := fun _ => rfl
  ended := nofun

theorem fjp (fit : lands target) : Steady lands 1 ⟨.fjp, [.int target]⟩ where
  covered := Int.le_refl 1
  lands := fun _ => ⟨target, rfl, fit⟩
  jumped := fun _ => rfl
  ended := nofun

/-- An instruction behind which control flow goes on or ends. -/
theorem plain {depth} (covered : instruction.takes <= depth)
    (straight : instruction.opcode.jumps = false)
    (ended : instruction.opcode.ends = true -> depth = 0) : Steady lands depth instruction where
  covered
  lands := fun jumps => by rw [straight] at jumps; cases jumps
  jumped := fun jumps => by rw [straight] at jumps; cases jumps
  ended

end Steady

/-- Instructions in order that may stand where they do, from the first depth to the
last one. -/
inductive Runs (lands : Nat -> Prop) : Int -> List Instruction -> Int -> Prop
  | nil {depth} : Runs lands depth [] depth
  | cons {depth last instruction rest} :
    Steady lands depth instruction -> Runs lands (depth + instruction.effect) rest last ->
    Runs lands depth (instruction :: rest) last

namespace Runs

variable {lands : Nat -> Prop} {depth middle last : Int} {first second code : List Instruction}

theorem append (left : Runs lands depth first middle) (right : Runs lands middle second last) :
    Runs lands depth (first ++ second) last := by
  induction left with
  | nil => exact right
  | cons steady _ ih => exact .cons steady (ih right)

theorem last_eq (runs : Runs lands depth code last) : last = depth + netEffect code := by
  induction runs with
  | nil => rw [netEffect_nil, Int.add_zero]
  | cons _ _ ih => rw [ih, netEffect_cons, Int.add_assoc]

/-- Code that comes back to its first depth has no effect in total. -/
theorem netEffect_eq_zero (runs : Runs lands depth code depth) : netEffect code = 0 := by
  have equal := runs.last_eq
  omega

theorem single (steady : Steady lands depth instruction)
    (balanced : last = depth + instruction.effect) : Runs lands depth [instruction] last := by
  subst balanced
  exact .cons steady .nil

theorem steady (runs : Runs lands depth code last) (found : code[offset]? = some instruction) :
    Steady lands (depth + depthAt code offset) instruction := by
  induction runs generalizing offset with
  | nil => cases found
  | @cons depth _ head rest here _ ih =>
    cases offset with
    | zero =>
      cases found
      exact (Int.add_zero depth).symm ▸ here
    | succ offset =>
      have sum : depth + depthAt (head :: rest) (offset + 1)
          = depth + head.effect + depthAt rest offset := (Int.add_assoc _ _ _).symm
      exact sum ▸ ih found

/-- The stack never gets shorter than empty. -/
theorem nonneg (runs : Runs lands depth code last) (start : 0 <= depth) (offset : Nat) :
    0 <= depth + depthAt code offset := by
  induction runs generalizing offset with
  | nil =>
    rw [depthAt, List.take_nil]
    exact (Int.add_zero _).symm ▸ start
  | @cons depth _ head rest here _ ih =>
    cases offset with
    | zero => exact (Int.add_zero _).symm ▸ start
    | succ offset =>
      have covered := here.covered
      have left := head.opcode.leaves_nonneg
      have later := ih (by rw [head.effect_eq]; omega) offset
      have sum : depth + depthAt (head :: rest) (offset + 1)
          = depth + head.effect + depthAt rest offset := (Int.add_assoc _ _ _).symm
      exact sum ▸ later

end Runs

end Stack
end PCode
