import PCode.Lowering.Expressions
import PCode.Stream

namespace PCode

/-!
Lowering: the code of a checked program.

The code of a statement depends on where it starts, because its jumps name
addresses.  Every jump leads to the start or the end of the code of a statement,
and the lengths of the parts tell where that is.  The code starts with a
prologue that jumps over the functions to the main code; the functions follow in
order, and the blocks of the main program come last.  The entry of a function is
noted in the tree when its code is begun.

Every frame announces how deep the expression stack gets in it: the greatest sum
of stack effects over the beginnings of its code.
-/

namespace Code

/-- The greatest depth that instructions reach, above the depth they start at. -/
def peakOf : List Instruction -> Int
  | [] => 0
  | instruction :: instructions => max 0 (instruction.effect + peakOf instructions)

/-- The greatest depth that code reaches. -/
def peak (code : Code) : Int := peakOf code.instructions

end Code

namespace Lowering

/-- Code that stores into the place whose address `target` pushes.  Composite
values are copied from their own place. -/
def lowerStore (config : Config) (target : Lowered Code) (type : Ty) (value : Node) :
    Lowered Code := do
  let target ← target
  if type.isComposite then
    let source ← lowerExpr config .address value
    .ok (target ++ source ++ Code.emit .movs [.int type.size.toInt])
  else
    let value ← lowerExpr config .value value
    .ok (target ++ value ++ Code.emit .sto [])

/-- Code of a return: the value goes into the first cell of the frame. -/
def lowerReturn (config : Config) (inFunction : Bool) (span : Span) (value : Node) :
    Lowered Code :=
  if inFunction && value.isPresent then do
    let value ← lowerExpr config .value value
    .ok (Code.emit .lda [.int 0, .int 0] ++ value ++ Code.emit .sto [] ++ Code.emit .retf [])
  else .fail span .strayReturn

def branchCode (start : Nat) (test thenBody : Code) (elseBody : Option Code) : Code :=
  let thenEnd := start + test.size + 1 + thenBody.size
  match elseBody with
  | none => test ++ Code.emit .fjp [.int thenEnd] ++ thenBody
  | some elseBody =>
    test ++ Code.emit .fjp [.int (thenEnd + 1)] ++ thenBody
      ++ Code.emit .ujp [.int (thenEnd + 1 + elseBody.size)] ++ elseBody

def loopCode (start : Nat) (test body : Code) : Code :=
  test ++ Code.emit .fjp [.int (start + test.size + 1 + body.size + 1)] ++ body
    ++ Code.emit .ujp [.int start]

mutual

def lowerStmt (config : Config) (inFunction : Bool) (start : Nat) (node : Node) : Lowered Code :=
  match node with
  | .absent => .ok []
  | .block _ stmts => lowerStmts config inFunction start stmts
  | .varDecl note _ _ init =>
    if init.isPresent then
      lowerStore config
        (.ok (Code.emit .lda [.int note.address.level, .int note.address.offset.toInt]))
        note.type init
    else .ok []
  | .assign _ target value =>
    if target.isPresent then
      lowerStore config (lowerExpr config .address target) target.type value
    else .hole
  | .branch _ test thenBody elseBody => do
    let test ← lowerExpr config .value test
    let thenBody ← lowerStmt config inFunction (start + test.size + 1) thenBody
    if elseBody.isPresent then
      let elseStart := start + test.size + 1 + thenBody.size + 1
      let elseBody ← lowerStmt config inFunction elseStart elseBody
      .ok (branchCode start test thenBody (some elseBody))
    else .ok (branchCode start test thenBody none)
  | .loop _ test body => do
    let test ← lowerExpr config .value test
    let body ← lowerStmt config inFunction (start + test.size + 1) body
    .ok (loopCode start test body)
  | .ret note value => lowerReturn config inFunction note.span value
  | _ => .fail node.span (.notStatement node.kind)

def lowerStmts (config : Config) (inFunction : Bool) (start : Nat) (nodes : List Node) :
    Lowered Code :=
  match nodes with
  | [] => .ok []
  | node :: nodes => do
    let first ← lowerStmt config inFunction start node
    let rest ← lowerStmts config inFunction (start + first.size) nodes
    .ok (first ++ rest)

end

/-- Code that sets up a frame: its size and, if asked for, its stack extent. -/
def frameCode (config : Config) (size : Int64) (extent : Int) : Code :=
  Code.emit .ssp [.int size.toInt]
    ++ (if config.features .stackExtent then Code.emit .sep [.int extent] else [])

def frameCodeSize (config : Config) : Nat := if config.features .stackExtent then 2 else 1

def lowerFunction (config : Config) (start : Nat) (name : String) (frameSize : Int64)
    (body : Node) : Lowered Code := do
  let body ← lowerStmt config true (start + frameCodeSize config) body
  let body := body ++ Code.emit .retf []
  .ok ([.comment ("function " ++ name)] ++ frameCode config frameSize body.peak ++ body
    ++ [.comment ("end function " ++ name)])

/-- Lowers functions in order, the first of them at `start`, and notes their
entries.  When one of them fails, the entries noted so far stay. -/
def lowerFunctions (config : Config) (start : Nat) : List Node -> List Node × Lowered Code
  | [] => ([], .ok [])
  | .funcDecl note name params result body signature entry :: nodes =>
    match Stream.place entry start with
    | .error _ =>
      (.funcDecl note name params result body signature entry :: nodes,
        .error (.interrupted .placedTwice))
    | .ok entry =>
      let placed := Node.funcDecl note name params result body signature (some entry)
      match lowerFunction config start name note.frameSize body with
      | .error stop => (placed :: nodes, .error stop)
      | .ok code =>
        let (functions, rest) := lowerFunctions config (start + code.size) nodes
        (placed :: functions, rest.map fun rest => code ++ rest)
  | node :: nodes => (node :: nodes, .hole)

/-- The code of the blocks of the main program, the first of them at `start`
and numbered `number`. -/
def lowerBlocks (config : Config) (start number : Nat) : List Node -> Lowered Code
  | [] => .ok []
  | node :: nodes => do
    let first ← lowerStmt config false start node
    let rest ← lowerBlocks config (start + first.size) (number + 1) nodes
    .ok ([.comment s!"block {number}"] ++ first ++ rest)

/-- The size of the main frame: as large as the largest block asks for. -/
def mainFrameSize (blocks : List Node) : Int64 :=
  blocks.foldl (fun size node => max size node.note.frameSize) 0

/-- The prologue: it sets up the main frame and jumps to the main code. -/
def prologue (config : Config) (blocks : List Node) (extent : Int) (main : Nat) : Code :=
  [.comment "program"] ++ frameCode config (mainFrameSize blocks) extent
    ++ Code.emit .ujp [.int main]

def prologueSize (config : Config) : Nat := frameCodeSize config + 1

end Lowering

/-- The code of a program, and the entries of its functions. -/
structure Generated where
  code : Code
  entries : List (Option Nat)
deriving Repr, Inhabited

/-- What references in generated code stand for. -/
def Generated.bindings (generated : Generated) : Bindings :=
  { tails := generated.entries.map fun entry => entry.map Int64.ofNat }

namespace Program

def entries (program : Program) : List (Option Nat) :=
  (List.range program.functions.length).map program.entry?

def lower (program : Program) (config : Config) : Program × Lowered Generated :=
  if program.blocks.all Node.isPresent then
    let start := Lowering.prologueSize config
    let (functions, functionCode) := Lowering.lowerFunctions config start program.functions
    let placed := { program with functions := functions }
    let generated : Lowered Generated := do
      let functionCode ← functionCode
      let main := start + functionCode.size
      let blocks ← Lowering.lowerBlocks config main 1 program.blocks
      let mainCode := blocks ++ Code.emit .stp []
      let prologue := Lowering.prologue config program.blocks mainCode.peak main
      .ok { code := prologue ++ functionCode ++ mainCode, entries := placed.entries }
    (placed, generated)
  else (program, .hole)

/-- Generates the code of a program.  A program that has not passed its check is
refused; one that is lowered moves to the generated phase. -/
def generate (program : Program) (config : Config) :
    Program × Except Interruption (Except GenerationError Generated) :=
  if program.phase.reaches .checked then
    match program.lower config with
    | (program, .ok generated) => ({ program with phase := .generated }, .ok (.ok generated))
    | (program, .error (.failed error)) => (program, .ok (.error error))
    | (program, .error (.interrupted interruption)) => (program, .error interruption)
  else (program, .ok (.error (.notChecked program.phase)))

end Program

end PCode
