import PCode.Proofs.Semantics.Memory

namespace PCode
namespace Semantics

/-!
Control flow.

The code of a statement is made of straight pieces and of jumps around them.  What a
straight piece does is stated here as it is needed: a test pushes its value, and a change
of the store is done to the frame as well.  Whatever has code of these shapes is executed
faithfully: a statement that ends takes the machine to the end of its code, and a run to
the end of the code shows that the statement ends.

The second half is by induction on the code, and for a loop by induction on the number of
steps that are left, since every turn takes some.
-/

section Control

variable {Value : Type} (machine : Machine Value) (slots : List Slot)

/-! ## Code of statements -/

/-- Straight code that pushes the value of a test. -/
structure Tests (scope : Scope) (test : Node) (piece : List Instruction) : Prop where
  straight : Straight piece
  run : forall (memory : Memory Value) (store : Store Value), Represents slots memory.cells store ->
    machine.run piece memory
      = (value? machine.toInterpretation scope store test).map
          fun value => ⟨value :: memory.stack, memory.cells⟩

/-- A change of the store and a run that does the same to the frame.  Both fail or none. -/
def Transfers (memory : Memory Value) (after : Option (Store Value))
    (ran : Option (Memory Value)) : Prop :=
  (after = none ∧ ran = none)
    ∨ exists store cells, after = some store ∧ ran = some ⟨memory.stack, cells⟩
      ∧ Represents slots cells store ∧ Untouched slots memory.cells cells

/-- Straight code that changes the frame as the store is changed. -/
structure Writes (change : Store Value -> Option (Store Value)) (piece : List Instruction) :
    Prop where
  straight : Straight piece
  run : forall (memory : Memory Value) (store : Store Value), Represents slots memory.cells store ->
    Transfers slots memory (change store) (machine.run piece memory)

/-- A jump to an address. -/
def jumpTo (opcode : Opcode) (target : Nat) : Instruction := ⟨opcode, [.int target]⟩

/-- A branch without an alternative. -/
def branchPiece (address : Nat) (test body : List Instruction) : List Instruction :=
  test ++ [jumpTo .fjp (address + test.length + 1 + body.length)] ++ body

/-- A branch with an alternative. -/
def branchElsePiece (address : Nat) (test body alternative : List Instruction) :
    List Instruction :=
  test ++ [jumpTo .fjp (address + test.length + 1 + body.length + 1)] ++ body
    ++ [jumpTo .ujp (address + test.length + 1 + body.length + 1 + alternative.length)]
    ++ alternative

/-- A loop. -/
def loopPiece (address : Nat) (test body : List Instruction) : List Instruction :=
  test ++ [jumpTo .fjp (address + test.length + 1 + body.length + 1)] ++ body
    ++ [jumpTo .ujp address]

mutual

/-- The code of a statement at an address. -/
inductive Compiled : Scope -> Node -> Nat -> List Instruction -> Prop
  | block {scope note stmts address piece} :
    CompiledAll scope stmts address piece -> Compiled scope (.block note stmts) address piece
  | declare {scope note name type address} :
    Compiled scope (.varDecl note name type .absent) address []
  | declareInit {scope note name type init address piece} :
    init.isPresent = true ->
    Writes machine slots (fun store =>
      writeFrom? machine.toInterpretation scope store scope.next [] init) piece ->
    Compiled scope (.varDecl note name type init) address piece
  | assign {scope note target value address piece} :
    Writes machine slots (fun store =>
      assign? machine.toInterpretation scope store target value) piece ->
    Compiled scope (.assign note target value) address piece
  | branch {scope note test thenBody address testPiece thenPiece} :
    Tests machine slots scope test testPiece ->
    Compiled scope thenBody (address + testPiece.length + 1) thenPiece ->
    Compiled scope (.branch note test thenBody .absent) address
      (branchPiece address testPiece thenPiece)
  | branchElse {scope note test thenBody elseBody address testPiece thenPiece elsePiece} :
    Tests machine slots scope test testPiece ->
    Compiled scope thenBody (address + testPiece.length + 1) thenPiece ->
    Compiled (scope.behind thenBody) elseBody
      (address + testPiece.length + 1 + thenPiece.length + 1) elsePiece ->
    Compiled scope (.branch note test thenBody elseBody) address
      (branchElsePiece address testPiece thenPiece elsePiece)
  | loop {scope note test body address testPiece bodyPiece} :
    Tests machine slots scope test testPiece ->
    Compiled scope body (address + testPiece.length + 1) bodyPiece ->
    Compiled scope (.loop note test body) address (loopPiece address testPiece bodyPiece)

/-- The code of statements, one behind another. -/
inductive CompiledAll : Scope -> List Node -> Nat -> List Instruction -> Prop
  | nil {scope address} : CompiledAll scope [] address []
  | cons {scope node nodes address first rest} :
    Compiled scope node address first ->
    CompiledAll (scope.behind node) nodes (address + first.length) rest ->
    CompiledAll scope (node :: nodes) address (first ++ rest)

end

variable {machine slots} {start : Nat} {code : List Instruction} {scope : Scope}
  {stack : List Value} {cells : Int -> Value} {store : Store Value} {address target : Nat}

/-! ## Where the parts stand -/

section Parts

variable {test body alternative : List Instruction}

theorem length_branchPiece :
    address + (branchPiece address test body).length = address + test.length + 1 + body.length := by
  simp only [branchPiece, List.length_append, List.length_singleton]
  omega

theorem length_branchElsePiece :
    address + (branchElsePiece address test body alternative).length
      = address + test.length + 1 + body.length + 1 + alternative.length := by
  simp only [branchElsePiece, List.length_append, List.length_singleton]
  omega

theorem length_loopPiece :
    address + (loopPiece address test body).length
      = address + test.length + 1 + body.length + 1 := by
  simp only [loopPiece, List.length_append, List.length_singleton]
  omega

theorem sits_branchPiece (sits : Sits start code address (branchPiece address test body)) :
    Sits start code address
        (test ++ [jumpTo .fjp (address + test.length + 1 + body.length)])
      ∧ Sits start code (address + test.length + 1) body := by
  refine ⟨sits.left, sits.later ?_⟩
  simp only [List.length_append, List.length_singleton]
  omega

theorem sits_branchElsePiece
    (sits : Sits start code address (branchElsePiece address test body alternative)) :
    Sits start code address
        (test ++ [jumpTo .fjp (address + test.length + 1 + body.length + 1)])
      ∧ Sits start code (address + test.length + 1) body
      ∧ fetch start code (address + test.length + 1 + body.length)
          = some (jumpTo .ujp
              (address + test.length + 1 + body.length + 1 + alternative.length))
      ∧ Sits start code (address + test.length + 1 + body.length + 1) alternative := by
  have jump := sits.left.later (show address + test.length + 1 + body.length = _ by
    simp only [List.length_append, List.length_singleton]
    omega)
  refine ⟨sits.left.left.left, sits.left.left.later ?_, jump.fetch_eq, sits.later ?_⟩
  · simp only [List.length_append, List.length_singleton]
    omega
  · simp only [List.length_append, List.length_singleton]
    omega

theorem sits_loopPiece (sits : Sits start code address (loopPiece address test body)) :
    Sits start code address
        (test ++ [jumpTo .fjp (address + test.length + 1 + body.length + 1)])
      ∧ Sits start code (address + test.length + 1) body
      ∧ fetch start code (address + test.length + 1 + body.length)
          = some (jumpTo .ujp address) := by
  have jump := sits.later (show address + test.length + 1 + body.length = _ by
    simp only [List.length_append, List.length_singleton]
    omega)
  refine ⟨sits.left.left, sits.left.later ?_, jump.fetch_eq⟩
  simp only [List.length_append, List.length_singleton]
  omega

end Parts

/-! ## Tests -/

variable {piece : List Instruction} {count : Nat} {last : Memory Value}

/-- A test with an outcome takes the machine to where that outcome leads. -/
theorem Tests.steps {test truth} (tests : Tests machine slots scope test piece)
    (sits : Sits start code address (piece ++ [jumpTo .fjp target]))
    (represents : Represents slots cells store)
    (outcome : test? machine.toInterpretation scope store test = some truth) :
    Steps machine start code (piece.length + 1) ⟨address, ⟨stack, cells⟩⟩
      ⟨if truth then address + piece.length + 1 else target, ⟨stack, cells⟩⟩ := by
  rcases Option.bind_eq_some_iff.mp outcome with ⟨value, valued, isTruth⟩
  have ran := tests.run ⟨stack, cells⟩ store represents
  rw [valued] at ran
  refine (steps_of_run sits.left tests.straight ran).trans (.next ?_ .refl)
  rw [step_branch sits.right.fetch_eq, isTruth]
  rfl

/-- A run to the end of the code gives a test an outcome. -/
theorem Tests.outcome {test} (tests : Tests machine slots scope test piece)
    (sits : Sits start code address (piece ++ [jumpTo .fjp target]))
    (represents : Represents slots cells store)
    (steps : Steps machine start code count ⟨address, ⟨stack, cells⟩⟩ ⟨start + code.length, last⟩) :
    exists truth rest, test? machine.toInterpretation scope store test = some truth ∧ rest < count
      ∧ Steps machine start code rest
          ⟨if truth then address + piece.length + 1 else target, ⟨stack, cells⟩⟩
          ⟨start + code.length, last⟩ := by
  rcases run_of_steps sits.left tests.straight steps with ⟨between, rest, ran, rfl, remains⟩
  rw [tests.run ⟨stack, cells⟩ store represents] at ran
  rcases Option.map_eq_some_iff.mp ran with ⟨value, valued, rfl⟩
  have short := sits.stop_le
  rw [List.length_append, List.length_singleton] at short
  rcases remains.first (show address + piece.length ≠ start + code.length by omega)
      with ⟨later, _, rfl, taken, back⟩
  rw [step_branch sits.right.fetch_eq] at taken
  rcases Option.map_eq_some_iff.mp taken with ⟨truth, isTruth, rfl⟩
  refine ⟨truth, later, ?_, by omega, back⟩
  rw [test?, valued]
  exact isTruth

/-! ## Statements that end -/

variable (machine slots start code) in
/-- The machine gets from one address to another, with the same stack and with the given
store in the frame. -/
def Arrives (stack : List Value) (cells : Int -> Value) (address stop : Nat)
    (after : Store Value) : Prop :=
  exists cells', Reaches machine start code ⟨address, ⟨stack, cells⟩⟩ ⟨stop, ⟨stack, cells'⟩⟩
    ∧ Represents slots cells' after ∧ Untouched slots cells cells'

namespace Arrives

variable {stop : Nat} {after : Store Value}

theorem refl (represents : Represents slots cells store) :
    Arrives machine slots start code stack cells address address store :=
  ⟨cells, ⟨0, .refl⟩, represents, .refl⟩

/-- Steps that leave stack and frame alone may come first. -/
theorem behind {count between}
    (steps : Steps machine start code count ⟨address, ⟨stack, cells⟩⟩ ⟨between, ⟨stack, cells⟩⟩)
    (arrives : Arrives machine slots start code stack cells between stop after) :
    Arrives machine slots start code stack cells address stop after := by
  rcases arrives with ⟨cells', ⟨more, rest⟩, shown, untouched⟩
  exact ⟨cells', ⟨count + more, steps.trans rest⟩, shown, untouched⟩

theorem trans {between middle}
    (first : Arrives machine slots start code stack cells address between middle)
    (second : forall cells', Represents slots cells' middle ->
      Arrives machine slots start code stack cells' between stop after) :
    Arrives machine slots start code stack cells address stop after := by
  rcases first with ⟨cells', ⟨count, steps⟩, shown, untouched⟩
  rcases second cells' shown with ⟨cells'', ⟨more, rest⟩, shownLast, untouchedLast⟩
  exact ⟨cells'', ⟨count + more, steps.trans rest⟩, shownLast, untouched.trans untouchedLast⟩

/-- A jump may come last. -/
theorem jump (arrives : Arrives machine slots start code stack cells address stop after)
    (fetched : fetch start code stop = some (jumpTo .ujp target)) :
    Arrives machine slots start code stack cells address target after := by
  rcases arrives with ⟨cells', ⟨count, steps⟩, shown, untouched⟩
  exact ⟨cells', ⟨count + 1, steps.trans (.next (step_jump fetched) .refl)⟩, shown, untouched⟩

end Arrives

/-- A change of the store takes the machine behind its code. -/
theorem Writes.arrives {change : Store Value -> Option (Store Value)} {after}
    (writes : Writes machine slots change piece) (sits : Sits start code address piece)
    (represents : Represents slots cells store) (changed : change store = some after) :
    Arrives machine slots start code stack cells address (address + piece.length) after := by
  rcases writes.run ⟨stack, cells⟩ store represents with ⟨failed, _⟩ | done
  · rw [failed] at changed
    cases changed
  · rcases done with ⟨result, cells', same, ran, shown, untouched⟩
    rw [same] at changed
    cases changed
    exact ⟨cells', ⟨_, steps_of_run sits writes.straight ran⟩, shown, untouched⟩

mutual

/-- A statement that ends takes the machine behind its code, with the store that it leaves
in the frame. -/
theorem arrives_of_exec {scope node store after} :
    Exec machine.toInterpretation scope node store after ->
    forall {address piece} {cells : Int -> Value},
      Compiled machine slots scope node address piece -> Sits start code address piece ->
      Represents slots cells store ->
      Arrives machine slots start code stack cells address (address + piece.length) after
  | .absent, _, _, _, compiled, _, _ => by cases compiled
  | .block stmts, _, _, _, compiled, sits, represents => by
    cases compiled with
    | block compiledAll => exact arrives_of_execs stmts compiledAll sits represents
  | .declare, _, _, _, compiled, _, represents => by
    cases compiled with
    | declare => exact .refl represents
    | declareInit present _ => cases present
  | .declareInit changed, _, _, _, compiled, sits, represents => by
    cases compiled with
    | declare => cases changed
    | declareInit _ writes => exact writes.arrives sits represents changed
  | .assign changed, _, _, _, compiled, sits, represents => by
    cases compiled with
    | assign writes => exact writes.arrives sits represents changed
  | .thenBranch outcome body, _, _, _, compiled, sits, represents => by
    cases compiled with
    | branch tests compiledThen =>
      rcases sits_branchPiece sits with ⟨sitsTest, sitsThen⟩
      rw [length_branchPiece]
      exact (arrives_of_exec body compiledThen sitsThen represents).behind
        (tests.steps sitsTest represents outcome)
    | branchElse tests compiledThen _ =>
      rcases sits_branchElsePiece sits with ⟨sitsTest, sitsThen, jump, _⟩
      rw [length_branchElsePiece]
      exact ((arrives_of_exec body compiledThen sitsThen represents).jump jump).behind
        (tests.steps sitsTest represents outcome)
  | .elseBranch outcome body, _, _, _, compiled, sits, represents => by
    cases compiled with
    | branch tests _ =>
      rcases sits_branchPiece sits with ⟨sitsTest, _⟩
      rw [length_branchPiece]
      cases body
      exact (Arrives.refl represents).behind (tests.steps sitsTest represents outcome)
    | branchElse tests _ compiledElse =>
      rcases sits_branchElsePiece sits with ⟨sitsTest, _, _, sitsElse⟩
      rw [length_branchElsePiece]
      exact (arrives_of_exec body compiledElse sitsElse represents).behind
        (tests.steps sitsTest represents outcome)
  | .loopEnd outcome, _, _, _, compiled, sits, represents => by
    cases compiled with
    | loop tests _ =>
      rcases sits_loopPiece sits with ⟨sitsTest, _, _⟩
      rw [length_loopPiece]
      exact (Arrives.refl represents).behind (tests.steps sitsTest represents outcome)
  | .loopStep outcome body again, _, _, _, compiled, sits, represents => by
    have looped := compiled
    cases compiled with
    | loop tests compiledBody =>
      rcases sits_loopPiece sits with ⟨sitsTest, sitsBody, jump⟩
      have turn := (arrives_of_exec body compiledBody sitsBody represents).jump jump
      exact (turn.behind (tests.steps sitsTest represents outcome)).trans
        fun _ shown => arrives_of_exec again looped sits shown

theorem arrives_of_execs {scope nodes store after} :
    Execs machine.toInterpretation scope nodes store after ->
    forall {address piece} {cells : Int -> Value},
      CompiledAll machine slots scope nodes address piece -> Sits start code address piece ->
      Represents slots cells store ->
      Arrives machine slots start code stack cells address (address + piece.length) after
  | .nil, _, _, _, compiled, _, represents => by
    cases compiled
    exact .refl represents
  | .cons first rest, _, _, _, compiled, sits, represents => by
    cases compiled with
    | cons compiledFirst compiledRest =>
      rw [List.length_append, ← Nat.add_assoc]
      exact (arrives_of_exec first compiledFirst sits.left represents).trans
        fun _ shown => arrives_of_execs rest compiledRest sits.right shown

end

/-! ## Runs to the end -/

/-- A run to the end of the code makes every change that it comes to. -/
theorem Writes.changed {change : Store Value -> Option (Store Value)}
    (writes : Writes machine slots change piece) (sits : Sits start code address piece)
    (represents : Represents slots cells store)
    (steps : Steps machine start code count ⟨address, ⟨stack, cells⟩⟩ ⟨start + code.length, last⟩) :
    exists after, change store = some after := by
  rcases run_of_steps sits writes.straight steps with ⟨_, _, ran, _, _⟩
  rcases writes.run ⟨stack, cells⟩ store represents with ⟨_, failed⟩ | ⟨after, _, changed, _⟩
  · rw [failed] at ran
    cases ran
  · exact ⟨after, changed⟩

/-- A run to the end of the code goes through every state that the machine arrives at. -/
theorem Arrives.rest {stop after}
    (arrives : Arrives machine slots start code stack cells address stop after)
    (steps : Steps machine start code count ⟨address, ⟨stack, cells⟩⟩ ⟨start + code.length, last⟩) :
    exists cells' rest, Represents slots cells' after ∧ rest <= count
      ∧ Steps machine start code rest ⟨stop, ⟨stack, cells'⟩⟩ ⟨start + code.length, last⟩ := by
  rcases arrives with ⟨cells', ⟨taken, front⟩, shown, _⟩
  rcases front.rest steps (step_end last) with ⟨rest, rfl, remains⟩
  exact ⟨cells', rest, shown, Nat.le_add_left rest taken, remains⟩

mutual

/-- A statement ends if the machine runs from the start of its code to the end of all
code. -/
theorem exec_of_steps {scope node address piece} :
    Compiled machine slots scope node address piece -> Sits start code address piece ->
    forall {count store} {cells : Int -> Value} {last},
      Represents slots cells store ->
      Steps machine start code count ⟨address, ⟨stack, cells⟩⟩ ⟨start + code.length, last⟩ ->
      exists after, Exec machine.toInterpretation scope node store after
  | .block stmts, sits, _, _, _, _, represents, steps => by
    rcases execs_of_steps stmts sits represents steps with ⟨after, execs⟩
    exact ⟨after, .block execs⟩
  | .declare, _, _, store, _, _, _, _ => ⟨store, .declare⟩
  | .declareInit _ writes, sits, _, _, _, _, represents, steps => by
    rcases writes.changed sits represents steps with ⟨after, changed⟩
    exact ⟨after, .declareInit changed⟩
  | .assign writes, sits, _, _, _, _, represents, steps => by
    rcases writes.changed sits represents steps with ⟨after, changed⟩
    exact ⟨after, .assign changed⟩
  | .branch tests compiledThen, sits, _, store, _, _, represents, steps => by
    rcases sits_branchPiece sits with ⟨sitsTest, sitsThen⟩
    rcases tests.outcome sitsTest represents steps with ⟨truth, rest, outcome, _, remains⟩
    cases truth with
    | true =>
      rcases exec_of_steps compiledThen sitsThen represents remains with ⟨after, exec⟩
      exact ⟨after, .thenBranch outcome exec⟩
    | false => exact ⟨store, .elseBranch outcome .absent⟩
  | .branchElse tests compiledThen compiledElse, sits, _, _, _, _, represents, steps => by
    rcases sits_branchElsePiece sits with ⟨sitsTest, sitsThen, _, sitsElse⟩
    rcases tests.outcome sitsTest represents steps with ⟨truth, rest, outcome, _, remains⟩
    cases truth with
    | true =>
      rcases exec_of_steps compiledThen sitsThen represents remains with ⟨after, exec⟩
      exact ⟨after, .thenBranch outcome exec⟩
    | false =>
      rcases exec_of_steps compiledElse sitsElse represents remains with ⟨after, exec⟩
      exact ⟨after, .elseBranch outcome exec⟩
  | .loop tests compiledBody, sits, count, store, cells, _, represents, steps => by
    rcases sits_loopPiece sits with ⟨sitsTest, sitsBody, jump⟩
    -- Every turn of the loop leaves fewer steps to the end.
    induction count using Nat.strongRecOn generalizing store cells with
    | ind count ih =>
      rcases tests.outcome sitsTest represents steps with ⟨truth, rest, outcome, fewer, remains⟩
      cases truth with
      | false => exact ⟨store, .loopEnd outcome⟩
      | true =>
        rcases exec_of_steps compiledBody sitsBody represents remains with ⟨between, body⟩
        rcases ((arrives_of_exec body compiledBody sitsBody represents).jump jump).rest
            remains with ⟨cells', left, shown, most, again⟩
        rcases ih left (by omega) between cells' shown again
            with ⟨after, exec⟩
        exact ⟨after, .loopStep outcome body exec⟩

theorem execs_of_steps {scope nodes address piece} :
    CompiledAll machine slots scope nodes address piece -> Sits start code address piece ->
    forall {count store} {cells : Int -> Value} {last},
      Represents slots cells store ->
      Steps machine start code count ⟨address, ⟨stack, cells⟩⟩ ⟨start + code.length, last⟩ ->
      exists after, Execs machine.toInterpretation scope nodes store after
  | .nil, _, _, store, _, _, _, _ => ⟨store, .nil⟩
  | .cons first rest, sits, _, _, _, _, represents, steps => by
    rcases exec_of_steps first sits.left represents steps with ⟨between, execFirst⟩
    rcases (arrives_of_exec execFirst first sits.left represents).rest steps
        with ⟨cells', left, shown, _, remains⟩
    rcases execs_of_steps rest sits.right shown remains with ⟨after, execRest⟩
    exact ⟨after, .cons execFirst execRest⟩

end

end Control

end Semantics
end PCode
