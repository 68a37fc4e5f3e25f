import PCode.Proofs.Command.Compile

namespace PCode

/-!
Printed code, listed instructions and written files.

All three go over the items of code in order, up to the first instruction that has an operand
without a text.  What they give is said here by positions: the line of an item depends on the item
and on its address, which is the number of instructions before it.
-/

/-! ## Items -/

/-- Whether an item is an instruction and has an operand without a text. -/
def Item.isUnresolved (bindings : Bindings) : Item -> Bool
  | .comment _ => false
  | .instruction ⟨_, operands⟩ => operands.any fun operand => !(operand.text bindings).toBool

/-- The line of an item, if it is printed. -/
def Item.line? (bindings : Bindings) (style : Style) (address : Nat) : Item -> Option String
  | .comment text => if style.comments then some (Style.commentLine text) else none
  | .instruction printed =>
    (printed.text bindings).toOption.map (style.instructionLine address)

/-- An instruction has a text exactly if all its operands have. -/
theorem Instruction.text_cases (bindings : Bindings) (instruction : Instruction) :
    (exists cause, instruction.text bindings = .error cause
        ∧ (Item.instruction instruction).isUnresolved bindings = true)
      ∨ exists text, instruction.text bindings = .ok text
        ∧ (Item.instruction instruction).isUnresolved bindings = false := by
  rcases instruction with ⟨opcode, operands⟩
  have texts : (operandTexts bindings operands).toBool
      = !(Item.instruction ⟨opcode, operands⟩).isUnresolved bindings := by
    induction operands with
    | nil => rfl
    | cons operand operands ih =>
      rw [operandTexts, Item.isUnresolved, List.any_cons, Bool.not_or, Bool.not_not]
      cases operand.text bindings with
      | error cause => rfl
      | ok text => cases listed : operandTexts bindings operands <;> rw [listed] at ih <;> exact ih
  rw [Instruction.text]
  cases listed : operandTexts bindings operands with
  | error cause =>
    rw [listed] at texts
    exact .inl ⟨cause, rfl, Bool.not_eq_eq_eq_not.mp texts.symm⟩
  | ok text =>
    rw [listed] at texts
    exact .inr ⟨_, rfl, Bool.not_eq_eq_eq_not.mp texts.symm⟩

namespace Code

variable {bindings : Bindings} {style : Style} {address : Nat} {code : Code}

/-- The address of the item at a position. -/
def addressAt (code : Code) (position : Nat) : Nat := Code.size (code.take position)

/-- The position of the first item that is unresolved, or the number of items. -/
def stop (bindings : Bindings) (code : Code) : Nat := code.findIdx (Item.isUnresolved bindings)

/-- The lines of the items before the first unresolved one. -/
def linesFrom (bindings : Bindings) (style : Style) (address : Nat) (code : Code) : List String :=
  (List.range (code.stop bindings)).filterMap fun position =>
    (code[position]?).bind fun item =>
      item.line? bindings style (address + code.addressAt position)

theorem stop_of_resolved {item} (resolved : item.isUnresolved bindings = false) (code : Code) :
    stop bindings (item :: code) = code.stop bindings + 1 := by
  rw [stop, List.findIdx_cons, resolved]
  rfl

theorem stop_of_unresolved {item} (unresolved : item.isUnresolved bindings = true) (code : Code) :
    stop bindings (item :: code) = 0 := by
  rw [stop, List.findIdx_cons, unresolved]
  rfl

theorem addressAt_succ (item : Item) (code : Code) (position : Nat) :
    addressAt (item :: code) (position + 1) = Code.size [item] + code.addressAt position :=
  Code.size_append [item] (code.take position)

/-- A resolved item puts its line in front of the others. -/
theorem linesFrom_cons {item} (resolved : item.isUnresolved bindings = false) :
    linesFrom bindings style address (item :: code)
      = (item.line? bindings style address).toList
        ++ linesFrom bindings style (address + Code.size [item]) code := by
  have first : (((item :: code)[0]?).bind fun found =>
      found.line? bindings style (address + addressAt (item :: code) 0))
        = item.line? bindings style address := rfl
  rw [linesFrom, stop_of_resolved resolved, List.range_succ_eq_map, List.filterMap_cons, first,
    List.filterMap_map]
  simp only [Function.comp_def, Nat.succ_eq_add_one, List.getElem?_cons_succ, addressAt_succ,
    ← Nat.add_assoc]
  cases item.line? bindings style address <;> rfl

/-- Printing gives the lines of the items before the first unresolved one, and it stops there. -/
theorem listingFrom_eq (code : Code) (address : Nat) :
    (listingFrom bindings style address code).lines = linesFrom bindings style address code
      ∧ ((listingFrom bindings style address code).error = none
        <-> code.stop bindings = code.length)
      ∧ forall error, (listingFrom bindings style address code).error = some error ->
        error.isUnresolved = true := by
  induction code generalizing address with
  | nil => exact ⟨rfl, iff_of_true rfl rfl, fun _ stopped => by cases stopped⟩
  | cons item code ih =>
    cases item with
    | comment text =>
      rcases ih address with ⟨lines, complete, stops⟩
      have line : (Item.comment text).line? bindings style address
          = if style.comments then some (Style.commentLine text) else none := rfl
      rw [linesFrom_cons rfl, stop_of_resolved rfl, listingFrom, line, List.length_cons,
        Nat.add_right_cancel_iff]
      split
      · exact ⟨congrArg (Style.commentLine text :: ·) lines, complete, stops⟩
      · exact ⟨lines, complete, stops⟩
    | instruction instruction =>
      rw [listingFrom]
      rcases instruction.text_cases bindings
        with ⟨cause, texted, unresolved⟩ | ⟨text, texted, resolved⟩
      · rw [texted, linesFrom, stop_of_unresolved unresolved]
        refine ⟨rfl, iff_of_false (fun none => by cases none) (fun zero => by cases zero), ?_⟩
        intro error stopped
        cases stopped
        rfl
      · have line : (Item.instruction instruction).line? bindings style address
            = some (style.instructionLine address text) := by
          rw [Item.line?, texted]
          rfl
        rcases ih (address + 1) with ⟨lines, complete, stops⟩
        rw [texted, linesFrom_cons resolved, stop_of_resolved resolved, line, List.length_cons,
          Nat.add_right_cancel_iff]
        exact ⟨congrArg (style.instructionLine address text :: ·) lines, complete, stops⟩

/-- Listing the instructions stops where printing does.  If it does not stop, the text of every
instruction stands at the address of its item. -/
theorem textsFrom_eq (code : Code) (address : Nat) :
    (code.stop bindings ≠ code.length ->
        exists error, textsFrom bindings address code = .error error ∧ error.isUnresolved = true)
      ∧ (code.stop bindings = code.length ->
        exists texts, textsFrom bindings address code = .ok texts ∧ texts.length = code.size
          ∧ forall position instruction, code[position]? = some (.instruction instruction) ->
            exists text, instruction.text bindings = .ok text
              ∧ texts[code.addressAt position]? = some text) := by
  induction code generalizing address with
  | nil =>
    refine ⟨fun stops => absurd rfl stops, fun _ => ⟨[], rfl, rfl, ?_⟩⟩
    intro position instruction found
    cases found
  | cons item code ih =>
    cases item with
    | comment text =>
      rw [stop_of_resolved rfl, List.length_cons, Ne, Nat.add_right_cancel_iff, textsFrom]
      refine ⟨(ih address).1, fun complete => ?_⟩
      rcases (ih address).2 complete with ⟨texts, listed, size, each⟩
      refine ⟨texts, listed, size, fun position instruction found => ?_⟩
      cases position with
      | zero => cases found
      | succ position =>
        have same : addressAt (.comment text :: code) (position + 1) = addressAt code position :=
          (addressAt_succ _ _ _).trans (Nat.zero_add _)
        rw [same]
        exact each position instruction found
    | instruction instruction =>
      rw [textsFrom]
      rcases instruction.text_cases bindings
        with ⟨cause, texted, unresolved⟩ | ⟨text, texted, resolved⟩
      · rw [texted, stop_of_unresolved unresolved]
        exact ⟨fun _ => ⟨_, rfl, rfl⟩, fun zero => by cases zero⟩
      · rw [texted, stop_of_resolved resolved, List.length_cons, Ne, Nat.add_right_cancel_iff]
        dsimp only
        refine ⟨fun stops => ?_, fun complete => ?_⟩
        · rcases (ih (address + 1)).1 stops with ⟨error, listed, unresolved⟩
          rw [listed]
          exact ⟨error, rfl, unresolved⟩
        · rcases (ih (address + 1)).2 complete with ⟨texts, listed, size, each⟩
          rw [listed]
          refine ⟨text :: texts, rfl, congrArg (· + 1) size, fun position other found => ?_⟩
          cases position with
          | zero =>
            cases found
            exact ⟨text, texted, rfl⟩
          | succ position =>
            rcases each position other found with ⟨otherText, otherTexted, there⟩
            have next : addressAt (.instruction instruction :: code) (position + 1)
                = addressAt code position + 1 := (addressAt_succ _ _ _).trans (Nat.add_comm 1 _)
            rw [next]
            exact ⟨otherText, otherTexted, there⟩

end Code

/-! ## Writers and files -/

theorem Listing.lines_limited (listing : Listing) (limit : Nat) (reason : String) :
    (listing.limited limit reason).lines = listing.lines.take limit := by
  rw [limited]
  split
  · rename_i enough
    exact (List.take_of_length_le enough).symm
  · rfl

namespace FileTree

/-- A file that was put at a place and removed again is not there. -/
theorem entry?_remove {tree : FileTree} {path place}
    (located : tree.locate path = .ok (.inside place, false)) (content : ByteArray) :
    FileTree.entry? (tree.remove path) place ≠ some (.file content) := by
  rw [remove, located, FileTree.entry?]
  dsimp only
  split
  · rename_i found
    have here := List.find?_some found
    have kept := (List.mem_filter.mp (List.mem_of_find?_eq_some found)).2
    exact absurd (beq_iff_eq.mp here) (bne_iff_ne.mp kept)
  · split
    · rintro ⟨⟩
    · rintro ⟨⟩

end FileTree

/-- Code that cannot be printed to its end is removed from the file that was created for it. -/
theorem writeTo_of_stopped {tree after path} {listing : Listing} {cause}
    (stopped : listing.error = some cause)
    (written : tree.write path listing.text.toUTF8 = .ok after) :
    listing.writeTo FileTree.host path tree
      = (.error (.listing path cause), after.remove path) := by
  rw [Listing.writeTo, Command.Compile.run_bind (Command.Compile.host_write_of_ok written)]
  dsimp only
  rw [stopped]
  rfl

/-- What becomes of code that is printed, listed and written to a file.  An item is unresolved
exactly if `stop` is not the number of items. -/
structure Deliveries (bindings : Bindings) (style : Style) (code : Code) : Prop where
  /-- The lines of the items before the first unresolved one are printed. -/
  lines : (code.listing bindings style).lines = code.linesFrom bindings style 0
  stops : (code.listing bindings style).error = none <-> code.stop bindings = code.length
  cause : forall error, (code.listing bindings style).error = some error ->
    error.isUnresolved = true
  /-- All instructions are listed, each at the address that is printed with it. -/
  texts : code.stop bindings = code.length ->
    exists texts, code.texts bindings = .ok texts ∧ texts.length = code.size
      ∧ forall position instruction, code[position]? = some (.instruction instruction) ->
        exists text, instruction.text bindings = .ok text
          ∧ texts[code.addressAt position]? = some text
  noTexts : code.stop bindings ≠ code.length ->
    exists error, code.texts bindings = .error error ∧ error.isUnresolved = true
  /-- A writer that gives out has got the first lines. -/
  limited : forall limit reason, ((code.listing bindings style).limited limit reason).lines
    = (code.listing bindings style).lines.take limit
  file : forall tree path, FileTree.Creatable tree path -> code.stop bindings = code.length ->
    exists after, (code.listing bindings style).writeTo FileTree.host path tree = (.ok (), after)
      ∧ FileTree.Wrote tree after path (code.listing bindings style).text.toUTF8
  noFile : forall tree path, FileTree.Creatable tree path -> code.stop bindings ≠ code.length ->
    exists error after place,
      (code.listing bindings style).writeTo FileTree.host path tree
          = (.error (.listing path error), after)
        ∧ error.isUnresolved = true ∧ tree.locate path = .ok (.inside place, false)
        ∧ forall content, after.entry? place ≠ some (.file content)

end PCode
