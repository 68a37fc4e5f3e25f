import PCode.Proofs.Compilation
import PCode.Proofs.Invariance
import PCode.Proofs.Listing
import PCode.Proofs.Lowering.Integrity

namespace PCode
namespace Lowering

/-!
Comments in printed code.

An instruction of a program's code is printed on one line, whatever its constants are.  A comment
holds the name of a function as it was written.  Hence code can be cleared of its comments line by
line exactly if no name of a function breaks its line in front of anything but a brace.
-/

/-! ## Constants on one line -/

theorem isDigit_of_mem_replicate {count char} (member : char ∈ List.replicate count '0') :
    char.isDigit = true := by
  rw [List.eq_of_mem_replicate member]
  decide

theorem oneLine_positional (decimal : Binary64.Decimal) : OneLine decimal.positional := by
  have digits {char : Char} (member : char ∈ Nat.toDigits 10 decimal.digits) :
      char.isDigit = true :=
    Nat.isDigit_of_mem_toDigits (by decide) (by decide) member
  apply OneLine.numeral
  intro char member
  rw [Binary64.Decimal.positional] at member
  split at member
  · rw [String.toList_ofList, List.mem_append] at member
    rcases member with isDigit | isZero
    · exact .inl (digits isDigit)
    · exact .inl (isDigit_of_mem_replicate isZero)
  · -- Both sides of the point are parts of the padded digits.
    have padded {char : Char} {count : Nat}
        (member : char ∈ List.replicate count '0' ++ Nat.toDigits 10 decimal.digits) :
        char.isDigit = true := by
      rcases List.mem_append.mp member with isZero | isDigit
      · exact isDigit_of_mem_replicate isZero
      · exact digits isDigit
    dsimp only at member
    split at member
    · rw [String.toList_ofList] at member
      exact .inl (padded (List.mem_of_mem_take member))
    · rw [String.toList_ofList, List.mem_append, List.mem_cons, List.mem_reverse] at member
      rcases member with whole | point | decimals
      · exact .inl (padded (List.mem_of_mem_take whole))
      · exact .inr point
      · have dropped := List.mem_reverse.mp (List.dropWhile_sublist _ |>.mem decimals)
        exact .inl (padded (List.mem_of_mem_drop dropped))

theorem oneLine_text (value : Binary64) : OneLine value.text := by
  rw [Binary64.text]
  have sign : OneLine (if value.isNegative then "-" else "") := by
    split
    · exact ⟨by decide, by decide⟩
    · exact ⟨by decide, by decide⟩
  split
  · dsimp only
    split
    · exact sign.append ⟨by decide, by decide⟩
    · exact sign.append (oneLine_positional _)
  · split
    · split
      · exact ⟨by decide, by decide⟩
      · exact ⟨by decide, by decide⟩
    · exact ⟨by decide, by decide⟩

theorem oneLine_realLiteral (value : Binary64) : OneLine (realLiteral value) := by
  rw [realLiteral]
  split
  · exact oneLine_text value
  · exact (oneLine_text value).append ⟨by decide, by decide⟩

theorem hexDigit_ne_newline {value} (small : value < 16) : Text.hexDigit value ≠ '\n' := by
  have all : forall digit : Fin 16, Text.hexDigit digit ≠ '\n' := by decide
  exact all ⟨value, small⟩

theorem single_hexDigits (width value : Nat) : '\n' ∉ Text.hexDigits width value := by
  induction width generalizing value with
  | zero => exact List.not_mem_nil
  | succ width ih =>
    rw [Text.hexDigits, List.mem_append, not_or, List.mem_singleton]
    exact ⟨ih _, Ne.symm (hexDigit_ne_newline (Nat.mod_lt _ (by decide)))⟩

theorem controlLetter_ne_newline {char letter} (known : Text.controlLetter? char = some letter) :
    letter ≠ '\n' := by
  rw [Text.controlLetter?] at known
  split at known <;> cases known <;> decide

theorem single_escaped {mark} (other : mark ≠ '\n') (char : Char) :
    '\n' ∉ Text.escaped mark char := by
  rw [Text.escaped]
  split
  · rename_i marked
    rw [Bool.or_eq_true, decide_eq_true_eq, decide_eq_true_eq] at marked
    have ordinary : '\n' ≠ char := by
      rintro rfl
      rcases marked with same | same
      · exact other same.symm
      · exact absurd same (by decide)
    simpa using ordinary
  split
  · rename_i printable
    have ordinary : '\n' ≠ char := by
      rintro rfl
      exact absurd printable (by decide +kernel)
    simpa using ordinary
  split
  · rename_i letter known
    simpa using Ne.symm (controlLetter_ne_newline known)
  · split
    · simpa using single_hexDigits 2 char.toNat
    split
    · simpa using single_hexDigits 4 char.toNat
    · simpa using single_hexDigits 8 char.toNat

theorem oneLine_quotedChar (char : Char) : OneLine (Text.quotedChar char) := by
  rw [Text.quotedChar]
  constructor
  · rw [String.toList_ofList]
    simp only [List.mem_cons, List.mem_append, List.not_mem_nil, or_false, not_or]
    exact ⟨⟨by decide, single_escaped (by decide) char⟩, by decide⟩
  · rw [String.toList_ofList]
    exact (by decide : some '\'' ≠ some Text.brace)

/-! ## Instructions on one line -/

variable {bindings : Bindings} {text : String} {functions : List Node} {config : Config}

theorem oneLine_operand {operand : Operand}
    (literals : forall written, operand = .literal written -> OneLine written)
    (printed : operand.text bindings = .ok text) : OneLine text := by
  cases operand with
  | int value =>
    cases printed
    exact .int value
  | literal written =>
    cases printed
    exact literals _ rfl
  | label id =>
    simp only [Operand.text] at printed
    split at printed
    · cases printed
      exact .nat _
    · cases printed
  | entry name tail =>
    cases tail with
    | none => cases printed
    | some tail =>
      simp only [Operand.text] at printed
      split at printed
      · cases printed
        exact .int _
      · cases printed
  | extent id =>
    simp only [Operand.text] at printed
    split at printed
    · cases printed
      exact .int _
    · cases printed

theorem oneLine_operandTexts {operands}
    (literals : forall written, .literal written ∈ operands -> OneLine written)
    (printed : Instruction.operandTexts bindings operands = .ok text) : OneLine text := by
  induction operands generalizing text with
  | nil =>
    cases printed
    exact ⟨by decide, by decide⟩
  | cons operand operands ih =>
    rw [Instruction.operandTexts] at printed
    split at printed
    · cases printed
    rename_i first firstPrinted
    split at printed
    · cases printed
    rename_i rest restPrinted
    cases printed
    have here : OneLine first := oneLine_operand
      (fun written equal => literals written (equal ▸ List.mem_cons_self)) firstPrinted
    have later := ih
      (fun written member => literals written (List.mem_cons_of_mem _ member)) restPrinted
    exact (OneLine.append ⟨by decide, by decide⟩ here).append later

variable {nodes : Node -> Prop} {instruction : Instruction} {name : String} {generated : Generated}

/-- The code of a program consists of instructions on one line each. -/
theorem oneLine_instruction (origin : Origin functions nodes (.instruction instruction))
    (printed : instruction.text bindings = .ok text) : OneLine text := by
  have literals : forall written, .literal written ∈ instruction.operands -> OneLine written := by
    intro written member
    cases origin with
    | numbers _ numbers => cases List.all_eq_true.mp numbers _ member
    | real value =>
      cases List.mem_singleton.mp member
      exact oneLine_realLiteral value
    | bool value =>
      cases List.mem_singleton.mp member
      cases value
      · exact ⟨by decide, by decide⟩
      · exact ⟨by decide, by decide⟩
    | char char =>
      cases List.mem_singleton.mp member
      exact oneLine_quotedChar char
    | call _ => simp at member
  have mnemonic : OneLine instruction.opcode.mnemonic := by
    cases instruction.opcode <;> exact ⟨by decide, by decide⟩
  rw [Instruction.text] at printed
  rcases Results.of_map printed with ⟨operands, operandsPrinted, joined⟩
  cases joined
  exact mnemonic.append (oneLine_operandTexts literals operandsPrinted)

/-! ## Comments of a program -/

/-- A function is declared under a name. -/
def Declared (functions : List Node) (name : String) : Prop :=
  some name ∈ functions.map declaredName?

theorem declared_of_mem {note params result body signature entry}
    (member : .funcDecl note name params result body signature entry ∈ functions) :
    Declared functions name :=
  List.mem_map.mpr ⟨_, member, rfl⟩

/-- The code of a function is opened by a comment with its name. -/
theorem comment_of_laid {start placed code} (laid : Laid config start functions placed code)
    (declared : Declared functions name) : .comment ("function " ++ name) ∈ code := by
  induction laid with
  | nil => cases declared
  | cons lowered _ ih =>
    rcases List.mem_cons.mp declared with first | later
    · cases first
      rw [lowerFunction] at lowered
      rcases Results.of_bind lowered with ⟨_, _, ⟨⟩⟩
      exact List.mem_cons_self
    · exact List.mem_append_right _ (ih later)

theorem bracesLines_word {word} (single : '\n' ∉ word.toList) (name : String) :
    Text.BracesLines (word ++ name).toList <-> Text.BracesLines name.toList := by
  rw [String.toList_append, Text.bracesLines_append_left single]

/-- All comments of a program's code vanish exactly if those with the names of its functions do. -/
theorem comments_vanish_iff {source program checked placed functionCode blockCode}
    (whole : Written.Whole source program) (typed : Static.TypedProgram program checked)
    (arranged : Arranged config checked placed generated functionCode blockCode) :
    (forall text, .comment text ∈ generated.code -> Text.BracesLines text.toList)
      <-> forall name, Declared program.functions name -> Text.BracesLines name.toList := by
  have names {name : String} :
      Declared checked.functions name <-> Declared program.functions name := by
    cases typed with
    | intro _ signatures typedFunctions _ _ =>
      rw [Declared, Declared, names_of_typed typedFunctions, names_of_signatures signatures]
  constructor
  · intro all name declared
    have opened := comment_of_laid arranged.functions (names.mpr declared)
    have present : .comment ("function " ++ name) ∈ generated.code := by
      rw [arranged.code]
      exact List.mem_append_left _ (List.mem_append_right _ opened)
    exact (bracesLines_word (by decide) name).mp (all _ present)
  · intro all text member
    have called {note : Note} {name : String} {args : List Node} {callee : Callee}
        (holds : checked.Holds (.call note name args (some callee))) :
        Text.BracesLines name.toList := by
      rcases declares_of_call whole typed arranged holds with ⟨_, _, _, _, _, _, found, _⟩
      exact all name (names.mp (declared_of_mem (List.mem_of_getElem? found)))
    cases arranged.items _ member with
    | callOpens holds => exact (bracesLines_word (by decide) _).mpr (called holds)
    | callCloses holds => exact (bracesLines_word (by decide) _).mpr (called holds)
    | functionOpens declared =>
      exact (bracesLines_word (by decide) _).mpr (all _ (names.mp (declared_of_mem declared)))
    | functionCloses declared =>
      exact (bracesLines_word (by decide) _).mpr (all _ (names.mp (declared_of_mem declared)))
    | program => exact Text.bracesLines_of_single (by decide)
    | block number =>
      have word : OneLine "block " := ⟨by decide, by decide⟩
      exact Text.bracesLines_of_single (word.append (.nat number)).single

theorem plain_of_printable
    (items : From functions nodes generated.code) (printable : Printable generated)
    (member : .instruction instruction ∈ generated.code) :
    Code.Plain generated.bindings instruction := by
  rcases printable.texts with ⟨texts, listed⟩
  rcases List.getElem?_of_mem (Code.mem_instructions.mpr member) with ⟨index, found⟩
  rcases Code.text_of_textsFrom listed found with ⟨text, printed, _⟩
  exact ⟨text, printed, oneLine_instruction (items _ member) printed⟩

theorem style_comments (shown : config.features .comments = true) :
    config.style = { config.style with comments := true } := by
  rw [Config.style, shown]

theorem style_silent (config : Config) :
    (config.setFeature .comments false).style = { config.style with comments := false } :=
  rfl

/-- Comments can be told from instructions in the printed code of a program, and deleted with all
lines that begin with a brace, exactly if every line feed in the name of a function is followed by a
brace. -/
theorem comments_separable_iff {bytes : List UInt8} {source : Int64} {program : Program}
    {config : Config} {compilation : Compilation} {generated : Generated}
    (decoded : Program.decode bytes source = .ok program)
    (shown : config.features .comments = true)
    (compiles : (program.compile config).2 = .ok compilation)
    (code : compilation.result = .ok generated) :
    exists silent, (program.compile (config.setFeature .comments false)).2 = .ok silent
      ∧ silent.result = .ok generated
      ∧ (generated.printed config).error = none
      ∧ (Text.withoutBraced (generated.printed config).text
            = (generated.printed (config.setFeature .comments false)).text
          <-> forall name, Declared program.functions name -> Text.BracesLines name.toList) := by
  have whole := Written.whole_of_decode decoded
  rcases Compilation.course_of_whole config whole with ⟨placed, found, course⟩
  rw [Compilation.compile_of_course course] at compiles
  cases compiles
  rcases course.accepted whole code
      with ⟨resolved, checked, _, _, accepted, passed, generates, typed⟩
  -- Both compilations give the same code, since comments are not a matter of lowering.
  have same : SameCode config (config.setFeature .comments false) := ⟨rfl, rfl⟩
  rcases Resolution.resolve_agree (config.setFeature .comments false) whole accepted
      with ⟨⟨_, _⟩, acceptedAgain, rfl, _⟩
  rcases Typing.check_agree (config.setFeature .comments false) passed
      with ⟨⟨_, _⟩, passedAgain, rfl, _⟩
  have generatesAgain := generates
  rw [generate_settings same] at generatesAgain
  have silent := Compilation.compile_of_course
    (.compiled acceptedAgain passedAgain generatesAgain)
  refine ⟨_, congrArg Prod.snd silent, rfl, ?_⟩
  rcases arranged_of_generate generates with ⟨_, _, arranged⟩
  rcases generate_of_typed config whole typed with ⟨_, _, again, printable⟩
  rw [generates] at again
  cases again
  refine ⟨printable.listing _, ?_⟩
  rw [Generated.printed, Generated.printed, style_comments shown, style_silent,
    ← comments_vanish_iff whole typed arranged]
  exact Code.withoutBraced_listing_iff fun _ => plain_of_printable arranged.items printable

/-- A function whose name has a line feed in it, with an instruction behind it. -/
def brokenText : List UInt8 :=
  List.flatMap (fun line => line.toUTF8.data.toList)
    ["\x7b\"functions\":[\x7b\"kind\":\"func\",\"name\":\"f\\nstp\",",
     "\"returns\":\x7b\"kind\":\"Integer\"\x7d,\"body\":\x7b\"kind\":\"block\",\"stmts\":[",
     "\x7b\"kind\":\"return\",\"expr\":\x7b\"kind\":\"int\",\"value\":1\x7d\x7d]\x7d\x7d],",
     "\"blocks\":[\x7b\"kind\":\"block\"\x7d]\x7d"]

/-- The program of that document. -/
def broken : Program := (Program.decode brokenText 0).toOption.getD default

theorem decode_brokenText : Program.decode brokenText 0 = .ok broken :=
  Written.eq_ok_of_isSome (by decide +kernel)

/-- The comments of that program cannot be deleted: a line `stp` is left of each of them. -/
theorem comments_separable_iff_broken :
    Program.decode brokenText 0 = .ok broken
      ∧ exists compilation generated, (broken.compile {}).2 = .ok compilation
          ∧ compilation.result = .ok generated
          ∧ Text.withoutBraced (generated.printed {}).text
              ≠ (generated.printed (Config.setFeature {} .comments false)).text := by
  have whole := Written.whole_of_decode decode_brokenText
  rcases Compilation.course_of_whole {} whole with ⟨_, compilation, course⟩
  have compiles := congrArg Prod.snd (Compilation.compile_of_course course)
  have clean : (broken.compile {}).2.toOption.map (Diagnostics.hasErrors ·.diagnostics)
      = some false := by
    decide +kernel
  rw [compiles] at clean
  rcases (course.code_iff whole).mpr (Option.some.inj clean) with ⟨generated, code⟩
  rcases comments_separable_iff decode_brokenText rfl compiles code with ⟨_, _, _, _, separable⟩
  refine ⟨decode_brokenText, compilation, generated, compiles, code, ?_⟩
  rw [Ne, separable]
  intro all
  have declared : some "f\nstp" ∈ broken.functions.map declaredName? := by decide +kernel
  have begins := all _ declared ['f'] ['s', 't', 'p'] (by decide)
  exact absurd begins (by decide)

end Lowering
end PCode
