import PCode.Lowering

namespace PCode

/-!
Printed code, line by line.

An instruction is printed on one line, and that line never begins with a brace.  A comment is meant
to be a line that does.  Its text is printed as it stands, so it takes several lines if there are
line feeds in it, and it can be told from the instructions only if each of these lines begins with a
brace as well.
-/

/-! ## Lines -/

namespace Text

/-- The character that a comment begins with. -/
def brace : Char := '\x7b'

/-- The lines of a text. -/
def lines (text : List Char) : List (List Char) := text.splitOn '\n'

/-- The lines of a text that do not begin with a brace. -/
def bareLines (text : List Char) : List (List Char) :=
  (lines text).filter fun line => line.head? != some brace

/-- A text without the lines that begin with a brace. -/
def withoutBraced (text : String) : String :=
  String.ofList (['\n'].intercalate (bareLines text.toList))

/-- A text each of whose line feeds is followed by a brace. -/
def BracesLines (text : List Char) : Prop :=
  forall before behind, text = before ++ '\n' :: behind -> behind.head? = some brace

theorem lines_break (line text : List Char) :
    lines (line ++ '\n' :: text) = lines line ++ lines text :=
  List.splitOnP_append_cons line text (beq_self_eq_true '\n')

theorem lines_newline (text : List Char) : lines ('\n' :: text) = [] :: lines text :=
  lines_break [] text

theorem lines_cons {char} (other : char ≠ '\n') (text : List Char) :
    lines (char :: text) = (lines text).modifyHead (List.cons char) := by
  rw [lines, List.splitOn_eq_splitOnP, List.splitOnP_cons_eq_if_modifyHead,
    if_neg (by simpa using other)]
  rfl

theorem lines_ne_nil (text : List Char) : lines text ≠ [] := List.splitOn_ne_nil '\n' text

variable {line text : List Char}

theorem lines_single (single : '\n' ∉ line) : lines line = [line] := by
  rw [lines, List.splitOn_eq_splitOnP]
  apply List.splitOnP_eq_singleton
  intro char member
  rw [beq_eq_false_iff_ne]
  rintro rfl
  exact single member

/-- No line feed is left in a line. -/
theorem single_of_mem_lines (member : line ∈ lines text) : '\n' ∉ line := by
  induction text generalizing line with
  | nil =>
    cases List.mem_singleton.mp member
    exact List.not_mem_nil
  | cons char text ih =>
    by_cases newline : char = '\n'
    · rw [newline, lines_newline] at member
      rcases List.mem_cons.mp member with rfl | later
      · exact List.not_mem_nil
      · exact ih later
    · rcases split : lines text with _ | ⟨first, rest⟩
      · exact absurd split (lines_ne_nil text)
      rw [split] at ih
      rw [lines_cons newline, split, List.modifyHead_cons] at member
      rcases List.mem_cons.mp member with rfl | later
      · rw [List.mem_cons, not_or]
        exact ⟨Ne.symm newline, ih List.mem_cons_self⟩
      · exact ih (List.mem_cons_of_mem _ later)

theorem bareLines_break (line text : List Char) :
    bareLines (line ++ '\n' :: text) = bareLines line ++ bareLines text := by
  rw [bareLines, lines_break, List.filter_append]
  rfl

theorem bareLines_single (single : '\n' ∉ line) (bare : line.head? ≠ some brace) :
    bareLines line = [line] := by
  rw [bareLines, lines_single single, List.filter_cons_of_pos (by simpa using bare)]
  rfl

/-! ## Line feeds inside a text -/

theorem bracesLines_newline (text : List Char) :
    BracesLines ('\n' :: text) <-> text.head? = some brace ∧ BracesLines text := by
  constructor
  · intro braces
    refine ⟨braces [] text rfl, ?_⟩
    intro before behind equal
    exact braces ('\n' :: before) behind (congrArg (List.cons '\n') equal)
  · rintro ⟨first, later⟩ before behind equal
    cases before with
    | nil =>
      cases equal
      exact first
    | cons char before => exact later before behind (List.cons.inj equal).2

theorem bracesLines_cons {char} (other : char ≠ '\n') (text : List Char) :
    BracesLines (char :: text) <-> BracesLines text := by
  constructor
  · intro braces before behind equal
    exact braces (char :: before) behind (congrArg (List.cons char) equal)
  · rintro later before behind equal
    cases before with
    | nil => exact absurd (List.cons.inj equal).1 other
    | cons first before => exact later before behind (List.cons.inj equal).2

theorem bracesLines_of_single (single : '\n' ∉ text) : BracesLines text := by
  intro before behind equal
  exact absurd (equal ▸ List.mem_append_right before List.mem_cons_self) single

theorem bracesLines_append_left {opening} (single : '\n' ∉ opening) (text : List Char) :
    BracesLines (opening ++ text) <-> BracesLines text := by
  induction opening with
  | nil => rfl
  | cons char opening ih =>
    rw [List.mem_cons, not_or] at single
    rw [List.cons_append, bracesLines_cons (Ne.symm single.1), ih single.2]

theorem bracesLines_append_right {closing} (single : '\n' ∉ closing)
    (bare : closing.head? ≠ some brace) (text : List Char) :
    BracesLines (text ++ closing) <-> BracesLines text := by
  induction text with
  | nil => exact iff_of_true (bracesLines_of_single single) (bracesLines_of_single (by simp))
  | cons char text ih =>
    rw [List.cons_append]
    by_cases newline : char = '\n'
    · rw [newline, bracesLines_newline, bracesLines_newline, ih]
      cases text with
      | nil => simp [bare]
      | cons first rest => rfl
    · rw [bracesLines_cons newline, bracesLines_cons newline, ih]

/-- A text begins with a brace if its first line does. -/
theorem head?_of_lines {first rest} (split : lines text = first :: rest) :
    first.head? = some brace <-> text.head? = some brace := by
  cases text with
  | nil =>
    cases split
    rfl
  | cons char text =>
    by_cases newline : char = '\n'
    · rw [newline, lines_newline] at split
      cases split
      rw [newline]
      show none = some brace <-> some '\n' = some brace
      decide
    · rw [lines_cons newline] at split
      rcases later : lines text with _ | ⟨next, others⟩
      · exact absurd later (lines_ne_nil text)
      rw [later] at split
      cases split
      rfl

/-- Every line begins with a brace exactly if the text and what follows its line feeds do. -/
theorem braced_iff (text : List Char) :
    (forall line, line ∈ lines text -> line.head? = some brace)
      <-> text.head? = some brace ∧ BracesLines text := by
  -- The first line is left aside in the induction, since it is only begun.
  have behind : (forall line, line ∈ (lines text).tail -> line.head? = some brace)
      <-> BracesLines text := by
    induction text with
    | nil => exact iff_of_true (fun _ member => by cases member) (bracesLines_of_single (by simp))
    | cons char text ih =>
      rcases split : lines text with _ | ⟨first, rest⟩
      · exact absurd split (lines_ne_nil text)
      by_cases newline : char = '\n'
      · rw [newline, lines_newline, bracesLines_newline, ← ih, split,
          ← head?_of_lines split]
        exact List.forall_mem_cons
      · rw [lines_cons newline, bracesLines_cons newline, ← ih, split]
        rfl
  rw [← behind]
  rcases split : lines text with _ | ⟨first, rest⟩
  · exact absurd split (lines_ne_nil text)
  rw [← head?_of_lines split]
  exact List.forall_mem_cons

theorem bareLines_eq_nil_iff (text : List Char) :
    bareLines text = [] <-> text.head? = some brace ∧ BracesLines text := by
  rw [← braced_iff, bareLines, List.filter_eq_nil_iff]
  simp

end Text

/-! ## Texts on one line -/

/-- A text on one line, which does not begin with a brace. -/
structure OneLine (text : String) : Prop where
  single : '\n' ∉ text.toList
  bare : text.toList.head? ≠ some Text.brace

namespace OneLine

theorem append {first second} (left : OneLine first) (right : OneLine second) :
    OneLine (first ++ second) where
  single := by
    rw [String.toList_append, List.mem_append, not_or]
    exact ⟨left.single, right.single⟩
  bare := by
    rw [String.toList_append, List.head?_append]
    cases begins : first.toList.head? with
    | none => exact right.bare
    | some char => exact fun equal => left.bare (begins.trans equal)

theorem bareLines {text} (line : OneLine text) : Text.bareLines text.toList = [text.toList] :=
  Text.bareLines_single line.single line.bare

/-- A text of digits and points. -/
theorem numeral {text} (all : forall char, char ∈ text.toList -> char.isDigit = true ∨ char = '.') :
    OneLine text where
  single := by
    intro member
    have known := all _ member
    revert known
    decide
  bare := by
    intro begins
    have known := all _ (List.mem_of_head? begins)
    revert known
    decide

theorem nat (value : Nat) : OneLine (toString value) := by
  apply numeral
  intro char member
  have equal : (toString value).toList = Nat.toDigits 10 value := String.toList_ofList
  rw [equal] at member
  exact .inl (Nat.isDigit_of_mem_toDigits (by decide) (by decide) member)

theorem int (value : Int) : OneLine (toString value) := by
  cases value with
  | ofNat value => exact nat value
  | negSucc value =>
    show OneLine ("-" ++ toString (value + 1))
    exact append ⟨by decide, by decide⟩ (nat (value + 1))

end OneLine

/-! ## Listings -/

/-- Generated code as it is printed under settings. -/
def Generated.printed (generated : Generated) (config : Config) : Listing :=
  generated.code.listing generated.bindings config.style

namespace Style

/-- What a comment looks like, apart from the end of its line. -/
def commentBody (text : String) : String := "\x7b " ++ text ++ " \x7d"

/-- What an instruction looks like, apart from the end of its line. -/
def instructionBody (style : Style) (address : Nat) (text : String) : String :=
  (if style.addresses then s!"{address}: " else "") ++ text
    ++ (if style.semicolons then ";" else "")

theorem commentLine_eq (text : String) : commentLine text = commentBody text ++ "\n" := by
  have closing : " \x7d\n" = " \x7d" ++ "\n" := by decide
  rw [commentLine, commentBody, closing, ← String.append_assoc]

theorem instructionLine_eq (style : Style) (address : Nat) (text : String) :
    style.instructionLine address text = style.instructionBody address text ++ "\n" :=
  rfl

theorem instructionBody_comments (style : Style) (comments : Bool) (address : Nat)
    (text : String) :
    { style with comments }.instructionBody address text = style.instructionBody address text :=
  rfl

/-- A comment vanishes with the lines that begin with a brace if what follows its line feeds
begins with one. -/
theorem bareLines_commentBody (text : String) :
    Text.bareLines (commentBody text).toList = [] <-> Text.BracesLines text.toList := by
  rw [Text.bareLines_eq_nil_iff, commentBody, String.toList_append, String.toList_append,
    Text.bracesLines_append_right (by decide) (by decide),
    Text.bracesLines_append_left (by decide)]
  exact and_iff_right rfl

theorem oneLine_instructionBody (style : Style) (address : Nat) {text} (line : OneLine text) :
    OneLine (style.instructionBody address text) := by
  refine ((?_ : OneLine _).append line).append ?_
  · split
    · exact (OneLine.nat address).append ⟨by decide, by decide⟩
    · exact ⟨by decide, by decide⟩
  · split
    · exact ⟨by decide, by decide⟩
    · exact ⟨by decide, by decide⟩

end Style

theorem Listing.text_push (line : String) (listing : Listing) :
    (listing.push line).text = line ++ listing.text := by
  rw [← String.toList_inj, Listing.text, String.toList_join, String.toList_append, Listing.text,
    String.toList_join]
  rfl

/-- A line in front of a listing. -/
theorem Listing.toList_push (body : String) (listing : Listing) :
    (listing.push (body ++ "\n")).text.toList = body.toList ++ '\n' :: listing.text.toList := by
  rw [text_push, String.toList_append, String.toList_append, List.append_assoc]
  rfl

namespace Code

/-- An instruction that is printed on one line. -/
def Plain (bindings : Bindings) (instruction : Instruction) : Prop :=
  exists text, instruction.text bindings = .ok text ∧ OneLine text

variable {bindings : Bindings} {style : Style}

/-- Lines of code without its comments, and what is left of its lines when those that begin with a
brace are deleted.  The latter are never less, and they are the same exactly if all comments
vanish. -/
theorem bareLines_listing {code : Code}
    (plain : forall instruction, .instruction instruction ∈ code -> Plain bindings instruction)
    (address : Nat) :
    let bare := (code.listingFrom bindings { style with comments := false } address).text.toList
    let left := Text.bareLines
      (code.listingFrom bindings { style with comments := true } address).text.toList
    (Text.lines bare).length <= left.length
      ∧ (left = Text.lines bare
        <-> forall text, .comment text ∈ code -> Text.BracesLines text.toList) := by
  induction code generalizing address with
  | nil => exact ⟨Nat.le_refl _, iff_of_true rfl fun _ member => by cases member⟩
  | cons item code ih =>
    have later := ih fun instruction member =>
      plain instruction (List.mem_cons_of_mem _ member)
    cases item with
    | comment text =>
      rcases later address with ⟨atLeast, same⟩
      simp only [listingFrom, Bool.false_eq_true, if_false, if_true, Style.commentLine_eq,
        Listing.toList_push, Text.bareLines_break, List.length_append]
      by_cases vanishes : Text.BracesLines text.toList
      · rw [(Style.bareLines_commentBody text).mpr vanishes, List.nil_append]
        refine ⟨Nat.le_trans atLeast (Nat.le_add_left _ _), same.trans ⟨?_, ?_⟩⟩
        · rintro others other (_ | ⟨_, member⟩)
          · exact vanishes
          · exact others other member
        · exact fun all other member => all other (List.mem_cons_of_mem _ member)
      · have stays := mt (Style.bareLines_commentBody text).mp vanishes
        have more := List.length_pos_iff.mpr stays
        refine ⟨Nat.le_trans atLeast (Nat.le_add_left _ _), iff_of_false ?_ ?_⟩
        · intro equal
          have lengths := congrArg List.length equal
          rw [List.length_append] at lengths
          omega
        · exact fun all => vanishes (all text List.mem_cons_self)
    | instruction instruction =>
      rcases plain instruction List.mem_cons_self with ⟨text, printed, line⟩
      rcases later (address + 1) with ⟨atLeast, same⟩
      have body := Style.oneLine_instructionBody style address line
      simp only [listingFrom, printed, Style.instructionLine_eq, Listing.toList_push,
        Text.bareLines_break, Text.lines_break, Style.instructionBody_comments, body.bareLines,
        Text.lines_single body.single, List.length_append]
      refine ⟨Nat.add_le_add_left atLeast 1, Iff.trans ⟨?_, ?_⟩ (same.trans ⟨?_, ?_⟩)⟩
      · exact fun equal => (List.cons.inj equal).2
      · exact fun equal => congrArg (List.cons _) equal
      · rintro others other (_ | ⟨_, member⟩)
        exact others other member
      · exact fun all other member => all other (List.mem_cons_of_mem _ member)

/-- The text with comments, cleared of the lines that begin with a brace, is the text without
comments exactly if all comments vanish. -/
theorem withoutBraced_listing_iff {code : Code}
    (plain : forall instruction, .instruction instruction ∈ code -> Plain bindings instruction) :
    Text.withoutBraced (code.listing bindings { style with comments := true }).text
        = (code.listing bindings { style with comments := false }).text
      <-> forall text, .comment text ∈ code -> Text.BracesLines text.toList := by
  rcases bareLines_listing plain 0 with ⟨atLeast, same⟩
  rw [← same, Text.withoutBraced, ← String.toList_inj, String.toList_ofList]
  constructor
  · intro equal
    have some := Nat.lt_of_lt_of_le (List.length_pos_iff.mpr (Text.lines_ne_nil _)) atLeast
    have single : forall line, line ∈ Text.bareLines
        (code.listingFrom bindings { style with comments := true } 0).text.toList -> '\n' ∉ line :=
      fun line member => Text.single_of_mem_lines (List.mem_filter.mp member).1
    rw [← List.splitOn_intercalate '\n' single (List.length_pos_iff.mp some)]
    exact congrArg Text.lines equal
  · intro equal
    rw [listing, equal]
    exact List.intercalate_splitOn '\n'

end Code

end PCode
