import PCode.Excerpt
import PCode.Proofs.Listing

namespace PCode
namespace Renderer

open Text (lines)

/-!
Excerpts from source files.

A text has one line more than it has line feeds, so the text that holds nothing has a line as well.
An excerpt shows the line of a span wherever the file has so many lines.  A file of which nothing is
known counts as an empty one, and a finding on its first line, where all findings without a place
are, gets an excerpt although there is nothing to show.
-/

/-! ## The line of a span -/

theorem head?_lines (content : List Char) :
    (lines content)[0]? = some (content.takeWhile fun char => char != '\n') := by
  induction content with
  | nil => rfl
  | cons char content ih =>
    by_cases newline : char = '\n'
    · rw [newline, Text.lines_newline]
      rfl
    · rw [Text.lines_cons newline, List.takeWhile_cons_of_pos (by simpa using newline)]
      cases split : lines content with
      | nil => exact absurd split (Text.lines_ne_nil content)
      | cons first rest =>
        rw [split] at ih
        exact congrArg (Option.map (List.cons char)) ih

/-- Counting off line feeds leads to the line of that number. -/
theorem lineAt_eq (content : List Char) (count : Nat) :
    lineAt content count = (lines content)[count]? := by
  induction content generalizing count with
  | nil => cases count <;> rfl
  | cons char content ih =>
    cases count with
    | zero => exact (head?_lines (char :: content)).symm
    | succ count =>
      rw [lineAt]
      split
      · rename_i newline
        rw [newline, Text.lines_newline, List.getElem?_cons_succ, ih]
      · rename_i other
        rw [Text.lines_cons other, ih]
        cases lines content <;> rfl

theorem length_lines (content : List Char) :
    (lines content).length = content.count '\n' + 1 := by
  induction content with
  | nil => rfl
  | cons char content ih =>
    by_cases newline : char = '\n'
    · rw [newline, Text.lines_newline, List.length_cons, ih, List.count_cons_self]
    · rw [Text.lines_cons newline, List.length_modifyHead, ih, List.count_cons_of_ne newline]

variable {renderer : Renderer} {span : Span} {file : SourceFile}

/-- Whether a span has a line to show is a matter of counting line feeds. -/
theorem sourceLine?_eq (known : renderer.file? span = some file) :
    renderer.sourceLine? span
      = if 0 <= span.line then (lines file.content.toList)[span.line.toNatClampNeg]? else none := by
  rw [sourceLine?, known, Option.bind_some]
  by_cases negative : span.line < 0
  · rw [if_pos negative, if_neg (Int64.not_le.mpr negative)]
  · rw [if_neg negative, if_pos (Int64.not_lt.mp negative)]
    exact lineAt_eq _ _

theorem isSome_sourceLine? (known : renderer.file? span = some file) :
    (renderer.sourceLine? span).isSome = true
      <-> 0 <= span.line ∧ span.line.toNatClampNeg <= file.content.toList.count '\n' := by
  rw [sourceLine?_eq known]
  split
  · rename_i nonnegative
    rw [Option.isSome_iff_ne_none, ne_eq, List.getElem?_eq_none_iff, length_lines, Nat.not_le,
      Nat.lt_succ_iff]
    exact (and_iff_right nonnegative).symm
  · rename_i negative
    exact ⟨nofun, fun inside => absurd inside.1 negative⟩

/-- The two lines of an excerpt, without colours. -/
def drawn (span : Span) (line : List Char) : String :=
  "  " ++ String.ofList line ++ "\n"
    ++ String.ofList (List.replicate (span.column.toNatClampNeg + 2) ' ')
    ++ "^" ++ String.ofList (List.replicate (span.length.toNatClampNeg - 1) '~') ++ "\n"

theorem drawn_ne_empty (span : Span) (line : List Char) : drawn span line ≠ "" := by
  simp [drawn]

theorem excerpt_of_line {line} (plain : renderer.color = false) (drawable : 0 <= span.column)
    (found : renderer.sourceLine? span = some line) :
    renderer.excerpt span = ⟨drawn span line, true⟩ := by
  rw [excerpt, found]
  dsimp only
  rw [if_neg (Int64.not_lt.mpr drawable), paint, plain]
  refine congrArg (Rendering.mk · true) (String.toList_injective ?_)
  simp [drawn, caret, List.replicate_succ]

theorem excerpt_of_none (missing : renderer.sourceLine? span = none) :
    renderer.excerpt span = ⟨"", true⟩ := by
  rw [excerpt, missing]

/-- An excerpt shows the line of its span, which a file has if it has as many line feeds, and below
it a caret under the column that is drawn out to the length of the span. -/
theorem excerpt_shows_line (plain : renderer.color = false) (valid : 0 <= span.file)
    (named : renderer.files[span.file.toNatClampNeg]? = some file) (drawable : 0 <= span.column) :
    (renderer.excerpt span).complete = true
      ∧ ((renderer.excerpt span).text ≠ ""
        <-> 0 <= span.line ∧ span.line.toNatClampNeg <= file.content.toList.count '\n')
      ∧ forall line, 0 <= span.line ->
        (file.content.toList.splitOn '\n')[span.line.toNatClampNeg]? = some line ->
        (renderer.excerpt span).text = drawn span line := by
  have known : renderer.file? span = some file := (if_neg (Int64.not_lt.mpr valid)).trans named
  rw [← isSome_sourceLine? known]
  refine ⟨?_, ?_, ?_⟩
  · cases found : renderer.sourceLine? span with
    | none => rw [excerpt_of_none found]
    | some line => rw [excerpt_of_line plain drawable found]
  · cases found : renderer.sourceLine? span with
    | none =>
      rw [excerpt_of_none found]
      exact ⟨fun shown => absurd rfl shown, nofun⟩
    | some line =>
      rw [excerpt_of_line plain drawable found]
      exact ⟨fun _ => rfl, fun _ => drawn_ne_empty span line⟩
  · intro line nonnegative there
    have found := sourceLine?_eq known
    rw [if_pos nonnegative, lines, there] at found
    rw [excerpt_of_line plain drawable found]

/-- A file that ends in a line feed has an empty line behind it. -/
def trailing : Renderer := { files := [{ name := "a", content := "one\ntwo\n" }] }

/-- The line behind the last line feed is shown, and the one behind that is not. -/
theorem excerpt_shows_line_trailing :
    (trailing.excerpt { line := 2, column := 1, length := 3 }).text = "  \n   ^~~\n"
      ∧ (trailing.excerpt { line := 3 }).text = "" := by
  have last := (@excerpt_shows_line trailing { line := 2, column := 1, length := 3 } _ rfl
    (by decide) rfl (by decide)).2.2 [] (by decide) (by decide)
  have past := (@excerpt_shows_line trailing { line := 3 } _ rfl (by decide) rfl (by decide)).2.1
  exact ⟨last.trans (by decide), Classical.not_not.mp (mt past.mp (by decide))⟩

/-! ## Findings without an excerpt -/

theorem sourceLine?_of_excerpt (empty : (renderer.excerpt span).text = "") :
    renderer.sourceLine? span = none := by
  cases found : renderer.sourceLine? span with
  | none => rfl
  | some line =>
    rw [excerpt, found] at empty
    dsimp only at empty
    split at empty <;> simp at empty

section Findings

variable {diagnostic : Diagnostic} {diagnostics : List Diagnostic}

/-- The first lines of findings. -/
def headlines (renderer : Renderer) (diagnostics : List Diagnostic) : String :=
  String.join (diagnostics.map renderer.headline)

theorem headlines_cons : renderer.headlines (diagnostic :: diagnostics)
    = renderer.headline diagnostic ++ renderer.headlines diagnostics := by
  simp [headlines]

/-- Findings are drawn to their end one after another. -/
theorem renderAll_cons_complete
    (complete : (renderer.renderAll (diagnostic :: diagnostics)).complete = true) :
    (renderer.renderAll diagnostics).complete = true
      ∧ (renderer.renderAll (diagnostic :: diagnostics)).text = renderer.headline diagnostic
        ++ ((renderer.excerpt diagnostic.span).text ++ (renderer.renderAll diagnostics).text) := by
  rw [renderAll] at complete ⊢
  dsimp only at complete ⊢
  split
  · rename_i first
    rw [if_pos first] at complete
    exact ⟨complete, String.append_assoc ..⟩
  · rename_i first
    rw [if_neg first] at complete
    exact absurd complete first

theorem length_headlines_le (complete : (renderer.renderAll diagnostics).complete = true) :
    (renderer.headlines diagnostics).length <= (renderer.renderAll diagnostics).text.length := by
  induction diagnostics with
  | nil => exact Nat.le_refl _
  | cons diagnostic diagnostics ih =>
    rcases renderAll_cons_complete complete with ⟨later, text⟩
    have rest := ih later
    rw [headlines_cons, text, String.length_append, String.length_append, String.length_append]
    omega

/-- Nothing but the first lines is written exactly if no finding has a line to show. -/
theorem renderAll_eq_headlines_iff :
    renderer.renderAll diagnostics = ⟨renderer.headlines diagnostics, true⟩
      <-> forall diagnostic, diagnostic ∈ diagnostics ->
        renderer.sourceLine? diagnostic.span = none := by
  induction diagnostics with
  | nil => exact ⟨fun _ _ => nofun, fun _ => rfl⟩
  | cons diagnostic diagnostics ih =>
    rw [List.forall_mem_cons, ← ih]
    constructor
    · intro bare
      have complete := congrArg Rendering.complete bare
      rcases renderAll_cons_complete complete with ⟨later, text⟩
      have bounded := length_headlines_le later
      rw [congrArg Rendering.text bare, headlines_cons, String.append_right_inj] at text
      have lengths := congrArg String.length text
      rw [String.length_append] at lengths
      have empty : (renderer.excerpt diagnostic.span).text = "" :=
        String.length_eq_zero_iff.mp (by omega)
      rw [empty, String.empty_append] at text
      refine ⟨sourceLine?_of_excerpt empty, ?_⟩
      rw [text, ← later]
    · rintro ⟨missing, rest⟩
      rw [renderAll, render, excerpt_of_none missing, rest, headlines_cons]
      simp

theorem single_paint {code word} (single : '\n' ∉ (code ++ word).toList) :
    '\n' ∉ (renderer.paint code word).toList := by
  unfold paint
  split <;> simp_all

/-- All findings begin alike: a place, a word, the message, and a mark in brackets. -/
theorem headline_eq (flag : forall flag, diagnostic.verdict = .warning flag -> '\n' ∉ flag.toList) :
    exists word mark, '\n' ∉ word.toList ∧ '\n' ∉ mark.toList
      ∧ renderer.headline diagnostic = renderer.fileName diagnostic.span
        ++ s!":{diagnostic.span.shownLine}:{diagnostic.span.shownColumn}: "
        ++ (word ++ " " ++ diagnostic.message ++ mark ++ "\n") := by
  have named (category : Category) : '\n' ∉ category.name.toList := by
    cases category <;> decide
  rw [headline]
  cases verdict : diagnostic.verdict with
  | warning name =>
    refine ⟨renderer.paint "33" "warning:", " [-W" ++ name ++ "]", single_paint (by decide), ?_, ?_⟩
    · simpa using flag name verdict
    · simp [String.append_assoc]
  | error category | remark category =>
    refine ⟨renderer.paint "31" "error:", " [" ++ category.name ++ "]", single_paint (by decide),
      ?_, ?_⟩
    · simpa using named category
    · simp [String.append_assoc]

/-- The first line of a finding ends with its only line feed. -/
theorem headline_single (name : '\n' ∉ (renderer.fileName diagnostic.span).toList)
    (message : '\n' ∉ diagnostic.message.toList)
    (flag : forall flag, diagnostic.verdict = .warning flag -> '\n' ∉ flag.toList) :
    exists line, renderer.headline diagnostic = line ++ "\n" ∧ '\n' ∉ line.toList := by
  have number (value : Int64) : '\n' ∉ (toString value).toList := (OneLine.int value.toInt).single
  have colon : '\n' ∉ (toString ":").toList ∧ '\n' ∉ (toString ": ").toList := by decide
  rcases headline_eq flag with ⟨word, mark, singleWord, singleMark, shape⟩
  rw [shape, ← String.append_assoc]
  refine ⟨_, rfl, ?_⟩
  simp [name, message, number, singleWord, singleMark, colon]

end Findings

/-! ## Files without content -/

theorem mem_of_file? (known : renderer.file? span = some file) : file ∈ renderer.files := by
  rw [file?] at known
  split at known
  · cases known
  · exact List.mem_of_getElem? known

section Unread

variable (unread : forall file, file ∈ renderer.files -> file.content = "")

include unread

/-- In a file without content there is only the first line. -/
theorem sourceLine?_eq_none_iff :
    renderer.sourceLine? span = none <-> (span.line = 0 -> renderer.file? span = none) := by
  cases known : renderer.file? span with
  | none =>
    rw [sourceLine?, known]
    exact ⟨fun _ _ => rfl, fun _ => rfl⟩
  | some file =>
    have first : 0 <= span.line ∧ span.line.toNatClampNeg <= 0 <-> span.line = 0 := by
      rw [Int64.le_iff_toInt_le, ← Int64.toInt_inj]
      show 0 <= span.line.toInt ∧ span.line.toInt.toNat <= 0 <-> span.line.toInt = 0
      omega
    have shown := isSome_sourceLine? known
    rw [unread file (mem_of_file? known)] at shown
    rw [← Option.not_isSome_iff_eq_none, shown]
    exact (not_congr first).trans (by simp)

/-- Where nothing is known of a file, findings are written on one line each exactly if none of them
is on the first line of a file.  A finding there is followed by an empty line and a caret. -/
theorem renderAll_of_unread :
    (forall diagnostics, renderer.renderAll diagnostics = ⟨renderer.headlines diagnostics, true⟩
      <-> forall diagnostic, diagnostic ∈ diagnostics ->
        diagnostic.span.line = 0 -> renderer.file? diagnostic.span = none)
    ∧ (forall diagnostic, diagnostic.span.line = 0 -> (renderer.file? diagnostic.span).isSome ->
      renderer.color = false -> 0 <= diagnostic.span.column ->
      renderer.render diagnostic
        = ⟨renderer.headline diagnostic ++ drawn diagnostic.span [], true⟩)
    ∧ forall diagnostic, '\n' ∉ (renderer.fileName diagnostic.span).toList ->
      '\n' ∉ diagnostic.message.toList ->
      (forall flag, diagnostic.verdict = .warning flag -> '\n' ∉ flag.toList) ->
      exists line, renderer.headline diagnostic = line ++ "\n" ∧ '\n' ∉ line.toList := by
  refine ⟨fun diagnostics => ?_, fun diagnostic first known plain drawable => ?_,
    fun diagnostic => headline_single⟩
  · simp only [renderAll_eq_headlines_iff, sourceLine?_eq_none_iff unread]
  · rcases Option.isSome_iff_exists.mp known with ⟨file, known⟩
    have found : renderer.sourceLine? diagnostic.span = some [] := by
      rw [sourceLine?_eq known, unread file (mem_of_file? known), first]
      rfl
    rw [render, excerpt_of_line plain drawable found]

end Unread

/-- The file of a document that is compiled without its source. -/
def sourceless : Renderer := { files := [{ name := "a.json" }] }

/-- A finding without a place. -/
def unplaced : Diagnostic := ⟨.error .structural, {}, "m"⟩

/-- The finding without a place takes two lines more than its first one. -/
theorem renderAll_of_unread_unplaced :
    (forall file, file ∈ sourceless.files -> file.content = "")
      ∧ sourceless.renderAll [unplaced] ≠ ⟨sourceless.headlines [unplaced], true⟩
      ∧ sourceless.render unplaced
        = ⟨"a.json:1:1: error: m [StructuralError]\n  \n  ^\n", true⟩ := by
  have unread : forall file, file ∈ sourceless.files -> file.content = "" :=
    List.forall_mem_singleton.mpr rfl
  rcases renderAll_of_unread unread with ⟨alone, shown, _⟩
  have known : (sourceless.file? unplaced.span).isSome = true := by decide
  refine ⟨unread, fun same => ?_, ?_⟩
  · have missing := (alone [unplaced]).mp same unplaced List.mem_cons_self rfl
    rw [missing] at known
    cases known
  · rw [shown unplaced rfl known rfl (by decide)]
    decide +kernel

end Renderer
end PCode
