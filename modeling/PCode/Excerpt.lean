import PCode.Diagnostic

namespace PCode

/-!
Findings as people read them.

A finding is shown with the name of its file, its line and column, and, where
the file holds that line, an excerpt: the line itself and below it a caret under
the column, drawn out to the length of the span.  A negative column cannot be
drawn; what was written up to then stands.
-/

/-- A source file as far as excerpts need it. -/
structure SourceFile where
  name : String
  content : String := ""
deriving DecidableEq, Repr, Inhabited

/-- Text that was written, and whether it could be written to its end. -/
structure Rendering where
  text : String
  complete : Bool := true
deriving DecidableEq, Repr, Inhabited

/-- How findings are shown: the files that spans refer to, and whether words are
coloured for a terminal. -/
structure Renderer where
  files : List SourceFile
  color : Bool := false
deriving DecidableEq, Repr, Inhabited

namespace Renderer

/-- The wording for a column that cannot be drawn. -/
def negativeColumn : String := "strings: negative Repeat count"

/-- A text between the codes that switch a colour on and off. -/
def paint (renderer : Renderer) (code text : String) : String :=
  if renderer.color then "\x1b[" ++ code ++ "m" ++ text ++ "\x1b[0m" else text

def file? (renderer : Renderer) (span : Span) : Option SourceFile :=
  if span.file < 0 then none else renderer.files[span.file.toNatClampNeg]?

def fileName (renderer : Renderer) (span : Span) : String :=
  ((renderer.file? span).map SourceFile.name).getD "unknown"

/-- The line with a given number of line ends before it. -/
def lineAt : List Char -> Nat -> Option (List Char)
  | content, 0 => some (content.takeWhile fun char => char != '\n')
  | [], _ + 1 => none
  | char :: content, count + 1 =>
    if char = '\n' then lineAt content count else lineAt content (count + 1)

/-- The line of a file that a span starts in, if the file has it. -/
def sourceLine? (renderer : Renderer) (span : Span) : Option (List Char) :=
  (renderer.file? span).bind fun file =>
    if span.line < 0 then none else lineAt file.content.toList span.line.toNatClampNeg

/-- A caret, and a tilde for every further column of the span. -/
def caret (length : Int64) : String :=
  String.ofList ('^' :: List.replicate (length.toNatClampNeg - 1) '~')

/-- The line of a span with a caret under its column. -/
def excerpt (renderer : Renderer) (span : Span) : Rendering :=
  match renderer.sourceLine? span with
  | none => ⟨"", true⟩
  | some line =>
    let shown := "  " ++ String.ofList line ++ "\n"
    if span.column < 0 then ⟨shown, false⟩
    else
      let indent := String.ofList (List.replicate span.column.toNatClampNeg ' ')
      ⟨shown ++ "  " ++ indent ++ renderer.paint "32" (caret span.length) ++ "\n", true⟩

def headline (renderer : Renderer) (diagnostic : Diagnostic) : String :=
  let span := diagnostic.span
  let place := renderer.fileName span ++ s!":{span.shownLine}:{span.shownColumn}: "
  let failure (category : Category) :=
    renderer.paint "31" "error:" ++ " " ++ diagnostic.message ++ " [" ++ category.name ++ "]\n"
  match diagnostic.verdict with
  | .warning flag =>
    place ++ renderer.paint "33" "warning:" ++ " " ++ diagnostic.message ++ " [-W" ++ flag ++ "]\n"
  | .error category => place ++ failure category
  | .remark category => place ++ failure category

def render (renderer : Renderer) (diagnostic : Diagnostic) : Rendering :=
  let excerpt := renderer.excerpt diagnostic.span
  { excerpt with text := renderer.headline diagnostic ++ excerpt.text }

/-- All findings, up to the first that cannot be drawn. -/
def renderAll (renderer : Renderer) : List Diagnostic -> Rendering
  | [] => ⟨"", true⟩
  | diagnostic :: diagnostics =>
    let first := renderer.render diagnostic
    if first.complete then
      let rest := renderer.renderAll diagnostics
      { rest with text := first.text ++ rest.text }
    else first

end Renderer

end PCode
