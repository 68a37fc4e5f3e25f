namespace PCode

/-!
Places in source text.

A span names a file by its position in the list of source files, a line and a
column counted from zero, and a length in columns.  All four are machine
integers, because a tree may be built by hand with any of them; what is shown
to people counts from one and therefore wraps at the upper end.
-/

/-- The place of a node: file, line, column and length, counted from zero. -/
structure Span where
  file : Int64 := 0
  line : Int64 := 0
  column : Int64 := 0
  length : Int64 := 0
deriving DecidableEq, Repr, Inhabited

namespace Span

/-- The place of a finding that belongs to no file. -/
def nowhere : Span := { file := -1 }

/-- The line as people count it. -/
def shownLine (span : Span) : Int64 := span.line + 1

/-- The column as people count it. -/
def shownColumn (span : Span) : Int64 := span.column + 1

/-- Line and column as people count them, divided by a colon. -/
def text (span : Span) : String :=
  s!"{span.shownLine}:{span.shownColumn}"

end Span

end PCode
