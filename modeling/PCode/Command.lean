namespace PCode

/-!
What a command leaves behind besides files: its exit status and what it wrote to
its two outputs.
-/

structure Outcome where
  exit : Nat := 0
  stdout : String := ""
  stderr : String := ""
deriving DecidableEq, Repr, Inhabited

namespace Outcome

def failure (stderr : String) : Outcome := { exit := 1, stderr }

/-- The outcome of one step after another: the texts are joined, and the status
is that of the second. -/
def andThen (first second : Outcome) : Outcome :=
  { exit := second.exit
    stdout := first.stdout ++ second.stdout
    stderr := first.stderr ++ second.stderr }

end Outcome

end PCode
