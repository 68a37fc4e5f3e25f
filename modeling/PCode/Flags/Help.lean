import PCode.Flags
import PCode.Text.Blank

namespace PCode

/-!
Help pages.

A help page lists the flags by name and then every family with its members.  It
has two columns: names on the left, as wide as the longest of them, and wrapped
descriptions on the right.  Widths of text are counted in bytes, and padding is
counted in characters.
-/

/-- What a help page says about a command. -/
structure Manual where
  name : String
  synopsis : String := ""
  description : String := ""
  repository : String := ""
deriving DecidableEq, Repr, Inhabited

namespace Help

/-- Fills lines of at most `width` bytes with words, the first line starting as
`line`.  A word that is longer than the width has a line of its own. -/
def fill (width : Nat) (line : String) : List String -> List String
  | [] => [line]
  | word :: words =>
    if line.utf8ByteSize + 1 + word.utf8ByteSize > width then line :: fill width word words
    else fill width (line ++ " " ++ word) words

/-- Wraps a text greedily.  Without a proper width the text stays as it is. -/
def wrap (text : String) (width : Int64) : List String :=
  match Text.words text with
  | [] => []
  | word :: words => if width <= 0 then [text] else fill width.toNatClampNeg word words

/-- The widest column that is laid out. -/
def widestColumn : Int64 := 1000000

/-- Pads a text with spaces on the right.  A column that is too wide is marked
and not padded. -/
def pad (width : Int64) (text : String) : String :=
  if width > widestColumn then "%!(BADWIDTH)" ++ text
  else text ++ String.ofList (List.replicate (width.toNatClampNeg - text.length) ' ')

/-- The space in front of every line. -/
def indent : String := "    "

def byteCount (text : String) : Int64 := Int64.ofNat text.utf8ByteSize

/-- The width of the column of descriptions, which is never below ten. -/
def usageWidth (width left : Int64) (mark : String) : Int64 :=
  let room := width - byteCount indent - left - 1 - byteCount mark - 2
  if room < 10 then 10 else room

/-- The lines of one entry: name, description and a mark behind it. -/
def entryLines (width left : Int64) (name usage mark : String) : List String :=
  let room := usageWidth width left mark
  let lines := wrap usage room
  let first := lines.headD ""
  let head :=
    if mark.isEmpty then indent ++ pad left name ++ " " ++ first
    else indent ++ pad left name ++ " " ++ pad room first ++ "  " ++ mark
  let margin := indent ++ String.ofList (List.replicate (left + 1).toNatClampNeg ' ')
  head :: (lines.drop 1).map fun line => margin ++ line

def flagText (flag : Flag) : String :=
  (if flag.shorthand.isEmpty then "" else s!"-{flag.shorthand}, ")
    ++ "--" ++ flag.name
    ++ (if flag.value.isToggle || flag.expected.isEmpty then "" else s!" <{flag.expected}>")

def flagMark (flag : Flag) : String :=
  if flag.value.isToggle || flag.initial.isEmpty then "" else s!"|{flag.initial}|"

def enableText (family : FamilyHelp) : String := "-" ++ family.stem ++ "<name>"

def disableText (family : FamilyHelp) : String := "-" ++ family.stem ++ "no-<name>"

def nameWidth (set : FlagSet) : Int64 :=
  let names := set.flags.map flagText
    ++ set.helps.flatMap fun family => disableText family :: family.entries.map FamilyEntry.name
  names.foldl (fun width name => max width (byteCount name)) 0

def flagLines (width : Int64) (set : FlagSet) : List String :=
  if set.flags.isEmpty then []
  else
    let sorted := set.flags.mergeSort fun left right => left.name <= right.name
    ["", "Options"] ++ sorted.flatMap fun flag =>
      entryLines width (nameWidth set) (flagText flag) flag.usage (flagMark flag)

def familyLines (width left : Int64) (family : FamilyHelp) : List String :=
  let sorted := family.entries.mergeSort fun first second => first.name <= second.name
  ["", family.title]
    ++ entryLines width left (enableText family) "Enable <name>" ""
    ++ entryLines width left (disableText family) "Disable <name>" ""
    ++ sorted.flatMap fun entry =>
      entryLines width left entry.name entry.usage (if entry.enabled then "|x|" else "|-|")

def lines (manual : Manual) (set : FlagSet) (width : Int64) : List String :=
  (if manual.synopsis.isEmpty then []
    else ["", "Synopsis", indent ++ manual.name ++ " " ++ manual.synopsis])
  ++ (if manual.description.isEmpty then []
    else ["", "Description"]
      ++ (wrap manual.description (width - byteCount indent)).map fun line => indent ++ line)
  ++ flagLines width set
  ++ set.helps.flatMap (familyLines width (nameWidth set))
  ++ (if manual.repository.isEmpty then []
    else ["", "For more details refer to " ++ manual.repository])

def page (manual : Manual) (set : FlagSet) (width : Int64) : String :=
  String.join ((lines manual set width).map fun line => line ++ "\n")

/-- The width of a page where no terminal says otherwise. -/
def defaultWidth : Int64 := 80

end Help

/-- How the reading of a command line ends. -/
inductive Invocation where
  /-- The help flag is defined already, or its shorthand is taken. -/
  | fault (fault : FlagSet.Fault)
  | failed (error : FlagError)
  /-- Help is asked for. -/
  | help (page : String)
  | run (args : List String)
deriving DecidableEq, Repr, Inhabited

/-- The words for a command line that does not lead to the command itself. -/
def Invocation.message? : Invocation -> Option String
  | .fault cause => some cause.message
  | .failed cause => some cause.message
  | .help _ => some "help requested"
  | .run _ => none

namespace Manual

/-- Reads a command line, with a flag for help besides those defined. -/
def invoke (manual : Manual) (set : FlagSet) (arguments : List String) : FlagSet × Invocation :=
  match set.defineToggle "help" "h" false "Display this information" with
  | (set, some fault) => (set, .fault fault)
  | (set, none) =>
    match set.parse arguments with
    | (set, some error) => (set, .failed error)
    | (set, none) =>
      let wanted := (set.find? "help").map Flag.value == some (.toggle true)
      if wanted then (set, .help (Help.page manual set Help.defaultWidth))
      else (set, .run set.args)

/-- What is told about a command line that cannot be read. -/
def advice (manual : Manual) (error : FlagError) : String :=
  error.message ++ "\n" ++ s!"Run '{manual.name} --help' for all available options.\n"

end Manual

end PCode
