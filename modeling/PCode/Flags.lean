import PCode.Flags.Value

namespace PCode

/-!
Flags on a command line.

A flag has a name and may have a shorthand; only a shorthand of one ASCII
character is ever recognised.  A flag is written `--name value` or
`--name=value`, with one dash or with two; behind one dash the shorthand may
stand for the name, and then the value may follow it directly.  A truth value
takes no separate argument.  A family collects every
argument that starts with its stem behind one dash.  Everything else, and
everything behind `--`, is an argument of the command.

How an argument is read depends on the flags that are defined and on nothing
that comes before it on the command line.
-/

structure Flag where
  name : String
  shorthand : String := ""
  usage : String := ""
  value : FlagValue
  /-- The value before any setting, as help shows it. -/
  initial : String := ""
  /-- What help calls the value. -/
  expected : String := ""
deriving DecidableEq, Repr, Inhabited

/-- A member of a family, for help only. -/
structure FamilyEntry where
  name : String
  usage : String
  enabled : Bool
deriving DecidableEq, Repr, Inhabited

/-- A description of a family, for help only. -/
structure FamilyHelp where
  title : String
  stem : String
  entries : List FamilyEntry
deriving DecidableEq, Repr, Inhabited

/-- The arguments that a family has collected. -/
structure Family where
  stem : String
  collected : List String := []
deriving DecidableEq, Repr, Inhabited

/-- The flags of a command and what was read so far. -/
structure FlagSet where
  flags : List Flag := []
  /-- Shorthands with the names of their flags. -/
  shorthands : List (String × String) := []
  families : List Family := []
  helps : List FamilyHelp := []
  args : List String := []
deriving DecidableEq, Repr, Inhabited

namespace FlagSet

inductive Fault where
  | emptyName
  | redefined (name : String)
  | shorthandRedefined (shorthand : String)
deriving DecidableEq, Repr, Inhabited

def Fault.message : Fault -> String
  | .emptyName => "flag name cannot be empty"
  | .redefined name => s!"flag redefined: {name}"
  | .shorthandRedefined shorthand => s!"shorthand flag redefined: {shorthand}"

def find? (set : FlagSet) (name : String) : Option Flag :=
  set.flags.find? fun flag => flag.name == name

/-- Defines a flag.  A flag whose shorthand is taken is defined all the same,
but its shorthand goes on to mean the other flag. -/
def define (set : FlagSet) (flag : Flag) : FlagSet × Option Fault :=
  if flag.name.isEmpty then (set, some .emptyName)
  else if (set.find? flag.name).isSome then (set, some (.redefined flag.name))
  else
    let added := { set with flags := set.flags ++ [flag] }
    if flag.shorthand.isEmpty then (added, none)
    else if (set.shorthands.lookup flag.shorthand).isSome then
      (added, some (.shorthandRedefined flag.shorthand))
    else ({ added with shorthands := set.shorthands ++ [(flag.shorthand, flag.name)] }, none)

def defineText (set : FlagSet) (name shorthand value usage expected : String) :
    FlagSet × Option Fault :=
  set.define { name, shorthand, usage, value := .text value, initial := value, expected }

def defineToggle (set : FlagSet) (name shorthand : String) (value : Bool) (usage : String) :
    FlagSet × Option Fault :=
  let initial := FlagValue.toggle value
  set.define { name, shorthand, usage, value := initial, initial := initial.shown }

def defineNumber (set : FlagSet) (name shorthand : String) (value : Int64) (usage : String) :
    FlagSet × Option Fault :=
  let initial := FlagValue.number value
  set.define
    { name, shorthand, usage, value := initial, initial := initial.shown, expected := "n" }

def defineTexts (set : FlagSet) (name shorthand usage expected : String) :
    FlagSet × Option Fault :=
  set.define { name, shorthand, usage, value := .texts [], expected }

/-- Defines a family.  A stem that is defined again starts afresh, but both
descriptions stay in help. -/
def defineFamily (set : FlagSet) (stem title : String) (entries : List FamilyEntry) : FlagSet :=
  { set with
    families := (set.families.filter fun family => family.stem != stem) ++ [{ stem }]
    helps := set.helps ++ [{ title, stem, entries }] }

def collected (set : FlagSet) (stem : String) : List String :=
  ((set.families.find? fun family => family.stem == stem).map Family.collected).getD []

inductive Reading where
  /-- All that follows are arguments. -/
  | terminator
  | argument
  | member (stem : String)
  | setting (name value : String)
  /-- A flag whose setting is the next argument. -/
  | awaiting (name spelled : String)
  | failed (error : FlagError)
deriving DecidableEq, Repr, Inhabited

/-- Divides a text at its first equals sign. -/
def cutSetting : List Char -> List Char × Option (List Char)
  | [] => ([], none)
  | char :: chars =>
    if char = '=' then ([], some chars)
    else
      let (name, setting) := cutSetting chars
      (char :: name, setting)

/-- How a flag is read that is spelled `spelled` and has the setting that was
written with it. -/
def readFound (flag : Flag) (spelled : String) : Option (List Char) -> Reading
  | some setting => .setting flag.name (String.ofList setting)
  | none => if flag.value.isToggle then .setting flag.name "" else .awaiting flag.name spelled

/-- How a flag is read that is written behind `dashes`. -/
def readFlag (set : FlagSet) (dashes : String) (body : List Char) : Reading :=
  let (name, setting) := cutSetting body
  let spelled := dashes ++ String.ofList name
  match name with
  | [] => .failed .emptyName
  | letter :: letters =>
    match set.find? (String.ofList name) with
    | some flag => readFound flag spelled setting
    | none =>
      let short :=
        if dashes = "-" && letter.toNat < 128 then
          set.shorthands.lookup (String.singleton letter)
        else none
      match short.bind set.find? with
      | none => .failed (.unknown spelled)
      | some flag =>
        readFound flag spelled
          (if setting.isNone && !letters.isEmpty then some letters else setting)

def familyOf? (set : FlagSet) (arg : List Char) : Option Family :=
  set.families.find? fun family =>
    let lead := '-' :: family.stem.toList
    lead.isPrefixOf arg && lead.length < arg.length

def read (set : FlagSet) (arg : String) : Reading :=
  match arg.toList with
  | ['-', '-'] => .terminator
  | '-' :: '-' :: body => set.readFlag "--" body
  | ['-'] => .argument
  | '-' :: body =>
    match set.familyOf? ('-' :: body) with
    | some family => .member family.stem
    | none => set.readFlag "-" body
  | _ => .argument

def collect (set : FlagSet) (stem arg : String) : FlagSet :=
  { set with
    families := set.families.map fun family =>
      if family.stem = stem then { family with collected := family.collected ++ [arg] }
      else family }

/-- Gives flags of a name a new value. -/
def update (set : FlagSet) (name : String) (value : FlagValue) : FlagSet :=
  { set with
    flags := set.flags.map fun flag =>
      if flag.name = name then { flag with value := value } else flag }

def assign (set : FlagSet) (name setting : String) : Except FlagError FlagSet :=
  match set.find? name with
  | some flag => (flag.value.set setting).map (set.update name)
  | none => .error (.unknown name)

/-- Reads arguments behind those that are read already.  What was read before an
error stays. -/
def parseFrom (set : FlagSet) : List String -> FlagSet × Option FlagError
  | [] => (set, none)
  | arg :: rest =>
    match set.read arg with
    | .terminator => ({ set with args := set.args ++ rest }, none)
    | .argument => parseFrom { set with args := set.args ++ [arg] } rest
    | .member stem => parseFrom (set.collect stem arg) rest
    | .failed error => (set, some error)
    | .setting name value =>
      match set.assign name value with
      | .ok set => parseFrom set rest
      | .error error => (set, some error)
    | .awaiting name spelled =>
      match rest with
      | [] => (set, some (.needsArgument spelled))
      | value :: rest =>
        match set.assign name value with
        | .ok set => parseFrom set rest
        | .error error => (set, some error)

def parse (set : FlagSet) (arguments : List String) : FlagSet × Option FlagError :=
  parseFrom { set with args := [] } arguments

end FlagSet

end PCode
