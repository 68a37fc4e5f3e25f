namespace PCode

/-!
Settings of a compilation.

Features shape the code and its printed form; warnings decide which remarks are
made.  A dialect presets the printed form.  Flags of the shapes `-W<name>`,
`-Wno-<name>`, `-F<name>` and `-Fno-<name>` change single settings; the group
flags `-Wall`, `-Wno-all` and `-Wpedantic` are applied before all others, so a
single flag overrides a group wherever it stands.
-/

/-- A switch on the generated code or on its printed form. -/
inductive Feature where
  | comments
  | semicolons
  | addresses
  | boundsCheck
  | stackExtent
deriving DecidableEq, Repr, Inhabited

namespace Feature

def all : List Feature := [.comments, .semicolons, .addresses, .boundsCheck, .stackExtent]

/-- The name that flags use. -/
def name : Feature -> String
  | .comments => "comments"
  | .semicolons => "semicolons"
  | .addresses => "addresses"
  | .boundsCheck => "bounds-check"
  | .stackExtent => "stack-extent"

def description : Feature -> String
  | .comments => "Annotate the instruction stream with '\x7b ... \x7d' comments."
  | .semicolons => "Terminate every instruction with ';'."
  | .addresses => "Prefix every instruction with its code address."
  | .boundsCheck => "Emit 'chk' before every array subscript."
  | .stackExtent => "Emit 'sep' with the computed expression stack extent of each frame."

/-- The setting before any flag. -/
def initial : Feature -> Bool
  | .addresses => false
  | _ => true

def code (feature : Feature) : Nat := all.idxOf feature

def ofCode? (code : Int64) : Option Feature :=
  all.find? fun feature => Int64.ofNat feature.code == code

def ofName? (name : String) : Option Feature :=
  all.find? fun feature => feature.name == name

end Feature

/-- A kind of remark on a program that is accepted all the same. -/
inductive Warning where
  | shadow
  | unusedVar
  | unusedFunc
  | pedantic
  | extra
deriving DecidableEq, Repr, Inhabited

namespace Warning

def all : List Warning := [.shadow, .unusedVar, .unusedFunc, .pedantic, .extra]

/-- The name that flags use. -/
def name : Warning -> String
  | .shadow => "shadow"
  | .unusedVar => "unused-var"
  | .unusedFunc => "unused-func"
  | .pedantic => "pedantic"
  | .extra => "extra"

def description : Warning -> String
  | .shadow => "Warn when a declaration hides an outer binding."
  | .unusedVar => "Warn about variables that are never referenced."
  | .unusedFunc => "Warn about functions that are never called."
  | .pedantic => "Issue all warnings demanded by the strict dialect."
  | .extra => "Enable extra miscellaneous warnings."

/-- The setting before any flag. -/
def initial : Warning -> Bool
  | .unusedVar => true
  | .extra => true
  | _ => false

def code (warning : Warning) : Nat := all.idxOf warning

def ofCode? (code : Int64) : Option Warning :=
  all.find? fun warning => Int64.ofNat warning.code == code

def ofName? (name : String) : Option Warning :=
  all.find? fun warning => warning.name == name

end Warning

/-- The printed form of code: the bare machine listing or the annotated one. -/
inductive Dialect where
  | bare
  | annotated
deriving DecidableEq, Repr, Inhabited

namespace Dialect

/-- The name on the command line. -/
def name : Dialect -> String
  | .bare => "P"
  | .annotated => "Pa"

def ofName? (name : String) : Option Dialect :=
  [Dialect.bare, Dialect.annotated].find? fun dialect => dialect.name == name

/-- What a dialect demands of a feature, if it demands anything. -/
def preset : Dialect -> Feature -> Option Bool
  | _, .addresses => some false
  | .bare, .comments => some false
  | .bare, .semicolons => some false
  | .annotated, .comments => some true
  | .annotated, .semicolons => some true
  | _, _ => none

end Dialect

structure Config where
  features : Feature -> Bool := Feature.initial
  warnings : Warning -> Bool := Warning.initial
  dialect : Dialect := .annotated
deriving Inhabited

structure UnknownDialect where
  name : String
deriving DecidableEq, Repr

def UnknownDialect.message (refusal : UnknownDialect) : String :=
  s!"unsupported dialect '{refusal.name}'. Supported: 'P', 'Pa'"

namespace Config

/-- The settings before any flag. -/
def initial : Config := {}

def setFeature (config : Config) (feature : Feature) (enabled : Bool) : Config :=
  { config with
    features := fun other => if other = feature then enabled else config.features other }

def setWarning (config : Config) (warning : Warning) (enabled : Bool) : Config :=
  { config with
    warnings := fun other => if other = warning then enabled else config.warnings other }

/-- Turns on the warnings that the bare dialect demands of pedantic users. -/
def applyPedantic (config : Config) : Config :=
  if config.dialect = .bare && config.warnings .pedantic then
    (config.setWarning .shadow true).setWarning .unusedFunc true
  else config

/-- Selects a dialect: its presets replace what was set before. -/
def applyDialect (config : Config) (dialect : Dialect) : Config :=
  { config with
    features := fun feature => (dialect.preset feature).getD (config.features feature)
    dialect := dialect }.applyPedantic

def applyDialectNamed (config : Config) (name : String) : Except UnknownDialect Config :=
  match Dialect.ofName? name with
  | some dialect => .ok (config.applyDialect dialect)
  | none => .error ⟨name⟩

inductive Change where
  /-- Every warning but the pedantic one. -/
  | allWarnings (enabled : Bool)
  | warning (warning : Warning) (enabled : Bool)
  | feature (feature : Feature) (enabled : Bool)
  /-- A name that is not in the tables. -/
  | nothing
deriving DecidableEq, Repr

/-- The text after a leading part, or the whole text if it has none. -/
def withoutLead (lead text : List Char) : List Char :=
  if lead.isPrefixOf text then text.drop lead.length else text

/-- The change that names one warning, or all of them. -/
def warningChange (name : String) (enabled : Bool) : Change :=
  if name = "all" then .allWarnings enabled
  else match Warning.ofName? name with
    | some warning => .warning warning enabled
    | none => .nothing

def featureChange (name : String) (enabled : Bool) : Change :=
  match Feature.ofName? name with
  | some feature => .feature feature enabled
  | none => .nothing

/-- Reads a flag.  The dash may be missing, and a flag that starts with neither
letter names a warning to switch on. -/
def Change.ofFlag (flag : String) : Change :=
  match withoutLead ['-'] flag.toList with
  | 'W' :: 'n' :: 'o' :: '-' :: name => warningChange (String.ofList name) false
  | 'F' :: 'n' :: 'o' :: '-' :: name => featureChange (String.ofList name) false
  | 'W' :: name => warningChange (String.ofList name) true
  | 'F' :: name => featureChange (String.ofList name) true
  | name => warningChange (String.ofList name) true

def apply (config : Config) : Change -> Config
  | .allWarnings enabled =>
    { config with
      warnings := fun warning =>
        if warning = .pedantic then config.warnings warning else enabled }
  | .warning warning enabled => config.setWarning warning enabled
  | .feature feature enabled => config.setFeature feature enabled
  | .nothing => config

/-- The flags that are applied before all others. -/
def isGroupFlag (flag : String) : Bool :=
  flag == "-Wall" || flag == "-Wno-all" || flag == "-Wpedantic"

def applyFlags (config : Config) (flags : List String) : Config :=
  flags.foldl (fun config flag => config.apply (.ofFlag flag)) config

/-- Carries out the group flags, then what a pedantic user of the bare dialect
gets, then all other flags. -/
def processFlags (config : Config) (flags : List String) : Config :=
  let grouped := config.applyFlags (flags.filter isGroupFlag)
  let demanded := if "-Wpedantic" ∈ flags then grouped.applyPedantic else grouped
  demanded.applyFlags (flags.filter fun flag => !isGroupFlag flag)

end Config

end PCode
