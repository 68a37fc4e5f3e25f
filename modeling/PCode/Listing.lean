import PCode.Config
import PCode.Instruction

namespace PCode

/-!
Code and its printed forms.

Code is a list of items: instructions, which count as addresses, and comments,
which do not.  The address of an instruction is the number of instructions
before it.  Code can be listed as bare instruction texts or printed line by line
in a style; both stop at the first instruction with an unresolved operand, and a
writer that gives out stops printing earlier.
-/

inductive Item where
  | instruction (instruction : Instruction)
  | comment (text : String)
deriving DecidableEq, Repr, Inhabited

abbrev Code := List Item

namespace Code

def emit (opcode : Opcode) (operands : List Operand) : Code :=
  [.instruction ⟨opcode, operands⟩]

/-- The instructions, comments left out. -/
def instructions (code : Code) : List Instruction :=
  code.filterMap fun item => match item with
    | .instruction instruction => some instruction
    | .comment _ => none

def size (code : Code) : Nat := code.instructions.length

end Code

structure Style where
  comments : Bool := true
  semicolons : Bool := true
  addresses : Bool := false
deriving DecidableEq, Repr, Inhabited

/-- The style that the settings ask for. -/
def Config.style (config : Config) : Style where
  comments := config.features .comments
  semicolons := config.features .semicolons
  addresses := config.features .addresses

/-- Why code could not be printed to its end. -/
inductive ListingError where
  | unresolved (opcode : Opcode) (address : Nat) (cause : Unresolved)
  /-- The writer gave out, with its own words. -/
  | writer (reason : String)
deriving DecidableEq, Repr, Inhabited

namespace ListingError

def message : ListingError -> String
  | .unresolved opcode address cause => s!"{opcode.mnemonic} at {address}: {cause.message}"
  | .writer reason => "writing instruction stream: " ++ reason

def isUnresolved : ListingError -> Bool
  | .unresolved .. => true
  | .writer _ => false

end ListingError

/-- Lines that were printed, and what stopped the printing. -/
structure Listing where
  lines : List String
  error : Option ListingError := none
deriving DecidableEq, Repr, Inhabited

namespace Listing

def text (listing : Listing) : String := String.join listing.lines

def push (line : String) (listing : Listing) : Listing :=
  { listing with lines := line :: listing.lines }

/-- What arrives at a writer that takes `limit` lines and then gives out. -/
def limited (listing : Listing) (limit : Nat) (reason : String) : Listing :=
  if listing.lines.length <= limit then listing
  else { lines := listing.lines.take limit, error := some (.writer reason) }

end Listing

namespace Style

def commentLine (text : String) : String := "\x7b " ++ text ++ " \x7d\n"

def instructionLine (style : Style) (address : Nat) (text : String) : String :=
  (if style.addresses then s!"{address}: " else "") ++ text
    ++ (if style.semicolons then ";" else "") ++ "\n"

end Style

namespace Code

/-- The texts of the instructions from an address on. -/
def textsFrom (bindings : Bindings) (address : Nat) : Code -> Except ListingError (List String)
  | [] => .ok []
  | .comment _ :: items => textsFrom bindings address items
  | .instruction instruction :: items =>
    match instruction.text bindings with
    | .error cause => .error (.unresolved instruction.opcode address cause)
    | .ok text =>
      match textsFrom bindings (address + 1) items with
      | .error error => .error error
      | .ok texts => .ok (text :: texts)

def texts (bindings : Bindings) (code : Code) : Except ListingError (List String) :=
  textsFrom bindings 0 code

def listingFrom (bindings : Bindings) (style : Style) (address : Nat) : Code -> Listing
  | [] => { lines := [] }
  | .comment text :: items =>
    let rest := listingFrom bindings style address items
    if style.comments then rest.push (Style.commentLine text) else rest
  | .instruction instruction :: items =>
    match instruction.text bindings with
    | .error cause =>
      { lines := [], error := some (.unresolved instruction.opcode address cause) }
    | .ok text =>
      (listingFrom bindings style (address + 1) items).push
        (style.instructionLine address text)

def listing (bindings : Bindings) (style : Style) (code : Code) : Listing :=
  listingFrom bindings style 0 code

end Code

end PCode
