import PCode.Path
import PCode.Text.Utf8

namespace PCode

/-!
Patterns for file names.

A star stands for any bytes and a question mark for one character, neither for a
slash.  A class in brackets stands for one character of given ranges, or of none
of them.  A backslash takes the next character as it is.  A pattern is cut at its
stars into chunks; every chunk is matched at the first place where it fits, and
the last one must reach the end of the name.
-/

inductive BadPattern where
  | badPattern
deriving DecidableEq, Repr, Inhabited

def BadPattern.message : BadPattern -> String
  | .badPattern => "syntax error in pattern"

namespace Glob

/-- What stands for one character, or for one byte of it. -/
inductive Piece where
  | byte (value : UInt8)
  | anyChar
  | charClass (negated : Bool) (ranges : List (Char × Char))
deriving DecidableEq, Repr, Inhabited

/-- A part of a pattern between two stars. -/
structure Chunk where
  star : Bool
  pieces : List Piece
deriving DecidableEq, Repr, Inhabited

/-- One character of a class, and what follows it.  Something must follow. -/
def classChar : List Char -> Except BadPattern (Char × List Char)
  | '-' :: _ => .error .badPattern
  | ']' :: _ => .error .badPattern
  | '\\' :: char :: next :: rest => .ok (char, next :: rest)
  | '\\' :: _ => .error .badPattern
  | char :: next :: rest => .ok (char, next :: rest)
  | _ => .error .badPattern

/-- The ranges of a class behind those read so far, and what follows the class. -/
def classRanges (fuel : Nat) (read : List (Char × Char)) (chars : List Char) :
    Except BadPattern (List (Char × Char) × List Char) :=
  match fuel with
  | 0 => .error .badPattern
  | fuel + 1 =>
    match chars, read with
    | ']' :: rest, _ :: _ => .ok (read, rest)
    | _, _ =>
      match classChar chars with
      | .error error => .error error
      | .ok (low, '-' :: rest) =>
        match classChar rest with
        | .error error => .error error
        | .ok (high, rest) => classRanges fuel (read ++ [(low, high)]) rest
      | .ok (low, rest) => classRanges fuel (read ++ [(low, low)]) rest

/-- The bytes of a character, each standing for itself. -/
def literal (char : Char) : List Piece :=
  (String.singleton char).toUTF8.toList.map Piece.byte

def extend (chunks : List Chunk) (pieces : List Piece) : List Chunk :=
  match chunks.reverse with
  | [] => [{ star := false, pieces }]
  | last :: before => (before.reverse ++ [{ last with pieces := last.pieces ++ pieces }])

/-- Starts a chunk behind a star, unless one has just been started. -/
def startChunk (chunks : List Chunk) : List Chunk :=
  match chunks.getLast? with
  | some { star := true, pieces := [] } => chunks
  | _ => chunks ++ [{ star := true, pieces := [] }]

/-- Reads a pattern behind the chunks read so far. -/
def parseFrom (fuel : Nat) (chunks : List Chunk) (chars : List Char) :
    Except BadPattern (List Chunk) :=
  match fuel, chars with
  | _, [] => .ok chunks
  | 0, _ => .error .badPattern
  | fuel + 1, '*' :: rest => parseFrom fuel (startChunk chunks) rest
  | fuel + 1, '?' :: rest => parseFrom fuel (extend chunks [.anyChar]) rest
  | fuel + 1, '\\' :: char :: rest => parseFrom fuel (extend chunks (literal char)) rest
  | _ + 1, ['\\'] => .error .badPattern
  | fuel + 1, '[' :: rest =>
    let (negated, rest) := match rest with
      | '^' :: rest => (true, rest)
      | rest => (false, rest)
    match classRanges (rest.length + 1) [] rest with
    | .error error => .error error
    | .ok (ranges, rest) => parseFrom fuel (extend chunks [.charClass negated ranges]) rest
  | fuel + 1, char :: rest => parseFrom fuel (extend chunks (literal char)) rest

def parse (pattern : String) : Except BadPattern (List Chunk) :=
  parseFrom (pattern.length + 1) [] pattern.toList

/-- The slash, which only matches itself. -/
def slash : UInt8 := 0x2f

/-- The first character of bytes and what follows it. -/
def firstChar (bytes : List UInt8) : Char × List UInt8 :=
  match bytes with
  | [] => (Text.replacement, [])
  | a :: rest =>
    if a < 0x80 then (Char.ofNat a.toNat, rest)
    else
      match rest.head?.bind (Text.char2? a) with
      | some char => (char, rest.drop 1)
      | none =>
        match rest with
        | b :: c :: rest' =>
          match Text.char3? a b c with
          | some char => (char, rest')
          | none =>
            match rest'.head?.bind (Text.char4? a b c) with
            | some char => (char, rest'.drop 1)
            | none => (Text.replacement, rest)
        | _ => (Text.replacement, rest)

/-- What is left of a name behind one piece. -/
def matchPiece (piece : Piece) (name : List UInt8) : Option (List UInt8) :=
  match name with
  | [] => none
  | first :: rest =>
    match piece with
    | .byte value => if value = first then some rest else none
    | .anyChar => if first = slash then none else some (firstChar name).2
    | .charClass negated ranges =>
      let (char, rest) := firstChar name
      let listed := ranges.any fun (low, high) => low <= char && char <= high
      if listed == negated then none else some rest

/-- What is left of a name behind the pieces of a chunk. -/
def matchPieces : List Piece -> List UInt8 -> Option (List UInt8)
  | [], name => some name
  | piece :: pieces, name => (matchPiece piece name).bind (matchPieces pieces)

/-- What is left of a name behind a chunk at its start.  The last chunk must
leave nothing. -/
def fits (chunk : Chunk) (isLast : Bool) (name : List UInt8) : Option (List UInt8) :=
  (matchPieces chunk.pieces name).filter fun rest => rest.isEmpty || !isLast

/-- What is left of a name behind the first place where a chunk fits. -/
def matchChunk (chunk : Chunk) (isLast : Bool) : List UInt8 -> Option (List UInt8)
  | [] => fits chunk isLast []
  | first :: rest =>
    match fits chunk isLast (first :: rest) with
    | some left => some left
    | none => if chunk.star && first != slash then matchChunk chunk isLast rest else none

def matchChunks : List Chunk -> List UInt8 -> Bool
  | [], name => name.isEmpty
  | chunk :: chunks, name =>
    if chunk.star && chunk.pieces.isEmpty then !name.contains slash
    else
      match matchChunk chunk chunks.isEmpty name with
      | some rest => matchChunks chunks rest
      | none => false

def isMatch (pattern name : String) : Except BadPattern Bool :=
  (parse pattern).map fun chunks => matchChunks chunks name.toUTF8.toList

/-- Whether a pattern stands for more than itself. -/
def hasMeta (pattern : String) : Bool :=
  pattern.toList.any fun char => char == '*' || char == '?' || char == '[' || char == '\\'

/-- The directory part of a pattern, without the slash at its end. -/
def directoryPart (pattern : String) : String :=
  let directory := Path.upToSlash pattern
  if directory.isEmpty then "."
  else if directory = "/" then directory
  else String.ofList directory.toList.dropLast

/-- What the search for files needs of a system. -/
structure Search (m : Type -> Type) where
  exists? : String -> m Bool
  list : String -> m (Option (List String))

section

variable {m : Type -> Type} [Monad m]

/-- The paths in a directory whose names are matched, sorted by name. -/
def inDirectory (search : Search m) (chunks : List Chunk) (directory : String) :
    m (List String) := do
  match ← search.list directory with
  | none => return []
  | some names =>
    let sorted := names.mergeSort fun first second => first <= second
    return (sorted.filter fun name => matchChunks chunks name.toUTF8.toList).map
      (Path.join directory)

/-- The paths in directories whose names are matched, one directory after
another. -/
def inDirectories (search : Search m) (chunks : List Chunk) : List String -> m (List String)
  | [] => return []
  | directory :: directories => do
    let first ← inDirectory search chunks directory
    let rest ← inDirectories search chunks directories
    return first ++ rest

/-- The paths that a pattern stands for.  A pattern for directories is expanded
first; a pattern has fewer slashes than characters, so its length bounds the
steps. -/
def expandWith (search : Search m) : Nat -> String -> m (Except BadPattern (List String))
  | 0, _ => return .error .badPattern
  | fuel + 1, pattern => do
    match parse pattern with
    | .error error => return .error error
    | .ok _ =>
      if !hasMeta pattern then
        return .ok (if ← search.exists? pattern then [pattern] else [])
      else
        let directory := directoryPart pattern
        match parse (Path.behindSlash pattern) with
        | .error error => return .error error
        | .ok chunks =>
          if !hasMeta directory then return .ok (← inDirectory search chunks directory)
          else
            match ← expandWith search fuel directory with
            | .error error => return .error error
            | .ok directories => return .ok (← inDirectories search chunks directories)

/-- The paths that a pattern stands for. -/
def expand (search : Search m) (pattern : String) : m (Except BadPattern (List String)) :=
  expandWith search (pattern.length + 2) pattern

end

end Glob
end PCode
