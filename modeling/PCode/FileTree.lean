import PCode.Path

namespace PCode

/-!
A tree of files, as far as the tools look at one.

Paths are relative to one directory.  A path is walked part by part: empty parts
and single dots stay, two dots go up, every part before the last must be a
directory, and a path that ends in a slash must name one.  Nothing above the
directory can be seen: there, every name is missing.
-/

/-- Why a path could not be used. -/
inductive FileError where
  | notFound
  | isDirectory
  | notDirectory
  | invalid
  | nameTooLong
  | notPermitted
deriving DecidableEq, Repr, Inhabited

/-- The wording of the operating system. -/
def FileError.message : FileError -> String
  | .notFound => "no such file or directory"
  | .isDirectory => "is a directory"
  | .notDirectory => "not a directory"
  | .invalid => "invalid argument"
  | .nameTooLong => "file name too long"
  | .notPermitted => "permission denied"

structure PathError where
  operation : String
  path : String
  cause : FileError
deriving DecidableEq, Repr, Inhabited

def PathError.message (error : PathError) : String :=
  error.operation ++ " " ++ error.path ++ ": " ++ error.cause.message

inductive FileEntry where
  | directory
  | file (content : ByteArray)

/-- Directories and files, each under its path from the top. -/
structure FileTree where
  directories : List (List String) := []
  files : List (List String × ByteArray) := []
  programs : List (List String) := []

namespace FileTree

def entry? (tree : FileTree) (place : List String) : Option FileEntry :=
  match tree.files.find? fun (name, _) => name == place with
  | some (_, content) => some (.file content)
  | none =>
    if place.isEmpty || tree.directories.contains place
        || tree.files.any (fun (name, _) => place.isPrefixOf name)
        || tree.directories.any (fun name => place.isPrefixOf name) then
      some .directory
    else none

/-- Where a walk has come to: inside the tree, or so many levels above it. -/
inductive Position where
  | inside (place : List String)
  | above (levels : Nat)
deriving DecidableEq, Repr

/-- One step of a walk, from a directory. -/
def step (position : Position) (part : String) : Option Position :=
  if part = "" || part = "." then some position
  else match position with
    | .inside place =>
      if part = ".." then
        some (if place.isEmpty then .above 1 else .inside place.dropLast)
      else some (.inside (place ++ [part]))
    | .above levels => if part = ".." then some (.above (levels + 1)) else none

/-- Walks the parts before the last one, all of which must be directories. -/
def walk (tree : FileTree) (position : Position) : List String -> Except FileError Position
  | [] => .ok position
  | part :: rest =>
    if part.utf8ByteSize > 255 then .error .nameTooLong
    else match step position part with
      | none => .error .notFound
      | some (.above levels) => walk tree (.above levels) rest
      | some (.inside place) =>
        match tree.entry? place with
        | some .directory => walk tree (.inside place) rest
        | some (.file _) => .error .notDirectory
        | none => .error .notFound

/-- A path taken apart: the place it names, and whether it asks for a directory
by ending in a slash or a dot. -/
def locate (tree : FileTree) (path : String) : Except FileError (Position × Bool) :=
  if path = "" then .error .notFound
  else if path.toList.contains (Char.ofNat 0) then .error .invalid
  else if path.startsWith "/" then .error .notFound
  else
    let named := (Path.parts path).reverse.dropWhile fun part => part == "" || part == "."
    let closed := (Path.parts path).getLast? == some "" || (Path.parts path).getLast? == some "."
    match named with
    | [] => .ok (.inside [], true)
    | last :: before =>
      match walk tree (.inside []) before.reverse with
      | .error error => .error error
      | .ok position =>
        if last.utf8ByteSize > 255 then .error .nameTooLong
        else match step position last with
          | none => .error .notFound
          | some position => .ok (position, closed || last == "..")

def lookup (tree : FileTree) (path : String) : Except FileError FileEntry :=
  match tree.locate path with
  | .error error => .error error
  | .ok (.above _, _) => .ok .directory
  | .ok (.inside place, mustBeDirectory) =>
    match tree.entry? place with
    | none => .error .notFound
    | some (.file content) =>
      if mustBeDirectory then .error .notDirectory else .ok (.file content)
    | some .directory => .ok .directory

def read (tree : FileTree) (path : String) : Except PathError ByteArray :=
  match tree.lookup path with
  | .error error => .error ⟨"open", path, error⟩
  | .ok .directory => .error ⟨"read", path, .isDirectory⟩
  | .ok (.file content) => .ok content

def put (tree : FileTree) (place : List String) (content : ByteArray) : FileTree :=
  { tree with
    files := tree.files.filter (fun (name, _) => name != place) ++ [(place, content)] }

def write (tree : FileTree) (path : String) (content : ByteArray) :
    Except PathError FileTree :=
  match tree.locate path with
  | .error error => .error ⟨"open", path, error⟩
  | .ok (.above _, _) => .error ⟨"open", path, .isDirectory⟩
  | .ok (.inside place, mustBeDirectory) =>
    match tree.entry? place with
    | some .directory => .error ⟨"open", path, .isDirectory⟩
    | some (.file _) =>
      if mustBeDirectory then .error ⟨"open", path, .notDirectory⟩
      else .ok (tree.put place content)
    | none =>
      if mustBeDirectory then .error ⟨"open", path, .isDirectory⟩
      else .ok (tree.put place content)

def remove (tree : FileTree) (path : String) : FileTree :=
  match tree.locate path with
  | .ok (.inside place, false) =>
    { tree with files := tree.files.filter fun (name, _) => name != place }
  | _ => tree

def exists? (tree : FileTree) (path : String) : Bool := (tree.lookup path).toBool

/-- The name of a place right below a directory. -/
def childOf? (directory place : List String) : Option String :=
  if directory.isPrefixOf place then (place.drop directory.length).head? else none

/-- The names in a directory, in no particular order. -/
def names (tree : FileTree) (directory : List String) : List String :=
  ((tree.files.map Prod.fst ++ tree.directories).filterMap (childOf? directory)).eraseDups

/-- The names in the directory at a path, if one stands there. -/
def list (tree : FileTree) (path : String) : Option (List String) :=
  match tree.lookup path with
  | .ok .directory =>
    match tree.locate path with
    | .ok (.inside place, _) => some (tree.names place)
    | _ => some []
  | _ => none

/-- Makes directories below a place, each inside the one before.  A file that
stands in the way is an error at its own path. -/
def makeBelow (tree : FileTree) (place : List String) (path : String) :
    List String -> Except PathError FileTree
  | [] => .ok tree
  | part :: rest =>
    let path := if path.isEmpty then part else path ++ "/" ++ part
    let place := if part = ".." then place.dropLast else place ++ [part]
    match tree.entry? place with
    | some (.file _) => .error ⟨"mkdir", path, .notDirectory⟩
    | some .directory => makeBelow tree place path rest
    | none => makeBelow { tree with directories := tree.directories ++ [place] } place path rest

def makeDirectories (tree : FileTree) (path : String) : Except PathError FileTree :=
  if path.startsWith "/" then .error ⟨"mkdir", path, .notPermitted⟩
  else
    tree.makeBelow [] "" ((Path.parts path).filter fun part => part != "" && part != ".")

end FileTree

end PCode
