namespace PCode
namespace Path

/-!
Paths as texts.

A path is a text of parts divided by slashes.  Its clean form has no empty parts
and no single dots, and two dots only at its start.
-/

def parts (path : String) : List String := (path.toList.splitOn '/').map String.ofList

/-- One part after those that are kept so far, the last of them first. -/
def keep (rooted : Bool) (kept : List String) (part : String) : List String :=
  if part = "" || part = "." then kept
  else if part = ".." then
    match kept with
    | [] => if rooted then [] else [".."]
    | last :: before => if last = ".." then ".." :: kept else before
  else part :: kept

/-- The shortest path with the same meaning. -/
def clean (path : String) : String :=
  let rooted := path.startsWith "/"
  let kept := ((parts path).foldl (keep rooted) []).reverse
  let joined := "/".intercalate kept
  if rooted then "/" ++ joined else if kept.isEmpty then "." else joined

def join (first second : String) : String :=
  if first.isEmpty then (if second.isEmpty then "" else clean second)
  else clean (first ++ "/" ++ second)

/-- What stands up to the last slash, that slash included. -/
def upToSlash (path : String) : String :=
  String.join ((parts path).dropLast.map fun part => part ++ "/")

def behindSlash (path : String) : String := (parts path).getLastD ""

def directory (path : String) : String := clean (upToSlash path)

/-- The last part of a path, slashes at its end left out. -/
def base (path : String) : String :=
  if path.isEmpty then "."
  else
    match (parts path).reverse.dropWhile String.isEmpty with
    | [] => "/"
    | last :: _ => last

/-- The end of the last part from its last dot on. -/
def extension (path : String) : String :=
  let last := (behindSlash path).toList
  if last.contains '.' then
    String.ofList ('.' :: (last.reverse.takeWhile fun char => char != '.').reverse)
  else ""

def stem (path : String) : String :=
  let name := (base path).toList
  let ending := (extension path).toList
  if ending.isSuffixOf name then String.ofList (name.take (name.length - ending.length))
  else String.ofList name

end Path
end PCode
