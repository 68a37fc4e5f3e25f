import PCode.FileTree

namespace PCode

/-!
What the tools ask of the system they run on.

The tools are written against these operations.  A tree of files that is passed
along is one system; the files of the machine are another.
-/

structure Host (m : Type -> Type) where
  read : String -> m (Except PathError ByteArray)
  write : String -> ByteArray -> m (Except PathError Unit)
  remove : String -> m Unit

/-- A tree of files as a system. -/
def FileTree.host : Host (StateM FileTree) where
  read := fun path => do return (← get).read path
  write := fun path content => do
    match (← get).write path content with
    | .error error => return .error error
    | .ok tree => set tree; return .ok ()
  remove := fun path => modify fun tree => tree.remove path

end PCode
