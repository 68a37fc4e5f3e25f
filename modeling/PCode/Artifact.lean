import PCode.Host
import PCode.Listing

namespace PCode

/-!
Code written to a file.

The file is created first and filled then.  If the code cannot be printed to its
end the file is removed again, so that no partial file is left behind.
-/

/-- Why no file was written. -/
inductive ArtifactError where
  | create (path : String) (cause : PathError)
  | listing (path : String) (cause : ListingError)
deriving DecidableEq, Repr, Inhabited

namespace ArtifactError

def message : ArtifactError -> String
  | .create path cause => s!"creating output file '{path}': {cause.message}"
  | .listing path cause => s!"writing '{path}': {cause.message}"

def isUnresolved : ArtifactError -> Bool
  | .create .. => false
  | .listing _ cause => cause.isUnresolved

end ArtifactError

def Listing.writeTo {m : Type -> Type} [Monad m] (host : Host m) (path : String)
    (listing : Listing) : m (Except ArtifactError Unit) := do
  match ← host.write path listing.text.toUTF8 with
  | .error cause => return .error (.create path cause)
  | .ok () =>
    match listing.error with
    | none => return .ok ()
    | some cause =>
      host.remove path
      return .error (.listing path cause)

end PCode
