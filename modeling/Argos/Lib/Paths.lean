import Argos.Lib.Words

/-!
# Paths

A path is a text. Absolute paths are compared by their components, in which repeated and trailing
separators and the component `.` do not show.
-/

namespace Argos.Lib

/-- `Path::components` of an absolute path: the root directory and the names. -/
def components (path : Text) : List Text :=
  ['/'] :: (path.splitOn '/').filter fun name => name ≠ [] ∧ name ≠ ['.']

/-- `Path::starts_with`. -/
abbrev StartsWith (path base : Text) : Prop := components base <+: components path

/-- `Path::join` with a single name. -/
def joinPath (path name : Text) : Text :=
  if path.getLast? = some '/' then path ++ name else path ++ '/' :: name

end Argos.Lib
