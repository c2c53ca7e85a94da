import CommentTags.Language.Path

/-!
# Parts of a path

A path is a sequence of names between slashes. Empty names and single dots lead nowhere, except
that a path which ends in one of them has to lead to a directory.
-/

namespace CommentTags

/-- A path cut into its names. -/
structure FilePath where
  /-- The path starts at the root of all directories. -/
  absolute : Bool
  names : List String
  /-- The path ends in a slash or a dot. -/
  mustBeDirectory : Bool
  /-- The path ends in a slash. -/
  endsInSlash : Bool
  deriving Repr, DecidableEq

namespace FilePath

/-- Cut a path into its names. -/
def ofString (path : String) : FilePath :=
  let parts := Language.pathParts path.toList
  { absolute := path.toList.head? = some '/'
    names := (parts.filter fun p => p != [] && p != ['.']).map String.ofList
    mustBeDirectory := parts.getLast? = some [] || parts.getLast? = some ['.']
    endsInSlash := path.toList.getLast? = some '/' }

/-- The path of the directory that a path lies in; nothing for the empty path and for the root. -/
def parent? (path : FilePath) : Option FilePath :=
  if path.names = [] then none
  else some { path with names := path.names.dropLast, mustBeDirectory := false, endsInSlash := false }

end FilePath

end CommentTags
