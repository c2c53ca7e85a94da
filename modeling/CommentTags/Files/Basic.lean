import CommentTags.Text.Bytes

/-!
# Access to files

What the program needs of its surroundings: files that hold text, directories, and nothing else.
The operations are given as a record, so that a program can run on real files as well as on a tree
of files in memory.
-/

namespace CommentTags

/-- Why a file could not be used. -/
inductive FileError
  | notFound
  | alreadyExists
  | notDirectory
  | isDirectory
  | nameTooLong
  /-- A name contains the character that ends names. -/
  | badName
  /-- The bytes of the file are not a text. -/
  | notText
  | other (message : String)
  deriving Repr, DecidableEq

/-- The text of a fault, as the system words it. -/
def FileError.message : FileError → String
  | .notFound => "No such file or directory (os error 2)"
  | .alreadyExists => "File exists (os error 17)"
  | .notDirectory => "Not a directory (os error 20)"
  | .isDirectory => "Is a directory (os error 21)"
  | .nameTooLong => "File name too long (os error 36)"
  | .badName => "file name contained an unexpected NUL byte"
  | .notText => "stream did not contain valid UTF-8"
  | .other message => message

/-- Operations on files. -/
structure Files (m : Type → Type) where
  /-- The text of a file. -/
  readText : String → m (Except FileError String)
  /-- Whether there is a file or directory at a path. -/
  isPresent : String → m Bool
  /-- Whether there is a directory at a path. -/
  isDirectory : String → m Bool
  /-- Make a directory and all that it lies in. -/
  makeDirectories : String → m (Except FileError Unit)
  /-- Write a file, which is replaced if it exists. -/
  writeText : String → String → m (Except FileError Unit)

/-- The path of a name inside a directory. -/
def joinPath (directory name : String) : String :=
  if directory = "" then name
  else if directory.toList.getLast? = some '/' then directory ++ name
  else directory ++ "/" ++ name

end CommentTags
