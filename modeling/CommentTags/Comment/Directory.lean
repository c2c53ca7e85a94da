import CommentTags.Comment.Configuration
import CommentTags.Comment.Source
import CommentTags.Files.Basic

/-!
# Comment syntax from files

A directory holds one file for each language, named for the language. A language whose name could
lead out of the directory has no file, and a file that cannot be read or understood is passed over.
-/

namespace CommentTags

/-- Whether a character may stand in the name of a language that has a file. -/
def isFileNameChar (c : Char) : Bool :=
  c.isAlphanum || ['-', '_', '.', '+', '#'].contains c

/-- The name of the file of a language. -/
def languageFile? (language : String) : Option String :=
  if language ≠ "" && language.toList.all isFileNameChar && language.toList.head? ≠ some '.' then
    some (language ++ ".json")
  else none

namespace SyntaxSource

variable {m : Type → Type} [Monad m]

/-- The files of a directory as a source. -/
def ofDirectory (files : Files m) (directory : String) : SyntaxSource m := fun language =>
  match languageFile? language with
  | none => pure none
  | some name => do
    let path := joinPath directory name
    if ← files.isPresent path then
      match ← files.readText path with
      | .error _ => return none
      | .ok text => return (CommentSyntax.parse text).toOption
    else return none

end SyntaxSource

end CommentTags
