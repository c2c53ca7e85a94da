import CommentTags.Comment.Builtin

/-!
# Sources of comment syntax

A source answers what the comments of a language look like, or does not know the language. Asking
may have an effect, such as reading a file; a table in memory is a source without effects.
-/

namespace CommentTags

/-- A place where the comment syntax of a language can be looked up by its name. -/
abbrev SyntaxSource (m : Type → Type) := String → m (Option CommentSyntax)

namespace SyntaxSource

variable {m : Type → Type} [Monad m]

/-- A source that answers from a list of languages. -/
def ofTable (table : List (String × CommentSyntax)) : SyntaxSource m :=
  fun language => pure (table.lookup language)

/-- The languages known from the start. -/
def builtin : SyntaxSource m :=
  fun language => pure (builtinSyntax? language)

/-- Several sources asked in order; the first answer counts. -/
def layered : List (SyntaxSource m) → SyntaxSource m
  | [], _ => pure none
  | source :: sources, language => do
    match ← source language with
    | some answer => return some answer
    | none => layered sources language

end SyntaxSource

end CommentTags
