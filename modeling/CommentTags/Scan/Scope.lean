import CommentTags.Text.Bytes

/-!
# The part of a text that is looked at

A scope is a part of a document together with the offset where it begins, so that places found in
it can be told as offsets of the document.
-/

namespace CommentTags

/-- A part of a document. -/
structure Scope where
  offset : Nat
  text : List Char
  deriving Repr, DecidableEq

namespace Scope

/-- A whole document. -/
def document (text : List Char) : Scope :=
  ⟨0, text⟩

/-- The bytes of a document from `start` up to `stop`; nothing, at the start of the document, if
these are not two boundaries in order. -/
def within (text : List Char) (start stop : Nat) : Scope :=
  match Text.slice? text start stop with
  | some part => ⟨start, part⟩
  | none => ⟨0, []⟩

end Scope

end CommentTags
