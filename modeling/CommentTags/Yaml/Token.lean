/-!
# Tokens of YAML

A text is cut into tokens before its structure is looked at. Where blocks begin and end follows from
the columns of the text, and is told by tokens of its own.
-/

namespace CommentTags.Yaml

/-- How a scalar is written. -/
inductive ScalarStyle
  | plain
  | singleQuoted
  | doubleQuoted
  | literal
  | folded
  deriving Repr, DecidableEq

/-- A text, and how it is written. -/
structure Scalar where
  text : List Char
  style : ScalarStyle
  deriving Repr, DecidableEq

/-- The empty text, as it stands where nothing is written. -/
def Scalar.empty : Scalar := ⟨[], .plain⟩

/-- A tag as it is written: a handle, and what follows it as bytes. The handle of a tag that is
written in full is empty. -/
structure TagName where
  handle : List Char
  suffix : List UInt8
  deriving Repr, DecidableEq

/-- A token. Anchors and aliases refer to each other by a number. -/
inductive Token
  | versionDirective (major minor : Nat)
  | tagDirective (handle : List Char) (start : List UInt8)
  | documentStart
  | documentEnd
  | blockSequenceStart
  | blockMappingStart
  | blockEnd
  | flowSequenceStart
  | flowSequenceEnd
  | flowMappingStart
  | flowMappingEnd
  | blockEntry
  | flowEntry
  | key
  | value
  | aliasOf (number : Nat)
  | anchor (number : Nat)
  | tag (name : TagName)
  | scalar (s : Scalar)
  deriving Repr, DecidableEq

end CommentTags.Yaml
