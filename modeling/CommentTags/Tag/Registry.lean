import CommentTags.Pattern.Escape
import CommentTags.Tag.Basic
import CommentTags.Text.Lowercase

/-!
# The tags of a scan

The tags in the order of their declaration. A tag is known by its position, which decides ties
between tags that match the same text: the earlier one wins.
-/

namespace CommentTags

/-- The declared tags in order. -/
structure Registry where
  tags : List Tag
  deriving Repr, DecidableEq

namespace Registry

/-- The number of tags. -/
def size (r : Registry) : Nat := r.tags.length

/-- Whether there are no tags. -/
def isEmpty (r : Registry) : Bool := r.tags.isEmpty

/-- The tag at a position. -/
def tag? (r : Registry) (index : Nat) : Option Tag := r.tags[index]?

/-- The style of the tag with an index. -/
def style? (r : Registry) (index : Nat) : Option TagStyle := (r.tag? index).map (·.style)

/-- The markers in order, as texts to be matched. -/
def words (r : Registry) : List (List Char) := r.tags.map (·.marker.toList)

/-- The markers as the alternatives of a pattern. -/
def alternation (r : Registry) : List Char := CommentTags.alternation r.words

/-- The position of the first tag whose marker has the same lowercase as the given text. -/
def find? (r : Registry) (text : List Char) : Option Nat :=
  r.words.findIdx? fun w => Text.lowercase w == Text.lowercase text

end Registry

end CommentTags
