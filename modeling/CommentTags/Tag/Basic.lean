/-!
# Tags

A tag is a marker such as `TODO` or `!` that stands at the start of a comment, with the style its
comments are drawn in. Colours are kept as they were written; the terminal theme reads them.
-/

namespace CommentTags

/-- How the comments of a tag are drawn. -/
structure TagStyle where
  color : Option String := none
  backgroundColor : Option String := none
  bold : Bool := false
  italic : Bool := false
  underline : Bool := false
  strikethrough : Bool := false
  deriving Repr, DecidableEq, Inhabited

/-- A tag as it is declared. -/
structure Tag where
  marker : String
  style : TagStyle := {}
  deriving Repr, DecidableEq, Inhabited

/-- The tags that a fresh installation looks for. -/
def defaultTags : List Tag :=
  [⟨"!", { color := "#FF2D00" }⟩,
    ⟨"?", { color := "#3498DB" }⟩,
    ⟨"//", { color := "#474747", strikethrough := true }⟩,
    ⟨"todo", { color := "#FF8C00" }⟩,
    ⟨"*", { color := "#98C379" }⟩]

end CommentTags
