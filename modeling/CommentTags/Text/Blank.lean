import CommentTags.Text.CodeRange

/-!
# White space

The characters with the Unicode property White_Space, and the texts without such characters at
their ends.
-/

namespace CommentTags.Text

/-- The characters with the property White_Space. -/
def whiteRanges : List CodeRange :=
  [⟨0x9, 0xD⟩, ⟨0x20, 0x20⟩, ⟨0x85, 0x85⟩, ⟨0xA0, 0xA0⟩, ⟨0x1680, 0x1680⟩, ⟨0x2000, 0x200A⟩,
    ⟨0x2028, 0x2029⟩, ⟨0x202F, 0x202F⟩, ⟨0x205F, 0x205F⟩, ⟨0x3000, 0x3000⟩]

def isWhite (c : Char) : Bool :=
  inRanges whiteRanges c

/-- Remove white space at the start. -/
def trimStart (s : List Char) : List Char :=
  s.dropWhile isWhite

/-- Remove white space at the end. -/
def trimEnd (s : List Char) : List Char :=
  (s.reverse.dropWhile isWhite).reverse

/-- Remove white space at both ends. -/
def trim (s : List Char) : List Char :=
  trimEnd (trimStart s)

end CommentTags.Text
