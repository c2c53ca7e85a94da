import CommentTags.Text.CodeRange

/-!
# The characters of YAML

Which characters may stand in a YAML text at all, which of them separate words and lines, and which
of them may be written without an escape.
-/

namespace CommentTags.Yaml

open Text

/-- The characters that may stand in a text. -/
def allowedRanges : List CodeRange :=
  [⟨0x9, 0xA⟩, ⟨0xD, 0xD⟩, ⟨0x20, 0x7E⟩, ⟨0x85, 0x85⟩, ⟨0xA0, 0xD7FF⟩, ⟨0xE000, 0xFFFD⟩,
    ⟨0x10000, 0x10FFFF⟩]

/-- Whether a character may stand in a text. -/
def isAllowed (c : Char) : Bool :=
  inRanges allowedRanges c

/-- The characters that are written as they are. Every one of them may stand in a text, but of the
line breaks only three are among them. -/
def printableRanges : List CodeRange :=
  [⟨0xA, 0xA⟩, ⟨0x20, 0x7E⟩, ⟨0xA0, 0xD7FF⟩, ⟨0xE000, 0xFEFE⟩, ⟨0xFF00, 0xFFFD⟩]

/-- Whether a character is written as it is. -/
def isPrintable (c : Char) : Bool :=
  inRanges printableRanges c

/-- The characters that end a line. -/
def isBreak (c : Char) : Bool :=
  c = '\n' || c = '\r' || c = '\x85' || c = '\u2028' || c = '\u2029'

/-- The characters that separate words of a line. -/
def isBlank (c : Char) : Bool :=
  c = ' ' || c = '\t'

/-- The characters that stand in no word. -/
def isSpacing (c : Char) : Bool :=
  isBlank c || isBreak c

/-- The characters of names. -/
def isNameChar (c : Char) : Bool :=
  c.isAlphanum || c = '_' || c = '-'

/-- Whether no word goes on here. -/
def endsWord : List Char → Bool
  | [] => true
  | c :: _ => isSpacing c

/-- Write every end of a line as a line feed, except line and paragraph separators, which stay. -/
def unifyBreaks : List Char → List Char
  | [] => []
  | '\r' :: '\n' :: s => '\n' :: unifyBreaks s
  | c :: s => (if c = '\r' || c = '\x85' then '\n' else c) :: unifyBreaks s

end CommentTags.Yaml
