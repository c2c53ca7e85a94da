import CommentTags.Tag.Basic
import CommentTags.Theme.Color

/-!
# Styles on a terminal

A terminal is switched to a style by a sequence that begins with an escape character, and back by a
fixed sequence. A colour that cannot be read is left out; the rest of its style still counts.
-/

namespace CommentTags

/-- A style as a terminal draws it. -/
structure AnsiStyle where
  foreground : Option Color := none
  background : Option Color := none
  bold : Bool := false
  italic : Bool := false
  underline : Bool := false
  strikethrough : Bool := false
  deriving Repr, DecidableEq

namespace AnsiStyle

/-- The colour that a text stands for, if it can be read. -/
def color? (text : Option String) : Option Color :=
  text.bind fun text => (Color.parse text).toOption

/-- The style of a tag. -/
def ofTagStyle (s : TagStyle) : AnsiStyle :=
  { foreground := color? s.color
    background := color? s.backgroundColor
    bold := s.bold
    italic := s.italic
    underline := s.underline
    strikethrough := s.strikethrough }

/-- The numbers of a colour. -/
def colorCode (kind : String) (c : Color) : String :=
  ";".intercalate [kind, "2", toString c.red, toString c.green, toString c.blue]

/-- The codes of a style. -/
def codes (s : AnsiStyle) : List String :=
  (if s.bold then ["1"] else []) ++
    (if s.italic then ["3"] else []) ++
    (if s.underline then ["4"] else []) ++
    (if s.strikethrough then ["9"] else []) ++
    (s.foreground.map (colorCode "38")).toList ++
    (s.background.map (colorCode "48")).toList

/-- The sequence that switches the style on; nothing for a style without codes. -/
def switchOn (s : AnsiStyle) : String :=
  if s.codes.isEmpty then "" else "\x1b[" ++ ";".intercalate s.codes ++ "m"

/-- The sequence that switches every style off. -/
def switchOff : String := "\x1b[0m"

end AnsiStyle

end CommentTags
