import CommentTags.Document.Lines
import CommentTags.Language.Path
import CommentTags.Text.Bytes

/-!
# Documents

A text with its language and the file it was read from. Places in it are told as byte offsets or as
lines and columns; an offset inside a character counts as the start of that character.
-/

namespace CommentTags

/-- A text with its language. -/
structure Document where
  text : String
  /-- The language as it was given; empty if none was. -/
  declaredLanguage : String
  path : Option String := none
  deriving Repr, DecidableEq

namespace Document

/-- The text of a file, in the language that its name tells. -/
def ofFile (path : String) (text : String) : Document :=
  ⟨text, Language.ofPath path, some path⟩

/-- The same text in another language. -/
def withLanguage (d : Document) (language : String) : Document :=
  { d with declaredLanguage := language }

/-- The language; plain text if none was given. -/
def language (d : Document) : String :=
  if d.declaredLanguage = "" then Language.plainText else d.declaredLanguage

/-- The characters of the text. -/
def chars (d : Document) : List Char := d.text.toList

/-- The number of bytes. -/
def size (d : Document) : Nat := Text.byteLength d.chars

/-- Whether the text has no bytes. -/
def isEmpty (d : Document) : Bool := d.size == 0

/-- The lines with their line ends. -/
def lineList (d : Document) : List (List Char) := lines d.chars

/-- The number of lines. -/
def lineCount (d : Document) : Nat := d.lineList.length

/-- The text of a line without its line end. -/
def lineText? (d : Document) (line : Nat) : Option String :=
  d.lineList[line]?.map fun l => String.ofList (lineContent l)

/-- The number of characters of a line without its line end; nothing past the last line. -/
def lengthOfLine (d : Document) (line : Nat) : Nat :=
  match d.lineList[line]? with
  | none => 0
  | some l => lineLength l

/-- The text between two offsets, unless they are out of order or out of bounds. -/
def slice? (d : Document) (start stop : Nat) : Option String :=
  if start ≤ stop && stop ≤ d.size then
    let first := Text.charsWithin start d.chars
    let last := Text.charsWithin stop d.chars
    some (String.ofList ((d.chars.drop first).take (last - first)))
  else none

/-- The line and column of an offset; an offset past the end counts as the end. -/
def positionAt (d : Document) (offset : Nat) : Position :=
  locate d.lineList (Text.charsWithin (min offset d.size) d.chars)

/-- The offset of a line and column. A column past the end of the line counts as its end, and a
line past the last one as the end of the text. -/
def offsetAt (d : Document) (p : Position) : Nat :=
  match d.lineList[p.line]? with
  | none => d.size
  | some l =>
    Text.byteLength (d.lineList.take p.line).flatten +
      Text.byteLength (l.take (min p.column (lineLength l)))

end Document

end CommentTags
