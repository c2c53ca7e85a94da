/-!
# Lines of a text

A text is cut into lines after each line end. A line feed, a carriage return, both in this order, a
vertical tab, a form feed and the three line and paragraph separators outside ASCII end a line. The
last line has no line end, so a text that ends in a line feed has an empty last line.
-/

namespace CommentTags.Document

/-- The characters that end a line. -/
def endsLine (c : Char) : Bool :=
  ['\n', '\x0B', '\x0C', '\r', '\u0085', '\u2028', '\u2029'].contains c

/-- Put a character in front of the first line. -/
def consLine (c : Char) : List (List Char) → List (List Char)
  | [] => [[c]]
  | line :: rest => (c :: line) :: rest

/-- The lines of a text, each with its line end. -/
def lines : List Char → List (List Char)
  | [] => [[]]
  | '\r' :: '\n' :: s => ['\r', '\n'] :: lines s
  | c :: s => if endsLine c then [c] :: lines s else consLine c (lines s)

/-- A line without the line feeds and carriage returns at its end. -/
def lineContent (line : List Char) : List Char :=
  (line.reverse.dropWhile fun c => c == '\n' || c == '\r').reverse

/-- Drop a given character at the end of a line, if it stands there. -/
def dropLast (c : Char) (line : List Char) : List Char :=
  if line.getLast? = some c then line.dropLast else line

/-- The number of characters of a line without its line end. Of the line ends only a line feed and
a carriage return before it are left out. -/
def lineLength (line : List Char) : Nat :=
  (dropLast '\r' (dropLast '\n' line)).length

/-- A place in a text: its line and the number of characters before it on that line. -/
structure Position where
  line : Nat
  column : Nat
  deriving Repr, DecidableEq

/-- The position of the character with a given index; an index past the end is on the last line. -/
def locate : List (List Char) → Nat → Position
  | [], n => ⟨0, n⟩
  | [_], n => ⟨0, n⟩
  | line :: rest, n =>
    if n < line.length then ⟨0, n⟩
    else
      let p := locate rest (n - line.length)
      ⟨p.line + 1, p.column⟩

end CommentTags.Document
