/-!
# Escaping

A literal text stands in a pattern with a backslash before each character that has a meaning there,
and also before each slash.
-/

namespace CommentTags

/-- The characters that have a meaning in a regular expression. -/
def metaChars : List Char :=
  ['\\', '.', '+', '*', '?', '(', ')', '|', '[', ']', '\x7b', '\x7d', '^', '$', '#', '&', '-', '~']

/-- Whether a character means something else than itself in a pattern. -/
def needsEscape (c : Char) : Bool :=
  metaChars.contains c || c == '/'

/-- A character as a pattern that matches just it. -/
def escapeChar (c : Char) : List Char :=
  if needsEscape c then ['\\', c] else [c]

/-- A text as it is written inside a pattern. -/
def escape (s : List Char) : List Char :=
  s.flatMap escapeChar

/-- Several texts as the alternatives of a pattern. -/
def alternation (words : List (List Char)) : List Char :=
  ['|'].intercalate (words.map escape)

end CommentTags
