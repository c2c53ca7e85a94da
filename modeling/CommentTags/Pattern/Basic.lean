/-!
# Patterns

Comments are described by patterns: a small kind of regular expression, kept as data. A pattern has
two readings. `Pattern.source` writes it in the usual notation of regular expressions; `Pattern.ends`
(in `CommentTags.Pattern.Match`) lists where it can stop when it starts at a given place, best
place first.

Literal texts are matched without regard to letter case. Repetitions take as much as they can, or
as little when they are called lazy.
-/

namespace CommentTags

/-- A set of characters with a name in the notation of regular expressions. -/
inductive CharClass
  /-- A space or a tab. -/
  | blank
  /-- White space. -/
  | white
  /-- Any character. -/
  | any
  /-- Any character that is not a line feed. -/
  | inLine
  /-- A space or a colon, which separate a tag from its text. -/
  | separator
  /-- Any character that does not end a line. -/
  | bodyChar
  /-- Any character that may begin the text after a tag. -/
  | bodyStart
  /-- The bullet of a list item. -/
  | bullet
  /-- A character of a fence hint. -/
  | hintChar
  /-- One given character. -/
  | exactly (c : Char)
  deriving Repr, DecidableEq

inductive Pattern
  /-- The start of the text or the place after a line feed. -/
  | lineStart
  /-- The end of the text or the place before a line feed. -/
  | lineEnd
  | one (k : CharClass)
  /-- As many characters of the class as possible. -/
  | run (k : CharClass)
  /-- As few characters of the class as possible. -/
  | lazyRun (k : CharClass)
  /-- A given text, up to letter case. -/
  | literal (s : List Char)
  /-- One of several texts, up to letter case; earlier ones come first. -/
  | oneOf (words : List (List Char))
  | seq (p q : Pattern)
  /-- The first pattern, or else the second one. -/
  | alt (p q : Pattern)
  /-- The pattern if possible, or else nothing. -/
  | opt (p : Pattern)
  /-- The pattern one or more times, as often as possible. -/
  | plus (p : Pattern)
  /-- The pattern itself, written in a group of its own. -/
  | group (p : Pattern)
  deriving Repr, DecidableEq

end CommentTags
