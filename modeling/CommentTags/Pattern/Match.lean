import CommentTags.Pattern.Basic
import CommentTags.Text.Blank
import CommentTags.Text.Fold

/-!
# Matching at a place

A cursor is a place in a text: how many bytes come before it, the character just before it, and the
characters after it. A pattern that starts at a cursor can stop at several cursors; `Pattern.ends`
lists them in order of preference, so that the first of them that lets the rest of an expression
match is the one that counts.
-/

namespace CommentTags

open Text

/-- A place in a text. -/
structure Cursor where
  /-- The byte offset of the place in the document. -/
  offset : Nat
  /-- The character before the place, unless it is where reading began. -/
  before : Option Char
  /-- The characters after the place. -/
  rest : List Char
  deriving Repr, DecidableEq

namespace Cursor

/-- The place before a text that begins at the given offset. -/
def atStart (offset : Nat) (text : List Char) : Cursor :=
  ⟨offset, none, text⟩

/-- The place after the next character. -/
def next? (c : Cursor) : Option Cursor :=
  match c.rest with
  | [] => none
  | a :: rest => some ⟨c.offset + a.utf8Size, some a, rest⟩

/-- Whether a line begins here. -/
def atLineStart (c : Cursor) : Bool :=
  match c.before with
  | none => true
  | some a => a == '\n'

/-- Whether a line ends here. -/
def atLineEnd (c : Cursor) : Bool :=
  match c.rest with
  | [] => true
  | a :: _ => a == '\n'

/-- The text from one place to a later one. -/
def upTo (c d : Cursor) : List Char :=
  c.rest.take (c.rest.length - d.rest.length)

end Cursor

/-- Membership in a class of characters. -/
def CharClass.contains : CharClass → Char → Bool
  | .blank, a => a == ' ' || a == '\t'
  | .white, a => isWhite a
  | .any, _ => true
  | .inLine, a => a != '\n'
  | .separator, a => a == ' ' || a == ':'
  | .bodyChar, a => a != '\r' && a != '\n'
  | .bodyStart, a => a != '*' && a != '/' && a != '\r' && a != '\n'
  | .bullet, a => a == '*' || a == '-'
  | .hintChar, a => a != '\x60' && !isWhite a
  | .exactly b, a => a == b

/-- The places reached by reading characters of a class, the nearest one first. -/
def classRuns (k : CharClass) (offset : Nat) (before : Option Char) : List Char → List Cursor
  | [] => [⟨offset, before, []⟩]
  | a :: rest =>
    ⟨offset, before, a :: rest⟩ ::
      if k.contains a then classRuns k (offset + a.utf8Size) (some a) rest else []

/-- The place after a literal text, if the text stands here up to letter case. -/
def literalEnd (offset : Nat) (before : Option Char) : List Char → List Char → Option Cursor
  | [], rest => some ⟨offset, before, rest⟩
  | _ :: _, [] => none
  | w :: word, a :: rest =>
    if sameLetter w a then literalEnd (offset + a.utf8Size) (some a) word rest else none

/-- Add to `found` every place reached from `c` by steps that move forward. The least preferred
place stands first: what is reached from a place is preferred to the place itself, and a place that
was found before keeps its rank. -/
def reachAll (step : Cursor → List Cursor) (c : Cursor) (found : List Cursor) : List Cursor :=
  if found.any (·.rest.length == c.rest.length) then found
  else
    c :: (step c).foldl (fun found d =>
      if _h : d.rest.length < c.rest.length then reachAll step d found else found) found
termination_by c.rest.length

/-- One or more steps that move forward; more steps are preferred. -/
def oneOrMore (step : Cursor → List Cursor) (c : Cursor) : List Cursor :=
  ((step c).foldl (fun found d => reachAll step d found) []).reverse

/-- The places where a pattern that starts here can stop, the preferred one first. -/
def Pattern.ends : Pattern → Cursor → List Cursor
  | .lineStart, c => if c.atLineStart then [c] else []
  | .lineEnd, c => if c.atLineEnd then [c] else []
  | .one k, c =>
    match c.rest with
    | [] => []
    | a :: rest => if k.contains a then [⟨c.offset + a.utf8Size, some a, rest⟩] else []
  | .run k, c => (classRuns k c.offset c.before c.rest).reverse
  | .lazyRun k, c => classRuns k c.offset c.before c.rest
  | .literal s, c => (literalEnd c.offset c.before s c.rest).toList
  | .oneOf words, c => words.filterMap fun w => literalEnd c.offset c.before w c.rest
  | .seq p q, c => (p.ends c).flatMap q.ends
  | .alt p q, c => p.ends c ++ q.ends c
  | .opt p, c => p.ends c ++ [c]
  | .plus p, c => oneOrMore p.ends c
  | .group p, c => p.ends c

end CommentTags
