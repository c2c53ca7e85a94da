import CommentTags.Pattern.Match
import CommentTags.Pattern.Source

/-!
# Expressions and their matches in a text

An expression is a sequence of pieces, some of them named. A match of it is the list of cuts between
its pieces. `Expression.findAll` walks through a text from left to right and lists the matches that
do not overlap: each one begins at the leftmost place at or after the end of the one before, and a
match of nothing is not taken where the one before has just ended.
-/

namespace CommentTags

/-- The parts of a match that have a name. -/
inductive PieceName
  | tag
  | rest
  | interior
  | hint
  | body
  deriving Repr, DecidableEq

/-- How a name is written. -/
def PieceName.written : PieceName → String
  | .tag => "tag"
  | .rest => "rest"
  | .interior => "interior"
  | .hint => "hint"
  | .body => "body"

/-- A part of an expression. -/
structure Piece where
  name : Option PieceName
  pattern : Pattern
  deriving Repr, DecidableEq

/-- A sequence of pieces. -/
abbrev Expression := List Piece

/-- A piece without a name. -/
def Pattern.piece (p : Pattern) : Piece := ⟨none, p⟩

/-- A piece with a name. -/
def Pattern.named (p : Pattern) (n : PieceName) : Piece := ⟨some n, p⟩

/-- The notation of a piece; a name goes with a group of its own. -/
def Piece.source (p : Piece) : List Char :=
  match p.name with
  | none => p.pattern.source
  | some n => ['(', '?', 'P', '<'] ++ n.written.toList ++ ['>'] ++ p.pattern.source ++ [')']

/-- The notation of an expression: letter case is ignored, and lines have starts and ends. -/
def Expression.source (e : Expression) : List Char :=
  "(?im)".toList ++ e.flatMap Piece.source

/-- The part of the text that a piece matched. -/
structure Part where
  name : Option PieceName
  start : Cursor
  stop : Cursor
  deriving Repr, DecidableEq

def Part.text (p : Part) : List Char :=
  p.start.upTo p.stop

/-- A match: where it begins, its parts in order, and where it ends. -/
structure Match where
  start : Cursor
  parts : List Part
  stop : Cursor
  deriving Repr, DecidableEq

/-- The part with a given name. -/
def Match.part? (m : Match) (n : PieceName) : Option Part :=
  m.parts.find? (·.name == some n)

namespace Expression

/-- The parts of the preferred match that begins at `c`, with the place where it ends. -/
def partsAt : Expression → Cursor → Option (List Part × Cursor)
  | [], c => some ([], c)
  | p :: e, c =>
    (p.pattern.ends c).findSome? fun d =>
      (partsAt e d).map fun (parts, stop) => (⟨p.name, c, d⟩ :: parts, stop)

/-- The preferred match that begins at `c`. -/
def matchAt (e : Expression) (c : Cursor) : Option Match :=
  (e.partsAt c).map fun (parts, stop) => ⟨c, parts, stop⟩

/-- The preferred match that begins at `c`; a match of nothing counts only if `fresh` is set. -/
def acceptedAt (e : Expression) (fresh : Bool) (c : Cursor) : Option Match :=
  (e.matchAt c).filter fun m => fresh || m.stop.rest.length < c.rest.length

/-- The matches at or after `c`. A match of nothing right at `c` counts only if `fresh` is set. -/
def matchesFrom (e : Expression) (fresh : Bool) (c : Cursor) : List Match :=
  match e.acceptedAt fresh c with
  | some m =>
    m :: if _h : m.stop.rest.length < c.rest.length then matchesFrom e false m.stop
      else if _h : fresh then matchesFrom e false c
      else []
  | none =>
    match _h : c.rest with
    | [] => []
    | a :: rest => matchesFrom e true ⟨c.offset + a.utf8Size, some a, rest⟩
termination_by (c.rest.length, fresh.toNat)
decreasing_by all_goals simp_all [Prod.lex_def]

/-- All matches in a text that begins at the given offset. -/
def findAll (e : Expression) (offset : Nat) (text : List Char) : List Match :=
  e.matchesFrom true (Cursor.atStart offset text)

end Expression

end CommentTags
