import CommentTags.Pattern.Search
import CommentTags.Scan.Profile
import CommentTags.Tag.Registry

/-!
# The shapes of tagged comments

An expression for each kind of comment: comments that run to the end of the line, block comments and
the tagged lines inside them, list items, and the code fences of Markdown.

The notations of the expressions that depend on the language and on the tags make up its grammar.
They are compiled together by an engine before any of them is looked for, and the engine may refuse
one, because the program for it would grow too large.  A grammar with a notation that is refused is
of no use as a whole (`Grammar.compiles`).
-/

namespace CommentTags

open Pattern CharClass

/-- One of the tags. -/
def tagPiece (tags : Registry) : Piece :=
  (oneOf tags.words).named .tag

/-- What may follow a tag up to the end of its line: separators, then a text that begins with
neither a star nor a slash. A carriage return before the line feed belongs to the line end. -/
def lineBody : Expression :=
  [(run separator).piece,
    (opt (group (seq (one bodyStart) (run bodyChar)))).piece,
    (opt (one (exactly '\r'))).piece,
    lineEnd.piece]

/-- What stands before the tag of a line comment: the openers, or in a plain text the line start. -/
def lineOpening (p : Profile) : Expression :=
  if p.plainText then [lineStart.piece, (run blank).piece]
  else [(plus (group (oneOf p.openerWords))).piece, (run blank).piece]

/-- What follows the tag of a line comment: the line, or only what stands before the end of the
block comment whose opener is borrowed. -/
def lineRest (p : Profile) : Expression :=
  if p.borrowsOpener then
    [(lazyRun inLine).named .rest, (group (alt (literal p.blockEnd) lineEnd)).piece]
  else [(run inLine).named .rest]

/-- A tagged comment that runs to the end of the line. -/
def lineExpression (p : Profile) (tags : Registry) : Expression :=
  lineOpening p ++ tagPiece tags :: lineRest p

/-- The start of a line, or a blank. -/
def openingPlace : Piece :=
  (group (alt lineStart (one blank))).piece

/-- A block comment. -/
def blockExpression (p : Profile) : Expression :=
  [openingPlace,
    (plus (group (seq (literal p.blockStart) (one white)))).piece,
    (lazyRun any).named .interior,
    (group (literal p.blockEnd)).piece]

/-- A documentation comment. -/
def docExpression : Expression :=
  [openingPlace,
    (plus (group (literal "/**".toList))).piece,
    (lazyRun any).named .interior,
    (group (literal "*/".toList)).piece]

/-- A tagged line inside a block comment. -/
def blockLineExpression (tags : Registry) : Expression :=
  [lineStart.piece, (run blank).piece, tagPiece tags] ++ lineBody

/-- A tagged line inside a documentation comment, after the star that begins such lines. -/
def docLineExpression (tags : Registry) : Expression :=
  [lineStart.piece, (run blank).piece, (one (exactly '*')).piece, (run blank).piece,
    tagPiece tags] ++ lineBody

/-- A tagged list item, with or without a check box. -/
def listExpression (tags : Registry) : Expression :=
  [lineStart.piece, (run blank).piece, (one bullet).piece, (one (exactly ' ')).piece,
    (opt (group (literal "[ ] ".toList))).piece, tagPiece tags, (run inLine).named .rest]

/-- Three backticks after blanks at the start of a line. -/
def fenceMark : Expression :=
  [lineStart.piece, (run blank).piece, (literal ['\x60', '\x60', '\x60']).piece]

/-- A code fence with the hint that names its language. -/
def fenceExpression : Expression :=
  fenceMark ++
    [(run blank).piece, (run hintChar).named .hint, (run bodyChar).piece,
      (opt (one (exactly '\r'))).piece, (one (exactly '\n')).piece,
      (lazyRun any).named .body] ++
    fenceMark

/-- The notations of the expressions for a language. -/
structure Grammar where
  /-- Nothing if line comments are not looked for. -/
  line : Option (List Char)
  /-- Nothing if block comments are not looked for. -/
  block : Option (List Char)
  blockLine : List Char
  docLine : List Char
  listItem : List Char
  deriving Repr, DecidableEq

/-- The grammar that follows from a profile and the tags. -/
def Grammar.of (p : Profile) (tags : Registry) : Grammar where
  line := if p.scansLines then some (lineExpression p tags).source else none
  block := if p.scansBlocks then some (blockExpression p).source else none
  blockLine := (blockLineExpression tags).source
  docLine := (docLineExpression tags).source
  listItem := (listExpression tags).source

/-! ## Compiling -/

/-- The engine that compiles expressions.  What it refuses is not laid down here: a statement about
scans holds with every engine, or it names what it needs of the engine. -/
class Engine where
  /-- Whether a notation is compiled. -/
  compiles : List Char → Bool

/-- The search of this library has no bound. -/
instance (priority := low) Engine.unbounded : Engine where
  compiles _ := true

/-- The notations of a grammar. -/
def Grammar.sources (g : Grammar) : List (List Char) :=
  g.line.toList ++ (g.block.toList ++ [g.blockLine, g.docLine, g.listItem])

/-- Whether all notations of a grammar are compiled. -/
def Grammar.compiles [Engine] (g : Grammar) : Bool :=
  g.sources.all Engine.compiles

theorem Grammar.compiles_iff [Engine] {g : Grammar} :
    g.compiles = true ↔ ∀ source ∈ g.sources, Engine.compiles source = true :=
  List.all_eq_true

@[simp] theorem Grammar.compiles_unbounded (g : Grammar) : g.compiles = true :=
  Grammar.compiles_iff.2 fun _ _ => rfl

end CommentTags
