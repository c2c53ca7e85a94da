import CommentTags.Scan.Grammar
import CommentTags.Scan.Scope

/-!
# Finding tagged comments in a scope

One function for each kind of comment. Each of them goes through its scope from left to right and
reports the tagged comments in the order in which they stand there.
-/

namespace CommentTags

/-- A tagged comment: the position of its tag in the registry, and where it starts and stops. -/
structure Finding where
  style : Nat
  start : Nat
  stop : Nat
  deriving Repr, DecidableEq

/-- The comment that begins with the given tag and runs up to `stop`, without white space at its
end. There is none if the text of the tag is not the lowercase of a registered one. -/
def findingAt? (tags : Registry) (tag : Part) (stop : Cursor) : Option Finding :=
  (tags.find? tag.text).map fun style =>
    ⟨style, tag.start.offset,
      tag.stop.offset + Text.byteLength (Text.trimEnd (tag.stop.upTo stop))⟩

/-- The comment of a match that runs to the end of the match. -/
def Match.finding? (tags : Registry) (m : Match) : Option Finding :=
  (m.part? .tag).bind fun tag => findingAt? tags tag m.stop

/-- Comments that run to the end of their line. -/
def lineFindings (p : Profile) (tags : Registry) (scope : Scope) : List Finding :=
  if p.scansLines then
    ((lineExpression p tags).findAll scope.offset scope.text).filterMap fun m =>
      if p.ignoresFirstLine && m.start.offset == 0 then none
      else
        (m.part? .tag).bind fun tag =>
          findingAt? tags tag (((m.part? .rest).map (·.stop)).getD m.stop)
  else []

/-- A block comment: where it starts and stops, and what stands between its delimiters. -/
structure Region where
  start : Nat
  stop : Nat
  interior : Part
  deriving Repr, DecidableEq

/-- The block comments that an expression finds. -/
def regions (e : Expression) (scope : Scope) : List Region :=
  (e.findAll scope.offset scope.text).filterMap fun m =>
    (m.part? .interior).map fun interior => ⟨m.start.offset, m.stop.offset, interior⟩

/-- The block comments of a scope. -/
def blockRegions (p : Profile) (scope : Scope) : List Region :=
  if p.scansBlocks then regions (blockExpression p) scope else []

/-- The tagged lines between the delimiters of a block comment. -/
def Region.findings (tags : Registry) (lineShape : Expression) (r : Region) : List Finding :=
  (lineShape.findAll r.interior.start.offset r.interior.text).filterMap (·.finding? tags)

/-- The tagged lines of block comments. -/
def blockFindings (p : Profile) (tags : Registry) (scope : Scope) : List Finding :=
  (blockRegions p scope).flatMap (·.findings tags (blockLineExpression tags))

/-- The tagged lines of documentation comments, in whatever way the language writes comments. -/
def docFindings (p : Profile) (tags : Registry) (scope : Scope) : List Finding :=
  if p.scansDocBlocks then
    (regions docExpression scope).flatMap (·.findings tags (docLineExpression tags))
  else []

/-- The tagged list items of a Markdown text. -/
def listFindings (p : Profile) (tags : Registry) (scope : Scope) : List Finding :=
  if p.markdown then
    ((listExpression tags).findAll scope.offset scope.text).filterMap (·.finding? tags)
  else []

/-- A code fence. -/
structure Fence where
  /-- What stands after the opening backticks. -/
  hint : String
  /-- The canonical name of the language that the hint stands for. -/
  language : String
  /-- The lines between the two fence lines. -/
  body : Scope
  deriving Repr, DecidableEq

/-- Where the lines between the two fence lines stop. -/
def Fence.bodyStop (f : Fence) : Nat :=
  f.body.offset + Text.byteLength f.body.text

/-- The closed code fences of a scope. -/
def fences (scope : Scope) : List Fence :=
  (fenceExpression.findAll scope.offset scope.text).filterMap fun m =>
    (m.part? .body).map fun body =>
      let hint := String.ofList (((m.part? .hint).map (·.text)).getD [])
      ⟨hint, Language.canonical hint, ⟨body.start.offset, body.text⟩⟩

end CommentTags
