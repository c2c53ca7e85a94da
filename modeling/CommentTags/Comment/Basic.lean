/-!
# Comment syntax

How a language writes its comments: what opens a comment that runs to the end of the line, and the
two delimiters of a comment that may run over several lines.
-/

namespace CommentTags

/-- What opens a comment that runs to the end of the line. -/
inductive LineComment
  | single (opener : String)
  | several (openers : List String)
  deriving Repr, DecidableEq

/-- The comments of a language. -/
structure CommentSyntax where
  line : Option LineComment := none
  block : Option (String × String) := none
  deriving Repr, DecidableEq, Inhabited

/-- The openers as they were declared. -/
def LineComment.declared : LineComment → List String
  | .single opener => [opener]
  | .several openers => openers

/-- The openers that are not empty. -/
def LineComment.openers (c : LineComment) : List String :=
  c.declared.filter (· ≠ "")

namespace CommentSyntax

/-- The openers of line comments that are not empty. -/
def lineOpeners (s : CommentSyntax) : List String :=
  match s.line with
  | none => []
  | some c => c.openers

/-- The delimiters of block comments, if neither of them is empty. -/
def blockPair (s : CommentSyntax) : Option (String × String) :=
  s.block.filter fun pair => pair.1 ≠ "" && pair.2 ≠ ""

end CommentSyntax

end CommentTags
