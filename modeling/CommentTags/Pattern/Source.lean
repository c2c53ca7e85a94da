import CommentTags.Pattern.Basic
import CommentTags.Pattern.Escape

/-!
# Patterns as text

The notation of a pattern as a regular expression.
-/

namespace CommentTags

/-- How a class of characters is written. -/
def CharClass.written : CharClass → String
  | .blank => "[ \\t]"
  | .white => "\\s"
  | .any => "[\\s\\S]"
  | .inLine => "."
  | .separator => "[ :]"
  | .bodyChar => "[^\\r\\n]"
  | .bodyStart => "[^*/\\r\\n]"
  | .bullet => "[*-]"
  | .hintChar => "[^\\s\x60]"
  | .exactly '\r' => "\\r"
  | .exactly '\n' => "\\n"
  | .exactly c => String.ofList (escapeChar c)

/-- The notation of a class of characters. -/
def CharClass.source (k : CharClass) : List Char :=
  k.written.toList

/-- The notation of a pattern. -/
def Pattern.source : Pattern → List Char
  | .lineStart => ['^']
  | .lineEnd => ['$']
  | .one k => k.source
  | .run k => k.source ++ ['*']
  | .lazyRun k => k.source ++ ['*', '?']
  | .literal s => escape s
  | .oneOf words => alternation words
  | .seq p q => p.source ++ q.source
  | .alt p q => p.source ++ ['|'] ++ q.source
  | .opt p => p.source ++ ['?']
  | .plus p => p.source ++ ['+']
  | .group p => ['(', '?', ':'] ++ p.source ++ [')']

end CommentTags
