import CommentTags.Comment.Resolver
import CommentTags.Findings.Collected

/-!
# Scanning a text

A scan looks for every kind of comment that the language of the text has. The code fences of a
Markdown text are scanned in their own language, for line and block comments only. How the comment
syntax of a language is found is left to the caller.

A text is given up if the engine does not compile the grammar of its language. The fences of a
Markdown text that is given up are not looked at either, and a fence that is given up has no comments.
-/

namespace CommentTags

/-- What scans look for. -/
structure Highlighter where
  tags : Registry
  toggles : Toggles
  deriving Repr, DecidableEq

namespace Highlighter

variable {m : Type → Type} [Monad m] [Engine]

/-- The profile of a language or of the hint of a fence. -/
def profile (h : Highlighter) (resolve : SyntaxSource m) (language : String) : m Profile := do
  let key := Language.canonical language
  return Profile.of key (← resolve key) h.toggles

/-- Whether texts with the profile are looked at: there is something to look for, and the grammar
compiles. -/
def looksAt (h : Highlighter) (p : Profile) : Bool :=
  (p.supported || p.markdown) && (Grammar.of p h.tags).compiles

/-- Line and block comments. -/
def commentFindings (h : Highlighter) (p : Profile) (scope : Scope) : List Finding :=
  lineFindings p h.tags scope ++ blockFindings p h.tags scope

/-- The findings in the body of a code fence. -/
def fenceFindings (h : Highlighter) (resolve : SyntaxSource m) (f : Fence) : m (List Finding) := do
  let p ← h.profile resolve f.language
  return if h.looksAt p then h.commentFindings p f.body else []

/-- All findings in a scope, in the order in which the kinds of comments are looked for. -/
def findings (h : Highlighter) (resolve : SyntaxSource m) (language : String) (scope : Scope) :
    m (List Finding) := do
  if h.tags.isEmpty then return []
  let p ← h.profile resolve language
  if !h.looksAt p then return []
  let own := h.commentFindings p scope ++ docFindings p h.tags scope ++ listFindings p h.tags scope
  if !p.markdown then return own
  let embedded ← (fences scope).mapM (h.fenceFindings resolve)
  return own ++ embedded.flatten

/-- Scan the bytes of a text from `start` up to `stop`. -/
def scanRange (h : Highlighter) (resolve : SyntaxSource m) (text : String) (start stop : Nat)
    (language : String) : m Collected := do
  return Collected.collect h.tags
    (← h.findings resolve language (Scope.within text.toList start stop))

/-- Scan a whole text. -/
def scan (h : Highlighter) (resolve : SyntaxSource m) (text : String) (language : String) :
    m Collected :=
  h.scanRange resolve text 0 text.utf8ByteSize language

end Highlighter

end CommentTags
