import CommentTags.Comment.Source
import CommentTags.Language.Names

/-!
# A cache in front of a source

The resolver answers lookups of comment syntax under canonical names and remembers every answer,
also that a language is not known. What it remembers is dropped only as a whole.
-/

namespace CommentTags

/-- What has been looked up. -/
structure Resolver where
  /-- The remembered answers, each name once. -/
  cached : List (String × Option CommentSyntax) := []
  /-- The names that the source has been asked for, the latest first. -/
  asked : List String := []
  deriving Repr, DecidableEq

namespace Resolver

/-- The remembered answer for a canonical name. -/
def peek? (r : Resolver) (key : String) : Option (Option CommentSyntax) :=
  r.cached.lookup key

/-- Remember an answer that the source gave, unless there is one already; the remembered answer
counts. -/
def store (r : Resolver) (key : String) (answer : Option CommentSyntax) :
    Option CommentSyntax × Resolver :=
  match r.peek? key with
  | some kept => (kept, { r with asked := key :: r.asked })
  | none => (answer, { cached := (key, answer) :: r.cached, asked := key :: r.asked })

/-- The comment syntax of a language; the source is asked only if no answer is remembered. -/
def resolve {m : Type → Type} [Monad m] (source : SyntaxSource m) (language : String) :
    StateT Resolver m (Option CommentSyntax) := do
  let key := Language.canonical language
  match (← get).peek? key with
  | some answer => return answer
  | none =>
    let answer ← source key
    modifyGet fun r => r.store key answer

/-- Forget every answer. -/
def invalidate (r : Resolver) : Resolver :=
  { r with cached := [] }

/-- The number of answers that are remembered. -/
def cachedCount (r : Resolver) : Nat := r.cached.length

/-- The number of times that the source has been asked. -/
def askedCount (r : Resolver) : Nat := r.asked.length

/-- A short description. -/
def describe (r : Resolver) : String :=
  "SyntaxResolver \x7b cached_languages: " ++ toString r.cachedCount ++ ", .. \x7d"

end Resolver

end CommentTags
