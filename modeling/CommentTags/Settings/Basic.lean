import CommentTags.Scan.Profile
import CommentTags.Tag.Registry

/-!
# Settings

The tags and switches of a user.
-/

namespace CommentTags

structure Settings where
  tags : List Tag := defaultTags
  toggles : Toggles := {}
  deriving Repr, DecidableEq, Inhabited

/-- The registry of the tags. -/
def Settings.registry (s : Settings) : Registry := ⟨s.tags⟩

end CommentTags
