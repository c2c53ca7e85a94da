import CommentTags.Yaml.Error
import CommentTags.Yaml.Input

/-!
# The names of anchors

An anchor gives a name to a node, and an alias stands for the node that got its name last. Anchors
are told apart by numbers: the number of an anchor is that of the names known before it. If a name is
given again, a later anchor may get the same number, and then counts for the aliases of both.
-/

namespace CommentTags.Yaml

/-- The names that are known, each with the number of the anchor that has it. -/
abbrev AnchorNames := List (List Char × Nat)

/-- Give a name to the next anchor. -/
def AnchorNames.add (names : AnchorNames) (name : List Char) : AnchorNames :=
  (name, names.length) :: names.filter (·.1 ≠ name)

/-- Read the name of an anchor or alias, which starts after its indicator. -/
def readName (i : Input) : Except Error (List Char × Input) :=
  let (name, next) := i.span isNameChar
  if name.isEmpty then .error .badAnchor
  else if endsWord next.rest || next.rest.head?.any ("?:,]\x7d%@\x60".toList.contains ·) then
    .ok (name, next)
  else .error .badAnchor

/-- Read a name that is known, with the number of its anchor. -/
def readKnownName (names : AnchorNames) (i : Input) : Except Error (Nat × Input) := do
  let (name, i) ← readName i
  match names.lookup name with
  | none => .error .unknownAlias
  | some number => return (number, i)

end CommentTags.Yaml
