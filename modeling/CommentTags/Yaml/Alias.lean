import CommentTags.Yaml.Schema

/-!
# Following aliases

A document is looked at from its root. An alias leads to the node that has its anchor. Since a node
may hold aliases of nodes that it is part of, the number of aliases that are followed is limited, as
is the number of collections that are nested in each other.
-/

namespace CommentTags.Yaml

/-- What the aliases of a document refer to. -/
structure Aliases where
  targets : List (Nat × Node)
  /-- The number of aliases that may be followed. -/
  limit : Nat
  deriving Repr

/-- Whether a node holds other nodes. -/
def Node.isCollection : Node → Bool
  | .aliasOf _ => false
  | .scalar _ _ _ => false
  | .sequence _ _ _ => true
  | .mapping _ _ _ => true

/-- The size of a document: each node counts once, and a collection once more for its end. -/
def Node.size (root : Node) : Nat :=
  root.within.length + (root.within.filter Node.isCollection).length

namespace Aliases

/-- The aliases of a document. Of several anchors with one number the last one counts. -/
def ofRoot (root : Node) : Aliases :=
  { targets := (root.within.filterMap fun n => n.anchor?.map fun number => (number, n)).reverse
    limit := 100 * root.size }

end Aliases

/-- A reading of a document, which counts the aliases that it follows. -/
abbrev Walk := StateT Nat (Except Error)

namespace Aliases

/-- The node that a node stands for. -/
def follow (a : Aliases) : Node → Walk Node
  | .aliasOf number => fun count =>
    if a.limit ≤ count then .error .tooManyAliases
    else
      match a.targets.lookup number with
      | none => .error .unknownAlias
      | some node => .ok (node, count + 1)
  | node => pure node

/-- The text of a scalar. -/
def text (a : Aliases) (node : Node) : Walk (List Char) := do
  match ← a.follow node with
  | .scalar _ _ s => return s.text
  | _ => throw .wrongKind

/-- The truth value of a plain scalar, or of a literal one with the tag of truth values. -/
def bool (a : Aliases) (node : Node) : Walk Bool := do
  match ← a.follow node with
  | .scalar _ tag s =>
    if s.style = .plain || (s.style = .literal && tag = some .bool) then
      match bool? s.text with
      | some b => return b
      | none => throw .wrongKind
    else throw .wrongKind
  | _ => throw .wrongKind

/-- The items of a sequence. There are none where nothing is written. -/
def items (a : Aliases) (node : Node) : Walk (List Node) := do
  match ← a.follow node with
  | .sequence _ _ items => return items
  | .scalar _ _ s => if s = .empty then return [] else throw .wrongKind
  | _ => throw .wrongKind

/-- The entries of a mapping with their keys as texts. There are none where nothing is written. -/
def fields (a : Aliases) (node : Node) : Walk (List (List Char × Node)) := do
  match ← a.follow node with
  | .mapping _ _ entries => entries.mapM fun (key, value) => return (← a.text key, value)
  | .scalar _ _ s => if s = .empty then return [] else throw .wrongKind
  | _ => throw .wrongKind

/-- What is found where any value may stand. Collections may be nested in each other `depth` times. -/
def content (a : Aliases) : (depth : Nat) → Node → Walk Content
  | 0, node => do
    match ← a.follow node with
    | .scalar _ tag s => Content.ofScalar tag s
    | _ => throw .tooDeep
  | depth + 1, node => do
    match ← a.follow node with
    | .aliasOf _ => throw .tooDeep
    | .scalar _ tag s => Content.ofScalar tag s
    | .sequence _ tag items =>
      if tag = some .custom then throw .wrongKind
      else
        items.forM fun item => discard (content a depth item)
        return .other
    | .mapping _ tag entries =>
      if tag = some .custom then throw .wrongKind
      else
        entries.forM fun (key, value) => do
          discard (content a depth key)
          discard (content a depth value)
        return .other

end Aliases

/-- The number of collections that may be nested in each other. -/
def maxDepth : Nat := 128

/-- The value of a key, which may occur only once. -/
def uniqueField? {α : Type} (fields : List (List Char × α)) (name : String) :
    Except Error (Option α) :=
  match fields.filter (·.1 == name.toList) with
  | [] => .ok none
  | [(_, value)] => .ok (some value)
  | _ => .error .repeatedKey

end CommentTags.Yaml
