import CommentTags.Yaml.Error
import CommentTags.Yaml.Token

/-!
# The structure of a YAML text

Tokens are read as a tree of scalars, sequences and mappings. Where a node may be left out, an empty
scalar stands for it.
-/

namespace CommentTags.Yaml

/-- What the tag of a node says about its type. -/
inductive TagKind
  | bool
  | int
  | float
  | null
  /-- A type of the text's own. -/
  | custom
  /-- Any other type. -/
  | other
  deriving Repr, DecidableEq

/-- The bytes of an ASCII text. -/
def asciiBytes (s : String) : List UInt8 := s.toList.map fun c => c.toNat.toUInt8

/-- The start of the tags of common types. -/
def commonTag (name : String) : List UInt8 := asciiBytes ("tag:yaml.org,2002:" ++ name)

/-- Whether bytes are the UTF-8 form of a text. -/
def isUtf8 (bytes : List UInt8) : Bool := (ByteArray.mk bytes.toArray).validateUTF8

/-- What a tag says. A tag that begins with an exclamation mark names a type of the text's own, but
says nothing if it is not a text. -/
def TagKind.ofBytes : List UInt8 → Option TagKind
  | 0x21 :: name => if isUtf8 name then some .custom else none
  | tag =>
    if tag = commonTag "bool" then some .bool
    else if tag = commonTag "int" then some .int
    else if tag = commonTag "float" then some .float
    else if tag = commonTag "null" then some .null
    else some .other

/-- A node. Some nodes have an anchor, by which aliases refer to them. -/
inductive Node
  | aliasOf (number : Nat)
  | scalar (anchor : Option Nat) (tag : Option TagKind) (s : Scalar)
  | sequence (anchor : Option Nat) (tag : Option TagKind) (items : List Node)
  | mapping (anchor : Option Nat) (tag : Option TagKind) (entries : List (Node × Node))
  deriving Repr

namespace Node

/-- The node that stands where nothing is written. -/
def empty : Node := .scalar none none .empty

/-- The anchor of a node. -/
def anchor? : Node → Option Nat
  | .aliasOf _ => none
  | .scalar anchor _ _ => anchor
  | .sequence anchor _ _ => anchor
  | .mapping anchor _ _ => anchor

mutual

/-- A node with all nodes in it, in the order in which they begin. -/
def within : Node → List Node
  | .aliasOf n => [.aliasOf n]
  | .scalar anchor tag s => [.scalar anchor tag s]
  | .sequence anchor tag items => .sequence anchor tag items :: withinItems items
  | .mapping anchor tag entries => .mapping anchor tag entries :: withinEntries entries

def withinItems : List Node → List Node
  | [] => []
  | item :: items => item.within ++ withinItems items

def withinEntries : List (Node × Node) → List Node
  | [] => []
  | (key, value) :: entries => key.within ++ value.within ++ withinEntries entries

end

end Node

/-- The handles that stand for the start of a tag. -/
abbrev TagHandles := List (List Char × List UInt8)

/-- The handles that need not be declared. -/
def defaultHandles : TagHandles :=
  [(['!'], asciiBytes "!"), (['!', '!'], commonTag "")]

/-- The anchor and the tag that stand before a node. -/
structure Properties where
  anchor : Option Nat := none
  tag : Option (List UInt8) := none
  deriving Repr, DecidableEq

namespace Properties

def isEmpty (p : Properties) : Bool := p.anchor.isNone && p.tag.isNone

/-- The meaning of a tag, with its handle replaced. -/
def resolveTag (handles : TagHandles) (name : TagName) : Except Error (List UInt8) :=
  if name.handle = [] then .ok name.suffix
  else
    match handles.lookup name.handle with
    | none => .error .unknownHandle
    | some start => .ok (start ++ name.suffix)

/-- Read the properties of a node: an anchor and a tag in either order. -/
def read (handles : TagHandles) : List Token → Except Error (Properties × List Token)
  | .anchor n :: .tag name :: ts => (resolveTag handles name).map fun tag => (⟨some n, some tag⟩, ts)
  | .tag name :: .anchor n :: ts => (resolveTag handles name).map fun tag => (⟨some n, some tag⟩, ts)
  | .anchor n :: ts => .ok (⟨some n, none⟩, ts)
  | .tag name :: ts => (resolveTag handles name).map fun tag => (⟨none, some tag⟩, ts)
  | ts => .ok ({}, ts)

def kind (p : Properties) : Option TagKind := p.tag.bind TagKind.ofBytes

/-- The kind of the tag of a scalar, for which a single exclamation mark is no tag. -/
def scalarKind (p : Properties) : Option TagKind :=
  if p.tag = some (asciiBytes "!") then none else p.kind

end Properties

/-- What is read from tokens, with the tokens that are left. -/
abbrev Reading (α : Type) := List Token → Except Error (α × List Token)

/-- Move past the comma before an item, unless it is the first one. -/
def passComma (first : Bool) : List Token → Except Error (List Token)
  | .flowEntry :: ts => if first then .ok (.flowEntry :: ts) else .ok ts
  | ts => if first then .ok ts else .error .unexpectedToken

/-- Whether a node is left out before the tokens: one of the given tokens follows. -/
def leftOut (stops : List Token) (ts : List Token) : Bool :=
  ts.head?.any (stops.contains ·)

mutual

/-- Read a node. Nodes in block style are read only if `block` is set, and a sequence without an
indent of its own only if `indentless` is set. -/
def readNode (handles : TagHandles) (block indentless : Bool) : Nat → Reading Node
  | 0, _ => .error .unexpectedToken
  | fuel + 1, ts =>
    match ts with
    | .aliasOf n :: ts => .ok (.aliasOf n, ts)
    | _ => do
      let (p, ts) ← Properties.read handles ts
      match ts with
      | .scalar s :: ts => return (.scalar p.anchor p.scalarKind s, ts)
      | .flowSequenceStart :: ts =>
        let (items, ts) ← readFlowItems handles true fuel ts
        return (.sequence p.anchor p.kind items, ts)
      | .flowMappingStart :: ts =>
        let (entries, ts) ← readFlowEntries handles true fuel ts
        return (.mapping p.anchor p.kind entries, ts)
      | ts =>
        match block, indentless, ts with
        | _, true, .blockEntry :: _ =>
          let (items, ts) ← readIndentlessItems handles fuel ts
          return (.sequence p.anchor p.kind items, ts)
        | true, _, .blockSequenceStart :: ts =>
          let (items, ts) ← readBlockItems handles fuel ts
          return (.sequence p.anchor p.kind items, ts)
        | true, _, .blockMappingStart :: ts =>
          let (entries, ts) ← readBlockEntries handles fuel ts
          return (.mapping p.anchor p.kind entries, ts)
        | _, _, ts =>
          if p.isEmpty then .error .unexpectedToken
          else return (.scalar p.anchor p.kind .empty, ts)

/-- Read a node unless it is left out. -/
def readOptional (handles : TagHandles) (block indentless : Bool) (stops : List Token) :
    Nat → Reading Node
  | 0, _ => .error .unexpectedToken
  | fuel + 1, ts =>
    if leftOut stops ts then .ok (.empty, ts) else readNode handles block indentless fuel ts

/-- Read the items of a block sequence up to its end. -/
def readBlockItems (handles : TagHandles) : Nat → Reading (List Node)
  | 0, _ => .error .unexpectedToken
  | fuel + 1, ts =>
    match ts with
    | .blockEntry :: ts => do
      let (item, ts) ← readOptional handles true false [.blockEntry, .blockEnd] fuel ts
      let (items, ts) ← readBlockItems handles fuel ts
      return (item :: items, ts)
    | .blockEnd :: ts => .ok ([], ts)
    | _ => .error .unexpectedToken

/-- Read the items of a sequence that has no end of its own. -/
def readIndentlessItems (handles : TagHandles) : Nat → Reading (List Node)
  | 0, _ => .error .unexpectedToken
  | fuel + 1, ts =>
    match ts with
    | .blockEntry :: ts => do
      let (item, ts) ←
        readOptional handles true false [.blockEntry, .key, .value, .blockEnd] fuel ts
      let (items, ts) ← readIndentlessItems handles fuel ts
      return (item :: items, ts)
    | ts => .ok ([], ts)

/-- Read the value of a key in a block mapping; it is left out if there is no colon. -/
def readBlockValue (handles : TagHandles) : Nat → Reading Node
  | 0, _ => .error .unexpectedToken
  | fuel + 1, ts =>
    match ts with
    | .value :: ts => readOptional handles true true [.key, .value, .blockEnd] fuel ts
    | ts => .ok (.empty, ts)

/-- Read the entries of a block mapping up to its end. -/
def readBlockEntries (handles : TagHandles) : Nat → Reading (List (Node × Node))
  | 0, _ => .error .unexpectedToken
  | fuel + 1, ts =>
    match ts with
    | .key :: ts => do
      let (key, ts) ← readOptional handles true true [.key, .value, .blockEnd] fuel ts
      let (value, ts) ← readBlockValue handles fuel ts
      let (entries, ts) ← readBlockEntries handles fuel ts
      return ((key, value) :: entries, ts)
    | .blockEnd :: ts => .ok ([], ts)
    | _ => .error .unexpectedToken

/-- Read the value of a key in a flow collection that ends with the given token. -/
def readFlowValue (handles : TagHandles) (stop : Token) : Nat → Reading Node
  | 0, _ => .error .unexpectedToken
  | fuel + 1, ts =>
    match ts with
    | .value :: ts => readOptional handles false false [.flowEntry, stop] fuel ts
    | ts => .ok (.empty, ts)

/-- Read the key and value of a mapping that is written as an item of a flow sequence. If the key is
left out, the token that stands in its place is passed over. -/
def readPair (handles : TagHandles) : Nat → Reading Node
  | 0, _ => .error .unexpectedToken
  | fuel + 1, ts => do
    let (key, ts) ←
      if leftOut [.value, .flowEntry, .flowSequenceEnd] ts then pure (Node.empty, ts.tail)
      else readNode handles false false fuel ts
    let (value, ts) ← readFlowValue handles .flowSequenceEnd fuel ts
    return (.mapping none none [(key, value)], ts)

/-- Read the items of a flow sequence up to its end. Before all but the first one stands a comma,
which may also stand after the last one. -/
def readFlowItems (handles : TagHandles) (first : Bool) : Nat → Reading (List Node)
  | 0, _ => .error .unexpectedToken
  | fuel + 1, ts =>
    match ts with
    | .flowSequenceEnd :: ts => .ok ([], ts)
    | ts => do
      let ts ← passComma first ts
      match ts with
      | .flowSequenceEnd :: ts => return ([], ts)
      | .key :: ts =>
        let (item, ts) ← readPair handles fuel ts
        let (items, ts) ← readFlowItems handles false fuel ts
        return (item :: items, ts)
      | ts =>
        let (item, ts) ← readNode handles false false fuel ts
        let (items, ts) ← readFlowItems handles false fuel ts
        return (item :: items, ts)

/-- Read the entries of a flow mapping up to its end. -/
def readFlowEntries (handles : TagHandles) (first : Bool) : Nat → Reading (List (Node × Node))
  | 0, _ => .error .unexpectedToken
  | fuel + 1, ts =>
    match ts with
    | .flowMappingEnd :: ts => .ok ([], ts)
    | ts => do
      let ts ← passComma first ts
      match ts with
      | .flowMappingEnd :: ts => return ([], ts)
      | .key :: ts =>
        let (key, ts) ←
          readOptional handles false false [.value, .flowEntry, .flowMappingEnd] fuel ts
        let (value, ts) ← readFlowValue handles .flowMappingEnd fuel ts
        let (entries, ts) ← readFlowEntries handles false fuel ts
        return ((key, value) :: entries, ts)
      | ts =>
        let (key, ts) ← readNode handles false false fuel ts
        let (entries, ts) ← readFlowEntries handles false fuel ts
        return ((key, .empty) :: entries, ts)

end

end CommentTags.Yaml
