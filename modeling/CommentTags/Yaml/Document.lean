import CommentTags.Yaml.Lexer
import CommentTags.Yaml.Node

/-!
# YAML documents

A text holds at most one document here. A document may begin with directives, and need not hold
anything.
-/

namespace CommentTags.Yaml

/-- The directives of a document. -/
structure Directives where
  /-- A version has been given. -/
  versioned : Bool := false
  /-- The handles that have been declared. -/
  declared : TagHandles := []
  deriving Repr, DecidableEq

/-- The handles of a document; a declaration counts more than a default. -/
def Directives.handles (d : Directives) : TagHandles := d.declared ++ defaultHandles

/-- Read directives up to the start of the document. -/
def Directives.read (d : Directives) : List Token → Except Error (Directives × List Token)
  | .versionDirective major minor :: ts =>
    if d.versioned then .error .repeatedDirective
    else if major = 1 && (minor = 1 || minor = 2) then { d with versioned := true }.read ts
    else .error .badDirective
  | .tagDirective handle start :: ts =>
    if d.declared.any (·.1 == handle) then .error .repeatedDirective
    else { d with declared := (handle, start) :: d.declared }.read ts
  | ts => .ok (d, ts)

/-- Whether a token stands between documents. -/
def Token.isBetweenDocuments : Token → Bool
  | .versionDirective _ _ => true
  | .tagDirective _ _ => true
  | .documentStart => true
  | .documentEnd => true
  | _ => false

/-- The number of nodes that tokens may be nested in at most, counting every step of the reading. -/
def readingDepth (ts : List Token) : Nat := 4 * ts.length + 8

/-- Read the contents of a document that begins with a mark. -/
def readContents (handles : TagHandles) : Reading Node
  | [] => .ok (.empty, [])
  | t :: ts =>
    if t.isBetweenDocuments then .ok (.empty, t :: ts)
    else readNode handles true false (readingDepth (t :: ts)) (t :: ts)

/-- Read a document with its directives. The first document of a text needs no mark. -/
def readDocument (ts : List Token) : Except Error (Node × List Token) := do
  match ts with
  | .versionDirective _ _ :: _ | .tagDirective _ _ :: _ | .documentStart :: _ =>
    let (d, ts) ← Directives.read {} ts
    match ts with
    | .documentStart :: ts => readContents d.handles ts
    | _ => .error .unexpectedToken
  | ts => readNode defaultHandles true false (readingDepth ts) ts

/-- The document in a text, if there is one. Marks may follow it at its end, but nothing else. -/
def document? (ts : List Token) : Except Error (Option Node) :=
  if ts.isEmpty then .ok none
  else do
    let (node, rest) ← readDocument ts
    if (rest.dropWhile (· == .documentEnd)).isEmpty then return some node
    else .error .severalDocuments

/-- Read the document in a text, if there is one. -/
def parse (text : String) : Except Error (Option Node) := do
  document? (← tokens text)

end CommentTags.Yaml
