import CommentTags.Settings.Basic
import CommentTags.Yaml.Alias
import CommentTags.Yaml.Document

/-!
# Settings in YAML

Settings are a mapping whose keys may all be left out; keys that are not known do not count. A tag is
a mapping too. Its marker may be any scalar, but every other value of it has to be understood, also
that of a key that is not known.
-/

namespace CommentTags

open Yaml

/-- The value of a switch; `default` if the key is left out. -/
def readToggle (a : Aliases) (fields : List (List Char × Node)) (name : String) (default : Bool) :
    Walk Bool := do
  match ← uniqueField? fields name with
  | none => return default
  | some node => a.bool node

/-- A colour, if there is one. -/
def readColor (fields : List (List Char × Content)) (name : String) :
    Except Yaml.Error (Option String) := do
  match ← uniqueField? fields name with
  | none | some .null => return none
  | some (.text s) => return some (String.ofList s)
  | some _ => .error .wrongKind

/-- Whether a style has a property. -/
def readProperty (fields : List (List Char × Content)) (name : String) :
    Except Yaml.Error Bool := do
  match ← uniqueField? fields name with
  | none => return false
  | some (.bool b) => return b
  | some _ => .error .wrongKind

/-- The style of a tag. -/
def TagStyle.ofContents (fields : List (List Char × Content)) : Except Yaml.Error TagStyle := do
  return {
    color := ← readColor fields "color"
    backgroundColor := ← readColor fields "background_color"
    bold := ← readProperty fields "bold"
    italic := ← readProperty fields "italic"
    underline := ← readProperty fields "underline"
    strikethrough := ← readProperty fields "strikethrough" }

/-- A tag, which is nested in two collections. -/
def Tag.ofNode (a : Aliases) (node : Node) : Walk Tag := do
  let fields ← a.fields node
  match ← uniqueField? fields "tag" with
  | none => throw (.missingKey "tag")
  | some marker =>
    let marker ← a.text marker
    let others ← (fields.filter (·.1 != "tag".toList)).mapM fun (key, value) =>
      return (key, ← a.content (maxDepth - 3) value)
    return ⟨String.ofList marker, ← TagStyle.ofContents others⟩

namespace Settings

/-- The settings that a node stands for. -/
def ofNode (a : Aliases) (node : Node) : Walk Settings := do
  let fields ← a.fields node
  let tags ← match ← uniqueField? fields "tags" with
    | none => pure defaultTags
    | some node => (← a.items node).mapM (Tag.ofNode a)
  return {
    tags
    toggles := {
      highlightMarkdown := ← readToggle a fields "highlight_markdown" true
      multilineComments := ← readToggle a fields "multiline_comments" true
      highlightPlainText := ← readToggle a fields "highlight_plain_text" false
      useDocStyle := ← readToggle a fields "use_jsdoc_style" true } }

/-- Read settings from a YAML text; an empty text stands for the settings of a fresh installation. -/
def parse (text : String) : Except Yaml.Error Settings := do
  match ← Yaml.parse text with
  | none => return {}
  | some root =>
    let (settings, _) ← (ofNode (.ofRoot root) root).run 0
    return settings

end Settings

end CommentTags
