import CommentTags.Settings.Basic
import CommentTags.Yaml.Printer

/-!
# Writing settings as YAML

Every setting is written, also those that have not been changed; only colours that are not set are
left out.
-/

namespace CommentTags

open Yaml

/-- The text of a truth value. -/
def printBool (b : Bool) : List Char :=
  if b then "true".toList else "false".toList

/-- A line with a key and a truth value. -/
def printToggle (indent : List Char) (name : String) (b : Bool) : List Char :=
  indent ++ name.toList ++ ": ".toList ++ printBool b ++ ['\n']

/-- The indent of the keys of a tag after the first one. -/
def tagIndent : List Char := "  ".toList

/-- The indent of texts that take lines of their own. -/
def textIndent : List Char := "    ".toList

/-- A colour, if there is one. -/
def printColor (name : String) : Option String → List Char
  | none => []
  | some color => tagIndent ++ name.toList ++ ": ".toList ++ printText textIndent color.toList

/-- A tag as an item of a list. -/
def Tag.printYaml (t : Tag) : List Char :=
  "- tag: ".toList ++ printText textIndent t.marker.toList ++
    printColor "color" t.style.color ++
    printColor "background_color" t.style.backgroundColor ++
    printToggle tagIndent "bold" t.style.bold ++
    printToggle tagIndent "italic" t.style.italic ++
    printToggle tagIndent "underline" t.style.underline ++
    printToggle tagIndent "strikethrough" t.style.strikethrough

/-- The tags with their key. -/
def printTags (tags : List Tag) : List Char :=
  if tags.isEmpty then "tags: []\n".toList
  else "tags:\n".toList ++ tags.flatMap Tag.printYaml

namespace Settings

/-- The settings as lines of text. -/
def printYaml (s : Settings) : List Char :=
  printTags s.tags ++
    printToggle [] "highlight_markdown" s.toggles.highlightMarkdown ++
    printToggle [] "multiline_comments" s.toggles.multilineComments ++
    printToggle [] "highlight_plain_text" s.toggles.highlightPlainText ++
    printToggle [] "use_jsdoc_style" s.toggles.useDocStyle

/-- The settings as a YAML text. -/
def toYaml (s : Settings) : String := String.ofList s.printYaml

end Settings

end CommentTags
