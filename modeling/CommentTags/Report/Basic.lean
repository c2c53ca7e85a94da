import CommentTags.Document.Basic
import CommentTags.Findings.Collected
import CommentTags.Json.Printer

/-!
# Reports

A record for each tagged comment of a document, in the order of the text, with the line and column
where it starts (counted from one) and its text. A record is written as a line of text or as a JSON
object.
-/

namespace CommentTags

/-- A tagged comment as it is reported. -/
structure TagMatch where
  source : String
  tag : String
  start : Nat
  stop : Nat
  line : Nat
  column : Nat
  text : String
  deriving Repr, DecidableEq

namespace TagMatch

/-- The record of a finding; there is none if its tag is not registered or its range is not in the
document. -/
def ofFinding? (source : String) (d : Document) (tags : Registry) (f : Finding) :
    Option TagMatch := do
  let tag ← tags.tag? f.style
  let text ← d.slice? f.start f.stop
  let position := d.positionAt f.start
  return ⟨source, tag.marker, f.start, f.stop, position.line + 1, position.column + 1, text⟩

/-- The records of a scan, in the order of the text. -/
def collect (source : String) (d : Document) (tags : Registry) (c : Collected) : List TagMatch :=
  c.sorted.filterMap (ofFinding? source d tags)

/-- The record as a line of text. -/
def textLine (m : TagMatch) : String :=
  m.source ++ ":" ++ toString m.line ++ ":" ++ toString m.column ++ ": " ++ m.tag ++ "  " ++ m.text

/-- The record as a JSON object. -/
def toJson (m : TagMatch) : Json :=
  .object
    [("source", .string m.source), ("tag", .string m.tag), ("start", .nat m.start),
      ("end", .nat m.stop), ("line", .nat m.line), ("column", .nat m.column),
      ("text", .string m.text)]

/-- The record as a line of JSON. -/
def jsonLine (m : TagMatch) : String :=
  String.ofList m.toJson.print

end TagMatch

/-- Grouped findings as a JSON object. -/
def Collected.toJson (c : Collected) : Json :=
  .object
    [("groups", .array (c.groups.map fun g =>
      .object
        [("style", .nat g.style), ("tag", .string g.tag),
          ("ranges", .array (g.ranges.map fun r =>
            .object [("start", .nat r.start), ("end", .nat r.stop)]))]))]

end CommentTags
