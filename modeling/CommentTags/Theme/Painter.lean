import CommentTags.Findings.Collected
import CommentTags.Theme.Ansi

/-!
# Painting a text

A painter holds the ranges of each tag and wraps them in the tag's style. Where ranges overlap, the
one that starts first is painted; ranges that do not fit the text are not painted.
-/

namespace CommentTags

/-- The styles of the tags, each with the ranges that are drawn in it. -/
structure Painter where
  slots : List (AnsiStyle × List Span)
  deriving Repr, DecidableEq

/-- A range with the style it is drawn in. -/
structure StyledSpan where
  span : Span
  style : AnsiStyle
  deriving Repr, DecidableEq

namespace Painter

/-- A painter for the tags of a registry, without ranges. -/
def ofRegistry (tags : Registry) : Painter :=
  ⟨tags.tags.map fun tag => (AnsiStyle.ofTagStyle tag.style, [])⟩

def style? (p : Painter) (style : Nat) : Option AnsiStyle :=
  p.slots[style]?.map (·.1)

/-- Set the ranges of a tag; nothing changes if the tag is not registered. -/
def replace (p : Painter) (style : Nat) (ranges : List Span) : Painter :=
  ⟨p.slots.modify style fun slot => (slot.1, ranges)⟩

/-- Set the ranges of all tags to those of a scan. -/
def apply (p : Painter) (c : Collected) : Painter :=
  c.groups.foldl (fun p g => p.replace g.style g.ranges) p

/-- All ranges with their styles, in the order in which they start and stop. Of equal ranges the
one of the earlier tag, or the one that was given first, comes first. -/
def spans (p : Painter) : List StyledSpan :=
  (p.slots.flatMap fun slot => slot.2.map fun span => ⟨span, slot.1⟩).mergeSort
    fun a b => a.span.le b.span

/-- A part of the text in a style. -/
def wrap (style : AnsiStyle) (part : List Char) : List Char :=
  if style.switchOn = "" then part
  else style.switchOn.toList ++ part ++ AnsiStyle.switchOff.toList

/-- Paint the text that follows the byte offset `cursor`, with the ranges that are left. -/
def paintFrom (text : List Char) : Nat → List StyledSpan → List Char
  | cursor, [] => (Text.dropBytes? cursor text).getD []
  | cursor, s :: rest =>
    if s.span.start < cursor then paintFrom text cursor rest
    else
      match Text.slice? text s.span.start s.span.stop with
      | none => paintFrom text cursor rest
      | some part =>
        (Text.slice? text cursor s.span.start).getD [] ++ wrap s.style part ++
          paintFrom text s.span.stop rest

/-- The text with every range in its style. -/
def paint (p : Painter) (text : String) : String :=
  String.ofList (paintFrom text.toList 0 p.spans)

end Painter

end CommentTags
