import CommentTags.Scan.Finders

/-!
# Findings grouped by tag

The result of a scan has one group for each tag, in the order of the tags. A group holds the ranges
of the tag's comments, each of them once, in the order of the text.
-/

namespace CommentTags

/-- The bytes from `start` up to `stop`. -/
structure Span where
  start : Nat
  stop : Nat
  deriving Repr, DecidableEq

/-- Spans are ordered by their start, then by their stop. -/
def Span.le (a b : Span) : Bool :=
  a.start < b.start || (a.start == b.start && a.stop ≤ b.stop)

/-- The range of a finding. -/
def Finding.span (f : Finding) : Span := ⟨f.start, f.stop⟩

/-- Findings are ordered by their range, then by their tag. -/
def Finding.le (a b : Finding) : Bool :=
  a.start < b.start ||
    (a.start == b.start && (a.stop < b.stop || (a.stop == b.stop && a.style ≤ b.style)))

/-- Keep the first of equal neighbours. -/
def dropRepeats {α : Type} [DecidableEq α] : List α → List α
  | [] => []
  | [a] => [a]
  | a :: b :: rest => if a = b then dropRepeats (b :: rest) else a :: dropRepeats (b :: rest)

/-- The comments of one tag. -/
structure TagRanges where
  style : Nat
  tag : String
  ranges : List Span
  deriving Repr, DecidableEq

/-- Every finding of a group. -/
def TagRanges.findings (g : TagRanges) : List Finding :=
  g.ranges.map fun r => ⟨g.style, r.start, r.stop⟩

/-- The comments of each tag. -/
structure Collected where
  groups : List TagRanges
  deriving Repr, DecidableEq

namespace Collected

/-- The ranges of the findings of one tag, in order and without repetitions. -/
def rangesOf (style : Nat) (found : List Finding) : List Span :=
  dropRepeats (((found.filter (·.style == style)).map (·.span)).mergeSort Span.le)

/-- Findings grouped by tag. Those of a style that is not registered are dropped. -/
def collect (tags : Registry) (found : List Finding) : Collected :=
  ⟨tags.tags.mapIdx fun style tag => ⟨style, tag.marker, rangesOf style found⟩⟩

/-- The ranges of a tag; none if it is not registered. -/
def rangesFor (c : Collected) (style : Nat) : List Span :=
  match c.groups[style]? with
  | none => []
  | some group => group.ranges

/-- All findings in the order of the text. -/
def sorted (c : Collected) : List Finding :=
  (c.groups.flatMap (·.findings)).mergeSort Finding.le

/-- The number of ranges. -/
def size (c : Collected) : Nat :=
  (c.groups.flatMap (·.ranges)).length

/-- Whether nothing was found. -/
def isEmpty (c : Collected) : Bool := c.size == 0

end Collected

end CommentTags
