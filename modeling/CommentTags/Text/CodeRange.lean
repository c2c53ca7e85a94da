/-!
# Ranges of characters

Tables of character properties are lists of ranges of code points. A range of a case mapping also
says which character its first one is mapped to; the others follow in step.
-/

namespace CommentTags.Text

/-- The code points from `first` to `last`. -/
structure CodeRange where
  first : Nat
  last : Nat

/-- The code points `first`, `first + step`, … up to `last`, mapped in step from `target` on. -/
structure CaseRange where
  first : Nat
  last : Nat
  step : Nat
  target : Nat

/-- Whether a code point lies in a range. -/
def CodeRange.contains (r : CodeRange) (n : Nat) : Bool :=
  r.first ≤ n && n ≤ r.last

/-- Whether a character lies in one of the ranges. -/
def inRanges (rs : List CodeRange) (c : Char) : Bool :=
  rs.any (·.contains c.toNat)

/-- The image of a code point, if the range has it. -/
def CaseRange.image? (r : CaseRange) (n : Nat) : Option Nat :=
  if r.first ≤ n && n ≤ r.last && (n - r.first) % r.step == 0 then some (r.target + (n - r.first))
  else none

/-- The image of a character under the first range that has it; other characters stay. -/
def shiftCase (rs : List CaseRange) (c : Char) : Char :=
  match rs.findSome? (·.image? c.toNat) with
  | some n => Char.ofNat n
  | none => c

end CommentTags.Text
