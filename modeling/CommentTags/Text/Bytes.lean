/-!
# Byte offsets

Places in a text are counted in bytes of its UTF-8 form. A text is a list of characters here, so
an offset is a sum of character widths, and a boundary is the width of some first part.
-/

namespace CommentTags.Text

/-- The number of bytes of a text. -/
def byteLength : List Char → Nat
  | [] => 0
  | c :: s => c.utf8Size + byteLength s

/-- Drop the first `n` bytes, if they end between two characters. -/
def dropBytes? : Nat → List Char → Option (List Char)
  | 0, s => some s
  | _ + 1, [] => none
  | n + 1, c :: s => if c.utf8Size ≤ n + 1 then dropBytes? (n + 1 - c.utf8Size) s else none
termination_by _ s => s.length

/-- The first `n` bytes, if they end between two characters. -/
def takeBytes? : Nat → List Char → Option (List Char)
  | 0, _ => some []
  | _ + 1, [] => none
  | n + 1, c :: s =>
    if c.utf8Size ≤ n + 1 then (takeBytes? (n + 1 - c.utf8Size) s).map (c :: ·) else none
termination_by _ s => s.length

/-- The bytes from `start` up to `stop`, if both are boundaries in that order. -/
def slice? (s : List Char) (start stop : Nat) : Option (List Char) :=
  if start ≤ stop then (dropBytes? start s).bind (takeBytes? (stop - start)) else none

/-- The number of characters that end at or before the byte offset `n`. -/
def charsWithin (n : Nat) : List Char → Nat
  | [] => 0
  | c :: s => if c.utf8Size ≤ n then charsWithin (n - c.utf8Size) s + 1 else 0

/-- The bytes of two texts are counted together. -/
@[simp] theorem byteLength_append (s t : List Char) :
    byteLength (s ++ t) = byteLength s + byteLength t := by
  induction s with
  | nil => simp [byteLength]
  | cons c s ih => simp [byteLength, ih, Nat.add_assoc]

end CommentTags.Text
