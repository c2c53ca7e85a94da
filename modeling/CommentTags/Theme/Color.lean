import CommentTags.Text.Blank
import CommentTags.Text.Bytes
import CommentTags.Text.Digits

/-!
# Colours

A colour is written as three, six or eight hexadecimal digits, with number signs before them: one
digit or two for each of red, green and blue, and two for how opaque it is. A channel of two digits
may also be one digit after a plus sign.
-/

namespace CommentTags

structure Color where
  red : Nat
  green : Nat
  blue : Nat
  alpha : Nat := 255
  deriving Repr, DecidableEq

/-- Why a text is not a colour. -/
inductive ColorError
  /-- The text has the wrong length or is cut inside a character. -/
  | format (text : String)
  /-- A channel is not a number. -/
  | digit (text : String)
  deriving Repr, DecidableEq

/-- The text of an error. -/
def ColorError.message : ColorError → String
  | .format text => "Invalid color format: " ++ text
  | .digit text => text ++ ": invalid digit found in string"

namespace Color

/-- The value of a channel: digits, after a plus sign if there are two characters or more. -/
def channelValue? : List Char → Option Nat
  | [a] => Text.digitValue? 16 a
  | '+' :: digits => Text.number? 16 digits
  | digits => Text.number? 16 digits

/-- Read the channel in the bytes from `start` up to `stop`. -/
def channel (text : String) (digits : List Char) (start stop : Nat) : Except ColorError Nat :=
  match Text.slice? digits start stop with
  | none => .error (.format text)
  | some part =>
    match channelValue? part with
    | none => .error (.digit text)
    | some n => .ok n

/-- Read a colour. White space around it is left out. -/
def parse (text : String) : Except ColorError Color := do
  let digits := (Text.trim text.toList).dropWhile (· == '#')
  let read := channel text digits
  match Text.byteLength digits with
  | 3 => return ⟨17 * (← read 0 1), 17 * (← read 1 2), 17 * (← read 2 3), 255⟩
  | 6 => return ⟨← read 0 2, ← read 2 4, ← read 4 6, 255⟩
  | 8 => return ⟨← read 0 2, ← read 2 4, ← read 4 6, ← read 6 8⟩
  | _ => .error (.format text)

end Color

end CommentTags
