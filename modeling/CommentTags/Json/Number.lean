import CommentTags.Json.Basic
import CommentTags.Json.Error

/-!
# Reading JSON numbers

A number without fraction and exponent is whole if it fits 64 bits. Any other number becomes a
floating point number: its leading digits, as many as fit 64 bits, are scaled by a power of ten.
A scale beyond the range of floating point numbers is an error.
-/

namespace CommentTags.Json

/-- What is left to read, and where it stands. -/
structure Input where
  rest : List Char
  place : Place
  deriving Repr, DecidableEq

namespace Input

/-- Move past the next character. -/
def skip (i : Input) : Input :=
  match i.rest with
  | [] => i
  | c :: rest => ⟨rest, i.place.after c⟩

/-- The place just inside the next character; the end of the text if there is none. -/
def peekPlace (i : Input) : Place :=
  match i.rest with
  | [] => i.place
  | c :: _ => i.place.into c

def skipWhile (p : Char → Bool) : List Char → Place → Input
  | [], place => ⟨[], place⟩
  | c :: rest, place => if p c then skipWhile p rest (place.after c) else ⟨c :: rest, place⟩

/-- Move past blanks and line ends. -/
def skipBlanks (i : Input) : Input :=
  skipWhile (fun c => c == ' ' || c == '\n' || c == '\t' || c == '\r') i.rest i.place

/-- Move past digits. -/
def skipDigits (i : Input) : Input :=
  skipWhile Char.isDigit i.rest i.place

/-- An error at the place that has been reached. -/
def fail {α : Type} (i : Input) (f : Fault) : Except Error α := .error ⟨f, i.place⟩

/-- An error just inside the next character. -/
def failNext {α : Type} (i : Input) (f : Fault) : Except Error α := .error ⟨f, i.peekPlace⟩

end Input

/-- The greatest number of 64 bits. -/
def maxWord : Nat := Nat.pow 2 64 - 1

/-- The value of a decimal digit. -/
def digitValue (c : Char) : Nat := c.toNat - '0'.toNat

/-- Add digits to a number as long as it fits 64 bits. The answer has the number, how many digits
went into it, and the input that is left, which begins with a digit only if that did not fit. -/
def addDigits (n taken : Nat) : List Char → Place → Nat × Nat × Input
  | [], place => (n, taken, ⟨[], place⟩)
  | c :: rest, place =>
    if c.isDigit && 10 * n + digitValue c ≤ maxWord then
      addDigits (10 * n + digitValue c) (taken + 1) rest (place.after c)
    else (n, taken, ⟨c :: rest, place⟩)

/-- Whether a decimal digit comes next. -/
def startsWithDigit (i : Input) : Bool :=
  match i.rest with
  | [] => false
  | c :: _ => c.isDigit

/-- The floating point number `10 ^ n`. -/
def powerOfTen (n : Nat) : Float := Float.ofScientific 1 false n

/-- Scale a floating point number by a power of ten; nothing if the scale is out of range. Numbers
are scaled down in steps of the greatest power of ten, of which three make any of them zero. -/
def scale? (x : Float) (exponent : Int) : Nat → Option Float
  | 0 => some x
  | steps + 1 =>
    if exponent.natAbs ≤ 308 then
      if 0 ≤ exponent then
        let y := x * powerOfTen exponent.natAbs
        if y.isInf then none else some y
      else some (x / powerOfTen exponent.natAbs)
    else if x == 0.0 then some x
    else if 0 ≤ exponent then none
    else scale? (x / powerOfTen 308) (exponent + 308) steps

/-- The floating point number with the given digits and exponent. -/
def floatNumber (positive : Bool) (digits : Nat) (exponent : Int) (i : Input) :
    Except Error (JsonNumber × Input) :=
  match scale? digits.toUInt64.toFloat exponent 4 with
  | none => i.fail .numberOutOfRange
  | some x => .ok (.float (if positive then x else -x).toBits, i)

/-- The greatest exponent that is counted. -/
def maxExponent : Nat := Nat.pow 2 31 - 1

/-- Read digits of an exponent; nothing when they exceed the greatest one, with the input after the
digit that was too much. -/
def exponentDigits (n : Nat) : List Char → Place → Option Nat × Input
  | [], place => (some n, ⟨[], place⟩)
  | c :: rest, place =>
    if c.isDigit then
      if 10 * n + digitValue c ≤ maxExponent then
        exponentDigits (10 * n + digitValue c) rest (place.after c)
      else (none, ⟨rest, place.after c⟩)
    else (some n, ⟨c :: rest, place⟩)

/-- Read an exponent, which starts at its letter. -/
def exponentPart (positive : Bool) (digits : Nat) (exponent : Int) (i : Input) :
    Except Error (JsonNumber × Input) :=
  let i := i.skip
  let (up, i) := match i.rest with
    | '+' :: _ => (true, i.skip)
    | '-' :: _ => (false, i.skip)
    | _ => (true, i)
  match i.rest with
  | [] => i.fail .endInValue
  | c :: rest =>
    if !c.isDigit then i.failNext .invalidNumber
    else
      match exponentDigits (digitValue c) rest (i.place.after c) with
      | (some n, i) => floatNumber positive digits (if up then exponent + n else exponent - n) i
      | (none, i) =>
        if digits ≠ 0 && up then i.fail .numberOutOfRange
        else floatNumber positive 0 0 i.skipDigits

/-- Read what follows the digits of a number with a fraction. -/
def afterFraction (positive : Bool) (digits : Nat) (exponent : Int) (i : Input) :
    Except Error (JsonNumber × Input) :=
  match i.rest with
  | 'e' :: _ => exponentPart positive digits exponent i
  | 'E' :: _ => exponentPart positive digits exponent i
  | _ => floatNumber positive digits exponent i

/-- Read a fraction, which starts at its point. -/
def fractionPart (positive : Bool) (digits : Nat) (exponent : Int) (i : Input) :
    Except Error (JsonNumber × Input) :=
  let i := i.skip
  let (digits, taken, i) := addDigits digits 0 i.rest i.place
  if startsWithDigit i then afterFraction positive digits (exponent - taken) i.skipDigits
  else if taken = 0 then
    i.failNext (if i.rest.isEmpty then .endInValue else .invalidNumber)
  else afterFraction positive digits (exponent - taken) i

/-- A whole number; one that does not fit 64 bits with its sign becomes a floating point number. -/
def wholeNumber (positive : Bool) (digits : Nat) : JsonNumber :=
  if positive then .nonneg digits
  else if digits = 0 || Nat.pow 2 63 < digits then .float (-digits.toUInt64.toFloat).toBits
  else .negative digits

/-- Read what follows the whole part of a number. -/
def afterWhole (positive : Bool) (digits : Nat) (i : Input) : Except Error (JsonNumber × Input) :=
  match i.rest with
  | '.' :: _ => fractionPart positive digits 0 i
  | 'e' :: _ => exponentPart positive digits 0 i
  | 'E' :: _ => exponentPart positive digits 0 i
  | _ => .ok (wholeNumber positive digits, i)

/-- Read what follows a whole part whose last digits did not fit; `exponent` counts them. -/
def afterLongWhole (positive : Bool) (digits exponent : Nat) (i : Input) :
    Except Error (JsonNumber × Input) :=
  match i.rest with
  | '.' :: _ => fractionPart positive digits exponent i
  | _ => afterFraction positive digits exponent i

/-- Read a number, which starts after its sign. -/
def numberFrom (positive : Bool) (i : Input) : Except Error (JsonNumber × Input) :=
  match i.rest with
  | [] => i.fail .endInValue
  | c :: _ =>
    if c = '0' then
      if startsWithDigit i.skip then i.skip.failNext .invalidNumber
      else afterWhole positive 0 i.skip
    else if c.isDigit then
      let (digits, _, i) := addDigits 0 0 i.rest i.place
      if startsWithDigit i then
        let j := i.skipDigits
        afterLongWhole positive digits (i.rest.length - j.rest.length) j
      else afterWhole positive digits i
    else i.failNext .invalidNumber

end CommentTags.Json
