import CommentTags.Text.Digits
import CommentTags.Yaml.Error
import CommentTags.Yaml.Node

/-!
# The types of scalars

A plain scalar without a tag is a null value, a truth value, a number or a text, and which of them it
is follows from its text. Any other scalar is a text unless its tag says more.
-/

namespace CommentTags.Yaml

/-- The words for the null value. -/
def nullWords : List (List Char) := ["null".toList, "Null".toList, "NULL".toList, "~".toList]

/-- The words for true. -/
def trueWords : List (List Char) := ["true".toList, "True".toList, "TRUE".toList]

/-- The words for false. -/
def falseWords : List (List Char) := ["false".toList, "False".toList, "FALSE".toList]

/-- The truth value that a text stands for. -/
def bool? (s : List Char) : Option Bool :=
  if trueWords.contains s then some true
  else if falseWords.contains s then some false
  else none

/-- Leave out a first character if it is the given one. -/
def dropSign (sign : Char) : List Char → List Char
  | [] => []
  | c :: s => if c = sign then s else c :: s

/-- Whether a text begins with a sign. -/
def startsWithSign (s : List Char) : Bool :=
  s.head?.any fun c => c = '+' || c = '-'

/-- A text of digits that begin with a needless zero; such a text is no number. -/
def hasNeedlessZero (s : List Char) : Bool :=
  let digits := if startsWithSign s then s.tail else s
  1 < digits.length && digits.head? = some '0' && digits.all Char.isDigit

/-- The number that one or more digits stand for. -/
def digits? (base : Nat) (s : List Char) : Option Nat :=
  if s.isEmpty then none else Text.number? base s

/-- The number that digits stand for after a mark for their base. -/
def markedNumber? : List Char → Option Nat
  | '0' :: 'x' :: s => digits? 16 s
  | '0' :: 'o' :: s => digits? 8 s
  | '0' :: 'b' :: s => digits? 2 s
  | _ => none

/-- A whole number of at most 128 bits. -/
inductive IntWidth
  /-- The number has at most 64 bits. -/
  | word
  | wide
  deriving Repr, DecidableEq

/-- The width of a number that is not negative. -/
def IntWidth.ofNonneg? (n : Nat) : Option IntWidth :=
  if n < Nat.pow 2 64 then some .word else if n < Nat.pow 2 128 then some .wide else none

/-- The width of the number below zero of the given size. -/
def IntWidth.ofNegative? (n : Nat) : Option IntWidth :=
  if n ≤ Nat.pow 2 63 then some .word else if n ≤ Nat.pow 2 127 then some .wide else none

/-- The width of the whole number that a text stands for. -/
def intWidth? (s : List Char) : Option IntWidth :=
  match s with
  | '-' :: digits =>
    ((markedNumber? digits).orElse fun _ =>
      if hasNeedlessZero s then none else digits? 10 digits).bind IntWidth.ofNegative?
  | _ =>
    let digits := dropSign '+' s
    ((markedNumber? digits).orElse fun _ =>
      if hasNeedlessZero s then none else digits? 10 digits).bind IntWidth.ofNonneg?

/-- A decimal number: its digits and the power of ten that they are multiplied by. -/
structure DecimalNumber where
  digits : List Char
  exponent : Int
  deriving Repr, DecidableEq

/-- The exponent that a text stands for, which follows the letter of an exponent. -/
def exponent? : List Char → Option Int
  | '-' :: s => (digits? 10 s).map fun n => -(n : Int)
  | '+' :: s => (digits? 10 s).map Int.ofNat
  | s => (digits? 10 s).map Int.ofNat

/-- The decimal number that a text without sign stands for: digits with at most one point and perhaps
an exponent. -/
def decimalNumber? (s : List Char) : Option DecimalNumber :=
  let whole := s.takeWhile Char.isDigit
  let afterWhole := s.dropWhile Char.isDigit
  let (fraction, rest) :=
    match afterWhole with
    | '.' :: t => (t.takeWhile Char.isDigit, t.dropWhile Char.isDigit)
    | t => ([], t)
  let exponent : Option Int :=
    match rest with
    | [] => some 0
    | c :: t => if c = 'e' || c = 'E' then exponent? t else none
  if (whole ++ fraction).isEmpty then none
  else exponent.map fun e => ⟨whole ++ fraction, e - fraction.length⟩

/-- The least number that is too great for a floating point number of 64 bits. -/
def floatLimit : Nat := Nat.pow 2 1024 - Nat.pow 2 970

/-- Whether a decimal number is not too great for a floating point number. -/
def DecimalNumber.isFinite (d : DecimalNumber) : Bool :=
  let digits := d.digits.dropWhile (· == '0')
  let places := digits.length + d.exponent
  if digits.isEmpty || places ≤ 308 then true
  else if 309 < places then false
  else
    let n := (Text.number? 10 digits).getD 0
    if 0 ≤ d.exponent then n * Nat.pow 10 d.exponent.toNat < floatLimit
    else n < floatLimit * Nat.pow 10 (-d.exponent).toNat

/-- The words for infinity, without a sign. -/
def infinityWords : List (List Char) := [".inf".toList, ".Inf".toList, ".INF".toList]

/-- The words for what is not a number. -/
def notNumberWords : List (List Char) := [".nan".toList, ".NaN".toList, ".NAN".toList]

/-- Whether a text stands for a floating point number. -/
def isFloat (s : List Char) : Bool :=
  let unsigned := dropSign '+' s
  if s.head? = some '+' && startsWithSign unsigned then false
  else
    infinityWords.contains unsigned || (infinityWords.map ('-' :: ·)).contains s ||
      notNumberWords.contains s || (decimalNumber? (dropSign '-' unsigned)).any (·.isFinite)

/-- What a plain scalar stands for. -/
inductive PlainKind
  | null
  | bool (b : Bool)
  | int (width : IntWidth)
  | float
  | text
  deriving Repr, DecidableEq

/-- What a plain scalar without a tag stands for. -/
def PlainKind.ofText (s : List Char) : PlainKind :=
  if s.isEmpty || nullWords.contains s then .null
  else
    match bool? s with
    | some b => .bool b
    | none =>
      match intWidth? s with
      | some width => .int width
      | none => if !hasNeedlessZero s && isFloat s then .float else .text

/-- What a scalar is found to be where any value may stand. -/
inductive Content
  | null
  | bool (b : Bool)
  | text (s : List Char)
  /-- A number or a collection. -/
  | other
  deriving Repr, DecidableEq

/-- The content of a number; a wide one is not understood. -/
def Content.ofInt : IntWidth → Except Error Content
  | .word => .ok .other
  | .wide => .error .wrongKind

/-- What a plain scalar stands for. -/
def Content.ofPlain (s : List Char) : Except Error Content :=
  match PlainKind.ofText s with
  | .null => .ok .null
  | .bool b => .ok (.bool b)
  | .int width => Content.ofInt width
  | .float => .ok .other
  | .text => .ok (.text s)

/-- The content of a scalar. Its text has to fit its tag, and a type of the text's own is not
understood. -/
def Content.ofScalar (tag : Option TagKind) (s : Scalar) : Except Error Content :=
  match tag with
  | none => if s.style = .plain then Content.ofPlain s.text else .ok (.text s.text)
  | some .bool => match bool? s.text with
    | some b => .ok (.bool b)
    | none => .error .wrongKind
  | some .int => match intWidth? s.text with
    | some width => Content.ofInt width
    | none => .error .wrongKind
  | some .float => if isFloat s.text then .ok .other else .error .wrongKind
  | some .null => if nullWords.contains s.text then .ok .null else .error .wrongKind
  | some .custom => .error .wrongKind
  | some .other => .ok (.text s.text)

end CommentTags.Yaml
