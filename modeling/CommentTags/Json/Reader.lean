import CommentTags.Json.Number
import CommentTags.Text.Digits

/-!
# Reading JSON

A text is read from left to right, and the first thing that is wrong with it is the error. Arrays
and objects may be nested in each other only to a fixed depth.
-/

namespace CommentTags.Json

/-- The place `n` bytes further on; nothing if the text is shorter. -/
def placeAfterBytes? : Nat → List Char → Place → Option Place
  | 0, _, place => some place
  | _ + 1, [], _ => none
  | n + 1, c :: rest, place =>
    if c.utf8Size ≤ n + 1 then placeAfterBytes? (n + 1 - c.utf8Size) rest (place.after c)
    else some ⟨place.line, place.column + (n + 1)⟩
termination_by _ s => s.length

/-- The place at the end of a text. -/
def placeAtEnd (rest : List Char) (place : Place) : Place :=
  rest.foldl Place.after place

/-- Read the four hexadecimal digits of an escape. -/
def hexEscape (i : Input) : Except Error (Nat × Input) :=
  let digits? : Option Nat := match i.rest with
    | a :: b :: c :: d :: _ => Text.number? 16 [a, b, c, d]
    | _ => none
  match digits? with
  | some n => .ok (n, i.skip.skip.skip.skip)
  | none =>
    match placeAfterBytes? 4 i.rest i.place with
    | some place => .error ⟨.invalidEscape, place⟩
    | none => .error ⟨.endInString, placeAtEnd i.rest i.place⟩

/-- Read a given character of a string, where only it may stand. -/
def surrogateMark (c : Char) (i : Input) : Except Error Input :=
  match i.rest with
  | [] => i.fail .endInString
  | a :: _ => if a = c then .ok i.skip else i.failNext .endInHexEscape

/-- Read the digits of an escape and, if they stand for the first half of a pair, those of the
second half. -/
def unicodeEscape (i : Input) : Except Error (Char × Input) := do
  let (high, i) ← hexEscape i
  if 0xDC00 ≤ high && high ≤ 0xDFFF then i.fail .loneSurrogate
  else if high < 0xD800 || 0xDBFF < high then return (Char.ofNat high, i)
  else
    let i ← surrogateMark '\\' i
    let i ← surrogateMark 'u' i
    let (low, i) ← hexEscape i
    if low < 0xDC00 || 0xDFFF < low then i.fail .loneSurrogate
    else return (Char.ofNat ((high - 0xD800) * 0x400 + (low - 0xDC00) + 0x10000), i)

/-- Read an escape, which starts after its backslash. -/
def escapedChar (i : Input) : Except Error (Char × Input) :=
  match i.rest with
  | [] => i.fail .endInString
  | '"' :: _ => .ok ('"', i.skip)
  | '\\' :: _ => .ok ('\\', i.skip)
  | '/' :: _ => .ok ('/', i.skip)
  | 'b' :: _ => .ok ('\x08', i.skip)
  | 'f' :: _ => .ok ('\x0C', i.skip)
  | 'n' :: _ => .ok ('\n', i.skip)
  | 'r' :: _ => .ok ('\r', i.skip)
  | 't' :: _ => .ok ('\t', i.skip)
  | 'u' :: _ => unicodeEscape i.skip
  | _ => i.failNext .invalidEscape

/-- Read a string, which starts after its opening quote. -/
def stringBody (i : Input) : Except Error (List Char × Input) :=
  match _h : i.rest with
  | [] => i.fail .endInString
  | c :: rest =>
    if c = '"' then .ok ([], i.skip)
    else if c = '\\' then
      match escapedChar ⟨rest, i.place.after c⟩ with
      | .error e => .error e
      | .ok (a, j) =>
        if _h : j.rest.length < i.rest.length then (stringBody j).map fun (s, k) => (a :: s, k)
        else j.fail .endInString
    else if c.toNat < 0x20 then i.failNext .controlCharacter
    else (stringBody ⟨rest, i.place.after c⟩).map fun (s, k) => (c :: s, k)
termination_by i.rest.length
decreasing_by all_goals simp_all

/-- Read the letters of a word after its first one. -/
def word (letters : List Char) (value : Json) (i : Input) : Except Error (Json × Input) :=
  match letters with
  | [] => .ok (value, i)
  | a :: letters =>
    match i.rest with
    | [] => i.fail .endInValue
    | c :: _ => if c = a then word letters value i.skip else i.failNext .expectedIdent

/-- Read the items of an array up to the closing bracket. -/
def items (item : Input → Except Error (Json × Input)) (first : Bool) (i : Input) : Except Error (List Json × Input) := do
  let j := i.skipBlanks
  match j.rest with
  | [] => j.failNext .endInList
  | ']' :: _ => return ([], j.skip)
  | c :: _ =>
    let j ←
      if first then pure j
      else if c = ',' then
        let j := j.skip.skipBlanks
        match j.rest with
        | [] => j.failNext .endInValue
        | ']' :: _ => j.failNext .trailingComma
        | _ => pure j
      else j.failNext .expectedListEnd
    let (x, j) ← item j
    if _h : j.rest.length < i.rest.length then
      let (xs, k) ← items item false j
      return (x :: xs, k)
    else j.fail .endInValue
termination_by i.rest.length

/-- Read a field, which starts after the opening quote of its name. -/
def field (item : Input → Except Error (Json × Input)) (i : Input) : Except Error ((String × Json) × Input) := do
  let (name, i) ← stringBody i
  let i := i.skipBlanks
  match i.rest with
  | [] => i.failNext .endInObject
  | ':' :: _ =>
    let (value, i) ← item i.skip
    return ((String.ofList name, value), i)
  | _ => i.failNext .expectedColon

/-- Read the fields of an object up to the closing brace. -/
def fields (item : Input → Except Error (Json × Input)) (first : Bool) (i : Input) :
    Except Error (List (String × Json) × Input) := do
  let j := i.skipBlanks
  match j.rest with
  | [] => j.failNext .endInObject
  | '\x7d' :: _ => return ([], j.skip)
  | c :: _ =>
    let j ←
      if first then
        if c = '"' then pure j else j.failNext .keyNotString
      else if c = ',' then
        let j := j.skip.skipBlanks
        match j.rest with
        | [] => j.failNext .endInValue
        | '"' :: _ => pure j
        | '\x7d' :: _ => j.failNext .trailingComma
        | _ => j.failNext .keyNotString
      else j.failNext .expectedObjectEnd
    let (x, j) ← field item j.skip
    if _h : j.rest.length < i.rest.length then
      let (xs, k) ← fields item false j
      return (x :: xs, k)
    else j.fail .endInValue
termination_by i.rest.length

/-- Read a value. Arrays and objects may be nested fewer than `depth` times. -/
def value : Nat → Input → Except Error (Json × Input)
  | 0, i => i.failNext .tooDeep
  | depth + 1, i =>
    let i := i.skipBlanks
    match i.rest with
    | [] => i.failNext .endInValue
    | 'n' :: _ => word "ull".toList .null i.skip
    | 't' :: _ => word "rue".toList (.bool true) i.skip
    | 'f' :: _ => word "alse".toList (.bool false) i.skip
    | '"' :: _ => (stringBody i.skip).map fun (s, j) => (.string (String.ofList s), j)
    | '-' :: _ => (numberFrom false i.skip).map fun (n, j) => (.number n, j)
    | '[' :: _ =>
      if depth = 0 then i.failNext .tooDeep
      else (items (value depth) true i.skip).map fun (xs, j) => (.array xs, j)
    | '\x7b' :: _ =>
      if depth = 0 then i.failNext .tooDeep
      else (fields (value depth) true i.skip).map fun (xs, j) => (.object xs, j)
    | c :: _ =>
      if c.isDigit then (numberFrom true i).map fun (n, j) => (.number n, j)
      else i.failNext .expectedValue

/-- The number of levels to which values may be nested. -/
def maxDepth : Nat := 128

/-- Read a text that holds one value. -/
def parse (text : String) : Except Error Json := do
  let (v, i) ← value maxDepth ⟨text.toList, {}⟩
  let i := i.skipBlanks
  match i.rest with
  | [] => return v
  | _ :: _ => i.failNext .trailingCharacters

end CommentTags.Json
